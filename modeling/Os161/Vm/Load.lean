import Os161.Lib.Run
import Os161.Vm.Fault

/-!
# Demand loading

A whole `vm_fault` call with the memory behind it. `load_each_segment` stores at the user address of
the page, so its stores fault in turn.
-/

open Function Option

namespace Os161.Vm

open Lib

structure Proc where
  as : Addrspace
  globals : Globals
  tlb : Tlb
  mem : Nat → Nat → UInt8

def Tlb.translate (t : Tlb) (va : Nat) : Option TlbEntry := ((List.finRange NUM_TLB).find? fun i =>
    decide ((t.entry i).Valid ∧ (t.entry i).ehi / PAGE_SIZE = va / PAGE_SIZE)).map t.entry

variable {va : Nat} {as : Addrspace}

theorem exists_of_translate {t : Tlb} {e : TlbEntry} (h : t.translate va = some e) :
    ∃ j, t.entry j = e ∧ e.Valid ∧ e.ehi / PAGE_SIZE = va / PAGE_SIZE := by
  obtain ⟨j, hj, rfl⟩ := map_eq_some_iff.mp h
  have hfound := List.find?_some hj
  exact ⟨j, rfl, of_decide_eq_true hfound⟩

/-- In a frame, with the process killed over a read-only entry, or with the fault refused. -/
inductive Access
  | frame (n : Nat)
  | killed
  | refused

def TlbEntry.access (e : TlbEntry) : Access :=
  if e.elo &&& TLBLO_DIRTY ≠ 0 then .frame (frameOf e.elo) else .killed

/-- With the nested `vm_fault` where no entry is there. -/
def kernelStore (p : Proc) (va : Nat) : Proc × Access := match p.tlb.translate va with
  | some e => (p, e.access)
  | none =>
    match faultPage p.as p.globals .write va 0 with
    | some (as, g, .fill f) =>
      let r := tlbFill as g p.tlb f
      let p := { p with as := as, globals := r.1, tlb := r.2 }
      (p, ((p.tlb.translate va).map TlbEntry.access).getD .refused)
    | _ => (p, .refused)

inductive Ret
  | ok
  | err (e : Errno)
  | killed
  deriving DecidableEq

def fromFile (mem : Nat → Nat → UInt8) (frame : Nat) (file : List UInt8) (offset n : Nat) :
    Nat → Nat → UInt8 :=
  update mem frame fun x => if x < n then file.getD (offset + x) 0 else mem frame x

def zeroFill (mem : Nat → Nat → UInt8) (frame n : Nat) : Nat → Nat → UInt8 :=
  update mem frame fun x => if x < n then mem frame x else 0

/-- `VOP_READ` transfers what the file has, or fails after `io` bytes. -/
def loadEachSegment (p : Proc) (file : List UInt8) (fa : Nat) (l : Load) (io : Option Nat) :
    Proc × Ret :=
  if l.firstRead then (p, .ok)
  else
    let got := min l.filesize (file.length - l.offset)
    let n := (io.map (min got)).getD got
    if n = 0 then (p, .err (if io.isSome then Kern.Errno.EIO else .ENOEXEC))
    else
      match kernelStore p fa with
      | (p, .killed) => (p, .killed)
      | (p, .refused) => (p, .err .EFAULT)
      | (p, .frame k) =>
        let p := { p with mem := fromFile p.mem k file l.offset n }
        if io.isSome then (p, .err Kern.Errno.EIO)
        else if got ≠ l.filesize then (p, .err .ENOEXEC)
        else ({ p with mem := zeroFill p.mem k l.filesize }, .ok)

def transferred (file : List UInt8) (l : Load) (io : Option Nat) : Nat := if l.firstRead then 0
  else
    let got := min l.filesize (file.length - l.offset)
    (io.map (min got)).getD got

/-- The part of `vm_fault` under `tlb_lock`, which returns 0. -/
def Proc.fill (p : Proc) (f : Fault) : Proc := let r := tlbFill p.as p.globals p.tlb f
  { p with globals := r.1, tlb := r.2 }

section store

variable {p p' : Proc} {file : List UInt8} {fa : Nat} {l : Load} {io : Option Nat} {ret : Ret}

theorem kernelStore_cases {pg : Page} (hpg : p.as.pageAt fa = some pg) (hv : pg.valid = true)
    (hal : fa % PAGE_SIZE = 0) :
    (∃ e ∈ p.tlb.translate fa, kernelStore p fa = (p, e.access)) ∨
      p.tlb.translate fa = none ∧ ∃ q seg i, q = Proc.fill { p with globals := p.globals.sawFault fa }
          ⟨.write, fa, seg, i, pg.paddr, true⟩ ∧
        kernelStore p fa = (q, ((q.tlb.translate fa).map TlbEntry.access).getD .refused) := by
  unfold kernelStore
  cases p.tlb.translate fa with
  | some e => exact .inl ⟨e, rfl, rfl⟩
  | none =>
    obtain ⟨seg, i, hfault⟩ := faultPage_valid (g := p.globals) hpg hv hal
    refine .inr ⟨rfl, _, seg, i, rfl, ?_⟩
    rw [hfault]
    rfl

theorem loadEachSegment_cases (h : loadEachSegment p file fa l io = (p', ret)) :
    l.firstRead = true ∧ p' = p ∧ ret = .ok ∨
      l.firstRead = false ∧ (p' = p ∧ (∃ e, ret = .err e) ∨
        transferred file l io ≠ 0 ∧ ∃ q acc mem, kernelStore p fa = (q, acc) ∧
          p' = { q with mem := mem } ∧ (ret = .ok → ∃ k, acc = .frame k ∧
            mem = zeroFill (fromFile q.mem k file l.offset l.filesize) k l.filesize)) := by
  unfold loadEachSegment at h
  unfold transferred
  cases hl : l.firstRead with
  | true =>
    rw [if_pos hl] at h
    cases h
    exact .inl ⟨rfl, rfl, rfl⟩
  | false =>
    rw [if_neg (by simp [hl])] at h
    refine .inr ⟨rfl, ?_⟩
    rw [if_neg (by simp)]
    dsimp only at h ⊢
    split at h
    · cases h
      exact .inl ⟨rfl, _, rfl⟩
    · rename_i hne
      refine .inr ⟨hne, ?_⟩
      cases hk : kernelStore p fa with
      | mk q acc =>
        rw [hk] at h
        cases acc with
        | killed | refused =>
          cases h
          exact ⟨_, _, p'.mem, rfl, rfl, nofun⟩
        | frame k =>
          dsimp only at h
          split_ifs at h with hio hshort
          · cases h
            exact ⟨q, _, _, rfl, rfl, nofun⟩
          · cases h
            exact ⟨q, _, _, rfl, rfl, nofun⟩
          · cases h
            refine ⟨q, _, _, rfl, rfl, fun _ => ⟨k, rfl, ?_⟩⟩
            obtain rfl : io = none := by simpa using hio
            rw [not_not] at hshort
            simp [hshort]

end store

def vmFault (p : Proc) (file : List UInt8) (ty : FaultType) (va frame : Nat) (io : Option Nat) :
    Option (Proc × Ret) :=
  (faultPage p.as p.globals ty va frame).map fun (as, g, out) =>
    let p := { p with as := as, globals := g }
    match out with
    | .fail e => (p, .err e)
    | .kill => (p, .killed)
    | .fill f => (p.fill f, .ok)
    | .load f l =>
      match loadEachSegment p file f.fa l io with
      | (p, .ok) => (Proc.fill { p with globals := afterLoad p.globals f } f, .ok)
      | r => r

structure Image where
  proc : Proc
  /-- The pages for which `vm_fault` has returned 0. -/
  loaded : Nat → Bool
  /-- The page for which it has just done so for the first time. -/
  fresh : Option Nat
  alive : Bool

inductive Touch
  | fault (ty : FaultType) (va frame : Nat) (io : Option Nat)
  /-- Any memory and any flag may change. -/
  | elsewhere (g : Globals) (mem : Nat → Nat → UInt8)

def Image.step (file : List UInt8) (s : Image) : Touch → Option Image
  | .fault ty va frame io =>
    if s.alive then
      (vmFault s.proc file ty va frame io).map fun (p, r) =>
        match r with
        | .ok =>
          { s with
            proc := p, loaded := update s.loaded (pageOf va) true
            fresh := if s.loaded (pageOf va) then none else some (pageOf va) }
        | .err _ => { s with proc := p, fresh := none }
        | .killed => { s with proc := p, fresh := none, alive := false }
    else none
  | .elsewhere g mem =>
    some { s with proc := { s.proc with globals := g, mem := mem }, fresh := none }

def Image.start (as : Addrspace) (junk : Nat → Nat) (g : Globals) (tlb : Tlb)
    (mem : Nat → Nat → UInt8) : Image where
  proc := ⟨asDefineStack as junk, g, tlb.invalid, mem⟩
  loaded := fun _ => false
  fresh := none
  alive := true

def Phdr.byte (ph : Phdr) (file : List UInt8) (va : Nat) : UInt8 :=
  if ph.p_vaddr ≤ va ∧ va < ph.p_vaddr + ph.p_filesz then
    file.getD (ph.p_offset + (va - ph.p_vaddr)) 0
  else 0

def Phdr.HasPage (ph : Phdr) (fa : Nat) : Prop :=
  pageOf ph.p_vaddr ≤ fa ∧ fa < ph.p_vaddr + ph.p_memsz

def Proc.byteAt (p : Proc) (fa x : Nat) : Option UInt8 :=
  (p.as.pageAt fa).map fun pg => p.mem (frameOf pg.paddr) x

def StackPage (fa : Nat) : Prop := USERSTACK - STACKPAGES * PAGE_SIZE ≤ fa ∧ fa < USERSTACK

def ImageOk (file : List UInt8) (phs : List Phdr) (s : Image) : Prop := ∀ fa ∈ s.fresh,
    (∀ ph ∈ loadHeaders phs, ph.HasPage fa →
      ∀ x < PAGE_SIZE, s.proc.byteAt fa x = some (ph.byte file (fa + x))) ∧
    (StackPage fa → ∀ x < PAGE_SIZE, s.proc.byteAt fa x = some 0)

/-- Headers 1 and 2 are PT_LOAD with data in reach of an `off_t`; segments start on a page, do not
overlap and end below the stack. -/
structure Laid (phs : List Phdr) (text data : Phdr) : Prop where
  headers : ∃ ph rest, phs = ph :: text :: data :: rest ∧ ph.p_type ≠ .load ∧
    ∀ ph ∈ rest, ph.p_type ≠ .load
  load : text.p_type = .load ∧ data.p_type = .load
  offsets : text.p_offset + text.p_filesz < 2 ^ 31 ∧ data.p_offset + data.p_filesz < 2 ^ 31
  aligned : text.p_vaddr % PAGE_SIZE = 0 ∧ data.p_vaddr % PAGE_SIZE = 0
  nonzero : text.p_vaddr ≠ 0 ∧ data.p_vaddr ≠ 0
  below : text.p_vaddr + text.p_memsz ≤ USERSTACK - STACKPAGES * PAGE_SIZE ∧
    data.p_vaddr + data.p_memsz ≤ USERSTACK - STACKPAGES * PAGE_SIZE
  apart : ∀ fa, fa % PAGE_SIZE = 0 → text.HasPage fa → ¬ data.HasPage fa

/-- It lies inside the file part, or it is the first page and holds all of it. -/
def FilePage (filesz i : Nat) : Prop := (i + 1) * PAGE_SIZE ≤ filesz ∨ i = 0 ∧ filesz ≤ PAGE_SIZE

instance (filesz i : Nat) : Decidable (FilePage filesz i) := inferInstanceAs (Decidable (_ ∨ _))

/-- No earlier fault on the page has failed; with file data it is read first, or is the first data
page written since boot; without, it gets a frame of zeros. -/
def Expected (s : Image) : Touch → Prop
  | .elsewhere .. => True
  | .fault ty va frame _ =>
    s.loaded (pageOf va) = true ∨ ∀ q ∈ s.proc.as.locate (pageOf va),
        (∀ pg ∈ s.proc.as.pageAt (pageOf va), pg.valid = false) ∧
        if s.proc.as.filesz q.1 = 0 then ∀ x < PAGE_SIZE, s.proc.mem (frameOf frame) x = 0
        else (ty = .read ∨ q.1 = .data ∧ s.proc.globals.secondWrite = false) ∧
          FilePage (s.proc.as.filesz q.1) q.2

instance (s : Image) : ∀ e, Decidable (Expected s e)
  | .elsewhere .. => inferInstanceAs (Decidable True)
  | .fault .. => inferInstanceAs (Decidable (_ ∨ ∀ q ∈ s.proc.as.locate _, _))

end Os161.Vm
