import Os161.Lib.Run
import Os161.Vm.Spec

/-!
# Threads, address spaces and the one TLB

Page faults cut as in `Vm.Spec`, with other threads in between, and every call of `as_activate`. The
number of an address space is never used again, so a stale pointer is visible. The part under
`tlb_lock` is one step.
-/

open Function

namespace Os161.Vm

open Lib

/-- A `vm_fault` call in progress; `load` is set while it is in `load_each_segment`. -/
structure Stage where
  fault : Fault
  load : Option Load
  deriving DecidableEq

structure Sys (T : Type) where
  tlb : Tlb
  globals : Globals
  spaces : Nat → Addrspace
  nextAs : Nat
  vmspace : T → Option Nat
  /-- The calls a thread is in, the innermost first. -/
  faults : T → List Stage
  curthread : T
  /-- The argument of the last call of `as_activate`. Nothing in the kernel reads it. -/
  activated : Option Nat

inductive Event (T : Type)
  /-- The thread traps; `frame` is what `getppages` answers. -/
  | fault (ty : FaultType) (va frame : Nat)
  /-- A store of `load_each_segment` to the page it loads traps in turn. -/
  | touch (ty : FaultType) (off frame : Nat)
  | loaded (ok : Bool)
  | fill
  /-- `mi_switch` to `t`, or its first run through `mi_threadstart`. -/
  | switch (t : T)
  | asDestroy
  | asCreate (junk : Addrspace)
  | loadElf (v : Nat) (phs : List Phdr) (junk : Nat → Nat)
  | forkentry (parent : T) (junk : Addrspace) (junkPaddr : Segment → Nat → Nat)

section

variable {T : Type} [DecidableEq T]

def asActivate (s : Sys T) (a : Nat) : Sys T := { s with
    tlb := if some a ≠ s.vmspace s.curthread then s.tlb.invalid else s.tlb
    activated := some a }

/-- A call that fails returns at once to the calls already in progress. -/
def enterFault (s : Sys T) (a : Nat) (ty : FaultType) (va frame : Nat) : Option (Sys T) :=
  (faultPage (s.spaces a) s.globals ty va frame).map fun (as, g, out) =>
    let s := { s with spaces := update s.spaces a as, globals := g }
    let push st := { s with
      faults := update s.faults s.curthread (st :: s.faults s.curthread) }
    match out with
    | .fail _ => s
    | .kill => { s with
        vmspace := update s.vmspace s.curthread none
        faults := update s.faults s.curthread [] }
    | .load f l => push ⟨f, some l⟩
    | .fill f => push ⟨f, none⟩

def attach (s : Sys T) (as : Addrspace) : Sys T := asActivate
    { s with
      spaces := update s.spaces s.nextAs as
      nextAs := s.nextAs + 1
      vmspace := update s.vmspace s.curthread (some s.nextAs) } s.nextAs

def loadProgram (as : Addrspace) (v : Nat) (phs : List Phdr) (junk : Nat → Nat) : Addrspace :=
  match loadElf as v phs junk with
  | (as, none) => asDefineStack as junk
  | (as, some _) => as

abbrev Addrspace.Bare (as : Addrspace) : Prop := as.r1.useg = [] ∧ as.r2.useg = [] ∧ as.usegs = []

def step (s : Sys T) : Event T → Option (Sys T)
  | .fault ty va frame =>
    if s.faults s.curthread = [] then
      (s.vmspace s.curthread).bind fun a => enterFault s a ty va frame
    else none
  | .touch ty off frame =>
    match s.faults s.curthread, s.vmspace s.curthread with
    | ⟨f, some l⟩ :: _, some a =>
      if l.firstRead = false ∧ off < PAGE_SIZE then enterFault s a ty (f.fa + off) frame else none
    | _, _ => none
  | .loaded ok =>
    match s.faults s.curthread with
    | ⟨f, some _⟩ :: rest =>
      if ok then
        some { s with
          globals := afterLoad s.globals f
          faults := update s.faults s.curthread (⟨f, none⟩ :: rest) }
      else some { s with faults := update s.faults s.curthread rest }
    | _ => none
  | .fill =>
    match s.faults s.curthread, s.vmspace s.curthread with
    | ⟨f, none⟩ :: rest, some a =>
      let r := tlbFill (s.spaces a) s.globals s.tlb f
      some { s with
        globals := r.1, tlb := r.2, faults := update s.faults s.curthread rest }
    | _, _ => none
  | .switch t =>
    match s.vmspace t with
    | some a => some (asActivate { s with curthread := t } a)
    | none => some { s with curthread := t }
  | .asDestroy =>
    if s.faults s.curthread = [] then
      some { s with vmspace := update s.vmspace s.curthread none }
    else none
  | .asCreate junk => if s.vmspace s.curthread = none then some (attach s (asCreate junk)) else none
  | .loadElf v phs junk =>
    (s.vmspace s.curthread).bind fun a =>
      if s.faults s.curthread = [] ∧ (s.spaces a).Bare then
        some { s with spaces := update s.spaces a (loadProgram (s.spaces a) v phs junk) }
      else none
  | .forkentry parent junk junkPaddr =>
    if s.vmspace s.curthread = none then
      (s.vmspace parent).map fun p => attach s (asCopy (s.spaces p) junk junkPaddr)
    else none

def init (t : T) (g : Globals) (tlb : Tlb) (junk : Addrspace) : Sys T where
  tlb := tlb.invalid
  globals := g
  spaces := fun _ => junk
  nextAs := 0
  vmspace := fun _ => none
  faults := fun _ => []
  curthread := t
  activated := none

def Maps (as : Addrspace) (e : TlbEntry) : Prop :=
  ∃ pg ∈ as.pageAt e.ehi, pg.valid = true ∧ frameOf e.elo = frameOf pg.paddr

instance (as : Addrspace) (e : TlbEntry) : Decidable (Maps as e) :=
  inferInstanceAs (Decidable (∃ pg ∈ as.pageAt e.ehi, _))

def Isolated (s : Sys T) : Prop := ∀ a ∈ s.vmspace s.curthread, s.faults s.curthread = [] →
    ∀ i, (s.tlb.entry i).Valid → Maps (s.spaces a) (s.tlb.entry i)

instance (s : Sys T) : Decidable (Isolated s) :=
  inferInstanceAs (Decidable (∀ a ∈ s.vmspace s.curthread, _))

def Tlb.Empty (t : Tlb) : Prop := ∀ i, ¬ (t.entry i).Valid

instance (t : Tlb) : Decidable t.Empty := inferInstanceAs (Decidable (∀ _, _))

def Undisturbed (s : Sys T) : Event T → Prop
  | .switch t => ∀ a ∈ s.vmspace t, s.activated = some a ∨ s.tlb.Empty
  | .asCreate _ => s.tlb.Empty
  | .forkentry .. => s.tlb.Empty
  | _ => True

instance (s : Sys T) : ∀ e, Decidable (Undisturbed s e)
  | .switch t => inferInstanceAs (Decidable (∀ a ∈ s.vmspace t, _))
  | .asCreate _ => inferInstanceAs (Decidable s.tlb.Empty)
  | .forkentry .. => inferInstanceAs (Decidable s.tlb.Empty)
  | .fault .. | .touch .. | .loaded _ | .fill | .asDestroy | .loadElf .. =>
    inferInstanceAs (Decidable True)

end

end Os161.Vm
