import Mathlib.Algebra.Group.Nat.Defs
import Mathlib.Data.List.FinRange
import Os161.Kern.Errno

/-!
# Address spaces and `vm_fault`

`kern/vm/addrspace.c`, `loadelf.c` and `vm_fault`. Memory that is not set has a value that the
caller names. `vm_fault` is cut: `faultPage` goes up to the call of `load_each_segment`, and
`tlbFill` is the part under `tlb_lock`.
-/

namespace Os161.Vm

export Kern (Errno)

abbrev PAGE_SIZE : Nat := 4096
abbrev USERSTACK : Nat := 0x80000000
abbrev STACKPAGES : Nat := 12
abbrev TLBLO_PPAGE : Nat := 0xfffff000
abbrev TLBLO_DIRTY : Nat := 0x400
abbrev TLBLO_VALID : Nat := 0x200
abbrev NUM_TLB : Nat := 64

structure Page where
  vaddr : Nat
  paddr : Nat
  valid : Bool
  permission : Nat
  deriving DecidableEq

/-- The fields that come in two copies, such as `as_vbase1` and `as_vbase2`. -/
structure Region where
  vbase : Nat
  npages : Nat
  filesz : Nat
  off : Nat
  flag : Nat
  useg : List Page
  deriving DecidableEq

structure Addrspace where
  r1 : Region
  r2 : Region
  usegs : List Page
  v : Nat
  deriving DecidableEq

def Region.vtop (r : Region) : Nat := (r.vbase + r.npages * PAGE_SIZE) % 2 ^ 32

abbrev Region.Has (r : Region) (va : Nat) : Prop := r.vbase ≤ va ∧ va < r.vtop

inductive Segment
  | code | data | stack
  deriving DecidableEq

namespace Addrspace

def pages (as : Addrspace) : Segment → List Page
  | .code => as.r1.useg
  | .data => as.r2.useg
  | .stack => as.usegs

def setPage (as : Addrspace) (seg : Segment) (i : Nat) (pg : Page) : Addrspace :=
  match seg with
  | .code => { as with r1 := { as.r1 with useg := as.r1.useg.set i pg } }
  | .data => { as with r2 := { as.r2 with useg := as.r2.useg.set i pg } }
  | .stack => { as with usegs := as.usegs.set i pg }

def filesz (as : Addrspace) : Segment → Nat
  | .code => as.r1.filesz
  | .data => as.r2.filesz
  | .stack => 0

def off (as : Addrspace) : Segment → Nat
  | .code => as.r1.off
  | .data => as.r2.off
  | .stack => 0

def locate (as : Addrspace) (fa : Nat) : Option (Segment × Nat) :=
  if as.r1.Has fa then some (.code, (fa - as.r1.vbase) / PAGE_SIZE)
  else if as.r2.Has fa then some (.data, (fa - as.r2.vbase) / PAGE_SIZE)
  else if USERSTACK - STACKPAGES * PAGE_SIZE ≤ fa ∧ fa < USERSTACK then
    some (.stack, (fa - (USERSTACK - STACKPAGES * PAGE_SIZE)) / PAGE_SIZE)
  else none

def pageAt (as : Addrspace) (fa : Nat) : Option Page :=
  (as.locate fa).bind fun (seg, i) => (as.pages seg)[i]?

end Addrspace

def asCreate (junk : Addrspace) : Addrspace where
  r1 := { junk.r1 with vbase := 0, npages := 0, useg := [] }
  r2 := { junk.r2 with vbase := 0, npages := 0, useg := [] }
  usegs := []
  v := junk.v

/-- The part of `as_define_region` that fills one of the two slots. -/
def Region.define (r : Region) (vaddr npages f_sz flag : Nat) (junk : Nat → Nat) : Region :=
  { r with
    vbase := vaddr, npages := npages, filesz := f_sz, flag := flag
    useg := r.useg ++ (List.range npages).map fun i =>
      { vaddr := vaddr + i * PAGE_SIZE, paddr := junk i, valid := false, permission := flag } }

def asDefineRegion (as : Addrspace) (vaddr sz f_sz flag : Nat) (junk : Nat → Nat) :
    Addrspace × Option Errno :=
  let base := vaddr / PAGE_SIZE * PAGE_SIZE
  let npages := ((sz + vaddr % PAGE_SIZE) % 2 ^ 32 + (PAGE_SIZE - 1)) % 2 ^ 32 / PAGE_SIZE
  if as.r1.vbase = 0 then ({ as with r1 := as.r1.define base npages f_sz flag junk }, none)
  else if as.r2.vbase = 0 then ({ as with r2 := as.r2.define base npages f_sz flag junk }, none)
  else (as, some .EUNIMP)

def asDefineStack (as : Addrspace) (junk : Nat → Nat) : Addrspace :=
  { as with usegs := as.usegs ++ (List.range STACKPAGES).map fun i =>
      { vaddr := USERSTACK - i * PAGE_SIZE, paddr := junk i, valid := false, permission := 7 } }

/-- The pages are marked valid, and their `paddr` is never set. -/
def asCopy (old junk : Addrspace) (junkPaddr : Segment → Nat → Nat) : Addrspace :=
  let new := asCreate junk
  { new with
    r1 := { new.r1 with
      vbase := old.r1.vbase, npages := old.r1.npages
      useg := (List.range old.r1.npages).map fun i =>
        { vaddr := old.r1.vbase + i * PAGE_SIZE, paddr := junkPaddr .code i, valid := true
          permission := 5 } }
    r2 := { new.r2 with
      vbase := old.r2.vbase, npages := old.r2.npages
      useg := (List.range old.r2.npages).map fun i =>
        { vaddr := old.r2.vbase + i * PAGE_SIZE, paddr := junkPaddr .data i, valid := true
          permission := 6 } }
    usegs := (List.range STACKPAGES).map fun i =>
      { vaddr := USERSTACK - i * PAGE_SIZE, paddr := junkPaddr .stack i, valid := true
        permission := 7 } }

inductive PType
  | null | phdr | reginfo | load | other
  deriving DecidableEq

structure Phdr where
  p_type : PType
  p_offset : Nat
  p_vaddr : Nat
  p_filesz : Nat
  p_memsz : Nat
  p_flags : Nat
  deriving DecidableEq

def defineRegions (junk : Nat → Nat) : List Phdr → Addrspace → Addrspace × Option Errno
  | [], as => (as, none)
  | ph :: phs, as =>
    match ph.p_type with
    | .load =>
      match asDefineRegion as ph.p_vaddr ph.p_memsz ph.p_filesz (ph.p_flags &&& 7) junk with
      | (as, some e) => (as, some e)
      | (as, none) => defineRegions junk phs as
    | .other => (as, some .ENOEXEC)
    | _ => defineRegions junk phs as

/-- The second pass, from header `i` on: only headers 1 and 2 are looked at. -/
def setOffsets : Nat → List Phdr → Addrspace → Addrspace × Option Errno
  | _, [], as => (as, none)
  | i, ph :: phs, as =>
    match ph.p_type with
    | .load =>
      setOffsets (i + 1) phs
        (if i = 1 then { as with r1 := { as.r1 with off := ph.p_offset, filesz := ph.p_filesz } }
         else if i = 2 then
          { as with r2 := { as.r2 with off := ph.p_offset, filesz := ph.p_filesz } }
         else as)
    | .other => (as, some .ENOEXEC)
    | _ => setOffsets (i + 1) phs as

def loadHeaders (phs : List Phdr) : List Phdr := phs.filter fun ph => ph.p_type = .load

/-- `load_elf` for an executable `v` whose program headers have been read. -/
def loadElf (as : Addrspace) (v : Nat) (phs : List Phdr) (junk : Nat → Nat) :
    Addrspace × Option Errno :=
  match defineRegions junk phs as with
  | (as, some e) => (as, some e)
  | (as, none) => setOffsets 0 phs { as with v := v }

structure TlbEntry where
  ehi : Nat
  elo : Nat
  deriving DecidableEq

abbrev TlbEntry.Valid (e : TlbEntry) : Prop := e.elo &&& TLBLO_VALID ≠ 0

def frameOf (w : Nat) : Nat := w &&& TLBLO_PPAGE

structure Tlb where
  entry : Fin NUM_TLB → TlbEntry
  nextVictim : Fin NUM_TLB

namespace Tlb

def write (t : Tlb) (i : Fin NUM_TLB) (ehi elo : Nat) : Tlb :=
  { t with entry := Function.update t.entry i ⟨ehi, elo⟩ }

def zero : Tlb := ⟨fun _ => ⟨0, 0⟩, 0⟩

/-- Every entry is written with `TLBHI_INVALID` and `TLBLO_INVALID`. -/
def invalid (t : Tlb) : Tlb := { t with entry := fun i => ⟨(0x80000 + i.val) <<< 12, 0⟩ }

/-- `TLB_Probe`: an entry for the page, valid or not. -/
def probe (t : Tlb) (fa : Nat) : Option (Fin NUM_TLB) :=
  (List.finRange NUM_TLB).find? fun i => (t.entry i).ehi / PAGE_SIZE = fa / PAGE_SIZE

def freeSlot (t : Tlb) : Option (Fin NUM_TLB) :=
  (List.finRange NUM_TLB).find? fun i => ¬ (t.entry i).Valid

/-- Takes the write permission from the valid entries of a region. -/
def clearDirty (t : Tlb) (r : Region) : Tlb :=
  { t with entry := fun i =>
      let e := t.entry i
      if e.Valid ∧ r.Has e.ehi then ⟨e.ehi, e.elo &&& (2 ^ 32 - 1 - TLBLO_DIRTY)⟩ else e }

end Tlb

structure Globals where
  firstV : Nat
  firstRead : Bool
  secondWrite : Bool
  firstCodeRead : Bool
  codeWriteNread : Bool
  deriving DecidableEq

inductive FaultType
  | readonly | read | write | other
  deriving DecidableEq

structure Fault where
  ty : FaultType
  fa : Nat
  seg : Segment
  idx : Nat
  paddr : Nat
  wrTo : Bool
  deriving DecidableEq

/-- It does nothing when `firstRead` is set. -/
structure Load where
  offset : Nat
  filesize : Nat
  firstRead : Bool
  deriving DecidableEq

inductive Outcome
  | fail (e : Errno)
  | kill
  | load (f : Fault) (l : Load)
  | fill (f : Fault)
  deriving DecidableEq

def Globals.codeRead (g : Globals) (seg : Segment) : Globals :=
  if seg = .code then { g with firstCodeRead := true } else g

def Globals.sawFault (g : Globals) (va : Nat) : Globals :=
  if g.firstV ≠ va then { g with firstV := va, firstRead := false } else { g with firstRead := true }

section fault

variable (as : Addrspace) (g : Globals) (fa : Nat) (seg : Segment) (i : Nat) (pg : Page)
  (frame : Nat)

def loadOf (firstRead : Bool) : Load where
  offset := as.off seg + i * PAGE_SIZE
  filesize := min (as.filesz seg) PAGE_SIZE
  firstRead := firstRead

/-- The case VM_FAULT_READ. `frame` is what `getppages(1)` answers if it is called. -/
def readFault : Addrspace × Globals × Outcome :=
  if pg.valid then
    (as, g.codeRead seg, .fill ⟨.read, fa, seg, i, pg.paddr, true⟩)
  else
    let pg := { pg with valid := true, vaddr := fa }
    if frame = 0 then (as.setPage seg i pg, g, .fail .ENOMEM)
    else
      let as' := as.setPage seg i { pg with paddr := frame }
      let f : Fault := ⟨.read, fa, seg, i, frame, false⟩
      if as.filesz seg ≠ 0 then
        (as', { g with codeWriteNread := true }, .load f (loadOf as seg i false))
      else (as', g.codeRead seg, .fill f)

def writeFault : Addrspace × Globals × Outcome :=
  if pg.valid then (as, g, .fill ⟨.write, fa, seg, i, pg.paddr, true⟩)
  else
    let pg := { pg with valid := true, vaddr := fa }
    if as.filesz seg ≠ 0 then
      -- only the first write to a data page since boot loads the page
      let first := !g.secondWrite && seg = .data
      let g := if first then { g with firstRead := false, secondWrite := true }
        else { g with firstRead := true }
      if frame = 0 then (as.setPage seg i pg, g, .fail .ENOMEM)
      else (as.setPage seg i { pg with paddr := frame }, g,
        .load ⟨.write, fa, seg, i, frame, !first⟩ (loadOf as seg i (!first)))
    else if frame = 0 then (as.setPage seg i pg, g, .fail .ENOMEM)
    else (as.setPage seg i { pg with paddr := frame }, g, .fill ⟨.write, fa, seg, i, frame, true⟩)

end fault

/-- Up to the call of `load_each_segment`, or up to the TLB where there is nothing to load. -/
def faultPage (as : Addrspace) (g : Globals) (ty : FaultType) (faultaddress frame : Nat) :
    Option (Addrspace × Globals × Outcome) :=
  let g := g.sawFault faultaddress
  let fa := faultaddress / PAGE_SIZE * PAGE_SIZE
  match as.locate fa with
  | none => some (as, g, .fail .EFAULT)
  | some (seg, i) =>
    ((as.pages seg)[i]?).map fun pg =>
      match ty with
      | .readonly => (as, g, .kill)
      | .read => readFault as g fa seg i pg frame
      | .write => writeFault as g fa seg i pg frame
      | .other => (as, g, .fail .EINVAL)

def afterLoad (g : Globals) (f : Fault) : Globals := if f.ty = .read then g.codeRead f.seg else g

/-- The flags are reset where they led to a read-only entry. -/
def fillWord (as : Addrspace) (g : Globals) (f : Fault) : Globals × Nat :=
  if (g.firstCodeRead || !g.codeWriteNread) ∧ as.r1.Has f.fa then
    ({ g with firstCodeRead := false, codeWriteNread := false }, f.paddr ||| TLBLO_VALID)
  else (g, f.paddr ||| TLBLO_DIRTY ||| TLBLO_VALID)

/-- Into the first slot that is not valid, or into the round-robin victim. -/
def install (t : Tlb) (fa elo : Nat) : Tlb :=
  match t.freeSlot with
  | some i => t.write i fa elo
  | none => { t.write t.nextVictim fa elo with nextVictim := t.nextVictim + 1 }

/-- The fault reads code first, so code entries must not stay writable. -/
def codeFirst (as : Addrspace) (g : Globals) (f : Fault) : Bool :=
  g.firstCodeRead && decide (as.r1.Has f.fa)

/-- Under `tlb_lock`. The victim is always a slot of the TLB, so it returns 0. -/
def tlbFill (as : Addrspace) (g : Globals) (t : Tlb) (f : Fault) : Globals × Tlb :=
  if f.wrTo ∨ f.seg = .stack ∨ g.firstCodeRead then
    let t := if codeFirst as g f then t.clearDirty as.r1 else t
    if codeFirst as g f && (t.probe f.fa).isSome then
      ({ g with firstCodeRead := false, codeWriteNread := false }, t)
    else ((fillWord as g f).1, install t f.fa (fillWord as g f).2)
  else (g, t)

end Os161.Vm
