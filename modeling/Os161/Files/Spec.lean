import Mathlib.Data.Finset.Prod
import Mathlib.Data.Fintype.Basic
import Os161.Lib.Run

/-!
# Open files

`kern/syscalls/fileDescriptor.c`, with what `md_forkentry` and `_exit` do to descriptor tables.
Processes, `struct file`s and vnodes are numbers.
-/

open Function

namespace Os161.Files

def maxFileOpen : Nat := 20

def ENOMEM : Int := 4

def EMFILE : Int := 21

def EBADF : Int := 26

def O_RDONLY : Int := 0

def O_WRONLY : Int := 1

/-- `struct file`. Nothing reads its field `permission`. -/
structure File where
  offset : Int
  refCount : Int
  flag : Int
  vn : Nat
  deriving DecidableEq

abbrev Table := Fin maxFileOpen → Option Nat

/-- `file` keeps what freed memory holds. `opencount` counts the references on a vnode, and `rwLock`
says whether the field `rw_lock` of a vnode points to a lock. -/
structure State where
  procs : Finset Nat
  table : Nat → Option Table
  live : Finset Nat
  file : Nat → File
  opencount : Nat → Int
  rwLock : Nat → Bool

def State.slot (s : State) (p : Nat) (fd : Fin maxFileOpen) : Option Nat :=
  (s.table p).bind fun t => t fd

def State.setSlot (s : State) (p : Nat) (fd : Fin maxFileOpen) (f : Option Nat) : State := { s with
    table := update s.table p ((s.table p).map fun t => update t fd f) }

/-- `lock` is whether `lock_create` of `vfs_open` finds memory. -/
structure Outcome where
  memory : Option Nat
  vfs : Except Int Nat
  lock : Bool

def freeSlot (t : Table) : Option (Fin maxFileOpen) :=
  (List.finRange maxFileOpen).find? fun fd => (t fd).isNone

/-- Every open gives the vnode a new `rw_lock`. -/
def State.opened (s : State) (f : Nat) (flag : Int) (vn : Nat) (lock : Bool) : State := { s with
    live := insert f s.live
    file := update s.file f ⟨0, 1, flag, vn⟩
    opencount := update s.opencount vn (s.opencount vn + 1)
    rwLock := update s.rwLock vn lock }

/-- The allocator does not hand out memory in use. -/
def fdTableOpen (s : State) (p : Nat) (flag : Int) (o : Outcome) :
    Option (State × Except Int (Fin maxFileOpen)) :=
  (s.table p).bind fun t =>
    match freeSlot t, o.memory, o.vfs with
    | none, _, _ => some (s, .error EMFILE)
    | some _, none, _ => some (s, .error ENOMEM)
    | some _, some f, .error e => if f ∈ s.live then none else some (s, .error e)
    | some fd, some f, .ok vn =>
      if f ∈ s.live then none
      else some ((s.opened f flag vn o.lock).setSlot p fd (some f), .ok fd)

def State.closed (s : State) (f : Nat) : State := { s with
    live := s.live.erase f
    opencount := update s.opencount (s.file f).vn (s.opencount (s.file f).vn - 1)
    rwLock := update s.rwLock (s.file f).vn false }

def State.addRef (s : State) (f : Nat) (n : Int) : State := { s with
    file := update s.file f { s.file f with refCount := (s.file f).refCount + n } }

theorem toNat_lt {fd : Int} (h : 0 ≤ fd ∧ fd < maxFileOpen) : fd.toNat < maxFileOpen := by omega

def fdTableGet (t : Table) (fd : Int) : Except Int (Fin maxFileOpen × Nat) :=
  if h : 0 ≤ fd ∧ fd < maxFileOpen then
    let i : Fin maxFileOpen := ⟨fd.toNat, toNat_lt h⟩
    match t i with
    | none => .error EBADF
    | some f => .ok (i, f)
  else .error EBADF

/-- `fd_table_close`. It clears the slot only together with the last reference. `vfs_close` destroys
the `rw_lock` of the vnode, which panics if there is none. -/
def fdTableClose (s : State) (p : Nat) (fd : Int) : Option (State × Except Int Unit) :=
  (s.table p).bind fun t =>
    match fdTableGet t fd with
    | .error e => some (s, .error e)
    | .ok (i, f) =>
      let s := s.addRef f (-1)
      if (s.file f).refCount = 0 then
        if s.rwLock (s.file f).vn then some ((s.closed f).setSlot p i none, .ok ()) else none
      else some (s, .ok ())

def consoles : List Int := [O_RDONLY, O_WRONLY, O_WRONLY]

def openConsoles (s : State) (p : Nat) : List (Int × Outcome) → Option (State × Except Int Unit)
  | [] => some (s, .ok ())
  | (flag, o) :: rest =>
    (fdTableOpen s p flag o).bind fun
      | (s, .error e) => some (s, .error e)
      | (s, .ok _) => openConsoles s p rest

/-- `fd_table_create`, when `kmalloc` of the table succeeds if `memory` is true. -/
def fdTableCreate (s : State) (p : Nat) (memory : Bool) (os : Fin 3 → Outcome) :
    Option (State × Except Int Unit) :=
  if memory then
    openConsoles { s with table := update s.table p (some fun _ => none) } p
      (consoles.zip (List.ofFn os))
  else some (s, .error ENOMEM)

def copySlot (parent : Table) (child : Nat) (s : State) (fd : Fin maxFileOpen) : State :=
  match parent fd with
  | none => s.setSlot child fd none
  | some f => (s.setSlot child fd (some f)).addRef f 1

def copyTable (s : State) (parent : Table) (child : Nat) : State :=
  (List.finRange maxFileOpen).foldl (copySlot parent child) s

inductive Event where
  | runprogram (p : Nat) (memory : Bool) (os : Fin 3 → Outcome)
  | sysOpen (p : Nat) (flag : Int) (o : Outcome)
  | sysClose (p : Nat) (fd : Int)
  | fork (p child : Nat) (memory : Bool) (os : Fin 3 → Outcome)
  | exit (p : Nat)

def State.addProcess (s : State) (p : Nat) : State :=
  { s with procs := insert p s.procs, table := update s.table p none }

/-- When `fd_table_create` fails, the process is gone and what it has opened stays. -/
def newProcess (s : State) (p : Nat) (memory : Bool) (os : Fin 3 → Outcome) :
    Option (State × Except Int Unit) :=
  (fdTableCreate (s.addProcess p) p memory os).map fun
    | (s, .error e) => ({ s with procs := s.procs.erase p }, .error e)
    | (s, .ok _) => (s, .ok ())

def mdForkentry (s : State) (t : Table) (child : Nat) (memory : Bool) (os : Fin 3 → Outcome) :
    Option State :=
  (newProcess s child memory os).map fun
    | (s, .error _) => s
    | (s, .ok _) => copyTable s t child

def step (s : State) : Event → Option State
  | .runprogram p memory os =>
    if p ∈ s.procs then none
    else (newProcess s p memory os).map Prod.fst
  | .sysOpen p flag o => if p ∈ s.procs then (fdTableOpen s p flag o).map Prod.fst else none
  | .sysClose p fd => if p ∈ s.procs then (fdTableClose s p fd).map Prod.fst else none
  | .fork p child memory os =>
    if p ∈ s.procs ∧ child ∉ s.procs then
      (s.table p).bind fun t => mdForkentry s t child memory os
    else none
  | .exit p => if p ∈ s.procs then some { s with procs := s.procs.erase p } else none

def init (junk : Nat → File) : State := ⟨∅, fun _ => none, ∅, junk, fun _ => 0, fun _ => false⟩

def pointers (s : State) (f : Nat) : Finset (Nat × Fin maxFileOpen) :=
  (s.procs ×ˢ Finset.univ).filter fun x => s.slot x.1 x.2 = some f

def openers (s : State) (vn : Nat) : Finset Nat := s.live.filter fun f => (s.file f).vn = vn

structure Exact (s : State) : Prop where
  count : ∀ f ∈ s.live, (s.file f).refCount = (pointers s f).card
  points : ∀ p ∈ s.procs, ∀ fd f, s.slot p fd = some f → f ∈ s.live
  released : ∀ f ∈ s.live, 0 < (pointers s f).card
  opencount : ∀ vn, s.opencount vn = (openers s vn).card

def Outcome.fails (o : Outcome) : Bool := o.memory.isNone || match o.vfs with
    | .error _ => true
    | .ok _ => false

/-- A program that opens its first console opens all three, no fork opens one for the child, and no
process exits with an open file. -/
def Tidy (s : State) : Event → Prop
  | .runprogram _ memory os => memory = true → (os 0).fails = false → ∀ i, (os i).fails = false
  | .fork _ _ memory os => memory = true → (os 0).fails = true
  | .exit p => ∀ fd, s.slot p fd = none
  | _ => True

instance (s : State) : ∀ e, Decidable (Tidy s e)
  | .runprogram _ _ _ => inferInstanceAs (Decidable (_ → _ → _))
  | .fork _ _ _ _ => inferInstanceAs (Decidable (_ → _))
  | .exit _ => inferInstanceAs (Decidable (∀ _, _))
  | .sysOpen _ _ _ | .sysClose _ _ => inferInstanceAs (Decidable True)

end Os161.Files
