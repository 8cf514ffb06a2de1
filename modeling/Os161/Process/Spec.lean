import Mathlib.Data.Fintype.Basic

/-!
# Processes

`kern/syscalls/process.c`: the table, and how a process is created, exits and is removed.
-/

open Function

namespace Os161.Process

def minProcess : Int := 1

def maxProcess : Int := 100

/-- Pointers are numbers. `uid` is history: it tells processes apart that use the same memory. -/
structure Proc where
  pid : Int
  exitCode : Int
  exit : Bool
  exitCv : Nat
  parent : Option Nat
  uid : Nat
  deriving DecidableEq

/-- `heap` keeps what freed memory holds. The last four fields are history by `uid`: the exit code,
the calls of `remove_process`, whether `cv_signal` is done, and the parent with the pid. -/
structure Tab where
  proctable : Int → Option Nat
  heap : Nat → Proc
  allocated : Nat → Bool
  cvs : Nat → Option Nat
  nextUid : Nat
  passed : Nat → Option Int
  removals : Nat → Nat
  signalled : Nat → Bool
  kin : Nat → Option (Nat × Int)

def zeroed : Nat → Proc := fun _ => ⟨0, 0, false, 0, none, 0⟩

def slots : List Int := (List.range' 1 99).map Int.ofNat

/-- It lets through `MAX_PROCESS`: `beyond` is what the memory holds there. -/
def processGet (tab : Tab) (pid : Int) (beyond : Option Nat) : Option Nat :=
  if minProcess ≤ pid ∧ pid ≤ maxProcess then
    if pid = maxProcess then beyond else tab.proctable pid
  else none

/-- `remove_process`, or `none` where it follows a null pointer. -/
def removeProcess (tab : Tab) (pid : Int) : Option Tab := (tab.proctable pid).map fun kill =>
    let uid := (tab.heap kill).uid
    { tab with
      proctable := update tab.proctable pid none
      allocated := update tab.allocated kill false
      removals := update tab.removals uid (tab.removals uid + 1) }

def reusable (tab : Tab) (p : Nat) : Bool := (tab.heap p).exit && match (tab.heap p).parent with
    | none => true
    | some q => (tab.heap q).exit

def findSlot (tab : Tab) : Option Int := slots.find? fun i => match tab.proctable i with
    | none => true
    | some p => reusable tab p

def clearSlot (tab : Tab) (i : Int) : Option Tab := match tab.proctable i with
  | none => some tab
  | some p => removeProcess tab (tab.heap p).pid

/-- The memory at `p` holds what it held before but for the fields set here. -/
def newProcess (tab : Tab) (i : Int) (parent : Option Nat) (p cv : Nat) : Tab := { tab with
    proctable := update tab.proctable i (some p)
    heap := update tab.heap p ⟨i, (tab.heap p).exitCode, false, cv, parent, tab.nextUid⟩
    allocated := update tab.allocated p true
    cvs := update tab.cvs cv (some tab.nextUid)
    nextUid := tab.nextUid + 1
    kin := update tab.kin tab.nextUid
      (parent.map fun q => ((tab.heap q).uid, i)) }

/-- With the parent that `md_forkentry` sets. Memory handed out is not in use. -/
def addProcess (tab : Tab) (parent : Option Nat) (p cv : Nat) : Option Tab :=
  (findSlot tab).bind fun i => (clearSlot tab i).bind fun tab =>
    if tab.allocated p = false ∧ tab.cvs cv = none then some (newProcess tab i parent p cv)
    else none

/-- One turn of the loop in `exit_process`, for the process in slot `i`. -/
def tellChild (tab : Tab) (pid : Int) (heap : Nat → Proc) (i : Int) : Nat → Proc :=
  match tab.proctable i with
  | none => heap
  | some q =>
    match (heap q).parent with
    | none => heap
    | some r =>
      if i ≠ pid ∧ (heap r).pid = pid then
        update heap q { heap q with parent := none }
      else heap

/-- `exit_process`, or `none` where it follows a null pointer. -/
def exitProcess (tab : Tab) (pid code : Int) : Option Tab := (tab.proctable pid).map fun e =>
    let heap := update tab.heap e { tab.heap e with exitCode := code, exit := true }
    { tab with heap := if (heap e).parent.isSome then slots.foldl (tellChild tab pid) heap else heap }

/-- `junk` is what the memory holds. -/
def proctableInit (junk : Nat → Proc) : Tab := ⟨fun _ => none, junk, fun _ => false, fun _ => none, 0,
  fun _ => none, fun _ => 0, fun _ => false, fun _ => none⟩

end Os161.Process
