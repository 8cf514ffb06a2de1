import Mathlib.Data.List.Perm.Basic

/-!
# Threads

`kern/thread/thread.c` and `scheduler.c`, as functions on lists of threads. Interrupts are off, so
each call is one step. `T` are the threads and `A` the sleep addresses.
-/

open Function

namespace Os161.Thread

inductive ThreadState where
  | ready
  | sleep
  | zomb
  deriving DecidableEq

/-- Threads that have `started` resume inside `mi_switch`, the others in `mi_threadstart`. -/
structure Sys (T A : Type) where
  curthread : Option T
  runqueue : List T
  sleepers : List T
  zombies : List T
  sleepaddr : T → Option A
  started : T → Bool

variable {T A : Type}

def makeRunnable (t : T) (s : Sys T A) : Sys T A := { s with runqueue := s.runqueue ++ [t] }

section Switch

variable [DecidableEq T]

/-- Up to the end of `mi_switch` in the thread picked, which calls `exorcise` unless it is new. -/
def scheduler (s : Sys T A) : Sys T A := match s.runqueue with
  | [] => s
  | next :: rest =>
    { s with
      curthread := some next
      runqueue := rest
      zombies := if s.started next then [] else s.zombies
      started := update s.started next true }

def stash (cur : T) (nextstate : ThreadState) (s : Sys T A) : Sys T A := match nextstate with
  | .ready => makeRunnable cur s
  | .sleep => { s with sleepers := s.sleepers ++ [cur] }
  | .zomb => { s with zombies := s.zombies ++ [cur] }

def miSwitch (nextstate : ThreadState) (s : Sys T A) : Sys T A := match s.curthread with
  | none => s
  | some cur => scheduler (stash cur nextstate { s with curthread := none })

def threadYield (s : Sys T A) : Sys T A := miSwitch .ready s

def threadExit (s : Sys T A) : Sys T A := miSwitch .zomb s

def setSleepaddr (t : T) (addr : Option A) (s : Sys T A) : Sys T A :=
  { s with sleepaddr := update s.sleepaddr t addr }

def threadSleep (addr : A) (s : Sys T A) : Sys T A := match s.curthread with
  | none => s
  | some cur => miSwitch .sleep (setSleepaddr cur (some addr) s)

def threadResume (s : Sys T A) : Sys T A := match s.curthread with
  | none => s
  | some cur => setSleepaddr cur none s

end Switch

section Wakeup

variable [DecidableEq A]

/-- What is left, and the threads taken out. `kept` are those before index `i`, where it stays after
one is taken out; `stop i` ends the loop. -/
def wakeLoop (stop : Nat → Bool) (addr : A) (sleepaddr : T → Option A) :
    List T → List T → List T × List T
  | kept, [] => (kept, [])
  | kept, t :: rest =>
    if sleepaddr t = some addr then
      if stop kept.length then (kept ++ rest, [t])
      else
        let r := wakeLoop stop addr sleepaddr kept rest
        (r.1, t :: r.2)
    else wakeLoop stop addr sleepaddr (kept ++ [t]) rest

def wakeWith (stop : Nat → Bool) (addr : A) (s : Sys T A) : Sys T A :=
  let r := wakeLoop stop addr s.sleepaddr [] s.sleepers
  { s with sleepers := r.1, runqueue := s.runqueue ++ r.2 }

def threadWakeup (addr : A) (s : Sys T A) : Sys T A := wakeWith (fun _ => false) addr s

/-- It compares `n - 1` with the index, not with the number of threads woken. -/
def threadWakeupN (addr : A) (n : Int) (s : Sys T A) : Sys T A :=
  wakeWith (fun i => decide (n - 1 = (i : Int) - 1)) addr s

end Wakeup

def threadFork [DecidableEq T] (t : T) (s : Sys T A) : Sys T A :=
  makeRunnable t { s with started := update s.started t false }

def Sys.threads (s : Sys T A) : List T := s.curthread.toList ++ s.runqueue ++ s.sleepers

def Runnable (s : Sys T A) (t : T) : Prop := s.curthread = some t ∨ t ∈ s.runqueue

instance [DecidableEq T] (s : Sys T A) (t : T) : Decidable (Runnable s t) :=
  inferInstanceAs (Decidable (_ ∨ _))

end Os161.Thread
