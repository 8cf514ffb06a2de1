import Mathlib.Data.Fintype.Basic
import Os161.Thread.Spec
import Os161.Lib.Run

/-!
# Locks and condition variables

`kern/thread/synch.c`. A step is a section between `splhigh` and `splx`, or what an interrupt does
between two of them.
-/

open Os161.Thread

namespace Os161.Synch

structure Kern (T A : Type) where
  sys : Sys T A
  myOwner : Option T

section Sections

variable {T A : Type} [DecidableEq T] [DecidableEq A]

def lockTry (lock : A) (k : Kern T A) : Kern T A := match k.myOwner with
  | none => { k with myOwner := k.sys.curthread }
  | some _ => { k with sys := threadSleep lock k.sys }

def lockDoIHold (k : Kern T A) : Bool := k.sys.curthread.isSome && k.myOwner == k.sys.curthread

def lockRelease (lock : A) (k : Kern T A) : Option (Kern T A) :=
  if lockDoIHold k then some ⟨threadWakeup lock k.sys, none⟩ else none

def cvSignal (cv : A) (k : Kern T A) : Option (Kern T A) :=
  if lockDoIHold k then some { k with sys := threadWakeupN cv 1 k.sys } else none

def cvBroadcast (cv : A) (k : Kern T A) : Option (Kern T A) :=
  if lockDoIHold k then some { k with sys := threadWakeup cv k.sys } else none

end Sections

inductive Addr (B : Type) where
  | lock
  | cv
  | other (b : B)
  deriving DecidableEq

inductive Pc (B : Type) where
  | gone                  -- not forked yet, or exited
  | out                   -- does not hold the lock
  | lockSleep             -- in `thread_sleep(lock)` of `lock_acquire`
  | held                  -- holds the lock
  | gap                   -- in `cv_wait`, after `lock_release`
  | cvSleep               -- in `thread_sleep(cv)` of `cv_wait`
  | reacquire             -- in `cv_wait`, before `lock_acquire`
  | otherSleep (b : B)    -- in a `thread_sleep` that has nothing to do with the lock
  deriving DecidableEq

def Pc.sleepsOn {B : Type} : Pc B → Option (Addr B)
  | .lockSleep => some .lock
  | .cvSleep => some .cv
  | .otherSleep b => some (.other b)
  | _ => none

/-- `notified` is history: the lock was given up in `cv_wait`, and since then there was a
`cv_broadcast`, or a `cv_signal` while no other thread was waiting. -/
structure State (T B : Type) where
  kern : Kern T (Addr B)
  pc : T → Pc B
  notified : T → Bool

inductive Label (T B : Type) where
  | timer                        -- `hardclock` calls `thread_yield`
  | interrupt (b : B)            -- a device wakes up its threads
  | dispatch                     -- the idle loop finds a thread
  | threadFork (t : T)
  | threadExit
  | threadSleep (b : B)
  | threadWakeup (b : B)
  | lockAcquire
  | lockRelease
  | cvWait
  | cvSignal
  | cvBroadcast
  | next                         -- the current thread goes on inside the call that it is in

section Machine

variable {T B : Type} [DecidableEq T] [DecidableEq B]

def waiting (s : State T B) (t : T) : Bool :=
  s.pc t = .gap || (s.pc t = .cvSleep && t ∈ s.kern.sys.sleepers)

def onlyWaiting (s : State T B) (t : T) : Bool :=
  waiting s t && s.kern.sys.threads.all fun u => u == t || !waiting s u

def goto (s : State T B) (c : T) (p : Pc B) (k : Kern T (Addr B)) : State T B :=
  { s with kern := k, pc := Function.update s.pc c p }

def acquire (s : State T B) (c : T) (k : Kern T (Addr B)) : State T B :=
  goto s c (if k.myOwner = none then .held else .lockSleep) (lockTry .lock k)

def act (s : State T B) (c : T) : Label T B → Option (State T B)
  | .threadFork t =>
    -- The memory of a thread that has exited is used again only after `exorcise`.
    if s.pc c = .out ∧ s.pc t = .gone ∧ t ∉ s.kern.sys.zombies then
      some (goto s t .out { s.kern with sys := threadFork t s.kern.sys })
    else none
  | .threadExit =>
    if s.pc c = .out then some (goto s c .gone { s.kern with sys := threadExit s.kern.sys })
    else none
  | .threadSleep b =>
    if s.pc c = .out then
      some (goto s c (.otherSleep b) { s.kern with sys := threadSleep (.other b) s.kern.sys })
    else none
  | .threadWakeup b =>
    if s.pc c = .out ∨ s.pc c = .held then
      some { s with kern := { s.kern with sys := threadWakeup (.other b) s.kern.sys } }
    else none
  | .lockAcquire => if s.pc c = .out then some (acquire s c s.kern) else none
  | .lockRelease =>
    if s.pc c = .held then (lockRelease .lock s.kern).map (goto s c .out) else none
  | .cvWait =>
    if s.pc c = .held then (lockRelease .lock s.kern).map (goto s c .gap) else none
  | .cvSignal =>
    if s.pc c = .held then (cvSignal .cv s.kern).map fun k =>
      { s with kern := k, notified := fun t => s.notified t || onlyWaiting s t }
    else none
  | .cvBroadcast =>
    if s.pc c = .held then (cvBroadcast .cv s.kern).map fun k =>
      { s with kern := k, notified := fun t => s.notified t || waiting s t }
    else none
  | .next =>
    match s.pc c with
    | .gap => some (goto s c .cvSleep { s.kern with sys := threadSleep .cv s.kern.sys })
    | .cvSleep =>
      some { goto s c .reacquire { s.kern with sys := threadResume s.kern.sys } with
        notified := Function.update s.notified c false }
    | .reacquire => some (acquire s c s.kern)
    | .lockSleep => some (acquire s c { s.kern with sys := threadResume s.kern.sys })
    | .otherSleep _ => some (goto s c .out { s.kern with sys := threadResume s.kern.sys })
    | _ => none
  | _ => none

/-- Interrupts are off from `thread_sleep` on until the section that called it ends. -/
def interruptible (s : State T B) : Bool := match s.kern.sys.curthread with
  | none => true
  | some c => (s.pc c).sleepsOn.isNone

def step (s : State T B) (l : Label T B) : Option (State T B) := match l, s.kern.sys.curthread with
  | .timer, some _ =>
    if interruptible s then some { s with kern := { s.kern with sys := threadYield s.kern.sys } }
    else none
  | .interrupt b, _ =>
    if interruptible s then
      some { s with kern := { s.kern with sys := threadWakeup (.other b) s.kern.sys } }
    else none
  | .dispatch, none => some { s with kern := { s.kern with sys := scheduler s.kern.sys } }
  | l, some c => act s c l
  | _, none => none

def init (ts : List T) : State T B where
  kern := ⟨⟨none, ts, [], [], fun _ => none, fun _ => false⟩, none⟩
  pc := fun t => if t ∈ ts then .out else .gone
  notified := fun _ => false

end Machine

/-- Until it has left the sleep of `cv_wait` it runs or waits for the processor only. -/
def NoLostWakeup {T B : Type} (s : State T B) : Prop :=
  ∀ t, s.notified t = true → Runnable s.kern.sys t

/-- No `cv_broadcast` finds a thread between `lock_release` and `thread_sleep`, and a `cv_signal`
only besides another one. -/
def GapFree {T B : Type} [DecidableEq T] [DecidableEq B] (s : State T B) (l : Label T B) : Prop :=
  match l with
  | .cvBroadcast => ∀ t, s.pc t ≠ .gap
  | .cvSignal => ∀ t, s.pc t = .gap → ∃ u, u ≠ t ∧ waiting s u = true
  | _ => True

instance {T B : Type} [DecidableEq T] [DecidableEq B] [Fintype T] (s : State T B) :
    ∀ l, Decidable (GapFree s l)
  | .cvBroadcast => inferInstanceAs (Decidable (∀ _, _))
  | .cvSignal => inferInstanceAs (Decidable (∀ _, _ → ∃ _, _ ∧ _))
  | .timer | .interrupt _ | .dispatch | .threadFork _ | .threadExit | .threadSleep _
  | .threadWakeup _ | .lockAcquire | .lockRelease | .cvWait | .next =>
    inferInstanceAs (Decidable True)

end Os161.Synch
