import Mathlib.Algebra.Group.Int.Defs
import Mathlib.Algebra.Group.Nat.Defs
import Os161.Synch.Spec

/-!
# Locks and semaphores

Any number of threads, locks and semaphores (`kern/thread/synch.c`). A step is a section between
`splhigh` and `splx`, or what an interrupt does between two of them. A failed assertion stops the
machine.
-/

open Os161.Thread Function

namespace Os161.Synch.Many

/-- The value of a C `int` after arithmetic. -/
def wrap (n : Int) : Int := (n + 2 ^ 31) % 2 ^ 32 - 2 ^ 31

def takeCount (count : Int) : Option Int := if 0 < count then some (wrap (count - 1)) else none

def addCount (count : Int) : Option Int :=
  if 0 < wrap (count + 1) then some (wrap (count + 1)) else none

inductive Addr (L S B : Type) where
  | lock (l : L)
  | sem (x : S)
  | other (b : B)
  deriving DecidableEq

inductive Pc (L S B : Type) where
  | gone                      -- not forked yet
  | exited
  | out                       -- in code of its own
  | lockSleep (l : L)         -- in `thread_sleep(lock)` of `lock_acquire`
  | semSleep (x : S)          -- in `thread_sleep(sem)` of `P`
  | otherSleep (b : B)        -- in some other `thread_sleep`
  | handler (old : Bool)      -- in `mips_interrupt`, where `hardclock` called `thread_yield`
  deriving DecidableEq

/-- `pcb` is `pcb_ininterrupt`. The rest is history: locks acquired and not released, calls of `V`,
and calls of `V` and `P` completed. -/
structure State (T L S B : Type) where
  sys : Sys T (Addr L S B)
  myOwner : L → Option T
  count : S → Int
  inInterrupt : Bool
  pcb : T → Bool
  panicked : Bool
  pc : T → Pc L S B
  inside : T → L → Bool
  called : S → Nat
  vs : S → Nat
  ps : S → Nat

inductive Label (T L S B : Type) where
  | timer                        -- `hardclock`
  | interruptV (x : S)           -- a device calls `V`
  | interrupt (b : B)            -- a device wakes up its threads
  | dispatch                     -- the idle loop finds a thread
  | threadFork (t : T)
  | threadExit
  | threadYield
  | threadSleep (b : B)
  | threadWakeup (b : B)
  | lockAcquire (l : L)
  | lockRelease (l : L)
  | semP (x : S)
  | semV (x : S)
  | next                         -- the current thread goes on inside the call that it is in

section Machine

variable {T L S B : Type} [DecidableEq T] [DecidableEq L] [DecidableEq S] [DecidableEq B]

def panic (s : State T L S B) : State T L S B := { s with panicked := true }

def goto (s : State T L S B) (t : T) (p : Pc L S B) : State T L S B :=
  { s with pc := update s.pc t p }

/-- `md_switch` keeps `in_interrupt` for each thread, and does nothing when `c` goes on. -/
def mdSwitch (s : State T L S B) (c : T) (sys : Sys T (Addr L S B)) : State T L S B :=
  if sys.curthread = some c then { s with sys := sys }
  else
    let pcb := update s.pcb c s.inInterrupt
    { s with sys := sys, pcb := pcb, inInterrupt := (sys.curthread.map pcb).getD s.inInterrupt }

def sleep (s : State T L S B) (c : T) (addr : Addr L S B) (p : Pc L S B) : State T L S B :=
  if s.inInterrupt then panic s else mdSwitch (goto s c p) c (threadSleep addr s.sys)

def resume (s : State T L S B) : State T L S B := { s with sys := threadResume s.sys }

def acquire (s : State T L S B) (c : T) (l : L) : State T L S B := match s.myOwner l with
  | none =>
    goto { s with
      myOwner := update s.myOwner l (some c)
      inside := update s.inside c (update (s.inside c) l true) } c .out
  | some _ => sleep s c (.lock l) (.lockSleep l)

def release (s : State T L S B) (c : T) (l : L) : State T L S B :=
  match lockRelease (.lock l) ⟨s.sys, s.myOwner l⟩ with
  | none => panic s
  | some k => { s with
      sys := k.sys
      myOwner := update s.myOwner l k.myOwner
      inside := update s.inside c (update (s.inside c) l false) }

def semP (s : State T L S B) (c : T) (x : S) : State T L S B :=
  if s.count x = 0 then sleep s c (.sem x) (.semSleep x)
  else
    match takeCount (s.count x) with
    | none => panic s
    | some n => goto { s with
        count := update s.count x n
        ps := update s.ps x (s.ps x + 1) } c .out

def semV (s : State T L S B) (x : S) : State T L S B :=
  let s := { s with called := update s.called x (s.called x + 1) }
  match addCount (s.count x) with
  | none => panic s
  | some n => { s with
      sys := threadWakeup (.sem x) s.sys
      count := update s.count x n
      vs := update s.vs x (s.vs x + 1) }

/-- It takes a lock only if it has not got it, and releases only a lock that it has. -/
def act (s : State T L S B) (c : T) : Label T L S B → Option (State T L S B)
  | .threadFork t =>
    if s.pc t = .gone then
      some (goto { s with sys := threadFork t s.sys, pcb := update s.pcb t false } t .out)
    else none
  | .threadExit => some (mdSwitch (goto s c .exited) c (threadExit s.sys))
  | .threadYield => some (mdSwitch s c (threadYield s.sys))
  | .threadSleep b => some (sleep s c (.other b) (.otherSleep b))
  | .threadWakeup b => some { s with sys := threadWakeup (.other b) s.sys }
  | .lockAcquire l => if s.inside c l then none else some (acquire s c l)
  | .lockRelease l => if s.inside c l then some (release s c l) else none
  -- `P` tests `in_interrupt` even where it does not sleep.
  | .semP x => some (if s.inInterrupt then panic s else semP s c x)
  | .semV x => some (semV s x)
  | _ => none

def goOn (s : State T L S B) (c : T) : Option (State T L S B) := match s.pc c with
  | .lockSleep l => some (acquire (resume s) c l)
  | .semSleep x => some (semP (resume s) c x)
  | .otherSleep _ => some (goto (resume s) c .out)
  | .handler old => some (goto { s with inInterrupt := old } c .out)
  | _ => none

/-- Interrupts are off inside the sections and in a handler. -/
def interruptible (s : State T L S B) : Bool := match s.sys.curthread with
  | none => true
  | some c => s.pc c = .out

def timer (s : State T L S B) (c : T) : State T L S B :=
  mdSwitch (goto { s with inInterrupt := true } c (.handler s.inInterrupt)) c (threadYield s.sys)

def dispatch (s : State T L S B) : State T L S B := let sys := scheduler s.sys
  { s with sys := sys, inInterrupt := (sys.curthread.map s.pcb).getD s.inInterrupt }

/-- A handler that does not switch threads leaves `in_interrupt` as it was. -/
def step (s : State T L S B) (a : Label T L S B) : Option (State T L S B) := if s.panicked then none
  else
    match a, s.sys.curthread with
    | .timer, some c => if interruptible s then some (timer s c) else none
    | .interruptV x, _ => if interruptible s then some (semV s x) else none
    | .interrupt b, _ =>
      if interruptible s then some { s with sys := threadWakeup (.other b) s.sys } else none
    | .dispatch, none => some (dispatch s)
    | .next, some c => goOn s c
    | a, some c => if s.pc c = .out then act s c a else none
    | _, none => none

def init (ts : List T) (c : S → Int) : State T L S B where
  sys := ⟨none, ts, [], [], fun _ => none, fun _ => false⟩
  myOwner := fun _ => none
  count := c
  inInterrupt := false
  pcb := fun _ => false
  panicked := false
  pc := fun t => if t ∈ ts then .out else .gone
  inside := fun _ _ => false
  called := fun _ => 0
  vs := fun _ => 0
  ps := fun _ => 0

end Machine

/-! ## What locks and semaphores promise -/

def AsleepOn {T A : Type} (s : Sys T A) (addr : A) (t : T) : Prop :=
  t ∈ s.sleepers ∧ s.sleepaddr t = some addr

/-- While nobody has the lock, nobody sleeps on it. -/
structure Excludes {T L S B : Type} (s : State T L S B) (l : L) : Prop where
  one : ∀ t u, s.inside t l = true → s.inside u l = true → t = u
  owner : ∀ t, s.myOwner l = some t ↔ s.inside t l = true
  handsOver : s.myOwner l = none → ∀ t, ¬ AsleepOn s.sys (.lock l) t

/-- The counter is exact, and nobody sleeps while it is positive. -/
structure Counts {T L S B : Type} (c : S → Int) (s : State T L S B) (x : S) : Prop where
  exact : s.count x = c x + s.vs x - s.ps x
  nonneg : 0 ≤ s.count x
  noSleeper : 0 < s.count x → ∀ t, ¬ AsleepOn s.sys (.sem x) t

/-- It fails only where the calls of `V` outstanding overflow the counter. -/
def AssertsHold {T L S B : Type} (c : S → Int) (s : State T L S B) : Prop :=
  (∀ x, (s.called x : Int) - s.ps x < 2 ^ 31 - c x) → s.panicked = false

end Os161.Synch.Many
