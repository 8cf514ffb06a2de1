import Os161.Container.Array
import Os161.Container.Queue
import Os161.Lib.Run
import Os161.Thread.Spec

/-!
# The thread system as the code keeps it

`kern/thread/thread.c` and `scheduler.c` over their arrays and their queue, with every allocation and
every assert, which is `none` if it fails. `Spec` has the same functions on lists.
-/

open Function

namespace Os161.Thread

inductive Resume where
  | threadstart
  | yield
  | sleep
  deriving DecidableEq

/-- With how often each thread structure was set up, exited and was destroyed. -/
structure Threads (T A : Type) where
  curthread : Option T
  runqueue : Queue T
  sleepers : Arr T
  zombies : Arr T
  numthreads : Nat
  sleepaddr : T → Option A
  resume : T → Resume
  forks : T → Nat
  exits : T → Nat
  destroys : T → Nat

variable {T A : Type} [DecidableEq T]

def bump (f : T → Nat) (t : T) : T → Nat := update f t (f t + 1)

def boot (me : T) : Threads T A where
  curthread := some me
  runqueue := .create 32
  sleepers := .create
  zombies := .create
  numthreads := 1
  sleepaddr := fun _ => none
  resume := fun _ => .threadstart
  forks := bump (fun _ => 0) me
  exits := fun _ => 0
  destroys := fun _ => 0

namespace Threads

/-- Whether `make_runnable` returned 0 comes second. -/
def makeRunnable (mem : Bool) (t : T) (k : Threads T A) : Option (Threads T A × Bool) :=
  (k.runqueue.addtail mem t).map fun r => ({ k with runqueue := r.1 }, r.2)

def threadDestroy (k : Threads T A) (thread : T) : Option (Threads T A) :=
  if k.curthread = some thread then none else some { k with destroys := bump k.destroys thread }

def exorcise (k : Threads T A) : Option (Threads T A) := do
  let k ← (List.range k.zombies.num).foldlM
    (fun k i => do k.threadDestroy (← k.zombies.getguy i)) k
  match k.zombies.setsize false 0 with
  | some (zombies, true) => some { k with zombies }
  | _ => none

/-- `scheduler`, and the rest of `mi_switch`. While the run queue is empty there is no current
thread. -/
def schedule (k : Threads T A) : Option (Threads T A) := if k.runqueue.empty then some k
  else do
    let (runqueue, next) ← k.runqueue.remhead
    let k := { k with runqueue, curthread := some next }
    match k.resume next with
    | .threadstart => some k
    | .yield => k.exorcise
    | .sleep => do
      let k ← k.exorcise
      some { k with sleepaddr := update k.sleepaddr next none }

def stash (mem : Bool) (cur : T) (k : Threads T A) : ThreadState → Option (Threads T A × Bool)
  | .ready => makeRunnable mem cur { k with resume := update k.resume cur .yield }
  | .sleep =>
    (k.sleepers.add mem cur).map fun r =>
      ({ k with sleepers := r.1, resume := update k.resume cur .sleep }, r.2)
  | .zomb => (k.zombies.add mem cur).map fun r => ({ k with zombies := r.1 }, r.2)

def miSwitch (mem : Bool) (nextstate : ThreadState) (k : Threads T A) : Option (Threads T A) :=
  match k.curthread with
  | none => some k
  | some cur =>
    match stash mem cur { k with curthread := none } nextstate with
    | some (k, true) => k.schedule
    | _ => none

def threadYield (mem : Bool) (k : Threads T A) : Option (Threads T A) := k.miSwitch mem .ready

def threadSleep (mem : Bool) (addr : A) (cur : T) (k : Threads T A) : Option (Threads T A) :=
  miSwitch mem .sleep { k with sleepaddr := update k.sleepaddr cur (some addr) }

def threadExit (mem : Bool) (cur : T) (k : Threads T A) : Option (Threads T A) :=
  if 0 < k.numthreads then
    miSwitch mem .zomb { k with numthreads := k.numthreads - 1, exits := bump k.exits cur }
  else none

/-- `tail` is the allocation of `make_runnable`. -/
structure ForkMem where
  create : Bool
  stack : Bool
  sleepers : Bool
  zombies : Bool
  runqueue : Bool
  tail : Bool

/-- The part of `thread_fork` with interrupts off, and whether it returned 0. -/
def forkAtomic (mem : ForkMem) (newguy : T) (k : Threads T A) : Option (Threads T A × Bool) := do
  let (sleepers, ok) ← k.sleepers.preallocate mem.sleepers (k.numthreads + 1)
  let k := { k with sleepers }
  if !ok then some (k, false)
  else do
    let (zombies, ok) ← k.zombies.preallocate mem.zombies (k.numthreads + 1)
    let k := { k with zombies }
    if !ok then some (k, false)
    else do
      let (runqueue, ok) ← k.runqueue.preallocate mem.runqueue (k.numthreads + 1)
      let k := { k with runqueue }
      if !ok then some (k, false)
      else do
        let (k, ok) ← makeRunnable mem.tail newguy k
        if !ok then some (k, false)
        else some ({ k with
          numthreads := k.numthreads + 1
          sleepaddr := update k.sleepaddr newguy none
          resume := update k.resume newguy .threadstart
          forks := bump k.forks newguy }, true)

def threadFork (mem : ForkMem) (newguy : T) (k : Threads T A) : Option (Threads T A × Bool) :=
  if mem.create && mem.stack then k.forkAtomic mem newguy else some (k, false)

section Wakeup

variable [DecidableEq A]

/-- Taking a thread out leaves `i` where it is, and `stop i` ends the loop there. -/
def wakeFrom (stop : Nat → Bool) (addr : A) :
    Nat → Nat → List Bool → Threads T A → Option (Threads T A)
  | 0, _, _, k => some k
  | fuel + 1, i, mem, k =>
    if i < k.sleepers.num then do
      let t ← k.sleepers.getguy i
      if k.sleepaddr t = some addr then do
        let sleepers ← k.sleepers.remove i
        match makeRunnable (mem.headD false) t { k with sleepers } with
        | some (k, true) => if stop i then some k else wakeFrom stop addr fuel i mem.tail k
        | _ => none
      else wakeFrom stop addr fuel (i + 1) mem k
    else some k

def threadWakeup (mem : List Bool) (addr : A) (k : Threads T A) : Option (Threads T A) :=
  wakeFrom (fun _ => false) addr k.sleepers.num 0 mem k

def threadWakeupN (mem : List Bool) (addr : A) (n : Int) (k : Threads T A) : Option (Threads T A) :=
  wakeFrom (fun i => decide (n - 1 = (i : Int) - 1)) addr k.sleepers.num 0 mem k

end Wakeup

end Threads

inductive Call (T A : Type) where
  | fork (newguy : T) (mem : Threads.ForkMem)
  | yield (mem : Bool)
  | sleep (addr : A) (mem : Bool)
  | wakeup (addr : A) (mem : List Bool)
  | wakeupN (addr : A) (n : Int) (mem : List Bool)
  | exit (mem : Bool)
  | idle

variable [DecidableEq A]

/-- New thread structures are unused memory. The outer `none` is a call that cannot be made, the
inner one a machine that has stopped. -/
def callStep : Option (Threads T A) → Call T A → Option (Option (Threads T A))
  | none, _ => none
  | some k, c =>
    match c, k.curthread with
    | .fork newguy mem, some _ =>
      if k.destroys newguy = k.forks newguy then some ((k.threadFork mem newguy).map Prod.fst)
      else none
    | .yield mem, some _ => some (k.threadYield mem)
    | .sleep addr mem, some cur => some (k.threadSleep mem addr cur)
    | .exit mem, some cur => some (k.threadExit mem cur)
    | .wakeup addr mem, _ => some (k.threadWakeup mem addr)
    | .wakeupN addr n mem, _ => some (k.threadWakeupN mem addr n)
    | .idle, none => some k.schedule
    | _, _ => none

end Os161.Thread
