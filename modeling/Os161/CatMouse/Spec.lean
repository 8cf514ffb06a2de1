import Mathlib.Logic.Function.Basic

/-!
# The cat and mouse threads

`kern/asst1/catmouse.c` and `bowls.c`. Locks exclude, condition variables have Mesa semantics, and
semaphores count. One step of a thread is the code between two of these calls.
-/

open Function

namespace Os161.CatMouse

inductive Species where
  | cat
  | mouse
  deriving DecidableEq

def Species.other : Species → Species
  | .cat => .mouse
  | .mouse => .cat

/-- The arguments of the menu command. The first `numCats` threads are the cats. -/
structure Config where
  numBowls : Nat
  numCats : Nat
  numMice : Nat
  numLoops : Nat

def Config.animals (c : Config) : Nat := c.numCats + c.numMice

def Config.species (c : Config) (t : Nat) : Species := if t < c.numCats then .cat else .mouse

inductive Branch where
  | first   -- the other species is eating
  | second  -- our species is eating and the other one is waiting
  deriving DecidableEq

inductive Pc where
  | sleep
  | acquireWait
  | arrive
  | cvWait (b : Branch)
  | cvWoken (b : Branch)
  | recheck (b : Branch)
  | releaseWait
  | pBowlCount
  | acquireFree
  | takeBowl
  | releaseFree
  | callEat
  | pMutexStart
  | eatStart
  | vMutexStart
  | eating
  | pMutexFinish
  | eatFinish
  | vMutexFinish
  | acquireFreeAgain
  | putBowl
  | releaseFreeAgain
  | acquireWaitAgain
  | leave
  | releaseWaitAgain
  | vBowlCount
  | done
  | gone
  deriving DecidableEq

inductive Panic where
  | assertBowl      -- the asserts on `bowl` in the simulation
  | invalidBowl     -- "invalid bowl number"
  | sameBowl        -- "attempt to make two cats eat from bowl"
  | otherSpecies    -- "attempt to make a cat eat while mice are eating"
  | assertEat       -- the asserts of `cat_eat` and `mouse_eat`
  deriving DecidableEq

structure State where
  pc : Nat → Pc
  loops : Nat → Nat
  bowl : Nat → Nat
  -- catmouse.c
  eating : Species → Int
  waiting : Species → Int
  waitConditions : Option Nat
  freeBlockBowls : Option Nat
  maxBowlCount : Nat
  freeBowlsList : List Nat
  catMouseWait : Nat
  -- bowls.c: `none` is '-', the others are 'c' and 'm'
  bowls : Nat → Option Species
  bowlsEating : Species → Int
  mutex : Nat
  panic : Option Panic

/-- The locals `bowl` hold anything. -/
def init (c : Config) (garbage : Nat → Nat) : State where
  pc := fun _ => .sleep
  loops := fun _ => 0
  bowl := garbage
  eating := fun _ => 0
  waiting := fun _ => 0
  waitConditions := none
  freeBlockBowls := none
  maxBowlCount := c.numBowls
  freeBowlsList := (List.range c.numBowls).map (· + 1)
  catMouseWait := 0
  bowls := fun _ => none
  bowlsEating := fun _ => 0
  mutex := 1
  panic := none

namespace State

def goto (s : State) (t : Nat) (p : Pc) : State := { s with pc := update s.pc t p }

def fail (s : State) (p : Panic) : State := { s with panic := some p }

variable (s : State) (t : Nat) (p : Pc)

@[simp] theorem goto_pc_self : (s.goto t p).pc t = p := update_self ..
theorem goto_pc_ne {i : Nat} (h : i ≠ t) : (s.goto t p).pc i = s.pc i := update_of_ne h ..
@[simp] theorem goto_eating : (s.goto t p).eating = s.eating := rfl
@[simp] theorem goto_bowlsEating : (s.goto t p).bowlsEating = s.bowlsEating := rfl
@[simp] theorem goto_panic : (s.goto t p).panic = s.panic := rfl

end State

/-- A cat waits on `cvNoMiceEating` and a mouse on `cvNoCatsEating`, in both branches. -/
def cvBroadcast (c : Config) (sp : Species) (pc : Nat → Pc) : Nat → Pc := fun i =>
  match pc i with
  | .cvWait b => if c.species i = sp then .cvWoken b else .cvWait b
  | p => p

def mustWait (s : State) (sp : Species) : Branch → Prop
  | .first => s.eating sp.other ≠ 0
  | .second => s.eating sp ≠ 0 ∧ s.waiting sp.other ≠ 0

instance (s : State) (sp : Species) : (b : Branch) → Decidable (mustWait s sp b)
  | .first => inferInstanceAs (Decidable (s.eating sp.other ≠ 0))
  | .second => inferInstanceAs (Decidable (s.eating sp ≠ 0 ∧ s.waiting sp.other ≠ 0))

def cvWait (s : State) (t : Nat) (b : Branch) : State :=
  { s.goto t (.cvWait b) with waitConditions := none }

def enter (s : State) (t : Nat) (sp : Species) : State :=
  { s.goto t .releaseWait with eating := update s.eating sp (s.eating sp + 1) }

def arrive (s : State) (t : Nat) (sp : Species) : State :=
  let s := { s with waiting := update s.waiting sp (s.waiting sp + 1) }
  if s.eating sp.other ≠ 0 then
    if mustWait s sp .first then cvWait s t .first else enter s t sp
  else if s.eating sp ≠ 0 ∧ s.waiting sp.other ≠ 0 then
    if mustWait s sp .second then cvWait s t .second else enter s t sp
  else enter s t sp

def eatStart (s : State) (t : Nat) (sp : Species) : State := let b := s.bowl t - 1
  if s.bowls b = some sp then s.fail .sameBowl
  else if 0 < s.bowlsEating sp.other then s.fail .otherSpecies
  else if s.bowls b ≠ none ∨ s.bowlsEating sp.other ≠ 0 then s.fail .assertEat
  else
    { s.goto t .vMutexStart with
      bowlsEating := update s.bowlsEating sp (s.bowlsEating sp + 1)
      bowls := update s.bowls b (some sp) }

def eatFinish (s : State) (t : Nat) (sp : Species) : State := let b := s.bowl t - 1
  if 0 < s.bowlsEating sp ∧ s.bowls b = some sp then
    { s.goto t .vMutexFinish with
      bowlsEating := update s.bowlsEating sp (s.bowlsEating sp - 1)
      bowls := update s.bowls b none }
  else s.fail .assertEat

def leave (c : Config) (s : State) (t : Nat) (sp : Species) : State :=
  let s := { s.goto t .releaseWaitAgain with
    eating := update s.eating sp (s.eating sp - 1)
    waiting := update s.waiting sp (s.waiting sp - 1) }
  if s.eating sp = 0 then { s with pc := cvBroadcast c sp.other s.pc } else s

/-- `P` on a semaphore and `lock_acquire`: `none` while the thread has to wait. -/
def acquire (free : Prop) [Decidable free] (s : State) : Option State := if free then some s else none

def simulation (c : Config) (sp : Species) (s : State) (t : Nat) : Option State := match s.pc t with
  | .sleep => some (s.goto t .acquireWait)
  | .acquireWait => acquire (s.waitConditions = none)
      { s.goto t .arrive with waitConditions := some t }
  | .arrive => some (arrive s t sp)
  | .cvWait _ => none
  | .cvWoken b => acquire (s.waitConditions = none)
      { s.goto t (.recheck b) with waitConditions := some t }
  | .recheck b => some (if mustWait s sp b then cvWait s t b else enter s t sp)
  | .releaseWait => some { s.goto t .pBowlCount with waitConditions := none }
  | .pBowlCount => acquire (0 < s.maxBowlCount)
      { s.goto t .acquireFree with maxBowlCount := s.maxBowlCount - 1 }
  | .acquireFree => acquire (s.freeBlockBowls = none)
      { s.goto t .takeBowl with freeBlockBowls := some t }
  | .takeBowl =>
    match s.freeBowlsList with
    | [] => some (s.goto t .releaseFree)
    | b :: rest => some { s.goto t .releaseFree with
        bowl := update s.bowl t b, freeBowlsList := rest }
  | .releaseFree => some { s.goto t .callEat with freeBlockBowls := none }
  | .callEat =>
    if ¬ (1 ≤ s.bowl t ∧ s.bowl t ≤ c.numBowls) then some (s.fail .assertBowl)
    else if s.bowl t = 0 ∨ c.numBowls < s.bowl t then some (s.fail .invalidBowl)
    else some (s.goto t .pMutexStart)
  | .pMutexStart => acquire (0 < s.mutex) { s.goto t .eatStart with mutex := s.mutex - 1 }
  | .eatStart => some (eatStart s t sp)
  | .vMutexStart => some { s.goto t .eating with mutex := s.mutex + 1 }
  | .eating => some (s.goto t .pMutexFinish)
  | .pMutexFinish => acquire (0 < s.mutex) { s.goto t .eatFinish with mutex := s.mutex - 1 }
  | .eatFinish => some (eatFinish s t sp)
  | .vMutexFinish => some { s.goto t .acquireFreeAgain with mutex := s.mutex + 1 }
  | .acquireFreeAgain => acquire (s.freeBlockBowls = none)
      { s.goto t .putBowl with freeBlockBowls := some t }
  | .putBowl => some { s.goto t .releaseFreeAgain with freeBowlsList := s.freeBowlsList ++ [s.bowl t] }
  | .releaseFreeAgain => some { s.goto t .acquireWaitAgain with freeBlockBowls := none }
  | .acquireWaitAgain => acquire (s.waitConditions = none)
      { s.goto t .leave with waitConditions := some t }
  | .leave => some (leave c s t sp)
  | .releaseWaitAgain => some { s.goto t .vBowlCount with waitConditions := none }
  | .vBowlCount =>
    let s := { s with
      maxBowlCount := s.maxBowlCount + 1
      loops := update s.loops t (s.loops t + 1) }
    some (s.goto t (if s.loops t < c.numLoops then .sleep else .done))
  | .done => some { s.goto t .gone with catMouseWait := s.catMouseWait + 1 }
  | .gone => none

def catSimulation (c : Config) : State → Nat → Option State := simulation c .cat

def mouseSimulation (c : Config) : State → Nat → Option State := simulation c .mouse

def step (c : Config) (s : State) (t : Nat) : Option State := if s.panic.isSome then none
  else if t < c.numCats then catSimulation c s t
  else if t < c.animals then mouseSimulation c s t
  else none

/-- As the counters of `catmouse.c`, those of `bowls.c`, and `cat_eat` and `mouse_eat` see it. -/
def Exclusive (s : State) : Prop := ¬ (0 < s.eating .cat ∧ 0 < s.eating .mouse) ∧
  ¬ (0 < s.bowlsEating .cat ∧ 0 < s.bowlsEating .mouse) ∧
  s.panic ≠ some .otherSpecies

instance (s : State) : Decidable (Exclusive s) :=
  inferInstanceAs (Decidable (_ ∧ _ ∧ _))

end Os161.CatMouse
