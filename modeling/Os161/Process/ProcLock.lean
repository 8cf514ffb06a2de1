import Os161.Lib.Critical

/-!
# Who holds `proc_lock`

The functions that take `proc_lock`, and `sys_fork`, as graphs. `runprogram` and `execv` return with
the lock when there is no slot or no descriptor table. `waitpid` stores the status under the lock, and
a fault there calls `_exit`, which waits for it.
-/

namespace Os161.Process.ProcLock

open Lib Critical

inductive Entry where
  | runprogram | mdForkentry | execv | waitpid | exit | fork
  deriving DecidableEq

/-- `readonly` is a store to a page that may not be written. A test fails when the `if` is taken. -/
inductive Outcome where
  | ok | fails | readonly
  | enter (f : Entry)
  deriving DecidableEq

instance : Inhabited Outcome := ⟨.ok⟩

inductive Place where
  | new | out | gone                               -- a new thread; in user mode; after `thread_exit`
  -- `runprogram`, from `cmd_progthread`
  | rLoad                                          -- up to `as_define_stack`
  | rAcquire | rAdd | rTable | rRelease | rArgs
  | rReturned                                      -- with an error, and the thread exits
  -- `execv`
  | eLoad | eTest | eAcquire | eAdd | eExitCode | eTable | eRelease | eArgs
  -- `waitpid`
  | wOptions | wGet | wAcquire | wNull | wStoreNull | wParent | wExited
  | wWait | wSleep | wRelock                       -- `cv_wait`
  | wStore | wRemove | wRelease
  -- `_exit`
  | xAcquire | xParent | xProcess | xSignal | xRelease | xClose
  -- `sys_fork` and `md_forkentry`
  | fSem | fThread | fWait
  | cCopy | cAdd | cTable | cDone | cExit
  deriving DecidableEq

abbrev Code := Op Outcome Place

def branch (ok fails : Place) : Code := .call fun
  | .ok => some ok
  | .fails => some fails
  | _ => none

def goto (p : Place) : Code := .call fun
  | .ok => some p
  | _ => none

def store (p : Place) : Code := .call fun
  | .ok => some p
  | .readonly => some .xAcquire
  | _ => none

def Entry.start : Entry → Place
  | .runprogram => .rLoad
  | .mdForkentry => .cCopy
  | .execv => .eLoad
  | .waitpid => .wOptions
  | .exit => .xAcquire
  | .fork => .fSem

def code : Place → Code
  | .new => .call fun
    | .enter .runprogram => some Entry.runprogram.start
    | .enter .mdForkentry => some Entry.mdForkentry.start
    | _ => none
  | .out => .call fun
    | .enter .execv => some Entry.execv.start
    | .enter .waitpid => some Entry.waitpid.start
    | .enter .exit => some Entry.exit.start
    | .enter .fork => some Entry.fork.start
    | _ => none
  | .gone => .call fun _ => none
  | .rLoad => branch .rAcquire .rReturned
  | .rAcquire => .acquire .rAdd
  | .rAdd => branch .rTable .rReturned
  | .rTable => branch .rRelease .rReturned
  | .rRelease => .release .rArgs
  | .rArgs => goto .out
  | .rReturned => goto .gone
  | .eLoad => branch .eTest .out
  | .eTest => branch .eArgs .eAcquire
  | .eAcquire => .acquire .eAdd
  | .eAdd => branch .eExitCode .out
  -- reads through `t_process`, which is NULL: this panics unless page 0 is in use
  | .eExitCode => goto .eTable
  | .eTable => branch .eRelease .out
  | .eRelease => .release .eArgs
  | .eArgs => goto .out
  | .wOptions => branch .wGet .out
  | .wGet => goto .wAcquire
  | .wAcquire => .acquire .wNull
  | .wNull => branch .wParent .wStoreNull
  | .wStoreNull => store .wRelease
  | .wParent => branch .wExited .wRelease
  | .wExited => branch .wStore .wWait
  | .wWait => .release .wSleep
  | .wSleep => goto .wRelock
  | .wRelock => .acquire .wExited
  | .wStore => store .wRemove
  | .wRemove => goto .wRelease
  | .wRelease => .release .out
  | .xAcquire => .acquire .xParent
  | .xParent => branch .xProcess .xRelease
  | .xProcess => branch .xSignal .xRelease
  | .xSignal => goto .xRelease
  | .xRelease => .release .xClose
  | .xClose => goto .gone
  | .fSem => branch .fThread .out
  | .fThread => branch .fWait .out
  | .fWait => goto .out
  | .cCopy => branch .cAdd .cExit
  | .cAdd => branch .cTable .cExit
  | .cTable => branch .cDone .cExit
  | .cDone => goto .out
  | .cExit => goto .gone

variable {T : Type} [DecidableEq T]

abbrev step : State T Place → T × Outcome → Option (State T Place) := Critical.step code

def start : State T Place := ⟨none, fun _ => .new⟩

def Place.ended : Place → Bool
  | .out | .gone | .rReturned => true
  | _ => false

/-- Whoever has the lock can give it back. -/
structure Returned (s : State T Place) : Prop where
  ended : ∀ t, (s.pc t).ended = true → s.lock ≠ some t
  held : ∀ t, s.lock = some t → Releases code s t

/-- There is a slot and a file table, and the status page may be written. -/
def succeeds : Place → Outcome → Bool
  | .rAdd, .fails | .rTable, .fails | .eAdd, .fails | .eTable, .fails => false
  | .wStoreNull, .readonly | .wStore, .readonly => false
  | _, _ => true

def Succeeds (s : State T Place) (l : T × Outcome) : Prop := succeeds (s.pc l.1) l.2 = true

instance (s : State T Place) (l : T × Outcome) : Decidable (Succeeds s l) :=
  inferInstanceAs (Decidable (_ = true))

/-! ## The sections -/

def holds : Place → Bool
  | .rAdd | .rTable | .rRelease | .eAdd | .eExitCode | .eTable | .eRelease => true
  | .wNull | .wStoreNull | .wParent | .wExited | .wWait | .wStore | .wRemove | .wRelease => true
  | .xParent | .xProcess | .xSignal | .xRelease => true
  | _ => false

section Places

variable {p q : Place} {o : Outcome}

theorem leads_ok (h : Leads code q) (hq : (code p).after .ok = some q) : Leads code p := .call hq h

theorem leads_fails (h : Leads code q) (hq : (code p).after .fails = some q) : Leads code p :=
  .call hq h

theorem leads_of_holds (h : holds p = true) : Leads code p := by
  have hr : Leads code .rRelease := .release rfl
  have hrt : Leads code .rTable := leads_ok hr rfl
  have he : Leads code .eRelease := .release rfl
  have het : Leads code .eTable := leads_ok he rfl
  have hec : Leads code .eExitCode := leads_ok het rfl
  have hw : Leads code .wRelease := .release rfl
  have hwait : Leads code .wWait := .release rfl
  have hremove : Leads code .wRemove := leads_ok hw rfl
  have hparent : Leads code .wParent := leads_fails hw rfl
  have hx : Leads code .xRelease := .release rfl
  cases p with
  | rRelease => exact hr
  | rTable => exact hrt
  | rAdd => exact leads_ok hrt rfl
  | eRelease => exact he
  | eTable => exact het
  | eExitCode => exact hec
  | eAdd => exact leads_ok hec rfl
  | wRelease => exact hw
  | wWait => exact hwait
  | wRemove => exact hremove
  | wStore => exact leads_ok hremove rfl
  | wExited => exact leads_fails hwait rfl
  | wParent => exact hparent
  | wStoreNull => exact leads_ok hw rfl
  | wNull => exact leads_ok hparent rfl
  | xRelease => exact hx
  | xSignal => exact leads_ok hx rfl
  | xProcess => exact leads_fails hx rfl
  | xParent => exact leads_fails hx rfl
  | _ => cases h

theorem branch_after {a b : Place} (h : q ∈ (branch a b).after o) :
    (o = .ok ∧ q = a) ∨ (o = .fails ∧ q = b) := by
  cases o <;> cases h
  · exact .inl ⟨rfl, rfl⟩
  · exact .inr ⟨rfl, rfl⟩

theorem goto_after {a : Place} (h : q ∈ (goto a).after o) : o = .ok ∧ q = a := by
  cases o <;> cases h
  exact ⟨rfl, rfl⟩

theorem store_after {a : Place} (h : q ∈ (store a).after o) :
    (o = .ok ∧ q = a) ∨ (o = .readonly ∧ q = .xAcquire) := by
  cases o <;> cases h
  · exact .inl ⟨rfl, rfl⟩
  · exact .inr ⟨rfl, rfl⟩

theorem holds_of_after (hq : q ∈ (code p).after o) (h : holds q = true) : holds p = true := by
  cases p <;> first
    | rfl
    | (obtain ⟨-, rfl⟩ | ⟨-, rfl⟩ := branch_after hq <;> cases h)
    | (obtain ⟨-, rfl⟩ := goto_after hq; cases h)
    | (cases o with
       | enter f => cases f <;> cases hq <;> cases h
       | _ => cases hq)

theorem sections : Sections code holds where
  leads p := by
    refine ⟨leads_of_holds, fun h => ?_⟩
    induction h with
    | @release p q hop => cases p <;> first | rfl | cases hop
    | @call p q o hq _ ih => exact holds_of_after hq ih
  enter p q hop := by cases p <;> cases hop <;> rfl
  leave p q hop := by cases p <;> cases hop <;> rfl

theorem succeeds_of_stays (h : ∀ q ∈ (code p).after o, holds p = true → holds q = true) :
    succeeds p o = true := by
  by_contra hne
  have hout : ∃ q ∈ (code p).after o, holds p = true ∧ holds q = false := by
    unfold succeeds at hne
    split at hne
    · exact ⟨_, rfl, rfl, rfl⟩
    · exact ⟨_, rfl, rfl, rfl⟩
    · exact ⟨_, rfl, rfl, rfl⟩
    · exact ⟨_, rfl, rfl, rfl⟩
    · exact ⟨_, rfl, rfl, rfl⟩
    · exact ⟨_, rfl, rfl, rfl⟩
    · exact absurd rfl hne
  obtain ⟨q, hq, hp, hfalse⟩ := hout
  rw [h q hq hp] at hfalse
  cases hfalse

theorem stays_of_succeeds (h : succeeds p o = true) (hq : q ∈ (code p).after o)
    (hp : holds p = true) : holds q = true := by
  cases p <;> first
    | exact absurd hp Bool.false_ne_true
    | (obtain ⟨rfl, rfl⟩ | ⟨rfl, rfl⟩ := branch_after hq <;> first | rfl | cases h)
    | (obtain ⟨-, rfl⟩ := goto_after hq; rfl)
    | (obtain ⟨-, rfl⟩ | ⟨rfl, rfl⟩ := store_after hq <;> first | rfl | cases h)
    | cases hq

end Places

theorem stays_iff {T : Type} {s : State T Place} (l : T × Outcome) : Stays code holds s l ↔ Succeeds s l :=
  ⟨succeeds_of_stays, fun h _ => stays_of_succeeds h⟩

theorem matched_start {T : Type} : Matched holds (start : State T Place) := by
  intro t
  simp [start, holds]

theorem ended_not_leads {p : Place} (h : p.ended = true) : ¬ Leads code p := by
  rw [← sections.leads p]
  cases p <;> cases h <;> exact Bool.false_ne_true

theorem returned_iff (s : State T Place) :
    Returned s ↔ ∀ t, s.lock = some t → Releases code s t := by
  refine ⟨fun h => h.held, fun h => ⟨fun t hended howner => ?_, h⟩⟩
  exact ended_not_leads hended ((releases_iff howner).mp (h t howner))

theorem returned_iff_succeeds (s : State T Place) (ls : List (T × Outcome))
    (hrun : run step start ls = some s) :
    Always step Returned start ls ↔ Meets step Succeeds start ls := by
  have hall := always_releases_iff sections matched_start hrun
  have hreturned : (fun s : State T Place => ∀ t, s.lock = some t → Releases code s t) = Returned :=
    funext fun s => propext (returned_iff s).symm
  have hstays : Stays (T := T) code holds = Succeeds :=
    funext fun s => funext fun l => propext (stays_iff l)
  rw [hreturned, hstays] at hall
  exact hall

/-- The child stores its exit code between the parent's `cv_wait` and its return. -/
def forkAndWait : List (Bool × Outcome) :=
  [(false, .enter .runprogram), (false, .ok), (false, .ok), (false, .ok), (false, .ok),
    (false, .ok), (false, .ok),
    (false, .enter .fork), (false, .ok), (false, .ok),
    (true, .enter .mdForkentry), (true, .ok), (true, .ok), (true, .ok), (true, .ok),
    (false, .ok),
    (false, .enter .waitpid), (false, .ok), (false, .ok), (false, .ok), (false, .ok), (false, .ok),
    (false, .fails), (false, .ok),
    (true, .enter .exit), (true, .ok), (true, .ok), (true, .ok), (true, .ok), (true, .ok),
    (true, .ok),
    (false, .ok), (false, .ok), (false, .ok), (false, .ok), (false, .ok), (false, .ok),
    (false, .enter .exit), (false, .ok), (false, .fails), (false, .ok), (false, .ok)]

theorem returned_fork_and_wait : ∃ s, run step start forkAndWait = some s ∧
    s.lock = none ∧ s.pc true = .gone ∧ s.pc false = .gone ∧
    Always step Returned start forkAndWait := by
  refine ⟨_, rfl, rfl, rfl, rfl, ?_⟩
  exact (returned_iff_succeeds _ forkAndWait rfl).mpr (by decide)

/-- `runprogram` returns when the table is full, and its thread exits with the lock. -/
theorem kept_when_table_full : ∃ s : State Bool Place,
    run step start [(false, .enter .runprogram), (false, .ok), (false, .ok), (false, .fails),
      (false, .ok), (true, .enter .runprogram), (true, .ok)] = some s ∧
    s.pc false = .gone ∧ s.lock = some false ∧ s.pc true = .rAcquire ∧
    ¬ Releases code s false := by
  refine ⟨_, rfl, rfl, rfl, rfl, ?_⟩
  rw [releases_iff rfl]
  exact ended_not_leads rfl

end Os161.Process.ProcLock
