import Os161.Process.Waitpid
import Os161.Thread.Proofs

/-!
# `_exit`, one section at a time

`cv_wait` gives up `proc_lock` in one section at `splhigh` and sleeps in another, and `_exit` signals
in a section of its own. This adds these places to `Process.Waitpid`. A thread that waits for the
lock stands still until it is free.
-/

open Function Option

namespace Os161.Process.Exit

open Lib Thread

inductive Addr where
  | exitCv (cv : Nat)
  | other (b : Nat)
  deriving DecidableEq

inductive Place where
  | enter (p : Nat) (code : Int)                   -- before `lock_acquire`
  | held (p : Nat) (code : Int)
  | signal (p cv : Nat)                            -- calls `cv_signal`
  | destroy (p : Nat)                              -- calls `cv_destroy`
  | unlock                                         -- calls `lock_release`
  deriving DecidableEq

/-- `gap` is the condition variable of a thread between the two sections of `cv_wait`. `reaped` is
history: the `uid` of the child that `waitpid` has removed. -/
structure State (T : Type) where
  wait : Waitpid.State T
  gap : T → Option Nat
  sleepers : List (T × Addr)
  exits : T → Option Place
  reaped : T → Option Nat

inductive Label (T : Type) where
  | wait (l : Waitpid.Label T)
  | sleep (t : T)                                  -- the second section of `cv_wait`
  | exit (t : T) (code : Int)
  | next (t : T)                                   -- the next section of `_exit`
  | threadSleep (t : T) (b : Nat)                  -- in other code
  | threadWakeup (b : Nat)

def atOnce {T : Type} : Waitpid.Label T → Bool
  | .other (.exit _ _) => true
  | _ => false

def threads {T : Type} : Waitpid.Label T → List T
  | .other (.runprogram t _ _) | .other (.next t _ _) | .call t _ _ _ | .next t => [t]
  | .other (.fork me t) => [me, t]
  | .other (.waitpid me _) | .other (.exit me _) => [me]

def sleepaddr {T : Type} (x : T × Addr) : Option Addr := some x.2

def wake {T : Type} (stop : Nat → Bool) (addr : Addr) (l : List (T × Addr)) : List (T × Addr) :=
  (wakeLoop stop addr sleepaddr [] l).1

section Machine

variable {T : Type} [DecidableEq T]

def Free (s : State T) (t : T) : Prop :=
  s.gap t = none ∧ t ∉ s.sleepers.map Prod.fst ∧ s.exits t = none

instance (s : State T) (t : T) : Decidable (Free s t) := inferInstanceAs (Decidable (_ ∧ _ ∧ _))

def State.set (s : State T) (race : Race.State T) (lock : Option T) (t : T) (x : Option Place) :
    State T :=
  { s with wait := ⟨race, lock, s.wait.place⟩, exits := update s.exits t x }

/-- The thread that leaves its process is gone for `Process.Race`. -/
def next (s : State T) (t : T) : Place → Option (State T) :=
  let race := s.wait.race
  let tab := race.tab
  let lock := s.wait.lock
  fun
  | .enter p code => if lock = none then some (s.set race (some t) t (some (.held p code))) else none
  | .held p code =>
    -- "I'm a root, just exit"
    if (tab.heap p).parent = none then
      some (s.set ⟨tab, update race.pc t .gone⟩ lock t (some .unlock))
    else (exitProcess tab (tab.heap p).pid code).map fun tab' =>
      s.set ⟨tab', update race.pc t .gone⟩ lock t (some (.signal p (tab.heap p).exitCv))
  | .signal p cv =>
    some { s.set ⟨{ tab with signalled := update tab.signalled (tab.heap p).uid true }, race.pc⟩ lock t
        (some (.destroy p)) with
      -- `thread_wakeup_n(cv, 1)`
      sleepers := wake (fun i => decide ((1 : Int) - 1 = (i : Int) - 1)) (.exitCv cv) s.sleepers }
  | .destroy p =>
    some (s.set ⟨{ tab with cvs := update tab.cvs (tab.heap p).exitCv none }, race.pc⟩ lock t
      (some .unlock))
  | .unlock => some (s.set race none t none)

def cvOf (wait : Waitpid.State T) (t : T) : Option Nat := match wait.place t with
  | some (.asleep _ kid) => some (wait.race.tab.heap kid).exitCv
  | _ => none

def removedBy (s : State T) (t : T) : Option Nat := match s.wait.place t with
  | some (.remove _ kid _) => some (s.wait.race.tab.heap kid).uid
  | _ => s.reaped t

def after (s : State T) (wait : Waitpid.State T) : Waitpid.Label T → State T
  | .next t => { s with
      wait
      gap := update s.gap t (cvOf wait t)
      reaped := update s.reaped t (removedBy s t) }
  | _ => { s with wait }

def step (s : State T) : Label T → Option (State T)
  | .wait l =>
    if (∀ t ∈ threads l, Free s t) ∧ atOnce l = false then
      (Waitpid.step s.wait l).map fun wait => after s wait l
    else none
  | .sleep t => (s.gap t).map fun cv =>
    { s with gap := update s.gap t none, sleepers := s.sleepers ++ [(t, .exitCv cv)] }
  | .exit t code =>
    match s.wait.race.pc t with
    | .user p =>
      if Free s t ∧ s.wait.place t = none then
        let tab := s.wait.race.tab
        some (s.set ⟨{ tab with passed := update tab.passed (tab.heap p).uid (some code) },
          s.wait.race.pc⟩ s.wait.lock t (some (.enter p code)))
      else none
    | _ => none
  | .next t => (s.exits t).bind (next s t)
  | .threadSleep t b =>
    if Free s t ∧ s.wait.place t = none then
      some { s with sleepers := s.sleepers ++ [(t, .other b)] }
    else none
  | .threadWakeup b => some { s with sleepers := wake (fun _ => false) (.other b) s.sleepers }

end Machine

variable {T : Type}

def start (junk : Nat → Proc) : State T :=
  ⟨Waitpid.start junk, fun _ => none, [], fun _ => none, fun _ => none⟩

/-! ## What `waitpid` promises -/

/-- No parent sleeps on the condition variable of a child that has signalled it. -/
def NoLostExit (s : State T) : Prop := ∀ t pid kid cv, s.wait.place t = some (.asleep pid kid) →
  (t, .exitCv cv) ∈ s.sleepers → let k := s.wait.race.tab.heap kid
    ¬ (k.exit = true ∧ s.wait.race.tab.signalled k.uid = true)

/-- The status is what a child of the caller passed to `_exit`, and its slot was removed once. -/
structure Reaped (tab : Tab) (me uid : Nat) (r : Waitpid.Ret) : Prop where
  child : tab.kin uid = some ((tab.heap me).uid, r.value)
  status : ∃ status, r.status = some status ∧ tab.passed uid = some status
  once : tab.removals uid = 1

/-- When `waitpid` is about to return a pid. -/
def Returned (s : State T) : Prop := ∀ t r, s.wait.place t = some (.unlock r) → r.errno = none →
    ∃ me uid, s.wait.race.pc t = .user me ∧ s.reaped t = some uid ∧ Reaped s.wait.race.tab me uid r

def waitsFor (s : State T) (t : T) : Option Nat := match s.wait.place t with
  | some (.asleep _ kid) => some kid
  | _ => none

/-- No exit is signalled while the parent is in the gap, no call reads past the end of the table, and
nobody looks at a slot that another thread has picked. -/
def Careful [DecidableEq T] (s : State T) : Label T → Prop
  | .wait l => Waitpid.Orderly s.wait l
  | .next t =>
    match s.exits t with
    | some (.signal p _) => ∀ u, s.gap u ≠ none → waitsFor s u ≠ some p
    | _ => True
  | _ => True

instance [Fintype T] [DecidableEq T] (s : State T) : ∀ l, Decidable (Careful s l)
  | .wait l => inferInstanceAs (Decidable (Waitpid.Orderly s.wait l))
  | .next t =>
    match h : s.exits t with
    | some (.signal p _) =>
      decidable_of_iff (∀ u, s.gap u ≠ none → waitsFor s u ≠ some p) (by simp [Careful, h])
    | some (.enter _ _) | some (.held _ _) | some (.destroy _) | some .unlock | none =>
      .isTrue (by simp [Careful, h])
  | .sleep _ | .exit _ _ | .threadSleep _ _ | .threadWakeup _ => inferInstanceAs (Decidable True)

/-! ## Threads that do something else -/

@[simp] def holds : Waitpid.Place → Bool
  | .held _ _ | .loop _ _ | .reap _ _ | .remove _ _ _ | .unlock _ => true
  | .got _ _ | .asleep _ _ | .back _ => false

def Owner (w : Waitpid.State T) : Prop :=
  ∀ t a, w.place t = some a → holds a = true → w.lock = some t

section Others

variable [DecidableEq T] {w w' : Waitpid.State T} {l : Waitpid.Label T} {t u : T} {me : Nat}
  {a : Waitpid.Place}

/-- What a step of `waitpid` at `a` does. -/
structure Turn (w w' : Waitpid.State T) (t : T) (a : Waitpid.Place) : Prop where
  pc : w'.race.pc = w.race.pc
  place : ∀ u, u ≠ t → w'.place u = w.place u
  lock : w'.lock = w.lock ∨ w.lock = none ∨ w.lock = some t
  self : ∀ b, w'.place t = some b → holds b = true → w'.lock = some t
  tab : w'.race.tab = w.race.tab ∨
    ∃ pid kid status, a = .remove pid kid status ∧ w'.race.tab = w.race.tab.without kid
  asleep : ∀ pid kid, w'.place t = some (.asleep pid kid) →
    w'.race.tab = w.race.tab ∧ (w.race.tab.heap kid).exit = false

theorem turn_proceed {b : Waitpid.Place} (hown : w.lock = some t)
    (hb : ∀ pid kid, b = .asleep pid kid → (w.race.tab.heap kid).exit = false) :
    Turn w (w.proceed t b) t a := by
  have hplace : (w.proceed t b).place t = some b := update_self ..
  refine ⟨rfl, fun u hu => update_of_ne hu .., .inr (.inr hown), fun c hc hholds => ?_, .inl rfl,
    fun pid kid hc => ⟨rfl, hb pid kid ?_⟩⟩
  · rw [hplace, some.injEq] at hc
    subst hc
    change (if b.sleeps = true then none else w.lock) = some t
    rw [if_neg, hown]
    cases b <;> simp [Waitpid.Place.sleeps] at hholds ⊢
  · rwa [hplace, some.injEq] at hc

theorem turn (hw : Waitpid.Inv w) (hown : Owner w) (hpc : w.race.pc t = .user me)
    (hplace : w.place t = some a) (h : Waitpid.next w t me a = some w') : Turn w w' t a := by
  cases a with
  | got pid kid | asleep pid kid =>
    obtain ⟨hfree, rfl⟩ := ite_some_none_eq_some.mp h
    refine ⟨rfl, fun u hu => update_of_ne hu .., .inr (.inl hfree), fun _ _ _ => rfl, .inl rfl, ?_⟩
    intro pid kid ht
    cases (update_self t _ w.place).symm.trans ht
  | held pid kid =>
    cases h
    refine turn_proceed (hown t _ hplace rfl) fun pid' kid' hcheck => ?_
    unfold Waitpid.check at hcheck
    split at hcheck
    · cases hcheck
    · split_ifs at hcheck with hparent hexit
      cases hcheck
      exact Bool.eq_false_of_not_eq_true hexit
  | loop pid kid =>
    cases h
    refine turn_proceed (hown t _ hplace rfl) fun pid' kid' hloop => ?_
    split_ifs at hloop with hexit
    cases hloop
    exact Bool.eq_false_of_not_eq_true hexit
  | remove pid kid status =>
    have hknows := hw.place_of hpc hplace
    unfold Waitpid.next at h
    dsimp only at h
    rw [removeProcess_eq hw.race.ok hknows.1.allocated] at h
    cases h
    refine ⟨rfl, fun u hu => update_of_ne hu .., .inl rfl, fun _ _ _ => hown t _ hplace rfl,
      .inr ⟨pid, kid, status, rfl, rfl⟩, fun pid kid ht => ?_⟩
    cases (update_self t _ w.place).symm.trans ht
  | reap pid kid =>
    cases h
    refine ⟨rfl, fun u hu => update_of_ne hu .., .inl rfl, fun _ _ _ => hown t _ hplace rfl, .inl rfl,
      fun pid kid ht => ?_⟩
    cases (update_self t _ w.place).symm.trans ht
  | unlock r =>
    cases h
    refine ⟨rfl, fun u hu => update_of_ne hu .., .inr (.inr (hown t _ hplace rfl)), fun b hb hholds => ?_,
      .inl rfl, fun pid kid ht => ?_⟩
    · cases (update_self t _ w.place).symm.trans hb
      cases hholds
    · cases (update_self t _ w.place).symm.trans ht
  | back r =>
    cases h
    refine ⟨rfl, fun u hu => update_of_ne hu .., .inl rfl, fun b hb _ => ?_, .inl rfl,
      fun pid kid ht => ?_⟩
    · cases (update_self t _ w.place).symm.trans hb
    · cases (update_self t _ w.place).symm.trans ht

theorem step_cases (hw : Waitpid.Inv w) (hown : Owner w) (h : Waitpid.step w l = some w') :
    (∃ r, l = .other r ∧ Waitpid.Ready w r ∧ Race.step w.race r = some w'.race ∧
      w'.lock = w.lock ∧ w'.place = w.place) ∨
    (∃ t a, l.caller = some t ∧ l ≠ .next t ∧ w'.race = w.race ∧ w'.lock = w.lock ∧
      w'.place = update w.place t (some a) ∧ holds a = false) ∨
    ∃ t me a, l = .next t ∧ w.race.pc t = .user me ∧ w.place t = some a ∧ Turn w w' t a := by
  cases l with
  | other r =>
    obtain ⟨hready, h⟩ := ite_none_right_eq_some.mp h
    obtain ⟨race, hrace, rfl⟩ := map_eq_some_iff.mp h
    exact .inl ⟨r, rfl, hready, hrace, rfl, rfl⟩
  | call t pid options beyond =>
    unfold Waitpid.step at h
    dsimp only at h
    split at h
    · next me hpc hplace =>
      refine .inr (.inl ?_)
      split at h <;> cases h <;> exact ⟨t, _, rfl, nofun, rfl, rfl, rfl, rfl⟩
    · cases h
  | next t =>
    unfold Waitpid.step at h
    dsimp only at h
    split at h
    · next me a hpc hplace =>
      exact .inr (.inr ⟨t, me, a, rfl, hpc, hplace, turn hw hown hpc hplace h⟩)
    · cases h

section

variable (hw : Waitpid.Inv w) (hown : Owner w) (h : Waitpid.step w l = some w')
include hw hown h

theorem step_place (hu : l.caller ≠ some u) : w'.place u = w.place u := by
  rcases step_cases hw hown h with ⟨r, -, -, -, -, hplace⟩ | ⟨t, a, hcaller, -, -, -, hplace, -⟩ |
    ⟨t, me, a, rfl, -, -, hturn⟩
  · rw [hplace]
  · rw [hplace]
    apply update_of_ne
    rintro rfl
    exact hu hcaller
  · apply hturn.place
    rintro rfl
    exact hu rfl

theorem step_keeps (hu : l.caller ≠ some u) (hpc : w.race.pc u = .user me) :
    w'.race.pc u = .user me ∧ Keeps w.race.tab w'.race.tab (some me) := by
  rcases step_cases hw hown h with ⟨r, rfl, hready, hrace, -⟩ | ⟨t, a, -, -, hrace, -⟩ |
    ⟨t, me', a, rfl, ht, hplace, hturn⟩
  · exact Waitpid.keeps_of_step hw.race hready hpc hu hrace
  · rw [hrace]
    exact ⟨hpc, .refl ..⟩
  · rw [hturn.pc]
    refine ⟨hpc, ?_⟩
    rcases hturn.tab with htab | ⟨pid, kid, status, rfl, htab⟩ <;> rw [htab]
    · exact .refl ..
    · obtain ⟨hchild, hexit, -⟩ := hw.place_of ht hplace
      refine keeps_remove hw.race.ok hchild.allocated hexit (.inl ?_)
      rw [hchild.parent]
      rintro ⟨⟩
      apply hu
      apply congrArg some
      apply hw.race.inj t u me <;> simp [ht, hpc]

end

theorem steady_of_step {s s' : Race.State T} {r : Race.Label T} (h : Race.Inv s)
    (hwait : ∀ t pid, r ≠ .waitpid t pid) (hexit : ∀ t code, r ≠ .exit t code)
    (hstep : Race.step s r = some s') : Steady s.tab s'.tab none := by
  cases r with
  | runprogram t p cv =>
    obtain ⟨-, hstep⟩ := ite_none_right_eq_some.mp hstep
    split at hstep
    · cases hstep
      exact .refl ..
    · obtain ⟨tab', hadd, rfl⟩ := map_eq_some_iff.mp hstep
      have hc : Created s.tab tab' none p := addProcess_spec h.ok nofun hadd
      exact hc.steady
  | fork parent t =>
    unfold Race.step at hstep
    dsimp only at hstep
    split at hstep
    · obtain ⟨-, hstep⟩ := ite_none_right_eq_some.mp hstep
      cases hstep
      exact .refl ..
    · cases hstep
  | next t p cv =>
    rcases (Race.next_cases h hstep).2 with heq | ⟨x, -, -, horphan, heq⟩ |
      ⟨parent, i, q, -, hfree, hcv, heq⟩ <;> rw [heq]
    · exact .refl ..
    · exact steady_orphan horphan
    · exact steady_create hfree hcv
  | waitpid t pid => exact absurd rfl (hwait t pid)
  | exit t code => exact absurd rfl (hexit t code)

/-- A process is only taken from its parent by a thread that holds the lock. -/
theorem step_steady (hw : Waitpid.Inv w) (hown : Owner w) (hl : atOnce l = false)
    (h : Waitpid.step w l = some w') : ∃ gone, Steady w.race.tab w'.race.tab gone ∧
      (gone = none ∨ ∃ t, l.caller = some t ∧ w.lock = some t) := by
  rcases step_cases hw hown h with ⟨r, rfl, hready, hrace, -⟩ | ⟨t, a, -, -, hrace, -⟩ |
    ⟨t, me', a, rfl, -, hplace, hturn⟩
  · refine ⟨none, steady_of_step hw.race ?_ ?_ hrace, .inl rfl⟩
    · rintro t pid rfl
      exact hready
    · rintro t code rfl
      cases hl
  · rw [hrace]
    exact ⟨none, .refl .., .inl rfl⟩
  · rcases hturn.tab with htab | ⟨pid, kid, status, rfl, htab⟩ <;> rw [htab]
    · exact ⟨none, .refl .., .inl rfl⟩
    · exact ⟨some kid, steady_remove, .inr ⟨t, rfl, hown t _ hplace rfl⟩⟩

theorem step_lock (hw : Waitpid.Inv w) (hown : Owner w) (h : Waitpid.step w l = some w') :
    Owner w' ∧ ∀ u, w.lock = some u → l.caller ≠ some u → w'.lock = some u := by
  rcases step_cases hw hown h with ⟨r, rfl, -, -, hlock, hplace⟩ |
    ⟨t, a, -, -, -, hlock, hplace, ha⟩ | ⟨t, me, a, rfl, ht, hplace, hturn⟩
  · rw [Owner, hplace, hlock]
    exact ⟨hown, fun u hu _ => hu⟩
  · rw [Owner, hplace, hlock]
    refine ⟨fun u b hb hholds => ?_, fun u hu _ => hu⟩
    by_cases hut : u = t
    · rw [hut, update_self] at hb
      cases hb
      rw [ha] at hholds
      cases hholds
    · rw [update_of_ne hut] at hb
      exact hown u b hb hholds
  · have hother : ∀ u, w.lock = some u → u ≠ t → w'.lock = some u := by
      intro u hu hut
      rcases hturn.lock with heq | hnone | hmine
      · rw [heq, hu]
      · rw [hnone] at hu
        cases hu
      · exact absurd (some.inj (hu.symm.trans hmine)) hut
    refine ⟨fun u b hb hholds => ?_, fun u hu hcaller => hother u hu ?_⟩
    · by_cases hut : u = t
      · subst hut
        exact hturn.self b hb hholds
      · rw [hturn.place u hut] at hb
        exact hother u (hown u b hb hholds) hut
    · rintro rfl
      exact hcaller rfl

end Others

/-! ## The invariant -/

def Knows (w : Waitpid.State T) (t : T) : Place → Prop
  | .enter p code => w.race.pc t = .user p ∧ w.race.tab.passed (w.race.tab.heap p).uid = some code
  | .held p code => w.lock = some t ∧
    w.race.pc t = .user p ∧ w.race.tab.passed (w.race.tab.heap p).uid = some code
  | .signal p cv => w.lock = some t ∧ Exiting w.race.tab p ∧ (w.race.tab.heap p).exitCv = cv ∧
    w.race.tab.signalled (w.race.tab.heap p).uid = false
  | .destroy p => w.lock = some t ∧ Exiting w.race.tab p
  | .unlock => w.lock = some t

def Waits (w : Waitpid.State T) (t : T) (cv : Nat) : Prop :=
  ∃ pid k, w.place t = some (.asleep pid k) ∧ (w.race.tab.heap k).exitCv = cv ∧
    w.race.tab.signalled (w.race.tab.heap k).uid = false

structure Inv (s : State T) : Prop where
  wait : Waitpid.Inv s.wait
  owner : Owner s.wait
  exits : ∀ t x, s.exits t = some x → s.wait.place t = none ∧ Knows s.wait t x
  waits : ∀ t cv, s.gap t = some cv ∨ (t, .exitCv cv) ∈ s.sleepers → Waits s.wait t cv
  gap : ∀ t, s.gap t ≠ none → t ∉ s.sleepers.map Prod.fst
  nodup : s.sleepers.Nodup
  signals : ∀ k, s.wait.race.tab.allocated k = true → (s.wait.race.tab.heap k).exit = true →
    s.wait.race.tab.signalled (s.wait.race.tab.heap k).uid = false →
      ∃ t cv, s.exits t = some (.signal k cv)
  returned : Returned s

theorem inv_start (junk : Nat → Proc) : Inv (start junk : State T) :=
  ⟨Waitpid.inv_start junk, nofun, nofun, by rintro t cv (⟨⟨⟩⟩ | ⟨⟨⟩⟩), fun _ h => absurd rfl h,
    List.nodup_nil, nofun, nofun⟩

section Keeps

variable {w w' : Waitpid.State T} {u : T} {cv : Nat}

theorem Knows.keeps {x : Place} (h : Knows w u x) (hw : Race.Inv w.race)
    (huser : ∀ me, w.race.pc u = .user me →
      w'.race.pc u = .user me ∧ Keeps w.race.tab w'.race.tab (some me))
    (hheld : w.lock = some u → w'.lock = some u ∧ Steady w.race.tab w'.race.tab none) :
    Knows w' u x := by
  have hrun : ∀ p code, w.race.pc u = .user p ∧
      w.race.tab.passed (w.race.tab.heap p).uid = some code → w'.race.pc u = .user p ∧
        w'.race.tab.passed (w'.race.tab.heap p).uid = some code := by
    rintro p code ⟨hpc, hpass⟩
    obtain ⟨hpc', hkeeps⟩ := huser p hpc
    obtain ⟨-, -, huid, hpass'⟩ := hkeeps.own p rfl (hw.user hpc).1 (hw.user hpc).2
    rw [huid, hpass']
    exact ⟨hpc', hpass⟩
  cases x with
  | enter p code => exact hrun p code h
  | held p code => exact ⟨(hheld h.1).1, hrun p code h.2⟩
  | signal p cv =>
    obtain ⟨hlock, hx, hcv, hsig⟩ := h
    obtain ⟨hlock', hsteady⟩ := hheld hlock
    obtain ⟨hx', hheap⟩ := hsteady.exiting p hx nofun
    refine ⟨hlock', hx', ?_, ?_⟩
    · rw [hheap, hcv]
    · rw [hheap, hsteady.signalled, hsig]
  | destroy p =>
    obtain ⟨hlock', hsteady⟩ := hheld h.1
    exact ⟨hlock', (hsteady.exiting p h.2 nofun).1⟩
  | unlock => exact (hheld h).1

theorem Waits.keeps (h : Waits w u cv) (hw : Waitpid.Inv w) (hplace : w'.place u = w.place u)
    (huser : ∀ me, w.race.pc u = .user me → Keeps w.race.tab w'.race.tab (some me))
    (hsig : w'.race.tab.signalled = w.race.tab.signalled) : Waits w' u cv := by
  obtain ⟨pid, k, hu, hcv, hquiet⟩ := h
  obtain ⟨me, hpc, hchild⟩ := hw.place u _ hu
  obtain ⟨-, -, -, hcv', huid, -⟩ := (huser me hpc).kid k hchild.allocated hchild.parent hchild.some
  refine ⟨pid, k, hplace.trans hu, hcv'.trans hcv, ?_⟩
  rw [hsig, huid, hquiet]

theorem Reaped.keeps {tab tab' : Tab} {me uid : Nat} {r : Waitpid.Ret} (h : Reaped tab me uid r)
    (hk : Keeps tab tab' (some me)) (hme : tab.allocated me = true ∧ (tab.heap me).exit = false) :
    Reaped tab' me uid r := by
  obtain ⟨hrem, hpass, hkin⟩ := hk.done uid h.once
  obtain ⟨-, -, huid, -⟩ := hk.own me rfl hme.1 hme.2
  refine ⟨?_, ?_, hrem⟩
  · rw [hkin, huid]
    exact h.child
  · rw [hpass]
    exact h.status

end Keeps

section Wake

variable {stop : Nat → Bool} {addr : Addr} {l : List (T × Addr)} {x : T × Addr}

theorem wake_perm (stop : Nat → Bool) (addr : Addr) (l : List (T × Addr)) :
    (wake stop addr l ++ (wakeLoop stop addr sleepaddr [] l).2).Perm l :=
  wakeLoop_perm stop addr sleepaddr [] l

theorem mem_of_wake (h : x ∈ wake stop addr l) : x ∈ l :=
  (wake_perm stop addr l).subset (List.mem_append_left _ h)

theorem nodup_wake (h : l.Nodup) : (wake stop addr l).Nodup :=
  (List.nodup_append.mp ((wake_perm stop addr l).nodup_iff.mpr h)).1

theorem not_mem_wake (hl : l.Nodup) (hx : x ∈ l) (honly : ∀ y ∈ l, y.2 = x.2 → y = x) :
    x ∉ wake stop x.2 l := by
  have haddr : sleepaddr x = some x.2 := rfl
  obtain ⟨y, hy⟩ := wakeLoop_first stop [] hx haddr
  obtain ⟨hmem, haddr⟩ := wakeLoop_woken hy
  obtain rfl := honly y hmem (some.inj haddr)
  intro hleft
  exact (List.nodup_append.mp ((wake_perm stop y.2 l).nodup_iff.mpr hl)).2.2 y hleft y hy rfl

end Wake

section Steps

variable [DecidableEq T] {s s' : State T} {t u : T} {l : Waitpid.Label T} {wait : Waitpid.State T}

omit [DecidableEq T] in
theorem Inv.other (h : Inv s) (state : State T) {r : Waitpid.Ret}
    (hr : state.wait.place u = some (.unlock r)) (herr : r.errno = none)
    (hplace : state.wait.place u = s.wait.place u)
    (huser : ∀ me, s.wait.race.pc u = .user me → state.wait.race.pc u = .user me ∧
      Keeps s.wait.race.tab state.wait.race.tab (some me))
    (hreaped : state.reaped u = s.reaped u) : ∃ me uid, state.wait.race.pc u = .user me ∧
      state.reaped u = some uid ∧ Reaped state.wait.race.tab me uid r := by
  rw [hplace] at hr
  obtain ⟨me, uid, hpc, hold, hdone⟩ := h.returned u r hr herr
  obtain ⟨hpc', hkeeps⟩ := huser me hpc
  exact ⟨me, uid, hpc', hreaped.trans hold, hdone.keeps hkeeps (h.wait.race.user hpc)⟩

/-! ### The steps of `Process.Waitpid` -/

omit [DecidableEq T] in
theorem caller_mem (h : l.caller = some t) : t ∈ threads l := by
  cases l with
  | other r => cases r <;> simp_all [threads]
  | call | next => simp_all [threads]

@[simp] theorem after_wait : (after s wait l).wait = wait := by
  cases l <;> rfl

@[simp] theorem after_sleepers : (after s wait l).sleepers = s.sleepers := by
  cases l <;> rfl

@[simp] theorem after_exits : (after s wait l).exits = s.exits := by
  cases l <;> rfl

theorem after_of_ne (hu : l.caller ≠ some u) :
    (after s wait l).gap u = s.gap u ∧ (after s wait l).reaped u = s.reaped u := by
  cases l with
  | other | call => exact ⟨rfl, rfl⟩
  | next t =>
    have hut : u ≠ t := by
      rintro rfl
      exact hu rfl
    exact ⟨update_of_ne hut .., update_of_ne hut ..⟩

theorem Inv.asleep (h : Inv s) (hstep : Waitpid.step s.wait l = some wait) (hw : Waitpid.Inv wait)
    (hfree : s.gap u = none) {cv : Nat} (hgap : (after s wait l).gap u = some cv) :
    Waits wait u cv := by
  have hl : l = .next u := by
    cases l with
    | other | call =>
      rw [show s.gap u = some cv from hgap] at hfree
      cases hfree
    | next t =>
      by_cases hut : u = t
      · rw [hut]
      · have hne : (Waitpid.Label.next t).caller ≠ some u := fun heq => hut (some.inj heq).symm
        rw [(after_of_ne hne).1, hfree] at hgap
        cases hgap
  subst hl
  change update s.gap u (cvOf wait u) u = some cv at hgap
  rw [update_self] at hgap
  unfold cvOf at hgap
  split at hgap
  · next pid kid hplace =>
    obtain ⟨me, -, hchild⟩ := hw.place u _ hplace
    rcases step_cases h.wait h.owner hstep with ⟨r, ⟨⟩, -⟩ | ⟨t, a, ⟨⟩, hne, -⟩ |
      ⟨t, me', a, ⟨⟩, -, -, hturn⟩
    · exact absurd rfl hne
    · -- It has seen just now that the process has not exited.
      obtain ⟨htab, hexit⟩ := hturn.asleep pid kid hplace
      refine ⟨pid, kid, hplace, some.inj hgap, ?_⟩
      rw [← Bool.not_eq_true]
      intro hsig
      have hexited := hw.race.ok.sig kid hchild.allocated hsig
      rw [htab, hexit] at hexited
      cases hexited
  · cases hgap

theorem Inv.back (h : Inv s) (horderly : Waitpid.Orderly s.wait l)
    (hstep : Waitpid.step s.wait l = some wait) (hu : l.caller = some u) {r : Waitpid.Ret}
    (hr : wait.place u = some (.unlock r)) (herr : r.errno = none) : ∃ me uid,
      wait.race.pc u = .user me ∧ (after s wait l).reaped u = some uid ∧
        Reaped wait.race.tab me uid r := by
  rcases step_cases h.wait h.owner hstep with ⟨r', rfl, hready, -, -, hplace⟩ |
    ⟨t, a, hcaller, -, -, -, hplace, hholds⟩ | ⟨t, me, a, rfl, hpc, hplace, hturn⟩
  · rw [hplace] at hr
    exact absurd hu (Waitpid.ready_caller hready hr)
  · obtain rfl := some.inj (hcaller.symm.trans hu)
    rw [hplace, update_self] at hr
    cases hr
    cases hholds
  · obtain rfl := some.inj hu
    have hok := h.wait.race.ok
    rcases (Waitpid.step_proper h.wait horderly).1 wait hstep with hharmless | ⟨pid, kid, -, hreaps⟩
    · exact absurd herr (hharmless.result r (.inl hr)).2
    · obtain ⟨me', hpc', hparent⟩ := hreaps.child
      obtain ⟨-, hkid, hpid⟩ := hok.slot pid kid hreaps.entry
      obtain ⟨-, -, -, hkin⟩ := hok.parent kid me' hkid hparent
      have htab := hreaps.removed
      rw [← hpid, removeProcess_eq hok hkid] at htab
      cases hr.symm.trans hreaps.result
      refine ⟨me', (s.wait.race.tab.heap kid).uid, ?_, ?_, ?_⟩
      · rw [hturn.pc, hpc']
      · -- the process that is gone is the one that this thread has removed
        have hgone : wait.race.tab.allocated kid = false := by
          rw [← some.inj htab]
          exact update_self ..
        rcases hturn.tab with hsame | ⟨pid', kid', status, rfl, hremoved⟩
        · rw [hsame, hkid] at hgone
          cases hgone
        · have hkids : kid' = kid := by
            by_contra hne
            rw [hremoved, without_allocated.mpr ⟨hkid, Ne.symm hne⟩] at hgone
            cases hgone
          refine (update_self ..).trans ?_
          unfold removedBy
          rw [hplace, ← hkids]
      · rw [hpid] at hkin
        rw [← some.inj htab]
        exact ⟨hkin, ⟨_, rfl, hok.code kid hkid hreaps.exit⟩, removals_without hok hkid⟩

theorem Inv.waitStep (h : Inv s) (hfree : ∀ t ∈ threads l, Free s t) (hl : atOnce l = false)
    (horderly : Waitpid.Orderly s.wait l) (hstep : Waitpid.step s.wait l = some wait) :
    Inv (after s wait l) := by
  have hw := (Waitpid.step_proper h.wait horderly).2 wait hstep
  obtain ⟨hown, hlock⟩ := step_lock h.wait h.owner hstep
  obtain ⟨gone, hsteady, hgone⟩ := step_steady h.wait h.owner hl hstep
  have huser : ∀ u, l.caller ≠ some u → ∀ me, s.wait.race.pc u = .user me →
      wait.race.pc u = .user me ∧ Keeps s.wait.race.tab wait.race.tab (some me) :=
    fun u hu me hpc => step_keeps h.wait h.owner hstep hu hpc
  refine ⟨?_, ?_, ?_, ?_, ?_, ?_, ?_, ?_⟩
  · rwa [after_wait]
  · rwa [after_wait]
  · intro u x hx
    rw [after_exits] at hx
    rw [after_wait]
    obtain ⟨hplace, hknows⟩ := h.exits u x hx
    have hu : l.caller ≠ some u := by
      intro hcaller
      rw [(hfree u (caller_mem hcaller)).2.2] at hx
      cases hx
    refine ⟨(step_place h.wait h.owner hstep hu).trans hplace, hknows.keeps h.wait.race (huser u hu) ?_⟩
    intro hmine
    refine ⟨hlock u hmine hu, ?_⟩
    rcases hgone with rfl | ⟨t, hcaller, ht⟩
    · exact hsteady
    · obtain rfl := some.inj (ht.symm.trans hmine)
      exact absurd hcaller hu
  · intro u cv hcase
    rw [after_sleepers] at hcase
    rw [after_wait]
    by_cases hu : l.caller = some u
    · obtain ⟨hgap, hawake, -⟩ := hfree u (caller_mem hu)
      rcases hcase with hcase | hmem
      · exact h.asleep hstep hw hgap hcase
      · exact absurd (List.mem_map_of_mem hmem) hawake
    · rw [(after_of_ne hu).1] at hcase
      exact (h.waits u cv hcase).keeps h.wait (step_place h.wait h.owner hstep hu)
        (fun me hpc => (huser u hu me hpc).2) hsteady.signalled
  · intro u hu
    rw [after_sleepers]
    by_cases hcaller : l.caller = some u
    · exact (hfree u (caller_mem hcaller)).2.1
    · rw [(after_of_ne hcaller).1] at hu
      exact h.gap u hu
  · rw [after_sleepers]
    exact h.nodup
  · intro k hk hexit hquiet
    rw [after_wait] at hk hexit hquiet
    rw [after_exits]
    obtain ⟨hka, hheap⟩ := hsteady.exited k hk hexit
    rw [hheap] at hexit hquiet
    rw [hsteady.signalled] at hquiet
    exact h.signals k hka hexit hquiet
  · intro u r hr herr
    rw [after_wait] at hr
    by_cases hu : l.caller = some u
    · rw [after_wait]
      exact h.back horderly hstep hu hr herr
    · apply h.other _ _ herr
      · rw [after_wait]
        exact step_place h.wait h.owner hstep hu
      · rw [after_wait]
        exact huser u hu
      · exact (after_of_ne hu).2
      · rwa [after_wait]

/-! ### The steps of `_exit` -/

section Set

variable {race : Race.State T} {lock : Option T} {x : Option Place} (h : Inv s)
  (hplace : s.wait.place t = none) (hrace : Race.Inv race)
  (huser : ∀ u me, u ≠ t → s.wait.race.pc u = .user me →
    race.pc u = .user me ∧ Keeps s.wait.race.tab race.tab (some me))
  (hlock : s.wait.lock = none ∨ s.wait.lock = some t ∨
    lock = s.wait.lock ∧ Steady s.wait.race.tab race.tab none)
  (hx : ∀ y, x = some y → Knows ⟨race, lock, s.wait.place⟩ t y)
include h hplace hrace huser hlock hx

theorem Inv.set {sleepers : List (T × Addr)} (hsub : ∀ y ∈ sleepers, y ∈ s.sleepers)
    (hnodup : sleepers.Nodup)
    (hwaits : ∀ u cv, s.gap u = some cv ∨ (u, .exitCv cv) ∈ sleepers →
      Waits ⟨race, lock, s.wait.place⟩ u cv)
    (hsig : ∀ k, race.tab.allocated k = true → (race.tab.heap k).exit = true →
      race.tab.signalled (race.tab.heap k).uid = false → (∃ cv, x = some (.signal k cv)) ∨
        ∃ u cv, u ≠ t ∧ s.exits u = some (.signal k cv)) :
    Inv { s.set race lock t x with sleepers } := by
  have hmine : ∀ u, u ≠ t → s.wait.lock = some u →
      lock = some u ∧ Steady s.wait.race.tab race.tab none := by
    intro u hut hu
    rcases hlock with hnone | ht | ⟨heq, hsteady⟩
    · rw [hnone] at hu
      cases hu
    · exact absurd (some.inj (hu.symm.trans ht)) hut
    · exact ⟨heq.trans hu, hsteady⟩
  have hbusy : ∀ u a, s.wait.place u = some a → u ≠ t := by
    rintro u a hu rfl
    rw [hplace] at hu
    cases hu
  refine ⟨⟨hrace, fun u a hu => ?_⟩, fun u a hu hholds => ?_, fun u y hy => ?_, hwaits,
    fun u hu hmem => ?_, hnodup, fun k hk hexit hquiet => ?_, fun u r hr herr => ?_⟩
  · obtain ⟨me, hpc, hknows⟩ := h.wait.place u a hu
    obtain ⟨hpc', hkeeps⟩ := huser u me (hbusy u a hu) hpc
    exact ⟨me, hpc', hknows.keeps hkeeps⟩
  · exact (hmine u (hbusy u a hu) (h.owner u a hu hholds)).1
  · change update s.exits t x u = some y at hy
    by_cases hut : u = t
    · subst hut
      rw [update_self] at hy
      exact ⟨hplace, hx y hy⟩
    · rw [update_of_ne hut] at hy
      obtain ⟨hnone, hknows⟩ := h.exits u y hy
      exact ⟨hnone, hknows.keeps h.wait.race (huser u · hut) (hmine u hut)⟩
  · obtain ⟨y, hy, rfl⟩ := List.mem_map.mp hmem
    exact h.gap y.1 hu (List.mem_map_of_mem (hsub y hy))
  · rcases hsig k hk hexit hquiet with ⟨cv, rfl⟩ | ⟨u, cv, hut, hu⟩
    · exact ⟨t, cv, update_self ..⟩
    · exact ⟨u, cv, (update_of_ne hut ..).trans hu⟩
  · exact h.other { s.set race lock t x with sleepers } hr herr rfl (huser u · (hbusy u _ hr)) rfl

theorem Inv.quiet (hnot : ∀ k cv, s.exits t ≠ some (.signal k cv))
    (hsame : race.tab.signalled = s.wait.race.tab.signalled)
    (hexited : ∀ k, race.tab.allocated k = true → (race.tab.heap k).exit = true →
      (∃ cv, x = some (.signal k cv)) ∨ s.wait.race.tab.allocated k = true ∧
        (s.wait.race.tab.heap k).exit = true ∧
        (race.tab.heap k).uid = (s.wait.race.tab.heap k).uid) : Inv (s.set race lock t x) := by
  apply h.set hplace hrace huser hlock hx (fun _ hy => hy) h.nodup
  · intro u cv hcase
    have hold := h.waits u cv hcase
    refine hold.keeps h.wait rfl (fun me hpc => (huser u me ?_ hpc).2) hsame
    rintro rfl
    obtain ⟨pid, k, hu, -⟩ := hold
    rw [hplace] at hu
    cases hu
  · intro k hk hexit hquiet
    refine (hexited k hk hexit).imp_right ?_
    rintro ⟨hka, hke, huid⟩
    rw [hsame, huid] at hquiet
    obtain ⟨u, cv, hu⟩ := h.signals k hka hke hquiet
    refine ⟨u, cv, ?_, hu⟩
    rintro rfl
    exact hnot k cv hu

end Set

section Leave

variable {p cv : Nat} {code : Int} (h : Inv s)
include h

omit [DecidableEq T] in
theorem Inv.ne_process (hpc : s.wait.race.pc t = .user p) {me : Nat} (hu : u ≠ t)
    (hme : s.wait.race.pc u = .user me) : some me ≠ some p := by
  rintro ⟨⟩
  apply hu
  apply h.wait.race.inj u t p <;> simp [hpc, hme]

theorem Inv.call (hpc : s.wait.race.pc t = .user p) (hfree : Free s t)
    (hplace : s.wait.place t = none) : let tab := s.wait.race.tab
    Inv (s.set ⟨{ tab with passed := update tab.passed (tab.heap p).uid (some code) },
      s.wait.race.pc⟩ s.wait.lock t (some (.enter p code))) := by
  have hr := h.wait.race
  obtain ⟨hp, hexit⟩ := hr.user hpc
  have hpassed : Race.Inv ⟨{ s.wait.race.tab with passed := _ }, s.wait.race.pc⟩ :=
    ⟨hr.ok.pass hp code hexit, hr.place, hr.inj, hr.alone⟩
  apply h.quiet hplace hpassed
  · intro u me hu hme
    exact ⟨hme, keeps_pass hr.ok hp code (h.ne_process hpc hu hme)⟩
  · exact .inr (.inr ⟨rfl, rfl, fun _ hx _ => ⟨⟨hx.allocated, hx.exit, hx.parent, hx.cv⟩, rfl⟩,
      fun _ hk _ => ⟨hk, rfl⟩⟩)
  · rintro y ⟨⟩
    exact ⟨hpc, update_self ..⟩
  · rw [hfree.2.2]
    exact nofun
  · rfl
  · exact fun k hk he => .inr ⟨hk, he, rfl⟩

theorem Inv.held (ht : s.exits t = some (.held p code)) (hnext : next s t (.held p code) = some s') :
    Inv s' := by
  have hr := h.wait.race
  obtain ⟨hplace, hlock, hpc, hpass⟩ := h.exits t _ ht
  obtain ⟨hp, hexit⟩ := hr.user hpc
  have hne : ∀ u me, u ≠ t → s.wait.race.pc u = .user me →
      update s.wait.race.pc t .gone u = .user me := by
    intro u me hu hme
    rw [update_of_ne hu, hme]
  have hnot : ∀ k cv, s.exits t ≠ some (.signal k cv) := by
    rw [ht]
    exact nofun
  unfold next at hnext
  dsimp only at hnext
  split at hnext
  · cases hnext
    refine h.quiet hplace (hr.goto trivial nofun rfl) (fun u me hu hme => ⟨hne u me hu hme, .refl ..⟩)
      (.inr (.inl hlock)) ?_ hnot rfl fun k hk he => .inr ⟨hk, he, rfl⟩
    rintro y ⟨⟩
    exact hlock
  · next hroot =>
    obtain ⟨heap, hgo, hx⟩ := exitProcess_spec hr.ok hp hroot code
    rw [hgo, map_some] at hnext
    cases hnext
    apply h.quiet hplace (hr.exit hpc (left_exit hr.ok hp hroot hpass hx)) _ (.inr (.inl hlock)) _ hnot
    · rfl
    · intro k hk he
      by_cases hkp : k = p
      · rw [hkp]
        exact .inl ⟨_, rfl⟩
      · rw [(hx.exit_of_ne hkp).1] at he
        exact .inr ⟨hk, he, (hx.fields k).2.1⟩
    · intro u me hu hme
      exact ⟨hne u me hu hme, keeps_exit hx hexit (h.ne_process hpc hu hme)⟩
    · rintro y ⟨⟩
      refine ⟨hlock, exiting_exit hr.ok hp hexit hroot hx, (hx.fields p).2.2, ?_⟩
      -- It has not signalled, because it had not exited.
      rw [(hx.fields p).2.1, ← Bool.not_eq_true]
      intro hsig
      have hexited := hr.ok.sig p hp hsig
      rw [hexit] at hexited
      cases hexited

theorem Inv.destroy (ht : s.exits t = some (.destroy p)) (hnext : next s t (.destroy p) = some s') :
    Inv s' := by
  have hr := h.wait.race
  obtain ⟨hplace, hlock, hx⟩ := h.exits t _ ht
  cases hnext
  have hdestroyed : Race.Inv ⟨{ s.wait.race.tab with cvs := _ }, s.wait.race.pc⟩ :=
    ⟨hr.ok.destroyCv hx, hr.place, hr.inj, hr.alone⟩
  refine h.quiet hplace hdestroyed ?_ (.inr (.inl hlock)) ?_ ?_ rfl fun k hk he => .inr ⟨hk, he, rfl⟩
  · intro u me _ hme
    have hrefl := Keeps.refl s.wait.race.tab (some me)
    exact ⟨hme, hrefl.own, hrefl.kid, hrefl.stale, hrefl.done⟩
  · rintro y ⟨⟩
    exact hlock
  · rw [ht]
    exact nofun

omit [DecidableEq T] in
theorem Inv.child (hwaits : Waits s.wait u cv) :
    ∃ pid k me, s.wait.place u = some (.asleep pid k) ∧ s.wait.race.pc u = .user me ∧
      Waitpid.Child s.wait.race.tab (some me) pid k ∧ (s.wait.race.tab.heap k).exitCv = cv ∧
      s.wait.race.tab.signalled (s.wait.race.tab.heap k).uid = false := by
  obtain ⟨pid, k, hu, hcv, hquiet⟩ := hwaits
  obtain ⟨me, hpc, hchild⟩ := h.wait.place u _ hu
  exact ⟨pid, k, me, hu, hpc, hchild, hcv, hquiet⟩

omit [DecidableEq T] in
/-- Whoever sleeps on the condition variable of `p` is the parent of `p`. -/
theorem Inv.parent (ht : s.exits t = some (.signal p cv)) (hu : (u, .exitCv cv) ∈ s.sleepers) :
    ∃ me, s.wait.race.pc u = .user me ∧ (s.wait.race.tab.heap p).parent = some me := by
  have hok := h.wait.race.ok
  obtain ⟨-, hlock, hx, hcv, -⟩ := h.exits t _ ht
  obtain ⟨pid, k, me, -, hpc, hchild, hkcv, hquiet⟩ := h.child (h.waits u cv (.inr hu))
  suffices hkp : k = p by
    rw [← hkp]
    exact ⟨me, hpc, hchild.parent⟩
  cases hexit : (s.wait.race.tab.heap k).exit with
  | false =>
    have hown := hok.cv k hchild.allocated hexit
    rw [hkcv, ← hcv, hx.cv] at hown
    exact (hok.uid_inj p k hx.allocated hchild.allocated (some.inj hown)).symm
  | true =>
    -- It is about to signal too, and so it has the lock.
    obtain ⟨v, cv', hv⟩ := h.signals k hchild.allocated hexit hquiet
    obtain ⟨-, hlock', -⟩ := h.exits v _ hv
    obtain rfl := some.inj (hlock'.symm.trans hlock)
    rw [ht] at hv
    cases hv
    rfl

theorem Inv.signal (ht : s.exits t = some (.signal p cv)) (hcare : Careful s (.next t))
    (hnext : next s t (.signal p cv) = some s') : Inv s' := by
  have hr := h.wait.race
  have hok := hr.ok
  obtain ⟨hplace, hlock, hx, hcv, -⟩ := h.exits t _ ht
  unfold Careful at hcare
  simp only [ht] at hcare
  cases hnext
  have hsignalled : Race.Inv ⟨{ s.wait.race.tab with signalled := _ }, s.wait.race.pc⟩ :=
    ⟨hok.signal hx, hr.place, hr.inj, hr.alone⟩
  apply h.set hplace hsignalled _ (.inr (.inl hlock)) _ (fun y hy => mem_of_wake hy)
    (nodup_wake h.nodup)
  · intro u cv' hcase
    obtain ⟨pid, k, me, hu, hpc, hchild, hkcv, hquiet⟩ :=
      h.child (h.waits u cv' (hcase.imp_right mem_of_wake))
    refine ⟨pid, k, hu, hkcv, ?_⟩
    by_cases huid : (s.wait.race.tab.heap k).uid = (s.wait.race.tab.heap p).uid
    · -- The parent of `p`: it is not in the gap, and if it slept it has been woken up.
      exfalso
      obtain rfl := hok.uid_inj k p hchild.allocated hx.allocated huid
      rcases hcase with hgap | hmem
      · refine hcare u ?_ ?_
        · rw [hgap]
          exact nofun
        · unfold waitsFor
          rw [hu]
      · obtain rfl : cv' = cv := hkcv.symm.trans hcv
        refine not_mem_wake h.nodup (mem_of_wake hmem) ?_ hmem
        rintro ⟨v, addr⟩ hv rfl
        obtain ⟨me', hv', hparent⟩ := h.parent ht hv
        obtain rfl : me' = me := some.inj (hparent.symm.trans hchild.parent)
        rw [hr.inj v u me' (by rw [hv']; rfl) (by rw [hpc]; rfl)]
    · exact (update_of_ne huid ..).trans hquiet
  · intro k hk hexit hquiet
    have hne : (s.wait.race.tab.heap k).uid ≠ (s.wait.race.tab.heap p).uid := by
      intro heq
      dsimp only at hquiet
      rw [heq, update_self] at hquiet
      cases hquiet
    obtain ⟨u, cv', hu⟩ := h.signals k hk hexit ((update_of_ne hne ..).symm.trans hquiet)
    refine .inr ⟨u, cv', ?_, hu⟩
    rintro rfl
    rw [ht] at hu
    cases hu
    exact hne rfl
  · intro u me _ hme
    have hrefl := Keeps.refl s.wait.race.tab (some me)
    exact ⟨hme, hrefl.own, hrefl.kid, hrefl.stale, hrefl.done⟩
  · rintro y ⟨⟩
    exact ⟨hlock, hx.allocated, hx.exit, hx.parent, hx.cv⟩

theorem Inv.next {x : Place} (ht : s.exits t = some x) (hcare : Careful s (.next t))
    (hnext : next s t x = some s') : Inv s' := by
  have hr := h.wait.race
  have hsame : ∀ u me, u ≠ t → s.wait.race.pc u = .user me →
      s.wait.race.pc u = .user me ∧ Keeps s.wait.race.tab s.wait.race.tab (some me) :=
    fun u me _ hme => ⟨hme, .refl ..⟩
  cases x with
  | enter p code =>
    obtain ⟨hplace, hknows⟩ := h.exits t _ ht
    obtain ⟨hfree, rfl⟩ := ite_some_none_eq_some.mp hnext
    refine h.quiet hplace hr hsame (.inl hfree) ?_ ?_ rfl fun k hk he => .inr ⟨hk, he, rfl⟩
    · rintro y ⟨⟩
      exact ⟨rfl, hknows⟩
    · rw [ht]
      exact nofun
  | held p code => exact h.held ht hnext
  | signal p cv => exact h.signal ht hcare hnext
  | destroy p => exact h.destroy ht hnext
  | unlock =>
    obtain ⟨hplace, hlock⟩ := h.exits t _ ht
    cases hnext
    refine h.quiet hplace hr hsame (.inr (.inl hlock)) nofun ?_ rfl
      fun k hk he => .inr ⟨hk, he, rfl⟩
    rw [ht]
    exact nofun

end Leave

omit [DecidableEq T] in
theorem Inv.sleeps (h : Inv s) {gap : T → Option Nat} {addr : Addr}
    (hgap : ∀ u, gap u ≠ none → u ≠ t ∧ s.gap u ≠ none ∧ gap u = s.gap u)
    (ht : t ∉ s.sleepers.map Prod.fst) (haddr : ∀ cv, addr = .exitCv cv → s.gap t = some cv) :
    Inv { s with gap, sleepers := s.sleepers ++ [(t, addr)] } := by
  refine { h with waits := ?_, gap := ?_, nodup := ?_ }
  · intro u cv hcase
    rcases hcase with hcase | hmem
    · refine h.waits u cv (.inl ?_)
      change gap u = some cv at hcase
      rw [← (hgap u (by rw [hcase]; exact nofun)).2.2, hcase]
    · rcases List.mem_append.mp hmem with hmem | hmem
      · exact h.waits u cv (.inr hmem)
      · obtain ⟨rfl, rfl⟩ := Prod.mk.injEq .. ▸ List.mem_singleton.mp hmem
        exact h.waits _ cv (.inl (haddr cv rfl))
  · intro u hu
    obtain ⟨hut, hold, -⟩ := hgap u hu
    rw [List.map_append, List.mem_append]
    rintro (hmem | hmem)
    · exact h.gap u hold hmem
    · exact hut (List.mem_singleton.mp hmem)
  · refine List.nodup_append.mpr ⟨h.nodup, List.nodup_singleton _, ?_⟩
    rintro y hy z hz rfl
    rw [List.mem_singleton.mp hz] at hy
    exact ht (List.mem_map_of_mem hy)

theorem step_inv {l : Label T} (h : Inv s) (hcare : Careful s l) (hstep : step s l = some s') :
    Inv s' := by
  cases l with
  | wait l =>
    obtain ⟨⟨hfree, hl⟩, hstep⟩ := ite_none_right_eq_some.mp hstep
    obtain ⟨wait, hwait, rfl⟩ := map_eq_some_iff.mp hstep
    exact h.waitStep hfree hl hcare hwait
  | sleep t =>
    obtain ⟨cv, hcv, rfl⟩ := map_eq_some_iff.mp hstep
    apply h.sleeps
    · intro u hu
      have hut : u ≠ t := by
        rintro rfl
        rw [update_self] at hu
        exact hu rfl
      rw [update_of_ne hut] at hu
      exact ⟨hut, hu, update_of_ne hut ..⟩
    · apply h.gap t
      rw [hcv]
      exact nofun
    · rintro cv' ⟨⟩
      exact hcv
  | exit t code =>
    unfold step at hstep
    dsimp only at hstep
    split at hstep
    · next p hpc =>
      obtain ⟨⟨hfree, hplace⟩, rfl⟩ := ite_some_none_eq_some.mp hstep
      exact h.call hpc hfree hplace
    · cases hstep
  | next t =>
    obtain ⟨x, hx, hnext⟩ := bind_eq_some_iff.mp hstep
    exact h.next hx hcare hnext
  | threadSleep t b =>
    obtain ⟨⟨hfree, -⟩, rfl⟩ := ite_some_none_eq_some.mp hstep
    apply h.sleeps
    · intro u hu
      refine ⟨?_, hu, rfl⟩
      rintro rfl
      exact hu hfree.1
    · exact hfree.2.1
    · exact nofun
  | threadWakeup b =>
    cases hstep
    refine { h with waits := ?_, gap := ?_, nodup := nodup_wake h.nodup }
    · exact fun u cv hcase => h.waits u cv (hcase.imp_right mem_of_wake)
    · intro u hu hmem
      obtain ⟨y, hy, rfl⟩ := List.mem_map.mp hmem
      exact h.gap y.1 hu (List.mem_map_of_mem (mem_of_wake hy))

/-- No process signals its exit while its parent is in the gap, and no slot is picked twice. -/
theorem noLostExit_of_careful (junk : Nat → Proc) (ls : List (Label T))
    (hcare : Meets step Careful (start junk) ls) :
    Always step (fun s => NoLostExit s ∧ Returned s) (start junk) ls := by
  refine always_of_meets (fun s l s' h hc hstep => step_inv h hc hstep) (fun s h => ⟨?_, h.returned⟩)
    (inv_start junk) hcare
  intro t pid kid cv ht hmem k
  rintro ⟨-, hsig⟩
  obtain ⟨pid', kid', ht', -, hquiet⟩ := h.waits t cv (.inr hmem)
  rw [ht] at ht'
  cases ht'
  exact Bool.false_ne_true (hquiet.symm.trans hsig)

end Steps

/-- A program forks a process with pid 2 and waits for it, up to its `lock_release`. -/
def forkAndWait {T : Type} (t u : T) : List (Label T) :=
  [.wait (.other (.runprogram t 0 0)), .wait (.other (.fork t u))] ++
    List.replicate 3 (.wait (.other (.next u 1 1))) ++
    [.wait (.call t 2 0 none), .wait (.next t), .wait (.next t)]

def exitRun {T : Type} (u : T) : List (Label T) := .exit u 5 :: List.replicate 5 (.next u)

theorem exit_lost_in_gap : let ls := forkAndWait (0 : Fin 3) 1 ++ exitRun 1 ++ [.sleep 0]
    ∃ s, run step (start zeroed) ls = some s ∧
      s.wait.place 0 = some (.asleep 2 1) ∧ (0, .exitCv 1) ∈ s.sleepers ∧
      (s.wait.race.tab.heap 1).exit = true ∧
      s.wait.race.tab.signalled (s.wait.race.tab.heap 1).uid = true ∧
      ¬ Always step (fun s => NoLostExit s ∧ Returned s) (start zeroed) ls := by
  intro ls
  have hrun : ∃ s ∈ run step (start zeroed) ls,
      s.wait.place 0 = some (.asleep 2 1) ∧ (0, .exitCv 1) ∈ s.sleepers ∧
      (s.wait.race.tab.heap 1).exit = true ∧
      s.wait.race.tab.signalled (s.wait.race.tab.heap 1).uid = true := by decide +kernel
  obtain ⟨s, hs, hplace, hmem, hexit, hsig⟩ := hrun
  exact ⟨s, hs, hplace, hmem, hexit, hsig,
    fun h => (h.last hs).1 0 2 1 1 hplace hmem ⟨hexit, hsig⟩⟩

theorem noLostExit_of_careful_fork :
    let ls := forkAndWait (0 : Fin 3) 1 ++ [.sleep 0] ++ exitRun 1 ++ List.replicate 5 (.wait (.next 0))
    (∃ s ∈ run step (start zeroed) ls, s.wait.place 0 = some (.back ⟨2, none, some 5⟩)) ∧
      Always step (fun s => NoLostExit s ∧ Returned s) (start zeroed) ls := by
  intro ls
  exact ⟨by decide +kernel, noLostExit_of_careful zeroed ls (by decide +kernel)⟩

end Os161.Process.Exit
