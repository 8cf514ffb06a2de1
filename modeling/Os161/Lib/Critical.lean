import Os161.Lib.Run

/-!
# Code around one lock

Threads go through a graph of places: they take the lock, give it back or make a call, and what it
returns picks the next place.
-/

open Function Option

namespace Os161.Lib.Critical

/-- `call` leads nowhere for a result that stops the machine. -/
inductive Op (O P : Type) where
  | acquire (next : P)
  | release (next : P)
  | call (next : O → Option P)

/-- Where a call with the result `o` leads. -/
def Op.after {O P : Type} : Op O P → O → Option P
  | .call next, o => next o
  | _, _ => none

structure State (T P : Type) where
  lock : Option T
  pc : T → P

variable {O P T : Type} [DecidableEq T]

/-- A thread moves; a call of it gets the result `l.2`. -/
def step (op : P → Op O P) (s : State T P) (l : T × O) : Option (State T P) :=
  match op (s.pc l.1) with
  | .acquire p => if s.lock = none then some ⟨some l.1, update s.pc l.1 p⟩ else none
  | .release p => if s.lock = some l.1 then some ⟨none, update s.pc l.1 p⟩ else none
  | .call next => (next l.2).map fun p => ⟨s.lock, update s.pc l.1 p⟩

/-- The thread can give the lock back without the help of others. -/
def Releases (op : P → Op O P) (s : State T P) (t : T) : Prop :=
  ∃ (os : List O) (s' : State T P), run (step op) s (os.map fun o => (t, o)) = some s' ∧
    s'.lock = none

/-- Calls lead from here to a place where the lock is given back. -/
inductive Leads (op : P → Op O P) : P → Prop where
  | release {p q : P} : op p = .release q → Leads op p
  | call {p q : P} {o : O} : (op p).after o = some q → Leads op q → Leads op p

variable {op : P → Op O P} {s s' : State T P} {t : T} {l : T × O} {p q : P}

theorem after_some {c : Op O P} {o : O} (h : c.after o = some p) :
    ∃ next, c = .call next ∧ next o = some p := by
  cases c with
  | acquire q => cases h
  | release q => cases h
  | call next => exact ⟨next, rfl, h⟩

theorem releases_iff [Inhabited O] (h : s.lock = some t) : Releases op s t ↔ Leads op (s.pc t) := by
  constructor
  · rintro ⟨os, s', hrun, hfree⟩
    induction os generalizing s with
    | nil =>
      cases hrun
      rw [h] at hfree
      cases hfree
    | cons o os ih =>
      obtain ⟨s₁, hstep, hrun⟩ := run_cons_some hrun
      unfold step at hstep
      split at hstep
      · rw [h, if_neg nofun] at hstep
        cases hstep
      · next hop => exact .release hop
      · next next hop =>
        obtain ⟨q, hq, rfl⟩ := map_eq_some_iff.mp hstep
        have hrest := ih (s := ⟨s.lock, update s.pc t q⟩) h hrun
        dsimp only at hrest
        rw [update_self] at hrest
        refine .call (q := q) (o := o) ?_ hrest
        rw [hop]
        exact hq
  · intro hleads
    generalize hp : s.pc t = p at hleads
    induction hleads generalizing s with
    | @release p q hop =>
      refine ⟨[default], ⟨none, update s.pc t q⟩, ?_, rfl⟩
      simp [run, step, hp, hop, h]
    | @call p q o hafter _ ih =>
      obtain ⟨next, hop, hq⟩ := after_some hafter
      obtain ⟨os, s', hrun, hfree⟩ := @ih ⟨s.lock, update s.pc t q⟩ h
        (update_self ..)
      refine ⟨o :: os, s', ?_, hfree⟩
      rw [List.map_cons, run_cons]
      simpa [step, hp, hop, hq] using hrun

/-- The lock is given back from the places between a section's first and last one. -/
structure Sections (op : P → Op O P) (holds : P → Bool) : Prop where
  leads : ∀ p, holds p = true ↔ Leads op p
  enter : ∀ p q, op p = .acquire q → holds q = true
  leave : ∀ p q, op p = .release q → holds q = false

/-- With this result the thread does not get out of a section by a call. -/
def Stays (op : P → Op O P) (holds : P → Bool) (s : State T P) (l : T × O) : Prop :=
  ∀ p ∈ (op (s.pc l.1)).after l.2, holds (s.pc l.1) = true → holds p = true

/-- The owner of the lock is the thread in a section. -/
def Matched (holds : P → Bool) (s : State T P) : Prop :=
  ∀ t, s.lock = some t ↔ holds (s.pc t) = true

variable {holds : P → Bool}

theorem Sections.call (h : Sections op holds) {o : O} (hq : (op p).after o = some q)
    (hholds : holds q = true) : holds p = true :=
  (h.leads p).mpr (.call hq ((h.leads q).mp hholds))

section

variable (hsec : Sections op holds) (h : Matched holds s)
include hsec h

theorem Matched.step (hstays : Stays op holds s l)
    (hstep : step op s l = some s') : Matched holds s' := by
  obtain ⟨t, o⟩ := l
  unfold Critical.step at hstep
  split at hstep
  · next p hop =>
    obtain ⟨hfree, rfl⟩ := ite_some_none_eq_some.mp hstep
    intro u
    by_cases hu : u = t
    · subst hu
      simp [hsec.enter _ _ hop]
    · have hother := h u
      rw [hfree] at hother
      simp only [update_of_ne hu, ← hother, some.injEq, reduceCtorEq, iff_false]
      exact fun heq => hu heq.symm
  · next p hop =>
    obtain ⟨howner, rfl⟩ := ite_some_none_eq_some.mp hstep
    intro u
    by_cases hu : u = t
    · subst hu
      simp [hsec.leave _ _ hop]
    · have hother := h u
      rw [howner] at hother
      simp only [update_of_ne hu, ← hother, some.injEq, reduceCtorEq, false_iff]
      exact fun heq => hu heq.symm
  · next next hop =>
    obtain ⟨p, hp, rfl⟩ := map_eq_some_iff.mp hstep
    have hafter : (op (s.pc t)).after o = some p := by
      rw [hop]
      exact hp
    intro u
    by_cases hu : u = t
    · subst hu
      simp only [update_self]
      rw [h u]
      exact ⟨hstays p hafter, hsec.call hafter⟩
    · simp only [update_of_ne hu]
      exact h u

theorem Matched.stuck [Inhabited O]
    (hout : ¬ Stays op holds s l) (hstep : Critical.step op s l = some s') :
    s'.lock = some l.1 ∧ ¬ Releases op s' l.1 := by
  unfold Stays at hout
  push Not at hout
  obtain ⟨p, hafter, hholds, hfalse⟩ := hout
  obtain ⟨next, hop, hp⟩ := after_some hafter
  simp only [Critical.step, hop, hp, map_some, some.injEq] at hstep
  subst hstep
  have howner := (h l.1).mpr hholds
  refine ⟨howner, fun hreleases => hfalse ?_⟩
  have hleads := (releases_iff (s := ⟨s.lock, update s.pc l.1 p⟩) howner).mp hreleases
  dsimp only at hleads
  rw [update_self] at hleads
  exact (hsec.leads p).mpr hleads

theorem Matched.releases [Inhabited O]
    (howner : s.lock = some t) : Releases op s t := by
  rw [releases_iff howner]
  exact (hsec.leads _).mp ((h t).mp howner)

theorem always_releases_iff [Inhabited O]
    {ls : List (T × O)} (hrun : run (Critical.step op) s ls = some s') :
    Always (Critical.step op) (fun s => ∀ t, s.lock = some t → Releases op s t) s ls ↔
      Meets (Critical.step op) (Stays op holds) s ls := by
  constructor
  · apply meets_of_always _ _ h hrun
    · exact fun s l s' hm hstays hstep => hm.step hsec hstays hstep
    · intro s l s' hm hout hstep hall
      obtain ⟨howner, hstuck⟩ := hm.stuck hsec hout hstep
      exact hstuck (hall l.1 howner)
  · intro hstays
    exact always_of_meets (fun s l s' hm hc hstep => Matched.step hsec hm hc hstep)
      (fun s hm t howner => Matched.releases hsec hm howner) h hstays

end

end Os161.Lib.Critical
