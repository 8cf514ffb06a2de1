import Os161.Synch.Lock

/-!
# When a condition variable loses no wakeup

A call between the two sections of `cv_wait` finds nobody to wake up.
-/

open Os161.Thread Os161.Lib Function List Option

namespace Os161.Synch

variable {T B : Type} [DecidableEq T] {s s' : State T B} {c : T} {p : Pc B}
  {k : Kern T (Addr B)}

def code (B : Type) : Code (Pc B) (Addr B) := ⟨(· ≠ .gone), Pc.sleepsOn, (· = .held)⟩

abbrev Inv (s : State T B) : Prop := LockOk (code B) s.kern s.pc

variable [DecidableEq B]

theorem act_inv (l : Label T B) (hinv : Inv s) (hcur : s.kern.sys.curthread = some c)
    (h : act s c l = some s') : Inv s' := by
  cases l with
  | threadFork t =>
    obtain ⟨⟨-, ht, -⟩, rfl⟩ := ite_some_none_eq_some.mp h
    apply hinv.fork <;> simp [code, ht, Pc.sleepsOn]
  | threadExit =>
    obtain ⟨hc, rfl⟩ := ite_some_none_eq_some.mp h
    apply hinv.exit hcur <;> simp [code, hc]
  | threadSleep b =>
    obtain ⟨hc, rfl⟩ := ite_some_none_eq_some.mp h
    apply hinv.sleep hcur <;> simp [code, hc, Pc.sleepsOn]
  | threadWakeup b =>
    obtain ⟨-, rfl⟩ := ite_some_none_eq_some.mp h
    exact hinv.wake _ _
  | lockAcquire =>
    obtain ⟨hc, rfl⟩ := ite_some_none_eq_some.mp h
    apply hinv.acquire hcur <;> simp [code, hc, Pc.sleepsOn]
  | lockRelease =>
    obtain ⟨hc, h⟩ := ite_none_right_eq_some.mp h
    obtain ⟨k, hk, rfl⟩ := map_eq_some_iff.mp h
    exact hinv.release hcur (by simp [code, hc]) hc (by simp [code]) hk
  | cvWait =>
    obtain ⟨hc, h⟩ := ite_none_right_eq_some.mp h
    obtain ⟨k, hk, rfl⟩ := map_eq_some_iff.mp h
    exact hinv.release hcur (by simp [code, hc]) hc (by simp [code]) hk
  | cvSignal =>
    obtain ⟨-, h⟩ := ite_none_right_eq_some.mp h
    obtain ⟨k, hk, rfl⟩ := map_eq_some_iff.mp h
    obtain ⟨-, rfl⟩ := ite_some_none_eq_some.mp hk
    exact hinv.wake _ _
  | cvBroadcast =>
    obtain ⟨-, h⟩ := ite_none_right_eq_some.mp h
    obtain ⟨k, hk, rfl⟩ := map_eq_some_iff.mp h
    obtain ⟨-, rfl⟩ := ite_some_none_eq_some.mp hk
    exact hinv.wake _ _
  | next =>
    simp only [act] at h
    split at h <;> cases h
    all_goals rename_i hc
    · apply hinv.sleep hcur <;> simp [code, hc, Pc.sleepsOn]
    · apply hinv.resume hcur <;> simp [code, hc]
    · apply hinv.acquire hcur <;> simp [code, hc, Pc.sleepsOn]
    · -- Back from its sleep, the thread tests the owner again.
      apply (hinv.woken hcur).acquire (by simpa using hcur) <;> simp [code, hc, Pc.sleepsOn]
    · apply hinv.resume hcur <;> simp [code, hc]
  | timer => cases h
  | interrupt b => cases h
  | dispatch => cases h

theorem step_cases {l : Label T B} (h : step s l = some s') :
    (∃ c sys, s.kern.sys.curthread = some c ∧ sys = threadYield s.kern.sys ∧
      s' = { s with kern := { s.kern with sys := sys } }) ∨
    (∃ b, s' = { s with kern := { s.kern with sys := threadWakeup (.other b) s.kern.sys } }) ∨
    (s.kern.sys.curthread = none ∧
      s' = { s with kern := { s.kern with sys := scheduler s.kern.sys } }) ∨
    ∃ c, s.kern.sys.curthread = some c ∧ act s c l = some s' := by
  unfold step at h
  split at h
  · obtain ⟨-, rfl⟩ := ite_some_none_eq_some.mp h
    exact Or.inl ⟨_, _, ‹_›, rfl, rfl⟩
  · obtain ⟨-, rfl⟩ := ite_some_none_eq_some.mp h
    exact Or.inr (Or.inl ⟨_, rfl⟩)
  · cases h
    exact Or.inr (Or.inr (Or.inl ⟨‹_›, rfl⟩))
  · exact Or.inr (Or.inr (Or.inr ⟨_, ‹_›, h⟩))
  · cases h

theorem step_inv (l : Label T B) (hinv : Inv s) (h : step s l = some s') : Inv s' := by
  rcases step_cases h with ⟨c, _, hcur, rfl, rfl⟩ | ⟨b, rfl⟩ | ⟨hcur, rfl⟩ | ⟨c, hcur, h⟩
  · exact hinv.yield hcur
  · exact hinv.wake _ _
  · exact hinv.dispatch hcur
  · exact act_inv l hinv hcur h

/-! ## Who has been told -/

def Told (s : State T B) : Prop :=
  ∀ t, s.notified t = true → s.pc t = .cvSleep ∧ Runnable s.kern.sys t

omit [DecidableEq T] [DecidableEq B] in
theorem Told.wake {k : Kern T (Addr B)} (h : Told s)
    (hrun : ∀ t, Runnable s.kern.sys t → Runnable k.sys t) : Told { s with kern := k } :=
  fun t ht => ⟨(h t ht).1, hrun t (h t ht).2⟩

omit [DecidableEq B] in
theorem Told.goto (h : Told s) (hc : s.pc c ≠ .cvSleep)
    (hrun : ∀ t, t ≠ c → Runnable s.kern.sys t → Runnable k.sys t) : Told (goto s c p k) :=
  fun t ht => by
    have hne : t ≠ c := by
      rintro rfl
      exact hc (h t ht).1
    exact ⟨(update_of_ne hne ..).trans (h t ht).1, hrun t hne (h t ht).2⟩

omit [DecidableEq B] in
theorem Told.acquire (h : Told s) (hcur : k.sys.curthread = some c) (hc : s.pc c ≠ .cvSleep)
    (hrun : ∀ t, t ≠ c → Runnable s.kern.sys t → Runnable k.sys t) : Told (acquire s c k) := by
  refine h.goto hc fun t hne ht => ?_
  unfold lockTry
  split
  · exact hrun t hne ht
  · exact (threadSleep_runnable hcur hne).mpr (hrun t hne ht)

theorem Told.release (h : Told s) (hc : s.pc c = .held) (hk : lockRelease .lock s.kern = some k) :
    Told (Synch.goto s c p k) := by
  obtain ⟨-, rfl⟩ := ite_some_none_eq_some.mp hk
  exact h.goto (by simp [hc]) fun t _ ht => ht.wakeWith

theorem Told.broadcast (h : Told s) (hinv : Inv s) (hgap : ∀ t, s.pc t ≠ .gap) : Told { s with
      kern := { s.kern with sys := threadWakeup .cv s.kern.sys }
      notified := fun t => s.notified t || waiting s t } := fun t ht => by
  rcases Bool.or_eq_true_iff.mp ht with ht | ht
  · exact ⟨(h t ht).1, (h t ht).2.wakeWith⟩
  · simp only [waiting, hgap t, decide_false, Bool.false_or, Bool.and_eq_true,
      decide_eq_true_eq] at ht
    obtain ⟨a, ha, hon⟩ := hinv.placed.sleeper t ht.2
    simp only [code, ht.1, Pc.sleepsOn, some.injEq] at hon
    exact ⟨ht.1, threadWakeup_runnable ht.2 (hon ▸ ha)⟩

theorem Told.signal (h : Told s) (hinv : Inv s)
    (hgap : ∀ t, s.pc t = .gap → ∃ u, u ≠ t ∧ waiting s u = true) :
    Told { s with
      kern := { s.kern with sys := threadWakeupN .cv 1 s.kern.sys }
      notified := fun t => s.notified t || onlyWaiting s t } := fun t ht => by
  rcases Bool.or_eq_true_iff.mp ht with ht | ht
  · exact ⟨(h t ht).1, (h t ht).2.wakeWith⟩
  · simp only [onlyWaiting, Bool.and_eq_true, List.all_eq_true, Bool.or_eq_true, beq_iff_eq,
      Bool.not_eq_true'] at ht
    obtain ⟨hwait, honly⟩ := ht
    have halone : ∀ u, waiting s u = true → u = t := fun u hu => by
      have halive : s.pc u ≠ .gone := fun hpc => by simp [waiting, hpc] at hu
      rcases honly u ((hinv.placed.mem u).mpr halive) with heq | hno
      · exact heq
      · rw [hu] at hno
        cases hno
    have hnogap : s.pc t ≠ .gap := fun hpc => by
      obtain ⟨u, hne, hu⟩ := hgap t hpc
      exact hne (halone u hu)
    simp only [waiting, hnogap, decide_false, Bool.false_or, Bool.and_eq_true,
      decide_eq_true_eq] at hwait
    -- Whoever sleeps on the condition variable waits, so it is this thread.
    have hsleeper : ∀ u ∈ s.kern.sys.sleepers, s.kern.sys.sleepaddr u = some .cv → u = t :=
      fun u hu ha => halone u (by
        obtain ⟨a, ha', hon⟩ := hinv.placed.sleeper u hu
        obtain rfl : Addr.cv = a := some.inj (ha.symm.trans ha')
        have hpc : s.pc u = .cvSleep := by
          cases hp : s.pc u <;> simp [code, hp, Pc.sleepsOn] at hon
          rfl
        simp [waiting, hpc, hu])
    obtain ⟨a, ha, hon⟩ := hinv.placed.sleeper t hwait.2
    simp only [code, hwait.1, Pc.sleepsOn, some.injEq] at hon
    exact ⟨hwait.1, wakeWith_only hwait.2 (hon ▸ ha) hsleeper⟩

theorem act_told (l : Label T B) (htold : Told s) (hinv : Inv s) (hgap : GapFree s l)
    (hcur : s.kern.sys.curthread = some c) (h : act s c l = some s') : Told s' := by
  cases l with
  | threadFork t =>
    obtain ⟨⟨-, ht, -⟩, rfl⟩ := ite_some_none_eq_some.mp h
    exact htold.goto (by simp [ht]) fun u _ hu => hu.imp_right fun hu => mem_append_left _ hu
  | threadExit =>
    obtain ⟨hc, rfl⟩ := ite_some_none_eq_some.mp h
    exact htold.goto (by simp [hc]) fun t hne ht => (threadExit_runnable hcur hne).mpr ht
  | threadSleep b =>
    obtain ⟨hc, rfl⟩ := ite_some_none_eq_some.mp h
    exact htold.goto (by simp [hc]) fun t hne ht => (threadSleep_runnable hcur hne).mpr ht
  | threadWakeup b =>
    obtain ⟨-, rfl⟩ := ite_some_none_eq_some.mp h
    exact htold.wake fun t ht => ht.wakeWith
  | lockAcquire =>
    obtain ⟨hc, rfl⟩ := ite_some_none_eq_some.mp h
    exact htold.acquire hcur (by simp [hc]) fun t _ ht => ht
  | lockRelease =>
    obtain ⟨hc, h⟩ := ite_none_right_eq_some.mp h
    obtain ⟨k, hk, rfl⟩ := map_eq_some_iff.mp h
    exact htold.release hc hk
  | cvWait =>
    obtain ⟨hc, h⟩ := ite_none_right_eq_some.mp h
    obtain ⟨k, hk, rfl⟩ := map_eq_some_iff.mp h
    exact htold.release hc hk
  | cvSignal =>
    obtain ⟨hc, h⟩ := ite_none_right_eq_some.mp h
    obtain ⟨k, hk, rfl⟩ := map_eq_some_iff.mp h
    obtain ⟨-, rfl⟩ := ite_some_none_eq_some.mp hk
    exact htold.signal hinv hgap
  | cvBroadcast =>
    obtain ⟨hc, h⟩ := ite_none_right_eq_some.mp h
    obtain ⟨k, hk, rfl⟩ := map_eq_some_iff.mp h
    obtain ⟨-, rfl⟩ := ite_some_none_eq_some.mp hk
    exact htold.broadcast hinv hgap
  | next =>
    simp only [act] at h
    have hres : ∀ t, Runnable s.kern.sys t → Runnable (threadResume s.kern.sys) t := fun t ht => by
      rw [threadResume_eq hcur]
      exact ht
    split at h <;> cases h
    · rename_i hc
      exact htold.goto (by simp [hc]) fun t hne ht => (threadSleep_runnable hcur hne).mpr ht
    · -- The thread is back from its sleep, and the notification has done its work.
      intro t ht
      by_cases hne : t = c
      · subst hne
        simp at ht
      · simp only [update_of_ne hne] at ht
        exact ⟨(update_of_ne hne ..).trans (htold t ht).1, hres t (htold t ht).2⟩
    · rename_i hc
      exact htold.acquire hcur (by simp [hc]) fun t _ ht => ht
    · rename_i hc
      exact htold.acquire (by rw [threadResume_eq hcur, hcur]) (by simp [hc]) fun t _ ht => hres t ht
    · rename_i hc
      exact htold.goto (by simp [hc]) fun t _ ht => hres t ht
  | timer => cases h
  | interrupt b => cases h
  | dispatch => cases h

theorem step_told (l : Label T B) (htold : Told s) (hinv : Inv s) (hgap : GapFree s l)
    (h : step s l = some s') : Told s' := by
  rcases step_cases h with ⟨c, _, hcur, rfl, rfl⟩ | ⟨b, rfl⟩ | ⟨hcur, rfl⟩ | ⟨c, hcur, h⟩
  · exact htold.wake fun t ht => (threadYield_runnable hcur).mpr ht
  · exact htold.wake fun t ht => ht.wakeWith
  · exact htold.wake fun t ht => (scheduler_runnable hcur).mpr ht
  · exact act_told l htold hinv hgap hcur h

omit [DecidableEq B] in
theorem inv_init {ts : List T} (h : ts.Nodup) : Inv (init ts : State T B) := by
  refine ⟨⟨by simpa [Sys.threads, init] using h, fun t => ?_, by simp [init]⟩, fun t => ?_⟩
  · simp only [Sys.threads, init, toList_none, nil_append, append_nil]
    by_cases ht : t ∈ ts <;> simp [code, ht]
  · simp only [init]
    by_cases ht : t ∈ ts <;> simp [code, ht]

/-- No call meets a thread between the two sections of `cv_wait`. -/
theorem noLostWakeup_of_gapFree {ts : List T} (hts : ts.Nodup) (ls : List (Label T B))
    (hgap : Meets step GapFree (init ts) ls) : Always step NoLostWakeup (init ts) ls := by
  have hinit : Inv (init ts : State T B) ∧ Told (init ts : State T B) :=
    ⟨inv_init hts, fun t ht => by simp [init] at ht⟩
  refine always_of_meets (I := fun s => Inv s ∧ Told s) (fun s l s' hs hc h => ?_)
    (fun s hs t ht => (hs.2 t ht).2) hinit hgap
  exact ⟨step_inv l hs.1 h, step_told l hs.2 hs.1 hc h⟩

/-- A timer interrupt comes before thread 0 sleeps. Thread 1 broadcasts. -/
def lostRun : List (Label (Fin 2) Unit) :=
  [.dispatch, .lockAcquire, .cvWait, .timer, .lockAcquire, .cvBroadcast, .lockRelease, .timer, .next]

theorem broadcast_lost_in_gap :
    ∃ s, run step (init [0, 1]) lostRun = some s ∧ s.notified 0 = true ∧ s.pc 0 = .cvSleep ∧
      0 ∈ s.kern.sys.sleepers ∧ ¬ Always step NoLostWakeup (init [0, 1]) lostRun := by
  have hrun : ∃ s ∈ run step (init [0, 1]) lostRun, s.notified 0 = true ∧ s.pc 0 = .cvSleep ∧
      0 ∈ s.kern.sys.sleepers ∧ ¬ Runnable s.kern.sys 0 := by decide
  obtain ⟨s, hs, hnot, hpc, hmem, hlost⟩ := hrun
  exact ⟨s, hs, hnot, hpc, hmem, fun h => hlost (h.last hs 0 hnot)⟩

theorem noLostWakeup_of_gapFree_two :
    let ls : List (Label (Fin 2) Unit) := [.dispatch, .lockAcquire, .cvWait, .next, .lockAcquire,
      .cvBroadcast, .lockRelease, .timer, .next, .next]
    (run step (init [0, 1]) ls).isSome ∧ Always step NoLostWakeup (init [0, 1]) ls := by
  intro ls
  refine ⟨by decide, noLostWakeup_of_gapFree (by decide) ls (by decide)⟩

end Os161.Synch
