import Os161.CatMouse.Spec
import Os161.Lib.Count
import Os161.Lib.Run

/-!
# When cats and mice eat together

The second wait loop does not look at whether the other species eats.
-/

open Os161.Lib Function

namespace Os161.CatMouse

def Pc.admitted : Pc → Bool
  | .releaseWait | .pBowlCount | .acquireFree | .takeBowl | .releaseFree | .callEat
  | .pMutexStart | .eatStart | .vMutexStart | .eating | .pMutexFinish | .eatFinish | .vMutexFinish
  | .acquireFreeAgain | .putBowl | .releaseFreeAgain | .acquireWaitAgain | .leave => true
  | _ => false

def Pc.atBowl : Pc → Bool
  | .vMutexStart | .eating | .pMutexFinish | .eatFinish => true
  | _ => false

theorem Pc.admitted_of_atBowl {p : Pc} (h : p.atBowl = true) : p.admitted = true := by
  cases p <;> first | rfl | cases h

def count (c : Config) (r : Pc → Bool) (pc : Nat → Pc) (sp : Species) : Nat :=
  tally c.animals fun i => decide (c.species i = sp) && r (pc i)

variable {r : Pc → Bool} {pc : Nat → Pc} {t : Nat} {sp : Species} {s s' : State} {c : Config}
variable {f f' : Species → Int}

theorem count_le_of_imp (c : Config) {q : Pc → Bool} (h : ∀ p, r p = true → q p = true)
    (pc : Nat → Pc) (sp : Species) : count c r pc sp ≤ count c q pc sp := by
  apply tally_mono
  intro i _ hi
  rw [Bool.and_eq_true] at hi ⊢
  exact ⟨hi.1, h _ hi.2⟩

theorem count_pos (c : Config) (ht : t < c.animals)
    (h : r (pc t) = true) : 0 < count c r pc (c.species t) :=
  tally_pos ht (by simp [h])

theorem count_move (c : Config) (r : Pc → Bool) {pc' : Nat → Pc} (ht : t < c.animals)
    (h : ∀ i, i ≠ t → r (pc' i) = r (pc i)) :
    count c r pc' (c.species t) + (r (pc t)).toNat = count c r pc (c.species t) + (r (pc' t)).toNat := by
  have := tally_change (p := fun i => decide (c.species i = c.species t) && r (pc i))
    (q := fun i => decide (c.species i = c.species t) && r (pc' i)) ht
    (fun i hi => by simp [h i hi])
  simp only [decide_true, Bool.true_and] at this
  exact this

theorem count_other (c : Config) (r : Pc → Bool) {pc' : Nat → Pc}
    (hsp : sp ≠ c.species t) (h : ∀ i, i ≠ t → r (pc' i) = r (pc i)) :
    count c r pc' sp = count c r pc sp := by
  apply tally_congr
  intro i _
  by_cases hi : i = t
  · subst hi
    simp [hsp.symm]
  · simp [h i hi]

@[simp] theorem Species.other_ne (sp : Species) : sp.other ≠ sp := by cases sp <;> decide

/-! ## What one step does -/

structure Quiet (s s' : State) (t : Nat) : Prop where
  eating : s'.eating = s.eating
  bowlsEating : s'.bowlsEating = s.bowlsEating
  admitted : (s'.pc t).admitted = (s.pc t).admitted
  atBowl : (s'.pc t).atBowl = (s.pc t).atBowl

inductive Effect (s s' : State) (t : Nat) (sp : Species) : Prop where
  | quiet (h : Quiet s s' t) 
      (hp : s'.panic = some .otherSpecies → (s.pc t).admitted = true ∧ 0 < s.bowlsEating sp.other)
  | enter (heat : s'.eating = update s.eating sp (s.eating sp + 1))
      (hbowl : s'.bowlsEating = s.bowlsEating)
      (hold : (s.pc t).admitted = false) (hnew : s'.pc t = .releaseWait)
      (hwhy : s.eating sp.other = 0 ∨ s.pc t = .recheck .second ∧ ¬ mustWait s sp .second)
      (hp : s'.panic = s.panic)
  | start (heat : s'.eating = s.eating)
      (hbowl : s'.bowlsEating = update s.bowlsEating sp (s.bowlsEating sp + 1))
      (hold : s.pc t = .eatStart) (hnew : s'.pc t = .vMutexStart) (hp : s'.panic = s.panic)
  | finish (heat : s'.eating = s.eating)
      (hbowl : s'.bowlsEating = update s.bowlsEating sp (s.bowlsEating sp - 1))
      (hold : s.pc t = .eatFinish) (hnew : s'.pc t = .vMutexFinish) (hp : s'.panic = s.panic)
  | leave (heat : s'.eating = update s.eating sp (s.eating sp - 1))
      (hbowl : s'.bowlsEating = s.bowlsEating)
      (hold : s.pc t = .leave) (hnew : s'.pc t = .releaseWaitAgain) (hp : s'.panic = s.panic)

def Others (s s' : State) (t : Nat) : Prop :=
  ∀ i, i ≠ t → (s'.pc i).admitted = (s.pc i).admitted ∧ (s'.pc i).atBowl = (s.pc i).atBowl

theorem others_goto {p : Pc} (h : s'.pc = (s.goto t p).pc) : Others s s' t := by
  intro i hi
  rw [h, State.goto_pc_ne s t p hi]
  exact ⟨rfl, rfl⟩

theorem cvBroadcast_region (c : Config) (sp : Species) (pc : Nat → Pc) (i : Nat) :
    (cvBroadcast c sp pc i).admitted = (pc i).admitted ∧
      (cvBroadcast c sp pc i).atBowl = (pc i).atBowl := by
  unfold cvBroadcast
  cases pc i
  case cvWait b => dsimp only; split <;> exact ⟨rfl, rfl⟩
  all_goals exact ⟨rfl, rfl⟩

theorem arrive_effect (hpc : s.pc t = .arrive)
    (hp : s.panic = none) : Others s (arrive s t sp) t ∧ Effect s (arrive s t sp) t sp := by
  unfold arrive
  by_cases ho : s.eating sp.other ≠ 0
  · -- The other species eats: the first loop is entered.
    rw [if_pos ho]
    split
    · exact ⟨others_goto rfl, .quiet ⟨rfl, rfl, by simp [cvWait, hpc, Pc.admitted],
        by simp [cvWait, hpc, Pc.atBowl]⟩ (by simp [cvWait, hp])⟩
    · rename_i hw
      exact absurd ho hw
  · rw [if_neg ho]
    rw [not_not] at ho
    have henter : ∀ s₁ : State, s₁.eating = s.eating → s₁.bowlsEating = s.bowlsEating →
        s₁.pc = s.pc → s₁.panic = s.panic →
        Others s (enter s₁ t sp) t ∧ Effect s (enter s₁ t sp) t sp := by
      intro s₁ he hb hq hn
      refine ⟨others_goto (p := .releaseWait) ?_, .enter ?_ ?_ ?_ ?_ (Or.inl ho) ?_⟩
      · simp [enter, State.goto, hq]
      · simp [enter, he]
      · simp [enter, hb]
      · simp [hpc, Pc.admitted]
      · simp [enter]
      · simp [enter, hn]
    split
    · split
      · exact ⟨others_goto rfl, .quiet ⟨rfl, rfl, by simp [cvWait, hpc, Pc.admitted],
          by simp [cvWait, hpc, Pc.atBowl]⟩ (by simp [cvWait, hp])⟩
      · exact henter _ rfl rfl rfl rfl
    · exact henter _ rfl rfl rfl rfl

theorem recheck_effect {b : Branch} (hpc : s.pc t = .recheck b)
    (hp : s.panic = none) :
    Others s (if mustWait s sp b then cvWait s t b else enter s t sp) t ∧
      Effect s (if mustWait s sp b then cvWait s t b else enter s t sp) t sp := by
  split
  · exact ⟨others_goto rfl, .quiet ⟨rfl, rfl, by simp [cvWait, hpc, Pc.admitted],
      by simp [cvWait, hpc, Pc.atBowl]⟩ (by simp [cvWait, hp])⟩
  · rename_i hw
    refine ⟨others_goto rfl, .enter rfl rfl (by simp [hpc, Pc.admitted]) (by simp [enter]) ?_ rfl⟩
    cases b with
    | first => exact Or.inl (by simpa [mustWait] using hw)
    | second => exact Or.inr ⟨hpc, hw⟩

theorem eatStart_effect (hpc : s.pc t = .eatStart) :
    Others s (eatStart s t sp) t ∧ Effect s (eatStart s t sp) t sp := by
  unfold eatStart
  dsimp only
  split
  · exact ⟨fun _ _ => ⟨rfl, rfl⟩, .quiet ⟨rfl, rfl, rfl, rfl⟩ (by simp [State.fail])⟩
  split
  · exact ⟨fun _ _ => ⟨rfl, rfl⟩, .quiet ⟨rfl, rfl, rfl, rfl⟩
      fun _ => ⟨by rw [hpc]; rfl, by assumption⟩⟩
  split
  · exact ⟨fun _ _ => ⟨rfl, rfl⟩, .quiet ⟨rfl, rfl, rfl, rfl⟩ (by simp [State.fail])⟩
  · exact ⟨others_goto rfl, .start rfl rfl hpc (by simp) rfl⟩

theorem eatFinish_effect (hpc : s.pc t = .eatFinish) :
    Others s (eatFinish s t sp) t ∧ Effect s (eatFinish s t sp) t sp := by
  unfold eatFinish
  dsimp only
  split
  · exact ⟨others_goto rfl, .finish rfl rfl hpc (by simp) rfl⟩
  · exact ⟨fun _ _ => ⟨rfl, rfl⟩, .quiet ⟨rfl, rfl, rfl, rfl⟩ (by simp [State.fail])⟩

theorem leave_effect (hpc : s.pc t = .leave) :
    Others s (leave c s t sp) t ∧ Effect s (leave c s t sp) t sp := by
  unfold leave
  dsimp only
  split
  · refine ⟨fun i hi => ?_, .leave rfl rfl hpc ?_ rfl⟩
    · have := cvBroadcast_region c sp.other (s.goto t .releaseWaitAgain).pc i
      rw [State.goto_pc_ne s t _ hi] at this
      exact this
    · simp [cvBroadcast]
  · exact ⟨others_goto rfl, .leave rfl rfl hpc (by simp) rfl⟩

theorem simulation_effect (hp : s.panic = none)
    (h : simulation c sp s t = some s') : Others s s' t ∧ Effect s s' t sp := by
  unfold simulation acquire at h
  cases hpc : s.pc t <;> simp only [hpc] at h
  case arrive => cases h; exact arrive_effect hpc hp
  case recheck b => cases h; exact recheck_effect hpc hp
  case eatStart => cases h; exact eatStart_effect hpc
  case eatFinish => cases h; exact eatFinish_effect hpc
  case leave => cases h; exact leave_effect hpc
  case cvWait b => cases h
  case gone => cases h
  case takeBowl =>
    split at h <;> cases h <;>
      exact ⟨others_goto rfl, .quiet ⟨rfl, rfl, by simp [hpc, Pc.admitted], by simp [hpc, Pc.atBowl]⟩
        (by simp [hp])⟩
  case callEat =>
    split at h
    · cases h
      exact ⟨fun _ _ => ⟨rfl, rfl⟩, .quiet ⟨rfl, rfl, rfl, rfl⟩ (by simp [State.fail])⟩
    split at h <;> cases h
    · exact ⟨fun _ _ => ⟨rfl, rfl⟩, .quiet ⟨rfl, rfl, rfl, rfl⟩ (by simp [State.fail])⟩
    · exact ⟨others_goto rfl, .quiet ⟨rfl, rfl, by simp [hpc, Pc.admitted], by simp [hpc, Pc.atBowl]⟩
        (by simp [hp])⟩
  case vBowlCount =>
    cases h
    refine ⟨others_goto rfl, .quiet ⟨rfl, rfl, ?_, ?_⟩ (by simp [hp])⟩ <;>
      · rw [State.goto_pc_self, hpc]
        split <;> rfl
  -- The remaining steps are one call each, and those that can block are taken when they do not.
  all_goals
    (try split at h) <;> cases h
    exact ⟨others_goto rfl, .quiet ⟨rfl, rfl, by simp [hpc, Pc.admitted], by simp [hpc, Pc.atBowl]⟩
        (by simp [hp])⟩

theorem step_eq (h : step c s t = some s') :
    s.panic = none ∧ t < c.animals ∧ simulation c (c.species t) s t = some s' := by
  unfold step at h
  split at h
  · cases h
  rename_i hn
  refine ⟨by simpa using hn, ?_⟩
  split at h
  · rename_i hc
    have hsp : c.species t = .cat := if_pos hc
    exact ⟨by unfold Config.animals; omega, hsp ▸ h⟩
  split at h
  · rename_i hc hm
    have hsp : c.species t = .mouse := if_neg hc
    exact ⟨hm, hsp ▸ h⟩
  · cases h

theorem step_effect (h : step c s t = some s') :
    t < c.animals ∧ Others s s' t ∧ Effect s s' t (c.species t) := by
  obtain ⟨hp, ht, hsim⟩ := step_eq h
  exact ⟨ht, simulation_effect hp hsim⟩

structure Inv (c : Config) (s : State) : Prop where
  eating : ∀ sp, s.eating sp = count c Pc.admitted s.pc sp
  bowlsEating : ∀ sp, s.bowlsEating sp = count c Pc.atBowl s.pc sp
  excl : ∀ sp, s.eating sp = 0 ∨ s.eating sp.other = 0
  panic : s.panic ≠ some .otherSpecies

/-- It leaves the second wait loop while the other species does not eat. -/
def LeavesSafely (c : Config) (s : State) (t : Nat) : Prop :=
  s.pc t = .recheck .second → ¬ mustWait s (c.species t) .second → s.eating (c.species t).other = 0

theorem inv_init (c : Config) (garbage : Nat → Nat) : Inv c (init c garbage) where
  eating := fun sp => by simp [init, count, tally, Pc.admitted]
  bowlsEating := fun sp => by simp [init, count, tally, Pc.atBowl]
  excl := fun _ => Or.inl rfl
  panic := by simp [init]

theorem Inv.bowlsEating_le (h : Inv c s) (sp : Species) : s.bowlsEating sp ≤ s.eating sp := by
  rw [h.eating, h.bowlsEating]
  have := count_le_of_imp c @Pc.admitted_of_atBowl s.pc sp
  omega

theorem Inv.exclusive (h : Inv c s) : Exclusive s := by
  have hcat := h.bowlsEating_le .cat
  have hmouse := h.bowlsEating_le .mouse
  have hex := h.excl .cat
  simp only [Species.other] at hex
  exact ⟨by omega, by omega, h.panic⟩

theorem counts_move (ht : t < c.animals)
    (hc : ∀ sp, f sp = count c r s.pc sp) (ho : ∀ i, i ≠ t → r (s'.pc i) = r (s.pc i))
    (hown : f' (c.species t) + (r (s.pc t)).toNat = f (c.species t) + (r (s'.pc t)).toNat)
    (hother : ∀ sp, sp ≠ c.species t → f' sp = f sp) (sp : Species) :
    f' sp = count c r s'.pc sp := by
  by_cases hsp : sp = c.species t
  · subst hsp
    have := count_move c r ht ho
    have := hc (c.species t)
    omega
  · rw [hother sp hsp, hc sp, count_other c r hsp ho]

theorem counts_keep (ht : t < c.animals)
    (hc : ∀ sp, f sp = count c r s.pc sp) (ho : ∀ i, i ≠ t → r (s'.pc i) = r (s.pc i))
    (hf : f' = f) (hr : r (s'.pc t) = r (s.pc t)) (sp : Species) : f' sp = count c r s'.pc sp :=
  counts_move ht hc ho (by rw [hf, hr]) (fun _ _ => by rw [hf]) sp

theorem counts_add {d : Int} (ht : t < c.animals)
    (hc : ∀ sp, f sp = count c r s.pc sp) (ho : ∀ i, i ≠ t → r (s'.pc i) = r (s.pc i))
    (hf : f' = update f (c.species t) (f (c.species t) + d))
    (hr : d + (r (s.pc t)).toNat = (r (s'.pc t)).toNat) (sp : Species) :
    f' sp = count c r s'.pc sp := by
  refine counts_move ht hc ho ?_ (fun q hq => by rw [hf, update_of_ne hq]) sp
  rw [hf, update_self]
  omega

theorem excl_of_zero (h : f sp.other = 0) (q : Species) : f q = 0 ∨ f q.other = 0 := by
  cases q <;> cases sp <;> simp only [Species.other] at h ⊢ <;> omega

theorem step_inv (h : Inv c s) (hl : LeavesSafely c s t) (hs : step c s t = some s') : Inv c s' := by
  obtain ⟨ht, hoth, heff⟩ := step_effect hs
  have hoa := fun i hi => (hoth i hi).1
  have hob := fun i hi => (hoth i hi).2
  cases heff with
  | quiet hq hp =>
    refine ⟨counts_keep ht h.eating hoa hq.eating hq.admitted,
      counts_keep ht h.bowlsEating hob hq.bowlsEating hq.atBowl, ?_, ?_⟩
    · rw [hq.eating]; exact h.excl
    · intro hbad
      -- The other species is at a bowl, and our thread has been admitted as well.
      obtain ⟨hadm, hother⟩ := hp hbad
      have hown := count_pos c ht hadm
      rw [← Int.natCast_pos, ← h.eating] at hown
      have := h.bowlsEating_le (c.species t).other
      have := h.excl (c.species t)
      omega
  | enter heat hbowl hold hnew hwhy hp =>
    have hzero : s.eating (c.species t).other = 0 := by
      rcases hwhy with hz | ⟨hpc, hw⟩
      · exact hz
      · exact hl hpc hw
    refine ⟨counts_add ht h.eating hoa heat (by rw [hold, hnew]; rfl),
      counts_keep ht h.bowlsEating hob hbowl ?_, ?_, hp ▸ h.panic⟩
    · rw [hnew]
      cases hb : (s.pc t).atBowl with
      | false => rfl
      | true => rw [Pc.admitted_of_atBowl hb] at hold; cases hold
    · exact excl_of_zero (by rw [heat, update_of_ne (Species.other_ne _), hzero])
  | start heat hbowl hold hnew hp =>
    refine ⟨counts_keep ht h.eating hoa heat (by rw [hold, hnew]; rfl),
      counts_add ht h.bowlsEating hob hbowl (by rw [hold, hnew]; rfl), ?_, hp ▸ h.panic⟩
    rw [heat]; exact h.excl
  | finish heat hbowl hold hnew hp =>
    refine ⟨counts_keep ht h.eating hoa heat (by rw [hold, hnew]; rfl),
      counts_add ht h.bowlsEating hob hbowl (by rw [hold, hnew]; rfl), ?_, hp ▸ h.panic⟩
    rw [heat]; exact h.excl
  | leave heat hbowl hold hnew hp =>
    refine ⟨counts_add ht h.eating hoa heat (by rw [hold, hnew]; rfl),
      counts_keep ht h.bowlsEating hob hbowl (by rw [hold, hnew]; rfl), ?_, hp ▸ h.panic⟩
    -- Our own counter was positive, so the other one is 0 and stays 0.
    have hadm : (s.pc t).admitted = true := by rw [hold]; rfl
    have hown := count_pos c ht hadm
    rw [← Int.natCast_pos, ← h.eating] at hown
    have := h.excl (c.species t)
    exact excl_of_zero (by rw [heat, update_of_ne (Species.other_ne _)]; omega)

theorem step_bad (h : Inv c s) (hl : ¬ LeavesSafely c s t) (hs : step c s t = some s') :
    ¬ Exclusive s' := by
  simp only [LeavesSafely, Classical.not_imp] at hl
  obtain ⟨hpc, hw, hne⟩ := hl
  obtain ⟨-, -, hsim⟩ := step_eq hs
  obtain rfl : enter s t (c.species t) = s' := by simpa [simulation, hpc, hw] using hsim
  have hpos : ∀ sp, 0 ≤ s.eating sp := fun sp => by rw [h.eating]; omega
  have hown := hpos (c.species t)
  have hother := hpos (c.species t).other
  have hboth : 0 < (enter s t (c.species t)).eating (c.species t) ∧
      0 < (enter s t (c.species t)).eating (c.species t).other := by
    constructor
    · simp only [enter, update_self]
      omega
    · simp only [enter, update_of_ne (Species.other_ne _)]
      omega
  rintro ⟨hex, -, -⟩
  generalize (enter s t (c.species t)).eating = f at hex hboth
  cases hsp : c.species t <;> simp only [hsp, Species.other] at hboth
  · exact hex hboth
  · exact hex hboth.symm

theorem exclusive_iff_leavesSafely (c : Config) (garbage : Nat → Nat) (ls : List Nat) (s : State)
    (h : run (step c) (init c garbage) ls = some s) :
    Always (step c) Exclusive (init c garbage) ls ↔
      Meets (step c) (LeavesSafely c) (init c garbage) ls := by
  have hstep : ∀ s l s', Inv c s → LeavesSafely c s l → step c s l = some s' → Inv c s' :=
    fun _ _ _ => step_inv
  constructor
  · exact meets_of_always hstep (fun _ _ _ => step_bad) (inv_init c garbage) h
  · exact always_of_meets hstep (fun _ => Inv.exclusive) (inv_init c garbage)

def pair : Config := ⟨2, 2, 2, 1⟩

def togetherRun : List Nat :=
  [0, 0, 0, 0, 2, 2, 2, 1, 1, 1] ++ List.replicate 18 0 ++ [2, 2, 2] ++ List.replicate 18 2 ++
    [3, 3, 3, 3, 1, 1]

theorem cats_and_mice_eat_together :
    ¬ ∀ (c : Config) (garbage : Nat → Nat) (ls : List Nat) (s : State), 1 ≤ c.numBowls →
      run (step c) (init c garbage) ls = some s → Exclusive s := by
  intro h
  have hbad : (run (step pair) (init pair fun _ => 0) togetherRun).map (fun s => decide (Exclusive s))
      = some false := by decide
  cases hr : run (step pair) (init pair fun _ => 0) togetherRun with
  | none => rw [hr] at hbad; cases hbad
  | some s =>
    rw [hr] at hbad
    have hs := h pair _ _ s (by decide) hr
    simp [hs] at hbad

theorem exclusive_iff_leavesSafely_pair :
    ∃ s, run (step pair) (init pair fun _ => 0) (togetherRun.take 10) = some s ∧
      (Always (step pair) Exclusive (init pair fun _ => 0) (togetherRun.take 10) ↔
        Meets (step pair) (LeavesSafely pair) (init pair fun _ => 0) (togetherRun.take 10)) := by
  obtain ⟨s, hs⟩ := Option.isSome_iff_exists.mp
    (show (run (step pair) (init pair fun _ => 0) (togetherRun.take 10)).isSome by decide)
  exact ⟨s, hs, exclusive_iff_leavesSafely pair _ _ s hs⟩

end Os161.CatMouse
