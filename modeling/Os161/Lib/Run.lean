import Mathlib.Data.List.Basic

/-!
# Runs of a machine

A machine is a step function: a label says which event happens next, and `none` that it cannot happen
in this state.
-/

open Option

namespace Os161.Lib

variable {σ ℓ : Type} {step : σ → ℓ → Option σ} {C : σ → ℓ → Prop} {I P : σ → Prop} {s s' : σ}
variable {ls : List ℓ}

/-- Takes the steps of a list in order, as long as they can be taken. -/
def run (step : σ → ℓ → Option σ) : σ → List ℓ → Option σ
  | s, [] => some s
  | s, l :: ls => (step s l).bind fun s' => run step s' ls

/-- Every step of the run meets `C`, in the state just before it. -/
def Meets (step : σ → ℓ → Option σ) (C : σ → ℓ → Prop) : σ → List ℓ → Prop
  | _, [] => True
  | s, l :: ls => C s l ∧ ∀ s', step s l = some s' → Meets step C s' ls

/-- Every state of the run meets `P`, the first and the last one included. -/
def Always (step : σ → ℓ → Option σ) (P : σ → Prop) : σ → List ℓ → Prop
  | s, [] => P s
  | s, l :: ls => P s ∧ ∀ s', step s l = some s' → Always step P s' ls

instance instDecidableMeets {step : σ → ℓ → Option σ} {C : σ → ℓ → Prop}
    [∀ s l, Decidable (C s l)] : ∀ (s : σ) (ls : List ℓ), Decidable (Meets step C s ls)
  | _, [] => inferInstanceAs (Decidable True)
  | s, l :: ls =>
    match h : step s l with
    | none => decidable_of_iff (C s l) (by simp [Meets, h])
    | some s' =>
      have : Decidable (Meets step C s' ls) := instDecidableMeets s' ls
      decidable_of_iff (C s l ∧ Meets step C s' ls) (by simp [Meets, h])

theorem run_cons (s : σ) (l : ℓ) (ls : List ℓ) :
    run step s (l :: ls) = (step s l).bind fun s' => run step s' ls := rfl

theorem run_cons_some {l : ℓ} (h : run step s (l :: ls) = some s') :
    ∃ t, step s l = some t ∧ run step t ls = some s' := by
  rw [run_cons, bind_eq_some_iff] at h
  exact h

theorem run_append (s : σ) (ls ls' : List ℓ) :
    run step s (ls ++ ls') = (run step s ls).bind fun s' => run step s' ls' := by
  induction ls generalizing s with
  | nil => rfl
  | cons l ls ih =>
    rw [List.cons_append, run_cons, run_cons, bind_assoc]
    congr 1
    funext t
    exact ih t

theorem run_range (step : σ → Nat → Option σ) (f : Nat → σ) {n : Nat}
    (h : ∀ i < n, step (f i) i = some (f (i + 1))) : run step (f 0) (List.range n) = some (f n) := by
  induction n with
  | zero => rfl
  | succ n ih =>
    rw [List.range_succ, run_append, ih fun i hi => h i (by omega), bind_some, run_cons,
      h n (by omega)]
    rfl

theorem run_range_inv {step : σ → Nat → Option σ} {I : Nat → σ → Prop} {n : Nat}
    (hstep : ∀ i s s', I i s → step s i = some s' → I (i + 1) s') (hi : I 0 s)
    (h : run step s (List.range n) = some s') : I n s' := by
  induction n generalizing s' with
  | zero =>
    cases h
    exact hi
  | succ n ih =>
    rw [List.range_succ, run_append] at h
    obtain ⟨t, ht, hlast⟩ := bind_eq_some_iff.mp h
    obtain ⟨t', ht', hnil⟩ := run_cons_some hlast
    cases hnil
    exact hstep n t s' (ih ht) ht'

theorem run_inv (hstep : ∀ s l s', I s → step s l = some s' → I s')
    (hi : I s) (h : run step s ls = some s') : I s' := by
  induction ls generalizing s with
  | nil => cases h; exact hi
  | cons l ls ih =>
    obtain ⟨t, ht, hr⟩ := run_cons_some h
    exact ih (hstep s l t hi ht) hr

theorem always_of_meets (hstep : ∀ s l s', I s → C s l → step s l = some s' → I s')
    (hp : ∀ s, I s → P s) (hi : I s) (hc : Meets step C s ls) :
    Always step P s ls := by
  induction ls generalizing s with
  | nil => exact hp s hi
  | cons l ls ih => exact ⟨hp s hi, fun t ht => ih (hstep s l t hi hc.1 ht) (hc.2 t ht)⟩

theorem always_of_inv (hstep : ∀ s l s', I s → step s l = some s' → I s') (hp : ∀ s, I s → P s)
    (hi : I s) (ls : List ℓ) : Always step P s ls := by
  induction ls generalizing s with
  | nil => exact hp s hi
  | cons l ls ih => exact ⟨hp s hi, fun t ht => ih (hstep s l t hi ht)⟩

theorem run_total (hstep : ∀ s l, I s → C s l → ∃ s', step s l = some s' ∧ I s')
    (hi : I s) (hc : Meets step C s ls) : ∃ s', run step s ls = some s' ∧ I s' := by
  induction ls generalizing s with
  | nil => exact ⟨s, rfl, hi⟩
  | cons l ls ih =>
    obtain ⟨t, ht, hit⟩ := hstep s l hi hc.1
    obtain ⟨u, hu, hiu⟩ := ih hit (hc.2 t ht)
    exact ⟨u, by rw [run_cons, ht, bind_some, hu], hiu⟩

theorem Always.head (h : Always step P s ls) : P s := by
  cases ls with
  | nil => exact h
  | cons l ls => exact h.1

theorem Always.last (h : Always step P s ls)
    (hrun : run step s ls = some s') : P s' := by
  induction ls generalizing s with
  | nil => cases hrun; exact h
  | cons l ls ih =>
    obtain ⟨t, ht, hr⟩ := run_cons_some hrun
    exact ih (h.2 t ht) hr

theorem meets_of_always (hstep : ∀ s l s', I s → C s l → step s l = some s' → I s')
    (hbad : ∀ s l s', I s → ¬ C s l → step s l = some s' → ¬ P s')
    (hi : I s) (h : run step s ls = some s') (hp : Always step P s ls) : Meets step C s ls := by
  induction ls generalizing s with
  | nil => trivial
  | cons l ls ih =>
    obtain ⟨t, ht, hr⟩ := run_cons_some h
    have hc : C s l := by
      by_contra hn
      exact hbad s l t hi hn ht (hp.2 t ht).head
    refine ⟨hc, fun u hu => ?_⟩
    obtain rfl : t = u := some.inj (ht.symm.trans hu)
    exact ih (hstep s l t hi hc ht) hr (hp.2 t ht)

theorem Meets.imp {D : σ → ℓ → Prop}
    (hstep : ∀ s l, I s → C s l → D s l ∧ ∀ s', step s l = some s' → I s')
    (hi : I s) (hc : Meets step C s ls) : Meets step D s ls := by
  induction ls generalizing s with
  | nil => trivial
  | cons l ls ih =>
    obtain ⟨hd, hkeep⟩ := hstep s l hi hc.1
    exact ⟨hd, fun s' hs' => ih (hkeep s' hs') (hc.2 s' hs')⟩

theorem meets_iff {D : σ → ℓ → Prop} (hstep : ∀ s l s', I s → C s l → step s l = some s' → I s')
    (hiff : ∀ s l s', I s → step s l = some s' → (D s l ↔ C s l)) (hi : I s)
    (h : run step s ls = some s') : Meets step D s ls ↔ Meets step C s ls := by
  induction ls generalizing s with
  | nil => exact Iff.rfl
  | cons l ls ih =>
    obtain ⟨t, ht, hr⟩ := run_cons_some h
    have hrest : C s l → (Meets step D t ls ↔ Meets step C t ls) := fun hc =>
      ih (hstep s l t hi hc ht) hr
    simp only [Meets, ht, some.injEq, forall_eq', hiff s l t hi ht]
    exact and_congr_right hrest

section Conforms

variable {τ ι ω : Type}

/-- The calls that `pre` allows come back with the answers that `spec` has for them. -/
def Conforms (step : σ → ι → Option (σ × ω)) (pre : τ → ι → Prop) (spec : τ → ι → ω → τ → Prop)
    (R : σ → τ → Prop) : σ → τ → List ι → Prop
  | s, a, [] => R s a
  | s, a, i :: is => R s a ∧ (pre a i →
      ∃ s' o a', step s i = some (s', o) ∧ spec a i o a' ∧ Conforms step pre spec R s' a' is)

theorem conforms_of_step {step : σ → ι → Option (σ × ω)} {pre : τ → ι → Prop}
    {spec : τ → ι → ω → τ → Prop} {R : σ → τ → Prop}
    (hstep : ∀ s a i, R s a → pre a i → ∃ s' o a', step s i = some (s', o) ∧ spec a i o a' ∧ R s' a')
    {a : τ} (h : R s a) (is : List ι) : Conforms step pre spec R s a is := by
  induction is generalizing s a with
  | nil => exact h
  | cons i is ih =>
    refine ⟨h, fun hpre => ?_⟩
    obtain ⟨s', o, a', hs, hspec, h'⟩ := hstep s a i h hpre
    exact ⟨s', o, a', hs, hspec, ih h'⟩

end Conforms

end Os161.Lib
