import Mathlib.Data.List.Basic

/-! # How many indices below a bound meet a test -/

open Function List

namespace Os161.Lib

def tally (n : Nat) (p : Nat → Bool) : Nat := (List.range n).countP p

theorem tally_succ (n : Nat) (p : Nat → Bool) : tally (n + 1) p = tally n p + (p n).toNat := by
  unfold tally
  rw [range_succ, countP_append, countP_singleton]
  cases p n <;> rfl

variable {n i : Nat} {p q : Nat → Bool}

theorem tally_congr (h : ∀ i < n, p i = q i) : tally n p = tally n q := by
  induction n with
  | zero => rfl
  | succ n ih => rw [tally_succ, tally_succ, ih fun i hi => h i (by omega), h n (by omega)]

theorem tally_change (hi : i < n) (h : ∀ j, j ≠ i → p j = q j) :
    tally n q + (p i).toNat = tally n p + (q i).toNat := by
  induction n with
  | zero => omega
  | succ n ih =>
    rw [tally_succ, tally_succ]
    rcases Nat.lt_or_ge i n with hlt | hge
    · rw [h n (by omega)]
      omega
    · obtain rfl : i = n := by omega
      rw [tally_congr fun j hj => h j (by omega)]
      omega

theorem tally_mono (h : ∀ i < n, p i = true → q i = true) : tally n p ≤ tally n q := by
  exact countP_mono_left fun i hi hp => h i (mem_range.mp hi) hp

theorem tally_pos (hi : i < n) (hp : p i = true) : 0 < tally n p :=
  countP_pos_iff.mpr ⟨i, mem_range.mpr hi, hp⟩

theorem tally_lt (h : ∀ i < n, p i = true → q i = true) (hi : i < n)
    (hp : p i = false) (hq : q i = true) : tally n p < tally n q := by
  have hle : tally n p ≤ tally n (update q i false) := by
    apply tally_mono
    intro j hj hpj
    have hji : j ≠ i := by
      rintro rfl
      simp [hp] at hpj
    rw [update_of_ne hji]
    exact h j hj hpj
  have hchange := tally_change (p := update q i false) (q := q) hi fun j hj =>
    update_of_ne hj ..
  rw [update_self, hq, Bool.toNat_false, Bool.toNat_true] at hchange
  omega

def collect {α : Type} (n : Nat) (f : Nat → Option α) : List α := (List.range n).filterMap f

section

variable {α : Type} {n i : Nat} {f g : Nat → Option α}

theorem collect_succ (n : Nat) (f : Nat → Option α) :
    collect (n + 1) f = collect n f ++ (f n).toList := by
  unfold collect
  rw [range_succ, filterMap_append]
  cases h : f n <;> simp [h]

theorem collect_congr (h : ∀ i < n, f i = g i) : collect n f = collect n g := by
  induction n with
  | zero => rfl
  | succ n ih => rw [collect_succ, collect_succ, ih fun i hi => h i (by omega), h n (by omega)]

theorem collect_change (hi : i < n) (h : ∀ j, j ≠ i → f j = g j) :
    ∃ rest, (collect n f).Perm (rest ++ (f i).toList) ∧ (collect n g).Perm (rest ++ (g i).toList) := by
  induction n with
  | zero => omega
  | succ n ih =>
    rw [collect_succ, collect_succ]
    rcases Nat.lt_or_ge i n with hlt | hge
    · obtain ⟨rest, hf, hg⟩ := ih hlt
      refine ⟨rest ++ (f n).toList, ?_, ?_⟩
      · rw [append_assoc]
        refine (hf.append_right _).trans ?_
        rw [append_assoc]
        exact perm_append_comm.append_left rest
      · rw [append_assoc, ← h n (by omega)]
        refine (hg.append_right _).trans ?_
        rw [append_assoc]
        exact perm_append_comm.append_left rest
    · obtain rfl : i = n := by omega
      exact ⟨collect i f, .refl _, by rw [collect_congr fun j hj => h j (by omega)]⟩

theorem length_collect (n : Nat) (f : Nat → Option α) :
    (collect n f).length = tally n fun i => (f i).isSome := by
  induction n with
  | zero => rfl
  | succ n ih =>
    rw [collect_succ, tally_succ, length_append, ih]
    cases f n <;> rfl

theorem mem_collect (hi : i < n) {x : α} (h : f i = some x) : x ∈ collect n f :=
  mem_filterMap.mpr ⟨i, mem_range.mpr hi, h⟩

end

end Os161.Lib
