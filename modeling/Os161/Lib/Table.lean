import Mathlib.Data.List.Nodup

/-!
# Tables searched by key

An unordered array of records that is searched from its start for the first one with a given key.
-/

open List

namespace Os161.Lib

variable {α κ : Type} [DecidableEq κ] (key : α → κ)

def lookup (l : List α) (k : κ) : Option α := l.find? fun a => key a = k

/-- The table with `a` in the place of the records that have its key. -/
def put (l : List α) (a : α) : List α := l.map fun b => if key b = key a then a else b

def remove (l : List α) (k : κ) : List α := l.eraseP fun a => key a = k

variable {key} {l : List α} {a : α} {k : κ}

theorem lookup_key (h : lookup key l k = some a) : key a = k := by
  have hfound := List.find?_some h
  exact of_decide_eq_true hfound

theorem lookup_isSome : (lookup key l k).isSome ↔ k ∈ l.map key := by
  unfold lookup
  simp [List.find?_isSome]

theorem lookup_eq_none : lookup key l k = none ↔ k ∉ l.map key := by
  rw [← lookup_isSome, Option.not_isSome_iff_eq_none]

theorem lookup_of_mem (hn : (l.map key).Nodup) (ha : a ∈ l) : lookup key l (key a) = some a := by
  induction l with
  | nil => cases ha
  | cons b l ih =>
    rw [map_cons, nodup_cons] at hn
    unfold lookup at ih ⊢
    rw [List.find?_cons]
    obtain rfl | hmem := mem_cons.mp ha
    · simp
    · have hne : key b ≠ key a := by
        intro heq
        exact hn.1 (heq ▸ mem_map_of_mem hmem)
      simp only [hne, decide_false]
      exact ih hn.2 hmem

@[simp] theorem map_key_put : (put key l a).map key = l.map key := by
  unfold put
  rw [map_map]
  apply map_congr_left
  intro b _
  rw [Function.comp_apply]
  split
  · exact Eq.symm ‹_›
  · rfl

theorem lookup_put_self (h : (lookup key l (key a)).isSome) :
    lookup key (put key l a) (key a) = some a := by
  induction l with
  | nil => cases h
  | cons b l ih =>
    unfold lookup at ih h ⊢
    unfold put at ih ⊢
    rw [map_cons, List.find?_cons]
    rw [List.find?_cons] at h
    by_cases hb : key b = key a
    · simp [hb]
    · simp only [hb, decide_false, if_false] at h ⊢
      exact ih h

theorem lookup_put_of_ne (h : k ≠ key a) : lookup key (put key l a) k = lookup key l k := by
  induction l with
  | nil => rfl
  | cons b l ih =>
    unfold lookup put at ih ⊢
    rw [map_cons, List.find?_cons, List.find?_cons, ih]
    by_cases hb : key b = key a
    · simp [hb, Ne.symm h]
    · simp only [hb, if_false]

theorem put_self (hn : (l.map key).Nodup) (h : lookup key l (key a) = some a) : put key l a = l := by
  conv_rhs => rw [← map_id l]
  apply map_congr_left
  intro b hb
  split
  · rename_i heq
    have hb' := lookup_of_mem hn hb
    rw [heq] at hb'
    exact Option.some.inj (h.symm.trans hb')
  · rfl

theorem lookup_append (h : lookup key l (key a) = none) :
    lookup key (l ++ [a]) k = if k = key a then some a else lookup key l k := by
  unfold lookup at h ⊢
  rw [List.find?_append]
  by_cases hk : k = key a
  · subst hk
    rw [h, if_pos rfl]
    simp
  · rw [if_neg hk]
    have hnot : List.find? (fun b => decide (key b = k)) [a] = none := by
      simp [Ne.symm hk]
    rw [hnot, Option.or_none]

theorem nodup_append (hn : (l.map key).Nodup) (h : lookup key l (key a) = none) :
    ((l ++ [a]).map key).Nodup := by
  rw [map_append, map_singleton, nodup_append_comm]
  simpa using ⟨fun x hx he => lookup_eq_none.mp h (he ▸ mem_map_of_mem hx), hn⟩

theorem nodup_remove (hn : (l.map key).Nodup) : ((remove key l k).map key).Nodup :=
  hn.sublist ((eraseP_sublist).map key)

theorem lookup_remove_self (hn : (l.map key).Nodup) : lookup key (remove key l k) k = none := by
  induction l with
  | nil => rfl
  | cons b l ih =>
    rw [map_cons, nodup_cons] at hn
    unfold remove at ih ⊢
    by_cases hb : key b = k
    · subst hb
      rw [eraseP_cons_of_pos (by simp)]
      exact lookup_eq_none.mpr hn.1
    · rw [eraseP_cons_of_neg (by simpa using hb)]
      unfold lookup at ih ⊢
      rw [List.find?_cons, ih hn.2]
      simp [hb]

theorem lookup_remove_of_ne {m : κ} (h : m ≠ k) :
    lookup key (remove key l k) m = lookup key l m := by
  induction l with
  | nil => rfl
  | cons b l ih =>
    unfold remove at ih ⊢
    by_cases hb : key b = k
    · subst hb
      unfold lookup
      simp [Ne.symm h]
    · rw [eraseP_cons_of_neg (by simpa using hb)]
      unfold lookup at ih ⊢
      rw [List.find?_cons, List.find?_cons, ih]

end Os161.Lib
