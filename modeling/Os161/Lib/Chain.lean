import Mathlib.Data.List.Basic

/-!
# Lists linked through a `next` pointer

The two loops over a singly linked list, search and unlinking through a pointer to the link, and what
each does to the nodes. A loop that runs out of fuel is `none`.
-/

open Function List

namespace Os161.Lib

variable {α : Type} {next next' : α → Option α} {o : Option α} {l l' : List α} {a b r : α}

/-- Following `next` from `o` visits the nodes of the list in order and then ends. -/
def Chain (next : α → Option α) : Option α → List α → Prop
  | o, [] => o = none
  | o, a :: l => o = some a ∧ Chain next (next a) l

/-- Visits the nodes until `test` says yes; `none` where `test` itself fails. -/
def walk (next : α → Option α) (test : α → Option Bool) : Nat → Option α → Option (Option α)
  | 0, _ => none
  | _ + 1, none => some none
  | n + 1, some a =>
    (test a).bind fun found => if found then some (some a) else walk next test n (next a)

/-- The unlinking loop once it holds a pointer to the link of `a`. -/
def unlinkAfter [DecidableEq α] (next : α → Option α) (r : α) : Nat → α → Option (α → Option α)
  | 0, _ => none
  | n + 1, a =>
    match next a with
    | none => some next
    | some b =>
      if b = r then some (Function.update next a (next r)) else unlinkAfter next r n b

/-- Takes `r` out of the list at `base`: the new base and the new links. -/
def unlink [DecidableEq α] (next : α → Option α) (r : α) (fuel : Nat) (base : Option α) :
    Option (Option α × (α → Option α)) :=
  match base with
  | none => some (none, next)
  | some b =>
    if b = r then some (next r, next) else (unlinkAfter next r fuel b).map fun n => (some b, n)

@[simp] theorem chain_nil : Chain next o [] ↔ o = none := Iff.rfl

@[simp] theorem chain_cons : Chain next o (a :: l) ↔ o = some a ∧ Chain next (next a) l := Iff.rfl

namespace Chain

section

variable (h : Chain next o l)
include h

theorem unique (h' : Chain next o l') : l = l' := by
  induction l generalizing o l' with
  | nil =>
    cases l' with
    | nil => rfl
    | cons b l' => exact absurd (h.symm.trans h'.1) (by simp)
  | cons a l ih =>
    cases l' with
    | nil => exact absurd (h.1.symm.trans h') (by simp)
    | cons b l' =>
      obtain rfl : a = b := Option.some.inj (h.1.symm.trans h'.1)
      rw [ih h.2 h'.2]

theorem of_mem (ha : a ∈ l) : ∃ u t, l = u ++ a :: t ∧ Chain next (next a) t := by
  induction l generalizing o with
  | nil => cases ha
  | cons b l ih =>
    rcases mem_cons.mp ha with rfl | ha
    · exact ⟨[], l, rfl, h.2⟩
    · obtain ⟨u, t, rfl, ht⟩ := ih h.2 ha
      exact ⟨b :: u, t, rfl, ht⟩

theorem nodup : l.Nodup := by
  induction l generalizing o with
  | nil => exact nodup_nil
  | cons a l ih =>
    refine nodup_cons.mpr ⟨fun ha => ?_, ih h.2⟩
    -- were `a` met again, what follows it would be both `l` and a proper part of `l`
    obtain ⟨u, t, hl, ht⟩ := h.2.of_mem ha
    have heq := h.2.unique ht
    have hlen := congrArg List.length hl
    rw [heq, length_append, length_cons] at hlen
    omega

theorem congr (hn : ∀ a ∈ l, next' a = next a) : Chain next' o l := by
  induction l generalizing o with
  | nil => exact h
  | cons a l ih =>
    refine ⟨h.1, ?_⟩
    rw [hn a mem_cons_self]
    exact ih h.2 fun b hb => hn b (mem_cons_of_mem a hb)

theorem push [DecidableEq α] (hr : r ∉ l) : Chain (update next r o) (some r) (r :: l) := by
  refine ⟨rfl, ?_⟩
  rw [update_self]
  exact h.congr fun a ha => update_of_ne (fun e : a = r => hr (e ▸ ha)) ..

end

variable {fuel : Nat}

theorem walk {test : α → Option Bool} {p : α → Bool} (h : Chain next o l)
    (ht : ∀ a ∈ l, test a = some (p a)) (hf : l.length < fuel) :
    Lib.walk next test fuel o = some (l.find? p) := by
  induction l generalizing o fuel with
  | nil =>
    obtain ⟨n, rfl⟩ := Nat.exists_eq_succ_of_ne_zero (Nat.ne_of_gt hf)
    rw [chain_nil.mp h]
    rfl
  | cons a l ih =>
    obtain ⟨n, rfl⟩ := Nat.exists_eq_succ_of_ne_zero (Nat.ne_of_gt (Nat.zero_lt_of_lt hf))
    rw [h.1, Lib.walk, ht a mem_cons_self, Option.bind_some, List.find?_cons]
    cases p a with
    | true => rfl
    | false =>
      exact ih h.2 (fun b hb => ht b (mem_cons_of_mem a hb)) (Nat.lt_of_succ_lt_succ hf)

theorem unlinkAfter [DecidableEq α] (h : Chain next (some a) (a :: l)) (hr : r ∈ l)
    (hf : l.length ≤ fuel) :
    ∃ next', Lib.unlinkAfter next r fuel a = some next' ∧
      Chain next' (some a) (a :: l.erase r) ∧ ∀ b, b ∉ a :: l → next' b = next b := by
  induction l generalizing a fuel with
  | nil => cases hr
  | cons b l ih =>
    obtain ⟨n, rfl⟩ := Nat.exists_eq_succ_of_ne_zero (Nat.ne_of_gt (Nat.zero_lt_of_lt hf))
    have hnd := nodup_cons.mp h.nodup
    have hab : next a = some b := h.2.1
    rw [Lib.unlinkAfter, hab]
    by_cases hbr : b = r
    · subst hbr
      refine ⟨update next a (next b), by simp, ⟨rfl, ?_⟩, fun c hc => ?_⟩
      · rw [update_self, erase_cons_head]
        refine h.2.2.congr fun c hc => update_of_ne ?_ ..
        rintro rfl
        exact hnd.1 (mem_cons_of_mem b hc)
      · exact update_of_ne (fun e : c = a => hc (e ▸ mem_cons_self)) ..
    · have hrl : r ∈ l := (mem_cons.mp hr).resolve_left (Ne.symm hbr)
      obtain ⟨next', hu, hc, hfr⟩ := ih ⟨rfl, h.2.2⟩ hrl (Nat.le_of_succ_le_succ hf)
      refine ⟨next', by simpa [hbr] using hu, ?_, fun c hc => hfr c fun hm => hc ?_⟩
      · rw [erase_cons_tail (by simpa using hbr)]
        exact ⟨rfl, (hfr a hnd.1).trans hab, hc.2⟩
      · exact mem_cons_of_mem a hm

theorem unlink [DecidableEq α] (h : Chain next o l) (hr : r ∈ l)
    (hf : l.length ≤ fuel) :
    ∃ o' next', Lib.unlink next r fuel o = some (o', next') ∧
      Chain next' o' (l.erase r) ∧ ∀ b, b ∉ l → next' b = next b := by
  cases l with
  | nil => cases hr
  | cons a l =>
    rw [h.1, Lib.unlink]
    by_cases har : a = r
    · subst har
      refine ⟨next a, next, by simp, ?_, fun b _ => rfl⟩
      rw [erase_cons_head]
      exact h.2
    · have hrl : r ∈ l := (mem_cons.mp hr).resolve_left (Ne.symm har)
      obtain ⟨next', hu, hc, hfr⟩ := unlinkAfter ⟨rfl, h.2⟩ hrl (Nat.le_of_succ_le hf)
      refine ⟨some a, next', by simp [har, hu], ?_, hfr⟩
      rw [erase_cons_tail (by simpa using har)]
      exact hc

end Chain

end Os161.Lib
