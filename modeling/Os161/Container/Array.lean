import Mathlib.Data.List.Basic

/-!
# The arrays of pointers of `lib/array.c`

A slot that was never written is `none`, and a null `v` the empty block. A failed assert, or a read of
such a slot, is `none`. Calls are told whether `kmalloc` succeeds.
-/

open List

namespace Os161

structure Arr (α : Type) where
  num : Nat
  max : Nat
  v : List (Option α)

namespace Arr

variable {α : Type}

def create : Arr α := ⟨0, 0, []⟩

def getguy (a : Arr α) (index : Nat) : Option α :=
  if a.num ≤ a.max ∧ index < a.num then a.v[index]?.join else none

/-- The loop of `array_preallocate`; `nguys` rounds are enough. -/
def growmax (nguys : Nat) : Nat → Nat → Nat
  | 0, newmax => newmax
  | fuel + 1, newmax => if newmax < nguys then growmax nguys fuel ((newmax + 1) * 2) else newmax

def newmax (a : Arr α) (nguys : Nat) : Nat := growmax nguys nguys a.max

def preallocate (mem : Bool) (a : Arr α) (nguys : Nat) : Option (Arr α × Bool) :=
  if a.num ≤ a.max then
    if mem then
      some (⟨a.num, a.newmax nguys,
        a.v.take a.num ++ List.replicate (a.newmax nguys - a.num) none⟩, true)
    else some (a, false)
  else none

def setsize (mem : Bool) (a : Arr α) (nguys : Nat) : Option (Arr α × Bool) := if a.num ≤ a.max then
    if a.max < nguys then
      match a.preallocate mem nguys with
      | none => none
      | some (a, false) => some (a, false)
      | some (a, true) => some ({ a with num := nguys }, true)
    else if nguys = 0 ∧ 16 < a.max then some (⟨0, 0, []⟩, true)
    else some ({ a with num := nguys }, true)
  else none

def add (mem : Bool) (a : Arr α) (guy : α) : Option (Arr α × Bool) :=
  match a.setsize mem (a.num + 1) with
  | none => none
  | some (a', false) => some (a', false)
  | some (a', true) => some ({ a' with v := a'.v.set a.num (some guy) }, true)

/-- `memmove` closes the gap and leaves the last slot as it was. -/
def remove (a : Arr α) (index : Nat) : Option (Arr α) := if a.num ≤ a.max ∧ index < a.num then
    some { a with
      num := a.num - 1
      v := a.v.take index ++ (a.v.drop (index + 1)).take (a.num - (index + 1)) ++
        a.v.drop (a.num - 1) }
  else none

def setguy (a : Arr α) (index : Nat) (ptr : α) : Option (Arr α) :=
  if a.num ≤ a.max ∧ index < a.num then some { a with v := a.v.set index (some ptr) } else none

def toList (a : Arr α) : List α := (a.v.take a.num).filterMap id

structure Holds (a : Arr α) (l : List α) : Prop where
  num : a.num = l.length
  le : a.num ≤ a.max
  room : a.v.length = a.max
  slots : a.v.take a.num = l.map some

/-- The slots below `num` are `c`; some may never have been written. -/
structure Shows (a : Arr α) (c : List (Option α)) : Prop where
  le : a.num ≤ a.max
  room : a.v.length = a.max
  slots : a.v.take a.num = c

variable {a a' : Arr α} {l : List α} {c : List (Option α)} {x : α} {n i : Nat}

theorem holds_create : (create : Arr α).Holds [] := ⟨rfl, Nat.le_refl _, rfl, rfl⟩

theorem Holds.shows (h : a.Holds l) : a.Shows (l.map some) := ⟨h.le, h.room, h.slots⟩

theorem Shows.num (h : a.Shows c) : a.num = c.length := by
  rw [← h.slots, length_take, h.room, Nat.min_eq_left h.le]

theorem Shows.holds (h : a.Shows (l.map some)) : a.Holds l :=
  ⟨by rw [h.num, length_map], h.le, h.room, h.slots⟩

theorem le_growmax {fuel m : Nat} (h : n ≤ m + fuel) : n ≤ growmax n fuel m := by
  induction fuel generalizing m with
  | zero => exact h
  | succ fuel ih =>
    unfold growmax
    split
    · exact ih (by omega)
    · omega

theorem growmax_le (fuel m : Nat) : m ≤ growmax n fuel m := by
  induction fuel generalizing m with
  | zero => exact Nat.le_refl m
  | succ fuel ih =>
    unfold growmax
    split
    · exact Nat.le_trans (by omega) (ih ((m + 1) * 2))
    · exact Nat.le_refl m

theorem le_newmax (a : Arr α) (n : Nat) : n ≤ a.newmax n := le_growmax (Nat.le_add_left ..)

theorem max_le_newmax (a : Arr α) (n : Nat) : a.max ≤ a.newmax n := growmax_le n a.max

theorem newmax_full (a : Arr α) : a.newmax (a.max + 1) = (a.max + 1) * 2 := by
  unfold newmax growmax
  rw [if_pos (Nat.lt_succ_self _)]
  unfold growmax
  split
  · rfl
  · exact if_neg (by omega)

namespace Shows

section

variable (h : a.Shows c)
include h

theorem preallocate (n : Nat) :
    ∃ a', a.preallocate true n = some (a', true) ∧ a'.Shows c ∧ a'.max = a.newmax n := by
  have hle := h.le
  have hroom := h.room
  have hmax := max_le_newmax a n
  refine ⟨⟨a.num, a.newmax n, a.v.take a.num ++ List.replicate (a.newmax n - a.num) none⟩, ?_,
    ⟨Nat.le_trans hle hmax, ?_, ?_⟩, rfl⟩
  · unfold Arr.preallocate
    rw [if_pos hle, if_pos rfl]
  · rw [length_append, length_take, length_replicate]
    dsimp only
    omega
  · dsimp only
    rw [take_append_of_le_length (by rw [length_take]; omega), take_take, Nat.min_self]
    exact h.slots

theorem preallocate_fail (n : Nat) : a.preallocate false n = some (a, false) := by
  unfold Arr.preallocate
  rw [if_pos h.le]
  rfl

theorem remove (hi : i < c.length) :
    ∃ a', a.remove i = some a' ∧ a'.Shows (c.eraseIdx i) ∧ a'.max = a.max := by
  have hnum := h.num
  have hle := h.le
  have hv := h.room
  refine ⟨_, if_pos ⟨hle, by omega⟩, ⟨?_, ?_, ?_⟩, rfl⟩
  · dsimp only
    omega
  · simp only [length_append, length_take, length_drop]
    omega
  · rw [take_append_of_le_length]
    · have hdrop : (a.v.drop (i + 1)).take (a.num - (i + 1)) = c.drop (i + 1) := by
        rw [← h.slots, drop_take]
      have htake : a.v.take i = c.take i := by
        rw [← h.slots, take_take, Nat.min_eq_left (by omega)]
      rw [hdrop, htake, take_of_length_le, eraseIdx_eq_take_drop_succ]
      simp only [length_append, length_take, length_drop]
      omega
    · simp only [length_append, length_take, length_drop]
      omega

theorem setguy (hi : i < c.length) (x : α) :
    ∃ a', a.setguy i x = some a' ∧ a'.Shows (c.set i (some x)) ∧ a'.max = a.max := by
  have hnum := h.num
  refine ⟨_, if_pos ⟨h.le, by omega⟩, ⟨h.le, ?_, ?_⟩, rfl⟩
  · rw [length_set]
    exact h.room
  · rw [take_set, h.slots]

theorem setsize (hn : n ≤ a.max) (mem : Bool) :
    ∃ a', a.setsize mem n = some (a', true) ∧ a'.Shows (a'.v.take n) ∧
      (a'.v.take n).length = n ∧ (a'.v.take n).take c.length = c.take n ∧ a'.max ≤ a.max := by
  have hroom := h.room
  unfold Arr.setsize
  rw [if_pos h.le, if_neg (Nat.not_lt.mpr hn)]
  by_cases hbig : n = 0 ∧ 16 < a.max
  · obtain ⟨rfl, hmax⟩ := hbig
    exact ⟨⟨0, 0, []⟩, if_pos ⟨rfl, hmax⟩, ⟨Nat.le_refl _, rfl, rfl⟩, rfl, by simp, Nat.zero_le _⟩
  · refine ⟨_, if_neg hbig, ⟨hn, hroom, rfl⟩, ?_, ?_, Nat.le_refl _⟩
    · rw [length_take]
      dsimp only
      omega
    · rw [← h.slots, take_take, take_take, length_take, hroom, Nat.min_eq_left h.le, Nat.min_comm]

theorem add (hroom : c.length < a.max) (mem : Bool) (x : α) :
    ∃ a', a.add mem x = some (a', true) ∧ a'.Shows (c ++ [some x]) ∧ a'.max = a.max := by
  have hnum := h.num
  have hv := h.room
  refine ⟨⟨a.num + 1, a.max, a.v.set a.num (some x)⟩, ?_, ⟨?_, ?_, ?_⟩, rfl⟩
  · unfold Arr.add Arr.setsize
    rw [if_pos h.le, if_neg (by omega), if_neg (by omega)]
  · dsimp only
    omega
  · rw [length_set]
    exact hv
  · have hlast : a.num - c.length = 0 := by omega
    rw [take_set, take_add_one, h.slots, List.getElem?_eq_getElem (by omega),
      Option.toList_some, set_append_right _ _ (by omega), hlast]
    rfl

theorem add_full (hfull : c.length = a.max) (x : α) :
    (∃ a', a.add true x = some (a', true) ∧ a'.Shows (c ++ [some x]) ∧
      a'.max = a.newmax (a.num + 1)) ∧ a.add false x = some (a, false) := by
  have hnum := h.num
  have hlt : a.max < a.num + 1 := by omega
  constructor
  · obtain ⟨a₁, hpre, h₁, hmax⟩ := h.preallocate (a.num + 1)
    have hle := le_newmax a (a.num + 1)
    obtain ⟨a₂, hadd, h₂, hmax₂⟩ := h₁.add (by omega) true x
    refine ⟨a₂, ?_, h₂, hmax₂.trans hmax⟩
    have hnum₁ : a₁.num = a.num := h₁.num.trans hnum.symm
    unfold Arr.add Arr.setsize at hadd ⊢
    rw [if_pos h.le, if_pos hlt, hpre]
    rw [if_pos h₁.le, hnum₁, if_neg (by omega), if_neg (by omega)] at hadd
    exact hadd
  · unfold Arr.add Arr.setsize
    rw [if_pos h.le, if_pos hlt, h.preallocate_fail]

end

end Shows

namespace Holds

section

variable (h : a.Holds l)
include h

theorem toList : a.toList = l := by
  unfold Arr.toList
  rw [h.slots, filterMap_map]
  exact filterMap_some

theorem getguy (hi : i < l.length) : a.getguy i = some l[i] := by
  have hnum : i < a.num := h.num ▸ hi
  have hslot : a.v[i]? = some (some l[i]) := by
    have htake := congrArg (fun v : List (Option α) => v[i]?) h.slots
    simp only [List.getElem?_map, List.getElem?_eq_getElem hi, Option.map_some] at htake
    rwa [List.getElem?_take_of_lt hnum] at htake
  unfold Arr.getguy
  rw [if_pos ⟨h.le, hnum⟩, hslot]
  rfl

theorem preallocate (n : Nat) :
    ∃ a', a.preallocate true n = some (a', true) ∧ a'.Holds l ∧ a'.max = a.newmax n := by
  obtain ⟨a', hpre, hshows, hmax⟩ := h.shows.preallocate n
  exact ⟨a', hpre, hshows.holds, hmax⟩

theorem preallocate_cases (mem : Bool) (n : Nat) :
    ∃ a', a.preallocate mem n = some (a', mem) ∧ a'.Holds l ∧ a.max ≤ a'.max ∧
      (mem = true → a'.max = a.newmax n) := by
  cases mem with
  | false => exact ⟨a, h.shows.preallocate_fail n, h, Nat.le_refl _, nofun⟩
  | true =>
    obtain ⟨a', hpre, hholds, hmax⟩ := h.preallocate n
    refine ⟨a', hpre, hholds, ?_, fun _ => hmax⟩
    rw [hmax]
    exact max_le_newmax a n

theorem clear (mem : Bool) : ∃ a', a.setsize mem 0 = some (a', true) ∧ a'.Holds [] ∧
      a'.max = if 16 < a.max then 0 else a.max := by
  unfold Arr.setsize
  rw [if_pos h.le, if_neg (Nat.not_lt_zero _)]
  by_cases hbig : 16 < a.max
  · refine ⟨⟨0, 0, []⟩, ?_, holds_create, ?_⟩
    · rw [if_pos ⟨rfl, hbig⟩]
    · rw [if_pos hbig]
  · refine ⟨{ a with num := 0 }, ?_, ⟨rfl, Nat.zero_le _, h.room, rfl⟩, ?_⟩
    · rw [if_neg fun hc => hbig hc.2]
    · rw [if_neg hbig]

theorem add (hroom : l.length < a.max) (mem : Bool) (x : α) :
    ∃ a', a.add mem x = some (a', true) ∧ a'.Holds (l ++ [x]) ∧ a'.max = a.max := by
  obtain ⟨a', hadd, hshows, hmax⟩ := h.shows.add (by rwa [length_map]) mem x
  exact ⟨a', hadd, Shows.holds (by rwa [map_append]), hmax⟩

theorem add_full (hfull : l.length = a.max) (x : α) :
    (∃ a', a.add true x = some (a', true) ∧ a'.Holds (l ++ [x]) ∧
      a'.max = a.newmax (a.num + 1)) ∧ a.add false x = some (a, false) := by
  obtain ⟨⟨a', hadd, hshows, hmax⟩, hfail⟩ := h.shows.add_full (by rwa [length_map]) x
  exact ⟨⟨a', hadd, Shows.holds (by rwa [map_append]), hmax⟩, hfail⟩

theorem add_cases (mem : Bool) (x : α) : (l.length = a.max ∧ a.add mem x = some (a, false)) ∨
      ∃ a', a.add mem x = some (a', true) ∧ a'.Holds (l ++ [x]) ∧
        (l.length < a.max → a'.max = a.max) := by
  have hle := h.le
  have hnum := h.num
  by_cases hroom : l.length < a.max
  · obtain ⟨a', hadd, hholds, hmax⟩ := h.add hroom mem x
    exact .inr ⟨a', hadd, hholds, fun _ => hmax⟩
  · have hfull : l.length = a.max := by omega
    obtain ⟨⟨a', hadd, hholds, -⟩, hfail⟩ := h.add_full hfull x
    cases mem with
    | false => exact .inl ⟨hfull, hfail⟩
    | true => exact .inr ⟨a', hadd, hholds, fun hlt => absurd hlt hroom⟩

theorem remove (hi : i < l.length) :
    ∃ a', a.remove i = some a' ∧ a'.Holds (l.eraseIdx i) ∧ a'.max = a.max := by
  obtain ⟨a', hremove, hshows, hmax⟩ := h.shows.remove (by rwa [length_map])
  refine ⟨a', hremove, Shows.holds ?_, hmax⟩
  rwa [eraseIdx_eq_take_drop_succ, map_append, map_take, map_drop, ← eraseIdx_eq_take_drop_succ]

end

end Holds

end Arr

end Os161
