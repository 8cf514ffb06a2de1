import Mathlib.Data.List.Basic
import Mathlib.Data.Nat.ModEq

/-!
# The queues of pointers of `lib/queue.c`

A ring of `size` slots of which one stays empty. A failed assert, or a read of a slot that was never
written, is `none`. Calls are told whether `kmalloc` succeeds.
-/

open List

namespace Os161

structure Queue (α : Type) where
  size : Nat
  nextwrite : Nat
  nextread : Nat
  data : List (Option α)

namespace Queue

variable {α : Type}

def create (size : Nat) : Queue α := ⟨size, 0, 0, List.replicate size none⟩

def empty (q : Queue α) : Bool := q.nextwrite == q.nextread

def put (q : Queue α) (ptr : α) : Queue α :=
  { q with data := q.data.set q.nextwrite (some ptr), nextwrite := (q.nextwrite + 1) % q.size }

def full (q : Queue α) : Bool := (q.nextwrite + 1) % q.size == q.nextread

/-- The loop that finds the new size; `targetsize` rounds are enough. -/
def doubled (targetsize : Nat) : Nat → Nat → Nat
  | 0, nsize => nsize
  | fuel + 1, nsize => if nsize < targetsize then doubled targetsize fuel (nsize * 2) else nsize

def newsize (q : Queue α) (targetsize : Nat) : Nat := doubled targetsize targetsize q.size

def sizeFor (q : Queue α) (size : Nat) : Nat := if q.size < size then q.newsize size else q.size

/-- Moves the pointers of `old` over, from slot `i` on. The new ring is never full on the way. -/
def copy (old : Queue α) : Nat → Nat → Queue α → Option (Queue α)
  | 0, _, _ => none
  | fuel + 1, i, q =>
    if i = old.nextwrite then some q
    else
      match old.data[i]?.join with
      | none => none
      | some ptr => if q.full then none else copy old fuel ((i + 1) % old.size) (q.put ptr)

def grow (mem : Bool) (q : Queue α) (targetsize : Nat) : Option (Queue α × Bool) :=
  if mem then (q.copy q.size q.nextread (create (q.newsize targetsize))).map (·, true)
  else some (q, false)

def preallocate (mem : Bool) (q : Queue α) (size : Nat) : Option (Queue α × Bool) :=
  if 0 < q.size then
    if q.size < size then q.grow mem size else some (q, true)
  else none

def addtail (mem : Bool) (q : Queue α) (ptr : α) : Option (Queue α × Bool) := if 0 < q.size then
    if q.full then
      match q.grow mem (q.size + 1) with
      | none => none
      | some (q, false) => some (q, false)
      | some (q, true) => some (q.put ptr, true)
    else some (q.put ptr, true)
  else none

def remhead (q : Queue α) : Option (Queue α × α) := if 0 < q.size ∧ ¬ q.empty then
    q.data[q.nextread]?.join.map fun ptr =>
      ({ q with nextread := (q.nextread + 1) % q.size }, ptr)
  else none

def toList (q : Queue α) : List α :=
  (List.range ((q.nextwrite + (q.size - q.nextread)) % q.size)).filterMap fun k =>
    q.data[(q.nextread + k) % q.size]?.join

structure Holds (q : Queue α) (l : List α) : Prop where
  lt : l.length < q.size
  read : q.nextread < q.size
  write : q.nextwrite = (q.nextread + l.length) % q.size
  room : q.data.length = q.size
  slots : ∀ k x, l[k]? = some x → q.data[(q.nextread + k) % q.size]? = some (some x)

variable {q q' : Queue α} {l : List α} {x : α} {n a b i : Nat}

theorem ring_ne (s : Nat) (hab : a < b) (hb : b < n) : (s + a) % n ≠ (s + b) % n := by
  intro heq
  have hmod : a ≡ b [MOD n] := Nat.ModEq.add_left_cancel' s heq
  unfold Nat.ModEq at hmod
  rw [Nat.mod_eq_of_lt (by omega), Nat.mod_eq_of_lt hb] at hmod
  omega

theorem ring_succ (s k n : Nat) : ((s + k) % n + 1) % n = (s + (k + 1)) % n := by
  rw [Nat.mod_add_mod]
  rfl

theorem filterMap_range {f : Nat → Option α} (h : ∀ k < l.length, f k = l[k]?) :
    (List.range l.length).filterMap f = l := by
  induction l generalizing f with
  | nil => rfl
  | cons x l ih =>
    rw [length_cons, range_succ_eq_map, filterMap_cons,
      h 0 (Nat.zero_lt_succ _), List.getElem?_cons_zero, filterMap_map]
    exact congrArg (x :: ·) (ih fun k hk => h (k + 1) (Nat.succ_lt_succ hk))

theorem le_doubled {fuel m : Nat} (hm : 0 < m) (h : n ≤ m + fuel) : n ≤ doubled n fuel m := by
  induction fuel generalizing m with
  | zero => exact h
  | succ fuel ih =>
    unfold doubled
    split
    · exact ih (by omega) (by omega)
    · omega

theorem doubled_le (fuel m : Nat) : m ≤ doubled n fuel m := by
  induction fuel generalizing m with
  | zero => exact Nat.le_refl m
  | succ fuel ih =>
    unfold doubled
    split
    · exact le_trans (by omega) (ih (m * 2))
    · exact Nat.le_refl m

theorem size_le_sizeFor (q : Queue α) (n : Nat) : q.size ≤ q.sizeFor n := by
  unfold sizeFor
  split
  · exact doubled_le n q.size
  · exact le_rfl

theorem le_sizeFor (hpos : 0 < q.size) (n : Nat) : n ≤ q.sizeFor n := by
  unfold sizeFor
  split
  · exact le_doubled hpos (Nat.le_add_left ..)
  · omega

namespace Holds

theorem read_eq (h : q.Holds l) : q.nextread = (q.nextread + 0) % q.size := by
  rw [add_zero, Nat.mod_eq_of_lt h.read]

theorem toList (h : q.Holds l) : q.toList = l := by
  have hread := h.read
  have hcount : (q.nextwrite + (q.size - q.nextread)) % q.size = l.length := by
    rw [h.write, Nat.mod_add_mod]
    have hsum : q.nextread + l.length + (q.size - q.nextread) = l.length + q.size := by omega
    rw [hsum, Nat.add_mod_right, Nat.mod_eq_of_lt h.lt]
  unfold Queue.toList
  rw [hcount]
  apply filterMap_range
  intro k hk
  rw [h.slots k l[k] (List.getElem?_eq_getElem hk), List.getElem?_eq_getElem hk]
  rfl

theorem empty (h : q.Holds l) : q.empty = l.isEmpty := by
  unfold Queue.empty
  rw [h.write]
  cases l with
  | nil => simp [Nat.mod_eq_of_lt h.read]
  | cons x l =>
    have hne : (q.nextread + 0) % q.size ≠ (q.nextread + (x :: l).length) % q.size :=
      ring_ne q.nextread (Nat.zero_lt_succ l.length) h.lt
    rw [← h.read_eq] at hne
    rw [beq_eq_false_iff_ne.mpr hne.symm]
    rfl

theorem full (h : q.Holds l) : q.full = decide (l.length + 1 = q.size) := by
  unfold Queue.full
  rw [h.write, ring_succ]
  by_cases hfull : l.length + 1 = q.size
  · rw [hfull, Nat.add_mod_right, Nat.mod_eq_of_lt h.read]
    simp
  · have hlt := h.lt
    have hne := ring_ne q.nextread (Nat.zero_lt_succ l.length) (by omega : l.length + 1 < q.size)
    rw [← h.read_eq] at hne
    rw [beq_eq_false_iff_ne.mpr hne.symm, decide_eq_false hfull]

theorem create (h : 0 < n) : (Queue.create n : Queue α).Holds [] where
  lt := h
  read := h
  write := (Nat.zero_mod n).symm
  room := length_replicate
  slots := nofun

theorem put (h : q.Holds l) (hroom : l.length + 1 < q.size) (x : α) :
    (q.put x).Holds (l ++ [x]) where
  lt := by
    rw [length_append]
    exact hroom
  read := h.read
  write := by
    change (q.nextwrite + 1) % q.size = (q.nextread + (l ++ [x]).length) % q.size
    rw [h.write, ring_succ, length_append]
    rfl
  room := by
    unfold Queue.put
    rw [length_set]
    exact h.room
  slots k y hk := by
    unfold Queue.put
    rw [h.write]
    by_cases hlast : k = l.length
    · subst hlast
      obtain rfl : x = y := by simpa using hk
      rw [List.getElem?_set_self]
      rw [h.room]
      exact Nat.mod_lt _ (Nat.zero_lt_of_lt h.lt)
    · have hlt : k < (l ++ [x]).length := (List.getElem?_eq_some_iff.mp hk).1
      rw [length_append, length_singleton] at hlt
      have hk' : k < l.length := by omega
      rw [List.getElem?_append_left hk'] at hk
      rw [List.getElem?_set_ne (ring_ne q.nextread hk' h.lt).symm]
      exact h.slots k y hk

theorem remhead (h : q.Holds (x :: l)) :
    ∃ q', q.remhead = some (q', x) ∧ q'.Holds l ∧ q'.size = q.size := by
  have hpos : 0 < q.size := Nat.zero_lt_of_lt h.lt
  have hslot := h.slots 0 x rfl
  rw [← h.read_eq] at hslot
  refine ⟨{ q with nextread := (q.nextread + 1) % q.size }, ?_, ⟨?_, ?_, ?_, h.room, ?_⟩, rfl⟩
  · unfold Queue.remhead
    rw [if_pos ⟨hpos, by rw [h.empty]; simp⟩, hslot]
    rfl
  · exact Nat.lt_of_succ_lt h.lt
  · exact Nat.mod_lt _ hpos
  · rw [h.write, Nat.mod_add_mod, length_cons, add_assoc, add_comm 1]
  · intro k y hk
    have hnext := h.slots (k + 1) y hk
    rw [Nat.mod_add_mod, add_assoc, add_comm 1]
    exact hnext

section

variable (h : q.Holds l)
include h

theorem copy {fuel k : Nat} (hk : k ≤ l.length) (hfuel : l.length < k + fuel)
    (hroom : l.length < n) (hq' : q'.Holds (l.take k)) (hsize : q'.size = n) :
    ∃ q'', q.copy fuel ((q.nextread + k) % q.size) q' = some q'' ∧ q''.Holds l ∧ q''.size = n := by
  induction fuel generalizing k q' with
  | zero => omega
  | succ fuel ih =>
    unfold Queue.copy
    by_cases hdone : k = l.length
    · subst hdone
      rw [if_pos h.write.symm]
      rw [take_length] at hq'
      exact ⟨q', rfl, hq', hsize⟩
    · have hlt : k < l.length := by omega
      have hslot := h.slots k l[k] (List.getElem?_eq_getElem hlt)
      have hlen : (l.take k).length = k := length_take_of_le hk
      have hfull : q'.full = false := by
        rw [hq'.full, decide_eq_false]
        omega
      have hput := hq'.put (by omega) l[k]
      rw [take_append_getElem hlt] at hput
      rw [if_neg (by rw [h.write]; exact ring_ne _ hlt h.lt), hslot]
      change ∃ q'', (if q'.full = true then none else Queue.copy q fuel _ (q'.put l[k])) = _ ∧ _
      rw [hfull, if_neg Bool.false_ne_true, ring_succ]
      exact ih hlt (by omega) hput hsize

theorem grow (n : Nat) :
    ∃ q', q.grow true n = some (q', true) ∧ q'.Holds l ∧ q'.size = q.newsize n := by
  have hlt := h.lt
  have hle : q.size ≤ q.newsize n := doubled_le n q.size
  have hnew : (Queue.create (q.newsize n) : Queue α).Holds (l.take 0) := .create (by omega)
  have hfuel : l.length < 0 + q.size := by omega
  have hroom : l.length < q.newsize n := by omega
  obtain ⟨q', hcopy, hq', hsize⟩ := h.copy (Nat.zero_le _) hfuel hroom hnew rfl
  refine ⟨q', ?_, hq', hsize⟩
  rw [← h.read_eq] at hcopy
  unfold Queue.grow
  rw [if_pos rfl, hcopy]
  rfl

theorem preallocate (n : Nat) :
    ∃ q', q.preallocate true n = some (q', true) ∧ q'.Holds l ∧ q'.size = q.sizeFor n := by
  unfold Queue.preallocate sizeFor
  rw [if_pos (Nat.zero_lt_of_lt h.lt)]
  by_cases hn : q.size < n
  · rw [if_pos hn, if_pos hn]
    exact h.grow n
  · rw [if_neg hn, if_neg hn]
    exact ⟨q, rfl, h, rfl⟩

theorem preallocate_fail (n : Nat) : q.preallocate false n = some (q, decide (n ≤ q.size)) := by
  unfold Queue.preallocate
  rw [if_pos (Nat.zero_lt_of_lt h.lt)]
  by_cases hn : q.size < n
  · rw [if_pos hn, decide_eq_false (not_le.mpr hn)]
    rfl
  · rw [if_neg hn, decide_eq_true (not_lt.mp hn)]

theorem preallocate_cases (mem : Bool) (n : Nat) :
    ∃ q', q.preallocate mem n = some (q', mem || decide (n ≤ q.size)) ∧ q'.Holds l ∧
      q.size ≤ q'.size ∧ ((mem || decide (n ≤ q.size)) = true → q'.size = q.sizeFor n) := by
  cases mem with
  | false =>
    refine ⟨q, h.preallocate_fail n, h, le_rfl, ?_⟩
    intro hle
    unfold sizeFor
    rw [if_neg (not_lt.mpr (of_decide_eq_true hle))]
  | true =>
    obtain ⟨q', hpre, hholds, hsize⟩ := h.preallocate n
    refine ⟨q', hpre, hholds, ?_, fun _ => hsize⟩
    rw [hsize]
    exact size_le_sizeFor q n

theorem addtail (hroom : l.length + 1 < q.size) (mem : Bool) (x : α) :
    ∃ q', q.addtail mem x = some (q', true) ∧ q'.Holds (l ++ [x]) ∧ q'.size = q.size := by
  refine ⟨q.put x, ?_, h.put hroom x, rfl⟩
  unfold Queue.addtail
  rw [if_pos (Nat.zero_lt_of_lt h.lt), h.full, decide_eq_false (by omega)]
  rfl

theorem addtail_full (hfull : l.length + 1 = q.size) (x : α) :
    (∃ q', q.addtail true x = some (q', true) ∧ q'.Holds (l ++ [x]) ∧
      q'.size = q.newsize (q.size + 1)) ∧ q.addtail false x = some (q, false) := by
  have hpos : 0 < q.size := Nat.zero_lt_of_lt h.lt
  constructor
  · obtain ⟨q', hgrow, hq', hsize⟩ := h.grow (q.size + 1)
    have hle : q.size + 1 ≤ q.newsize (q.size + 1) := le_doubled hpos (Nat.le_add_left ..)
    refine ⟨q'.put x, ?_, hq'.put (by omega) x, hsize⟩
    unfold Queue.addtail
    rw [if_pos hpos, h.full, if_pos (decide_eq_true hfull), hgrow]
  · unfold Queue.addtail
    rw [if_pos hpos, h.full, if_pos (decide_eq_true hfull)]
    rfl

theorem addtail_cases (mem : Bool) (x : α) :
    (l.length + 1 = q.size ∧ q.addtail mem x = some (q, false)) ∨
      ∃ q', q.addtail mem x = some (q', true) ∧ q'.Holds (l ++ [x]) ∧
        (l.length + 1 < q.size → q'.size = q.size) := by
  have hlt := h.lt
  by_cases hroom : l.length + 1 < q.size
  · obtain ⟨q', hadd, hholds, hsize⟩ := h.addtail hroom mem x
    exact .inr ⟨q', hadd, hholds, fun _ => hsize⟩
  · have hfull : l.length + 1 = q.size := by omega
    obtain ⟨⟨q', hadd, hholds, -⟩, hfail⟩ := h.addtail_full hfull x
    cases mem with
    | false => exact .inl ⟨hfull, hfail⟩
    | true => exact .inr ⟨q', hadd, hholds, fun hc => absurd hc hroom⟩

end

end Holds

end Queue

end Os161
