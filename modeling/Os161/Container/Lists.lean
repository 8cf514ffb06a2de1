import Os161.Container.Array
import Os161.Container.Queue
import Os161.Lib.Run

/-!
# Queues and arrays are lists

Any calls, with `kmalloc` failing anywhere. New sizes are computed in an `int`, as C does it.
-/

open Os161.Lib List

namespace Os161

variable {α : Type}

namespace Queue

/-- The loop of `q_grow`; `none` is its assert. -/
def nsize (targetsize : Nat) : Nat → Nat → Option Nat
  | 0, n => some n
  | fuel + 1, n =>
    if n < targetsize then
      let doubled := n * 2 % 2 ^ 32
      if 0 < doubled ∧ doubled < 2 ^ 31 then nsize targetsize fuel doubled else none
    else some n

/-- The loop ends, and `kmalloc` is asked for all of the pointers. -/
def growable (q : Queue α) (targetsize : Nat) : Bool :=
  (nsize targetsize targetsize q.size).any fun n => n * 4 < 2 ^ 32

inductive Op (α : Type) where
  | addtail (mem : Bool) (ptr : α)
  | remhead
  | preallocate (mem : Bool) (size : Nat)

inductive Answer (α : Type) where
  | status (ok : Bool)
  | head (ptr : α)

def call (q : Queue α) : Op α → Option (Queue α × Answer α)
  | .addtail mem ptr =>
    if q.full ∧ ¬ q.growable (q.size + 1) then none
    else (q.addtail mem ptr).map fun r => (r.1, .status r.2)
  | .remhead => q.remhead.map fun r => (r.1, .head r.2)
  | .preallocate mem size =>
    if q.size < size ∧ ¬ q.growable size then none
    else (q.preallocate mem size).map fun r => (r.1, .status r.2)

/-- A full ring of `l` grows to `l.length + 2` slots at least. -/
def Allowed (l : List α) : Op α → Prop
  | .addtail _ _ => l.length + 2 < 2 ^ 28
  | .remhead => l ≠ []
  | .preallocate _ size => size < 2 ^ 28

/-- What a list does. Only without memory a call fails. -/
def Fifo (l : List α) : Op α → Answer α → List α → Prop
  | .addtail _ ptr, .status true, l' => l' = l ++ [ptr]
  | .addtail mem _, .status false, l' => mem = false ∧ l' = l
  | .remhead, .head ptr, l' => l = ptr :: l'
  | .preallocate mem _, .status ok, l' => (ok = false → mem = false) ∧ l' = l
  | _, _, _ => False

/-- The ring holds the list, and an `int` counts its bytes. -/
structure IsList (q : Queue α) (l : List α) : Prop where
  holds : q.Holds l
  empty : q.empty = true ↔ l = []
  size : q.size < 2 ^ 29

variable {q : Queue α} {l : List α} {n fuel m : Nat}

theorem isList_of_holds (h : q.Holds l) (hsize : q.size < 2 ^ 29) : q.IsList l :=
  ⟨h, by rw [h.empty, List.isEmpty_iff], hsize⟩

theorem nsize_eq (hm : 0 < m) (hn : n ≤ 2 ^ 30) : nsize n fuel m = some (doubled n fuel m) := by
  induction fuel generalizing m with
  | zero => rfl
  | succ fuel ih =>
    unfold nsize doubled
    split
    · have hmod : m * 2 % 2 ^ 32 = m * 2 := Nat.mod_eq_of_lt (by omega)
      rw [hmod, if_pos (by omega)]
      exact ih (by omega)
    · rfl

theorem doubled_lt (hm : m < 2 * n) : doubled n fuel m < 2 * n := by
  induction fuel generalizing m with
  | zero => exact hm
  | succ fuel ih =>
    unfold doubled
    split
    · exact ih (by omega)
    · exact hm

theorem grows (hpos : 0 < q.size) (hlt : q.size < n) (hn : n < 2 ^ 28) :
    q.growable n = true ∧ q.newsize n < 2 ^ 29 := by
  have hsize : q.newsize n < 2 * n := doubled_lt (by omega)
  refine ⟨?_, by omega⟩
  unfold growable
  rw [nsize_eq hpos (by omega), Option.any_some, decide_eq_true_iff]
  change q.newsize n * 4 < 2 ^ 32
  omega

theorem IsList.addtail (h : q.IsList l) (hl : l.length + 2 < 2 ^ 28) (mem : Bool) (x : α) :
    ∃ q' o l', q.call (.addtail mem x) = some (q', o) ∧ Fifo l (.addtail mem x) o l' ∧ q'.IsList l' := by
  have hlt := h.holds.lt
  by_cases hroom : l.length + 1 < q.size
  · obtain ⟨q', hadd, hholds, hsize⟩ := h.holds.addtail hroom mem x
    refine ⟨q', .status true, l ++ [x], ?_, rfl, isList_of_holds hholds (hsize ▸ h.size)⟩
    rw [call, h.holds.full, if_neg (by simp; omega), hadd]
    rfl
  · have hfull : l.length + 1 = q.size := by omega
    obtain ⟨hgrow, hnew⟩ := grows (q := q) (n := q.size + 1) (by omega) (by omega) (by omega)
    obtain ⟨⟨q', hadd, hholds, hsize⟩, hfail⟩ := h.holds.addtail_full hfull x
    have hcall : q.call (.addtail mem x) = (q.addtail mem x).map fun r => (r.1, .status r.2) :=
      if_neg fun hc => hc.2 hgrow
    cases mem with
    | true =>
      refine ⟨q', .status true, l ++ [x], ?_, rfl, isList_of_holds hholds (hsize ▸ hnew)⟩
      rw [hcall, hadd]
      rfl
    | false =>
      refine ⟨q, .status false, l, ?_, ⟨rfl, rfl⟩, h⟩
      rw [hcall, hfail]
      rfl

theorem IsList.preallocate (h : q.IsList l) (hn : n < 2 ^ 28) (mem : Bool) :
    ∃ q' o l', q.call (.preallocate mem n) = some (q', o) ∧ Fifo l (.preallocate mem n) o l' ∧
      q'.IsList l' := by
  obtain ⟨q', hpre, hholds, -, hsize⟩ := h.holds.preallocate_cases mem n
  have hgrow (hlt : q.size < n) : q.growable n = true ∧ q.newsize n < 2 ^ 29 :=
    grows (Nat.zero_lt_of_lt h.holds.lt) hlt hn
  have hcall : q.call (.preallocate mem n) = some (q', .status (mem || decide (n ≤ q.size))) := by
    rw [call, if_neg fun hc => hc.2 (hgrow hc.1).1, hpre]
    rfl
  cases hok : mem || decide (n ≤ q.size) with
  | true =>
    refine ⟨q', .status true, l, hok ▸ hcall, ⟨nofun, rfl⟩, isList_of_holds hholds ?_⟩
    rw [hsize hok, sizeFor]
    split
    · exact (hgrow ‹_›).2
    · exact h.size
  | false =>
    obtain ⟨rfl, hle⟩ := Bool.or_eq_false_iff.mp hok
    have hfail := h.holds.preallocate_fail n
    rw [hle] at hfail
    refine ⟨q, .status false, l, ?_, ⟨fun _ => rfl, rfl⟩, h⟩
    rw [call, if_neg fun hc => hc.2 (hgrow hc.1).1, hfail]
    rfl

theorem IsList.call (h : q.IsList l) {op : Op α} (hop : Allowed l op) :
    ∃ q' o l', q.call op = some (q', o) ∧ Fifo l op o l' ∧ q'.IsList l' := by
  cases op with
  | addtail mem x => exact h.addtail hop mem x
  | preallocate mem n => exact h.preallocate hop mem
  | remhead =>
    obtain ⟨x, l, rfl⟩ := exists_cons_of_ne_nil hop
    obtain ⟨q', hrem, hholds, hsize⟩ := h.holds.remhead
    refine ⟨q', .head x, l, ?_, rfl, isList_of_holds hholds (hsize ▸ h.size)⟩
    rw [Queue.call, hrem]
    rfl

theorem queue_is_fifo {size : Nat} (hpos : 0 < size) (hsize : size < 2 ^ 28) (ops : List (Op α)) :
    Conforms call Allowed Fifo IsList (create size) [] ops := by
  refine conforms_of_step (fun _ _ _ h hop => h.call hop) (isList_of_holds (.create hpos) ?_) ops
  change size < 2 ^ 29
  omega

theorem queue_is_fifo_wrapped : Conforms call Allowed Fifo IsList (create 2) []
    [.addtail true 'a', .remhead, .addtail true 'b', .addtail false 'c', .addtail true 'c', .remhead] :=
  queue_is_fifo (by decide) (by decide) _

end Queue

/-! ## Arrays -/

namespace Arr

/-- The loop of `array_preallocate`; `none` where it leaves the range of an `int`. -/
def newmaxInt (nguys : Nat) : Nat → Nat → Option Nat
  | 0, newmax => some newmax
  | fuel + 1, newmax =>
    if newmax < nguys then
      let next := (newmax + 1) * 2 % 2 ^ 32
      if next < 2 ^ 31 then newmaxInt nguys fuel next else none
    else some newmax

def growable (a : Arr α) (nguys : Nat) : Bool :=
  (newmaxInt nguys nguys a.max).any fun newmax => nguys ≤ newmax ∧ newmax * 4 < 2 ^ 32

inductive Op (α : Type) where
  | add (mem : Bool) (guy : α)
  | remove (index : Nat)
  | setguy (index : Nat) (ptr : α)
  | setsize (mem : Bool) (nguys : Nat)
  | preallocate (mem : Bool) (nguys : Nat)

def call (a : Arr α) : Op α → Option (Arr α × Bool)
  | .add mem guy => if a.max < a.num + 1 ∧ ¬ a.growable (a.num + 1) then none else a.add mem guy
  | .remove index => (a.remove index).map (·, true)
  | .setguy index ptr => (a.setguy index ptr).map (·, true)
  | .setsize mem nguys => if a.max < nguys ∧ ¬ a.growable nguys then none else a.setsize mem nguys
  | .preallocate mem nguys => if ¬ a.growable nguys then none else a.preallocate mem nguys

def Allowed (c : List (Option α)) : Op α → Prop
  | .add _ _ => c.length + 1 < 2 ^ 28
  | .remove index | .setguy index _ => index < c.length
  | .setsize _ nguys | .preallocate _ nguys => nguys < 2 ^ 28

/-- What a list does; `none` is an element that nobody has set. -/
def Does (c : List (Option α)) : Op α → List (Option α) → Prop
  | .add _ guy, c' => c' = c ++ [some guy]
  | .remove index, c' => c' = c.eraseIdx index
  | .setguy index ptr, c' => c' = c.set index (some ptr)
  | .setsize _ nguys, c' => c'.length = nguys ∧ c'.take c.length = c.take nguys
  | .preallocate _ _, c' => c' = c

def Op.mem : Op α → Bool
  | .add mem _ | .setsize mem _ | .preallocate mem _ => mem
  | .remove _ | .setguy _ _ => true

/-- A call that fails had no memory, and changes nothing. -/
def Listlike (c : List (Option α)) (op : Op α) (ok : Bool) (c' : List (Option α)) : Prop :=
  if ok then Does c op c' else op.mem = false ∧ c' = c

structure IsList (a : Arr α) (c : List (Option α)) : Prop where
  shows : a.Shows c
  max : a.max < 2 ^ 29

variable {a : Arr α} {c : List (Option α)} {n i fuel m : Nat}

theorem newmaxInt_eq (hn : n < 2 ^ 30) : newmaxInt n fuel m = some (growmax n fuel m) := by
  induction fuel generalizing m with
  | zero => rfl
  | succ fuel ih =>
    unfold newmaxInt growmax
    split
    · have hmod : (m + 1) * 2 % 2 ^ 32 = (m + 1) * 2 := Nat.mod_eq_of_lt (by omega)
      rw [hmod, if_pos (by omega)]
      exact ih
    · rfl

theorem growmax_bound {b : Nat} (hm : m ≤ b) (hn : 2 * n ≤ b) : growmax n fuel m ≤ b := by
  induction fuel generalizing m with
  | zero => exact hm
  | succ fuel ih =>
    unfold growmax
    split
    · exact ih (by omega)
    · exact hm

section

variable (h : a.IsList c) (hn : n < 2 ^ 28)
include h hn

theorem IsList.newmax_lt : a.newmax n < 2 ^ 29 := by
  have hmax := h.max
  have hbound : a.newmax n ≤ 2 ^ 29 - 1 := growmax_bound (by omega) (by omega)
  omega

theorem IsList.growable : a.growable n = true := by
  have hlt := h.newmax_lt hn
  have hle := le_newmax a n
  unfold Arr.growable
  rw [newmaxInt_eq (by omega), Option.any_some, decide_eq_true_iff]
  change n ≤ a.newmax n ∧ a.newmax n * 4 < 2 ^ 32
  omega

theorem IsList.preallocate (mem : Bool) :
    ∃ a', a.preallocate mem n = some (a', mem) ∧ a'.IsList c ∧ (mem = true → n ≤ a'.max) := by
  cases mem with
  | false => exact ⟨a, h.shows.preallocate_fail n, h, nofun⟩
  | true =>
    obtain ⟨a', hpre, hshows, hmax⟩ := h.shows.preallocate n
    refine ⟨a', hpre, ⟨hshows, hmax ▸ h.newmax_lt hn⟩, fun _ => ?_⟩
    rw [hmax]
    exact le_newmax a n

theorem IsList.setsize (mem : Bool) :
    ∃ a' ok c', a.setsize mem n = some (a', ok) ∧ Listlike c (.setsize mem n) ok c' ∧ a'.IsList c' := by
  by_cases hle : n ≤ a.max
  · obtain ⟨a', hset, hshows, hlen, htake, hmax⟩ := h.shows.setsize hle mem
    exact ⟨a', true, a'.v.take n, hset, ⟨hlen, htake⟩, hshows, lt_of_le_of_lt hmax h.max⟩
  · have hlt : a.max < n := Nat.lt_of_not_le hle
    obtain ⟨a', hpre, h', hroom⟩ := h.preallocate hn mem
    unfold Arr.setsize
    rw [if_pos h.shows.le, if_pos hlt, hpre]
    cases mem with
    | false => exact ⟨a', false, c, rfl, ⟨rfl, rfl⟩, h'⟩
    | true =>
      have hnum := h'.shows.num
      have hle' := h.shows.le
      have hv := h'.shows.room
      have hroom := hroom rfl
      have hlen : (a'.v.take n).length = n := by
        rw [length_take]
        omega
      refine ⟨_, true, a'.v.take n, rfl, ⟨hlen, ?_⟩, ⟨hroom, hv, rfl⟩, h'.max⟩
      have hlc := h.shows.num
      rw [take_take, min_eq_left (by omega), take_of_length_le (by omega : c.length ≤ n),
        ← hnum, h'.shows.slots]

end

theorem IsList.add (h : a.IsList c) (hc : c.length + 1 < 2 ^ 28) (mem : Bool) (x : α) :
    ∃ a' ok c', a.add mem x = some (a', ok) ∧ Listlike c (.add mem x) ok c' ∧ a'.IsList c' := by
  have hnum := h.shows.num
  have hle := h.shows.le
  by_cases hroom : c.length < a.max
  · obtain ⟨a', hadd, hshows, hmax⟩ := h.shows.add hroom mem x
    exact ⟨a', true, _, hadd, rfl, hshows, hmax ▸ h.max⟩
  · obtain ⟨⟨a', hadd, hshows, hmax⟩, hfail⟩ := h.shows.add_full (by omega) x
    cases mem with
    | false => exact ⟨a, false, c, hfail, ⟨rfl, rfl⟩, h⟩
    | true => exact ⟨a', true, _, hadd, rfl, hshows, hmax ▸ h.newmax_lt (by omega)⟩

theorem IsList.call (h : a.IsList c) {op : Op α} (hop : Allowed c op) :
    ∃ a' ok c', a.call op = some (a', ok) ∧ Listlike c op ok c' ∧ a'.IsList c' := by
  have hnum := h.shows.num
  cases op with
  | add mem x =>
    obtain ⟨a', ok, c', hadd, hc', h'⟩ := h.add hop mem x
    refine ⟨a', ok, c', ?_, hc', h'⟩
    rw [Arr.call, if_neg fun hc => hc.2 (h.growable (hnum ▸ hop)), hadd]
  | remove i =>
    obtain ⟨a', hremove, hshows, hmax⟩ := h.shows.remove hop
    refine ⟨a', true, c.eraseIdx i, ?_, rfl, hshows, hmax ▸ h.max⟩
    rw [Arr.call, hremove]
    rfl
  | setguy i x =>
    obtain ⟨a', hset, hshows, hmax⟩ := h.shows.setguy hop x
    refine ⟨a', true, c.set i (some x), ?_, rfl, hshows, hmax ▸ h.max⟩
    rw [Arr.call, hset]
    rfl
  | setsize mem n =>
    obtain ⟨a', ok, c', hset, hc', h'⟩ := h.setsize hop mem
    refine ⟨a', ok, c', ?_, hc', h'⟩
    rw [Arr.call, if_neg fun hc => hc.2 (h.growable hop), hset]
  | preallocate mem n =>
    obtain ⟨a', hpre, h', -⟩ := h.preallocate hop mem
    refine ⟨a', mem, c, ?_, ?_, h'⟩
    · rw [Arr.call, if_neg (not_not_intro (h.growable hop)), hpre]
    · cases mem
      · exact ⟨rfl, rfl⟩
      · exact rfl

theorem array_is_list (ops : List (Op α)) : Conforms call Allowed Listlike IsList create [] ops :=
  conforms_of_step (fun _ _ _ h hop => h.call hop) ⟨holds_create.shows, Nat.two_pow_pos 29⟩ ops

end Arr

end Os161
