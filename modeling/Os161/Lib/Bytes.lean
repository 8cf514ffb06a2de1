import Mathlib.Algebra.Group.Nat.Defs
import Mathlib.Data.List.GetD
import Mathlib.Logic.Function.Basic

/-!
# Bytes, big-endian words, and stretches of bytes

A buffer is a function from offsets to bytes, a file a list of bytes, and `overlay` what a write does
to one.
-/

open List

namespace Os161.Lib

/-- The 32-bit word at byte offset `4 * k`, most significant byte first. -/
def wordAt (b : Nat → UInt8) (k : Nat) : Nat :=
  (b (4 * k)).toNat * 2 ^ 24 + (b (4 * k + 1)).toNat * 2 ^ 16 + (b (4 * k + 2)).toNat * 2 ^ 8 +
    (b (4 * k + 3)).toNat

def ofWords (w : Nat → Nat) : Nat → UInt8 := fun x =>
  UInt8.ofNat (w (x / 4) / 256 ^ (3 - x % 4))

/-- The buffer with the bytes of `bs` stored from offset `pos` on. -/
def splice (b : Nat → UInt8) (pos : Nat) (bs : List UInt8) : Nat → UInt8 := fun x =>
  if pos ≤ x ∧ x < pos + bs.length then bs.getD (x - pos) 0 else b x

def slice (b : Nat → UInt8) (pos n : Nat) : List UInt8 := (List.range n).map fun x => b (pos + x)

/-- A gap before `pos` is filled with zeros. -/
def overlay (l : List UInt8) (pos : Nat) (bs : List UInt8) : List UInt8 :=
  (l ++ List.replicate (pos - l.length) 0).take pos ++ bs ++ l.drop (pos + bs.length)

variable {b b' : Nat → UInt8} {w : Nat → Nat} {k n m pos x : Nat} {l bs : List UInt8}

theorem wordAt_ofWords (h : w k < 2 ^ 32) : wordAt (ofWords w) k = w k := by
  have hdiv : ∀ j < 4, (4 * k + j) / 4 = k := by omega
  have hmod : ∀ j < 4, (4 * k + j) % 4 = j := by omega
  have hbyte : ∀ j < 4, ofWords w (4 * k + j) = UInt8.ofNat (w k / 256 ^ (3 - j)) := by
    intro j hj
    unfold ofWords
    rw [hdiv j hj, hmod j hj]
  unfold wordAt
  rw [← add_zero (4 * k), hbyte 0 (by decide), add_zero, hbyte 1 (by decide),
    hbyte 2 (by decide), hbyte 3 (by decide)]
  simp only [UInt8.toNat_ofNat']
  omega

theorem wordAt_lt (b : Nat → UInt8) (k : Nat) : wordAt b k < 2 ^ 32 := by
  have := (b (4 * k)).toNat_lt
  have := (b (4 * k + 1)).toNat_lt
  have := (b (4 * k + 2)).toNat_lt
  have := (b (4 * k + 3)).toNat_lt
  unfold wordAt
  omega

theorem wordAt_congr (h : ∀ j < 4, b (4 * k + j) = b' (4 * k + j)) : wordAt b k = wordAt b' k := by
  unfold wordAt
  rw [← Nat.add_zero (4 * k), h 0 (by decide), h 1 (by decide), h 2 (by decide), h 3 (by decide)]

@[simp] theorem wordAt_zero : wordAt (fun _ => 0) k = 0 := by
  simp [wordAt]

@[simp] theorem slice_length : (slice b pos n).length = n := by
  unfold slice
  rw [length_map, length_range]

theorem slice_add : slice b pos (m + n) = slice b pos m ++ slice b (pos + m) n := by
  unfold slice
  rw [range_add, map_append, map_map]
  congr 1
  apply map_congr_left
  intro x _
  rw [Function.comp_apply, add_assoc]

theorem slice_congr {pos' : Nat} (h : ∀ x < n, b (pos + x) = b' (pos' + x)) :
    slice b pos n = slice b' pos' n :=
  map_congr_left fun x hx => h x (mem_range.mp hx)

theorem getElem?_slice : (slice b pos n)[x]? = if x < n then some (b (pos + x)) else none := by
  unfold slice
  by_cases h : x < n
  · simp [h]
  · simp [h]

theorem take_drop_slice : ((slice b 0 n).drop pos).take m = slice b pos (min m (n - pos)) := by
  apply ext_getElem?
  intro x
  have hmin : x < min m (n - pos) ↔ x < m ∧ pos + x < n := by omega
  rw [List.getElem?_take, List.getElem?_drop, getElem?_slice, getElem?_slice, zero_add]
  by_cases hm : x < m <;> by_cases hn : pos + x < n <;> simp [hmin, hm, hn, and_true, and_false]

theorem overlay_slice (hzero : ∀ x, n ≤ x → x < pos → b x = 0) :
    overlay (slice b 0 n) pos bs = slice (splice b pos bs) 0 (max n (pos + bs.length)) := by
  apply ext_getElem?
  intro x
  have hpre : ((slice b 0 n ++ List.replicate (pos - (slice b 0 n).length) 0).take pos).length =
      pos := by
    rw [length_take, length_append, length_replicate, slice_length]
    omega
  unfold overlay
  rw [append_assoc, List.getElem?_append, hpre, getElem?_slice, zero_add]
  by_cases hlow : x < pos
  · -- before the written bytes: the old file, or the gap
    have hout : splice b pos bs x = b x := if_neg (by omega)
    rw [if_pos hlow, if_pos (by omega), hout, List.getElem?_take, if_pos hlow,
      List.getElem?_append, slice_length, getElem?_slice, zero_add]
    by_cases hx : x < n
    · rw [if_pos hx, if_pos hx]
    · rw [if_neg hx, List.getElem?_replicate, if_pos (by omega), hzero x (by omega) hlow]
  · rw [if_neg hlow, List.getElem?_append]
    by_cases hin : x < pos + bs.length
    · have hval : splice b pos bs x = bs.getD (x - pos) 0 := if_pos ⟨by omega, hin⟩
      rw [if_pos (by omega), if_pos (by omega), hval, getD_eq_getElem?_getD,
        List.getElem?_eq_getElem (by omega), Option.getD_some]
    · have hout : splice b pos bs x = b x := if_neg (by omega)
      rw [if_neg (by omega), List.getElem?_drop, getElem?_slice, hout,
        show 0 + (pos + bs.length + (x - pos - bs.length)) = x by omega,
        show pos + bs.length + (x - pos - bs.length) = x by omega]
      by_cases hx : x < n
      · rw [if_pos hx, if_pos (by omega)]
      · rw [if_neg hx, if_neg (by omega)]

theorem slice_eq_iff : slice b 0 n = slice b' 0 n ↔ ∀ x < n, b x = b' x := by
  constructor
  · intro h x hx
    have hget := congrArg (·[x]?) h
    simp only [getElem?_slice, if_pos hx, zero_add] at hget
    exact Option.some.inj hget
  · intro h
    apply slice_congr
    intro x hx
    rw [zero_add]
    exact h x hx

theorem slice_splice_eq_overlay {q p : Nat} (hqp : q ≤ p) (hp : p ≤ bs.length) :
    slice (splice b pos (bs.take q)) 0 (max n (pos + p)) = overlay (slice b 0 n) pos (bs.take p) ↔
      (∀ x, n ≤ x → x < pos → b x = 0) ∧ ∀ i, q ≤ i → i < p → b (pos + i) = bs.getD i 0 := by
  have htake : ∀ m ≤ bs.length, (bs.take m).length = m := fun m hm => by
    rw [length_take, Nat.min_eq_left hm]
  have hget : ∀ {m i}, i < m → (bs.take m).getD i 0 = bs.getD i 0 := by
    intro m i hi
    rw [getD_eq_getElem?_getD, List.getElem?_take, if_pos hi, ← getD_eq_getElem?_getD]
  -- the overlaid file does not see the gap
  have hgap : overlay (slice b 0 n) pos (bs.take p) =
      slice (splice (fun x => if n ≤ x ∧ x < pos then 0 else b x) pos (bs.take p)) 0
        (max n (pos + p)) := by
    rw [slice_eq_iff.mpr fun x hx => (if_neg (by omega) : (if n ≤ x ∧ x < pos then 0 else b x) = b x).symm,
      overlay_slice fun x hn hx => if_pos ⟨hn, hx⟩, htake p hp]
  rw [hgap, slice_eq_iff]
  unfold splice
  rw [htake p hp, htake q (Nat.le_trans hqp hp)]
  constructor
  · intro h
    constructor
    · intro x hn hx
      have hsame := h x (by omega)
      rw [if_neg (by omega), if_neg (by omega)] at hsame
      exact hsame.trans (if_pos ⟨hn, hx⟩)
    · intro i hq hi
      have hsame := h (pos + i) (by omega)
      rwa [if_neg (by omega), if_pos (by omega), Nat.add_sub_cancel_left, hget hi] at hsame
  · rintro ⟨hzero, hold⟩ x -
    by_cases hin : pos ≤ x ∧ x < pos + p
    · obtain ⟨i, rfl⟩ := Nat.exists_eq_add_of_le hin.1
      have hi : i < p := by omega
      rw [if_pos hin, Nat.add_sub_cancel_left, hget hi]
      by_cases hq : i < q
      · rw [if_pos (by omega), hget hq]
      · rw [if_neg (by omega), hold i (by omega) (by omega)]
    · rw [if_neg hin, if_neg (by omega)]
      by_cases hx : n ≤ x ∧ x < pos
      · exact (hzero x hx.1 hx.2).trans (if_pos hx).symm
      · exact (if_neg hx).symm

@[simp] theorem splice_nil : splice b pos [] = b := by
  funext x
  unfold splice
  rw [length_nil, if_neg (by omega)]

theorem slice_splice_self : slice (splice b pos bs) pos bs.length = bs := by
  apply ext_getElem?
  intro x
  rw [getElem?_slice]
  by_cases hx : x < bs.length
  · have hval : splice b pos bs (pos + x) = bs.getD x 0 := by
      unfold splice
      rw [if_pos (by omega), Nat.add_sub_cancel_left]
    rw [if_pos hx, hval, getD_eq_getElem?_getD, List.getElem?_eq_getElem hx, Option.getD_some]
  · rw [if_neg hx, List.getElem?_eq_none (Nat.not_lt.mp hx)]

theorem slice_splice_of_disjoint {q : Nat} (h : q + n ≤ pos ∨ pos + bs.length ≤ q) :
    slice (splice b pos bs) q n = slice b q n := by
  apply slice_congr
  intro x hx
  unfold splice
  rw [if_neg (by omega)]

theorem splice_append {bs' : List UInt8} :
    splice (splice b pos bs) (pos + bs.length) bs' = splice b pos (bs ++ bs') := by
  funext x
  unfold splice
  rw [length_append]
  by_cases hin : pos + bs.length ≤ x
  · rw [getD_append_right _ _ _ _ (by omega), if_neg (by omega : ¬ (pos ≤ x ∧ _)),
      show x - pos - bs.length = x - (pos + bs.length) by omega]
    by_cases hlt : x < pos + bs.length + bs'.length
    · rw [if_pos ⟨hin, hlt⟩, if_pos (by omega)]
    · rw [if_neg (by omega), if_neg (by omega)]
  · rw [if_neg (by omega : ¬ (_ ∧ x < pos + bs.length + bs'.length))]
    by_cases hlow : pos ≤ x
    · rw [getD_append _ _ _ _ (by omega), if_pos (by omega), if_pos (by omega)]
    · rw [if_neg (by omega), if_neg (by omega)]

/-- The stores `0 .. n - 1`, one after another. -/
def splices (pos : Nat → Nat) (bs : Nat → List UInt8) : Nat → (Nat → UInt8) → Nat → UInt8
  | 0, b => b
  | n + 1, b => splice (splices pos bs n b) (pos n) (bs n)

theorem splices_at {pos size : Nat → Nat} {bs : Nat → List UInt8}
    (hbelow : ∀ k l, k < l → l < n → pos l + size l ≤ pos k)
    (hsize : ∀ k < n, (bs k).length ≤ size k) (hk : k < n) (hx : x < size k) :
    splices pos bs n b (pos k + x) = if x < (bs k).length then (bs k).getD x 0 else b (pos k + x) := by
  induction n with
  | zero => omega
  | succ n ih =>
    have hn := hsize n (Nat.lt_succ_self n)
    unfold splices splice
    by_cases hlast : k = n
    · subst hlast
      -- the stores before are above
      have hbefore : ∀ m ≤ k, splices pos bs m b (pos k + x) = b (pos k + x) := by
        intro m hm
        induction m with
        | zero => rfl
        | succ m ihm =>
          have habove := hbelow m k (by omega) (by omega)
          unfold splices splice
          rw [if_neg (by omega)]
          exact ihm (by omega)
      rw [hbefore k (Nat.le_refl k), Nat.add_sub_cancel_left]
      by_cases hin : x < (bs k).length
      · rw [if_pos (by omega), if_pos hin]
      · rw [if_neg (by omega), if_neg hin]
    · have hbelow' := hbelow k n (by omega) (Nat.lt_succ_self n)
      rw [if_neg (by omega)]
      exact ih (fun k l hkl hl => hbelow k l hkl (by omega)) (fun k hk => hsize k (by omega)) (by omega)

end Os161.Lib
