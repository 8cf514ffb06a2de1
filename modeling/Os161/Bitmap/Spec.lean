import Mathlib.Data.BitVec

/-!
# The arrays of bits of `lib/bitmap.c`

The bits are kept in bytes, eight to a byte and the lowest first. A failed assert is `none`.
-/

open Function BitVec

namespace Os161

structure Bitmap where
  nbits : Nat
  v : Nat → UInt8

namespace Bitmap

def BITS_PER_WORD : Nat := 8

def WORD_ALLBITS : UInt8 := 0xff

def words (b : Bitmap) : Nat := (b.nbits + BITS_PER_WORD - 1) / BITS_PER_WORD

/-- The mask of `bitmap_translate`; the byte is the one at `index / BITS_PER_WORD`. -/
def mask (index : Nat) : UInt8 := 1 <<< UInt8.ofNat (index % BITS_PER_WORD)

/-- A bitmap with no bit set but those that pad the last byte. -/
def create (nbits : Nat) : Bitmap := let b : Bitmap := ⟨nbits, fun _ => 0⟩
  if nbits / BITS_PER_WORD < b.words then
    let ix := b.words - 1
    let overbits := nbits - ix * BITS_PER_WORD
    let padding := (List.range' overbits (BITS_PER_WORD - overbits)).foldl
      (fun w j => w ||| mask j) 0
    { b with v := update b.v ix padding }
  else b

def isset (b : Bitmap) (index : Nat) : UInt8 := b.v (index / BITS_PER_WORD) &&& mask index

def setBit (b : Bitmap) (index : Nat) : Bitmap := let ix := index / BITS_PER_WORD
  { b with v := update b.v ix (b.v ix ||| mask index) }

def clearBit (b : Bitmap) (index : Nat) : Bitmap := let ix := index / BITS_PER_WORD
  { b with v := update b.v ix (b.v ix &&& ~~~mask index) }

def allocFrom (b : Bitmap) : Nat → Nat → Option (Option (Bitmap × Nat))
  | 0, _ => some none
  | n + 1, ix =>
    if b.v ix ≠ WORD_ALLBITS then
      match (List.range BITS_PER_WORD).find? fun offset => b.v ix &&& mask offset == 0 with
      | some offset =>
        let index := ix * BITS_PER_WORD + offset
        if index < b.nbits then some (some (b.setBit index, index)) else none
      | none => none
    else allocFrom b n (ix + 1)

/-- Takes a clear bit; `some none` is `ENOSPC`. -/
def alloc (b : Bitmap) : Option (Option (Bitmap × Nat)) := b.allocFrom b.words 0

def unmark (b : Bitmap) (index : Nat) : Option Bitmap :=
  if index < b.nbits ∧ b.isset index ≠ 0 then some (b.clearBit index) else none

def has (b : Bitmap) (index : Nat) : Bool := b.isset index != 0

/-- The bits of the last byte past `nbits` are set, as `bitmap_create` leaves them. -/
def Padded (b : Bitmap) : Prop := ∀ i, b.nbits ≤ i → i < b.words * BITS_PER_WORD → b.has i = true

variable {b : Bitmap} {i j : Nat}

theorem mask_getLsbD (hj : j < 8) : (mask i).toBitVec.getLsbD j = decide (j = i % 8) := by
  have hbits : ∀ k < 8, ∀ j < 8,
      (1 <<< UInt8.ofNat k : UInt8).toBitVec.getLsbD j = decide (j = k) := by decide
  exact hbits (i % 8) (Nat.mod_lt i (by decide)) j hj

theorem and_mask_ne_zero (w : UInt8) : w &&& mask i ≠ 0 ↔ w.toBitVec.getLsbD (i % 8) = true := by
  have hlt : i % 8 < 8 := Nat.mod_lt i (by decide)
  constructor
  · intro h
    by_contra hw
    apply h
    apply UInt8.toBitVec_inj.mp
    apply eq_of_getLsbD_eq
    intro k hk
    rw [UInt8.toBitVec_and, getLsbD_and, mask_getLsbD hk]
    by_cases e : k = i % 8
    · subst e
      simpa using hw
    · simp [e]
  · intro h h0
    have hbit := congrArg (fun u : UInt8 => u.toBitVec.getLsbD (i % 8)) h0
    simp [h, mask_getLsbD hlt] at hbit

theorem has_eq : b.has i = (b.v (i / 8)).toBitVec.getLsbD (i % 8) := by
  rw [Bool.eq_iff_iff]
  unfold has isset
  rw [bne_iff_ne]
  exact and_mask_ne_zero _

theorem has_update {w : UInt8} {x : Bool}
    (hw : ∀ k < 8, w.toBitVec.getLsbD k =
      if k = i % 8 then x else (b.v (i / 8)).toBitVec.getLsbD k) (j : Nat) :
    has { b with v := update b.v (i / 8) w } j = if j = i then x else b.has j := by
  rw [has_eq, has_eq]
  have hlt : j % 8 < 8 := Nat.mod_lt j (by decide)
  by_cases hix : j / 8 = i / 8
  · have hji : j % 8 = i % 8 ↔ j = i := by omega
    simp [hix, update_self, hw _ hlt, hji]
  · have hji : j ≠ i := fun e => hix (e ▸ rfl)
    simp only [update_of_ne hix, if_neg hji]

theorem has_setBit (b : Bitmap) (i j : Nat) :
    (b.setBit i).has j = if j = i then true else b.has j := by
  apply has_update
  intro k hk
  rw [UInt8.toBitVec_or, getLsbD_or, mask_getLsbD hk]
  by_cases e : k = i % 8 <;> simp [e, BITS_PER_WORD]

theorem has_clearBit (b : Bitmap) (i j : Nat) :
    (b.clearBit i).has j = if j = i then false else b.has j := by
  apply has_update
  intro k hk
  rw [UInt8.toBitVec_and, getLsbD_and, UInt8.toBitVec_not, getLsbD_not, mask_getLsbD hk]
  by_cases e : k = i % 8 <;> simp [e, hk, BITS_PER_WORD]

theorem exists_clear {w : UInt8} (h : w ≠ WORD_ALLBITS) :
    ∃ k < 8, w.toBitVec.getLsbD k = false := by
  by_contra hall
  push Not at hall
  apply h
  apply UInt8.toBitVec_inj.mp
  apply eq_of_getLsbD_eq
  intro k hk
  have hones : ∀ k < 8, WORD_ALLBITS.toBitVec.getLsbD k = true := by decide
  rw [hones k hk, Bool.of_not_eq_false (hall k hk)]

theorem allbits_has {ix k : Nat} (h : b.v ix = WORD_ALLBITS) (hk : k < 8) :
    b.has (ix * 8 + k) = true := by
  have hones : ∀ k < 8, WORD_ALLBITS.toBitVec.getLsbD k = true := by decide
  have hdiv : (ix * 8 + k) / 8 = ix := by omega
  have hmod : (ix * 8 + k) % 8 = k := by omega
  rw [has_eq, hdiv, hmod, h, hones k hk]

theorem and_mask_eq_zero {ix k : Nat} (hk : k < 8) :
    (b.v ix &&& mask k == 0) = !b.has (ix * 8 + k) := by
  have hdiv : (ix * 8 + k) / 8 = ix := by omega
  have hmod : (ix * 8 + k) % 8 = k % 8 := by omega
  unfold has isset mask BITS_PER_WORD
  rw [hdiv, hmod, bne, Bool.not_not]

theorem find_offset {ix : Nat} (h : b.v ix ≠ WORD_ALLBITS) :
    ∃ k < 8, ((List.range BITS_PER_WORD).find? fun offset => b.v ix &&& mask offset == 0) = some k ∧
      b.has (ix * 8 + k) = false ∧ ∀ j < k, b.has (ix * 8 + j) = true := by
  obtain ⟨k, hk, hclear⟩ := exists_clear h
  have hsome : ((List.range BITS_PER_WORD).find?
      fun offset => b.v ix &&& mask offset == 0).isSome := by
    rw [List.find?_isSome]
    refine ⟨k, List.mem_range.mpr hk, ?_⟩
    have hdiv : (ix * 8 + k) / 8 = ix := by omega
    have hmod : (ix * 8 + k) % 8 = k := by omega
    rw [and_mask_eq_zero hk, has_eq, hdiv, hmod, hclear]
    rfl
  obtain ⟨m, hm⟩ := Option.isSome_iff_exists.mp hsome
  obtain ⟨hp, hmem, hbefore⟩ := List.find?_range_eq_some.mp hm
  have hm8 : m < 8 := List.mem_range.mp hmem
  refine ⟨m, hm8, hm, ?_, ?_⟩
  · rwa [and_mask_eq_zero hm8, Bool.not_eq_true'] at hp
  · intro j hj
    have hfull := hbefore j hj
    rwa [and_mask_eq_zero (by omega), Bool.not_not] at hfull

theorem allocFrom_spec (hpad : b.Padded) {n ix : Nat} (hn : ix + n = b.words)
    (hbefore : ∀ i < ix * 8, b.has i = true) :
    (b.allocFrom n ix = some none ∧ ∀ i < b.words * 8, b.has i = true) ∨
      ∃ i < b.nbits, b.allocFrom n ix = some (some (b.setBit i, i)) ∧ b.has i = false ∧
        ∀ j < i, b.has j = true := by
  induction n generalizing ix with
  | zero =>
    left
    rw [← hn]
    exact ⟨rfl, hbefore⟩
  | succ n ih =>
    unfold allocFrom
    by_cases hfull : b.v ix = WORD_ALLBITS
    · rw [if_neg (not_not_intro hfull)]
      apply ih (by omega)
      intro i hi
      by_cases hlow : i < ix * 8
      · exact hbefore i hlow
      · obtain ⟨k, rfl⟩ : ∃ k, i = ix * 8 + k := ⟨i - ix * 8, by omega⟩
        exact allbits_has hfull (by omega)
    · right
      obtain ⟨k, hk, hfind, hclear, hfirst⟩ := find_offset hfull
      have hlt : ix * 8 + k < b.nbits := by
        by_contra hge
        have := hpad (ix * 8 + k) (by omega) (by unfold BITS_PER_WORD; omega)
        rw [hclear] at this
        cases this
      refine ⟨ix * 8 + k, hlt, ?_, hclear, ?_⟩
      · rw [if_pos hfull, hfind]
        exact if_pos hlt
      · intro j hj
        by_cases hlow : j < ix * 8
        · exact hbefore j hlow
        · obtain ⟨m, rfl⟩ : ∃ m, j = ix * 8 + m := ⟨j - ix * 8, by omega⟩
          exact hfirst m (by omega)

theorem alloc_spec (hpad : b.Padded) : (b.alloc = some none ∧ ∀ i < b.nbits, b.has i = true) ∨
      ∃ i < b.nbits, b.alloc = some (some (b.setBit i, i)) ∧ b.has i = false ∧
        ∀ j < i, b.has j = true := by
  obtain ⟨hfull, hall⟩ | hfound := allocFrom_spec hpad (zero_add b.words) (by simp)
  · left
    refine ⟨hfull, fun i hi => hall i ?_⟩
    unfold words BITS_PER_WORD
    omega
  · exact .inr hfound

theorem allocFrom_eq_some {n ix : Nat} {m : Bitmap} (h : b.allocFrom n ix = some (some (m, i))) :
    m = b.setBit i ∧ b.has i = false := by
  induction n generalizing ix with
  | zero => cases h
  | succ n ih =>
    unfold allocFrom at h
    by_cases hfull : b.v ix = WORD_ALLBITS
    · rw [if_neg (not_not_intro hfull)] at h
      exact ih h
    · obtain ⟨k, -, hfind, hclear, -⟩ := find_offset hfull
      simp only [if_pos hfull, hfind] at h
      split at h
      · cases h
        exact ⟨rfl, hclear⟩
      · cases h

theorem alloc_eq_some {m : Bitmap} (h : b.alloc = some (some (m, i))) :
    m = b.setBit i ∧ b.has i = false :=
  allocFrom_eq_some h

theorem unmark_of_has (hi : i < b.nbits) (h : b.has i = true) :
    b.unmark i = some (b.clearBit i) := by
  unfold unmark
  rw [if_pos ⟨hi, bne_iff_ne.mp h⟩]

theorem padded_setBit (h : b.Padded) (i : Nat) : (b.setBit i).Padded := by
  intro j hj hw
  rw [has_setBit, h j hj hw, ite_self]

theorem padded_clearBit (h : b.Padded) (hi : i < b.nbits) : (b.clearBit i).Padded := by
  intro j hj hw
  have hji : j ≠ i := by
    rintro rfl
    exact not_lt.mpr hj hi
  rw [has_clearBit, if_neg hji]
  exact h j hj hw

end Bitmap
end Os161
