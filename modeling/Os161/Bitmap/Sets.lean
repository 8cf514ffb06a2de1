import Os161.Bitmap.Spec
import Os161.Lib.Run

/-!
# A bitmap is a set

Any sequence of calls of `lib/bitmap.c` on a bitmap of `nbits` bits does what it would do to a set of
numbers below `nbits`.
-/

open Os161.Lib

namespace Os161.Bitmap

def divroundup (nbits : Nat) : Nat := (nbits + BITS_PER_WORD - 1) % 2 ^ 32 / BITS_PER_WORD

def bitmapCreate (nbits : Nat) : Option Bitmap := let words := divroundup nbits
  let overbits := nbits - (words - 1) * BITS_PER_WORD
  if nbits / BITS_PER_WORD < words ∧
      ¬ (nbits / BITS_PER_WORD = words - 1 ∧ 0 < overbits ∧ overbits < BITS_PER_WORD) then none
  else some (create nbits)

def mark (b : Bitmap) (index : Nat) : Option Bitmap :=
  if index < b.nbits ∧ b.isset index = 0 then some (b.setBit index) else none

inductive Op where
  | alloc
  | mark (index : Nat)
  | unmark (index : Nat)
  | isset (index : Nat)

inductive Answer where
  | done
  | ENOSPC
  | index (i : Nat)
  | bit (w : UInt8)

def call (b : Bitmap) : Op → Option (Bitmap × Answer)
  | .alloc => b.alloc.map fun r => r.elim (b, .ENOSPC) fun x => (x.1, .index x.2)
  | .mark index => (b.mark index).map (·, .done)
  | .unmark index => (b.unmark index).map (·, .done)
  | .isset index => some (b, .bit (b.isset index))

def Allowed (nbits : Nat) (s : Set Nat) : Op → Prop
  | .alloc => True
  | .mark index => index < nbits ∧ index ∉ s
  | .unmark index => index < nbits ∧ index ∈ s
  | .isset index => index < nbits

def Does (nbits : Nat) (s : Set Nat) : Op → Answer → Set Nat → Prop
  | .alloc, .index i, s' => i < nbits ∧ i ∉ s ∧ (∀ j < i, j ∈ s) ∧ s' = insert i s
  | .alloc, .ENOSPC, s' => (∀ j < nbits, j ∈ s) ∧ s' = s
  | .mark i, .done, s' => s' = insert i s
  | .unmark i, .done, s' => s' = s \ {i}
  | .isset i, .bit w, s' => (w ≠ 0 ↔ i ∈ s) ∧ s' = s
  | _, _, _ => False

structure IsSet (n : Nat) (b : Bitmap) (s : Set Nat) : Prop where
  nbits : b.nbits = n
  padded : b.Padded
  has : ∀ i < n, (b.has i = true ↔ i ∈ s)
  below : ∀ i ∈ s, i < n

variable {n i j : Nat} {b : Bitmap} {s : Set Nat}

theorem padding_getLsbD : ∀ o < 8, ∀ k < 8, ((List.range' o (8 - o)).foldl (fun w j => w ||| mask j)
    (0 : UInt8)).toBitVec.getLsbD k = decide (o ≤ k) := by decide

theorem create_nbits (n : Nat) : (create n).nbits = n := by
  unfold create
  dsimp only
  split <;> rfl

theorem has_create (h : i < (create n).words * 8) : (create n).has i = decide (n ≤ i) := by
  have hwords : (create n).words = (n + 7) / 8 := by rw [words, create_nbits, BITS_PER_WORD]; rfl
  have hk : i % 8 < 8 := Nat.mod_lt i (by decide)
  rw [has_eq]
  unfold create words BITS_PER_WORD
  dsimp only [Nat.add_sub_cancel]
  split
  · dsimp only
    by_cases hlast : i / 8 = (n + 8 - 1) / 8 - 1
    · rw [hlast, Function.update_self, padding_getLsbD _ (by omega) _ hk, decide_eq_decide]
      omega
    · rw [Function.update_of_ne hlast, decide_eq_false (by omega)]
      exact BitVec.getLsbD_zero
  · rw [decide_eq_false (by omega)]
    exact BitVec.getLsbD_zero

theorem isSet_create (n : Nat) : IsSet n (create n) ∅ where
  nbits := create_nbits n
  padded i hi hw := by
    rw [create_nbits] at hi
    rw [has_create hw, decide_eq_true hi]
  has i hi := by
    rw [has_create, decide_eq_false (not_le.mpr hi)]
    · simp
    · rw [words, create_nbits, BITS_PER_WORD]
      omega
  below := nofun

namespace IsSet

section

variable (h : IsSet n b s)
include h

theorem has_false (hi : i < n) : b.has i = false ↔ i ∉ s := by
  rw [← Bool.not_eq_true, h.has i hi]

theorem insert (hi : i < n) : IsSet n (b.setBit i) (insert i s) where
  nbits := h.nbits
  padded := padded_setBit h.padded i
  has j hj := by
    rw [has_setBit, Set.mem_insert_iff, ← h.has j hj]
    split <;> simp [*]
  below := by
    rintro j (rfl | hj)
    · exact hi
    · exact h.below j hj

theorem erase (hi : i < n) : IsSet n (b.clearBit i) (s \ {i}) where
  nbits := h.nbits
  padded := padded_clearBit h.padded (h.nbits.symm ▸ hi)
  has j hj := by
    rw [has_clearBit, Set.mem_sdiff_singleton, ← h.has j hj]
    split <;> simp [*]
  below j hj := h.below j hj.1

theorem alloc : ∃ b' o s', b.call .alloc = some (b', o) ∧ Does n s .alloc o s' ∧ IsSet n b' s' := by
  obtain ⟨hnone, hall⟩ | ⟨i, hi, hsome, hclear, hbefore⟩ := alloc_spec h.padded
  · refine ⟨b, .ENOSPC, s, ?_, ⟨fun j hj => ?_, rfl⟩, h⟩
    · rw [call, hnone]
      rfl
    · exact (h.has j hj).mp (hall j (h.nbits.symm ▸ hj))
  · rw [h.nbits] at hi
    refine ⟨b.setBit i, .index i, Insert.insert i s, ?_, ⟨hi, ?_, fun j hj => ?_, rfl⟩, h.insert hi⟩
    · rw [call, hsome]
      rfl
    · exact (h.has_false hi).mp hclear
    · exact (h.has j (lt_trans hj hi)).mp (hbefore j hj)

theorem call {op : Op} (hop : Allowed n s op) :
    ∃ b' o s', b.call op = some (b', o) ∧ Does n s op o s' ∧ IsSet n b' s' := by
  have hb := h.nbits
  cases op with
  | alloc => exact h.alloc
  | mark i =>
    have hclear := (h.has_false hop.1).mpr hop.2
    refine ⟨b.setBit i, .done, Insert.insert i s, ?_, rfl, h.insert hop.1⟩
    rw [Bitmap.call, mark, if_pos ⟨hb.symm ▸ hop.1, by simpa [Bitmap.has] using hclear⟩]
    rfl
  | unmark i =>
    refine ⟨b.clearBit i, .done, s \ {i}, ?_, rfl, h.erase hop.1⟩
    rw [Bitmap.call, unmark_of_has (hb.symm ▸ hop.1) ((h.has i hop.1).mpr hop.2)]
    rfl
  | isset i =>
    refine ⟨b, .bit (b.isset i), s, rfl, ⟨?_, rfl⟩, h⟩
    rw [← h.has i hop, Bitmap.has, bne_iff_ne]

end

end IsSet

theorem bitmapCreate_eq (h : n ≤ 2 ^ 32 - 8) :
    bitmapCreate n = some (create n) ∧ divroundup n = (create n).words := by
  have hwords : divroundup n = (n + 7) / 8 := by
    rw [divroundup, BITS_PER_WORD, Nat.mod_eq_of_lt (by omega)]
    rfl
  constructor
  · refine if_neg fun hc => hc.2 ?_
    have hpart := hc.1
    unfold BITS_PER_WORD at hpart ⊢
    omega
  · rw [hwords, words, create_nbits, BITS_PER_WORD]
    rfl

theorem bitmap_is_set (h : n ≤ 2 ^ 32 - 8) (ops : List Op) :
    ∃ b, bitmapCreate n = some b ∧ divroundup n = b.words ∧
      Conforms call (Allowed n) (Does n) (IsSet n) b ∅ ops := by
  obtain ⟨hcreate, hwords⟩ := bitmapCreate_eq h
  exact ⟨create n, hcreate, hwords, conforms_of_step (fun _ _ _ h hop => h.call hop) (isSet_create n) ops⟩

theorem bitmap_is_set_nine : ∃ b, bitmapCreate 9 = some b ∧ divroundup 9 = b.words ∧
    Conforms call (Allowed 9) (Does 9) (IsSet 9) b ∅ [.mark 0, .alloc, .unmark 0, .alloc, .isset 8] :=
  bitmap_is_set (by decide) _

end Os161.Bitmap
