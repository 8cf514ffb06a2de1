import Os161.Lib.Bytes

/-!
# Overlapping copies

`lib/libc/memcpy.c` and `memmove.c`, with 32-bit addresses. A `long` has four bytes. Whatever the
alignment, `memmove` is a simultaneous copy.
-/

open Os161.Lib

namespace Os161.Libc

abbrev Memory := Nat → UInt8

def copyAt (w dst src : Nat) (mem : Memory) (i : Nat) : Memory :=
  splice mem ((dst + w * i) % 2 ^ 32) (slice mem ((src + w * i) % 2 ^ 32) w)

def forward (w dst src : Nat) (mem : Memory) : Nat → Memory
  | 0 => mem
  | n + 1 => copyAt w dst src (forward w dst src mem n) n

def backward (w dst src : Nat) : Nat → Memory → Memory
  | 0, mem => mem
  | n + 1, mem => backward w dst src n (copyAt w dst src mem n)

abbrev Aligned (dst src len : Nat) : Prop := dst % 4 = 0 ∧ src % 4 = 0 ∧ len % 4 = 0

def memcpy (mem : Memory) (dst src len : Nat) : Memory :=
  if Aligned dst src len then forward 4 dst src mem (len / 4) else forward 1 dst src mem len

def memmove (mem : Memory) (dst src len : Nat) : Memory := if dst < src then memcpy mem dst src len
  else if Aligned dst src len then backward 4 dst src (len / 4) mem
  else backward 1 dst src len mem

def moved (mem : Memory) (dst src len : Nat) : Memory := fun x =>
  if dst ≤ x ∧ x < dst + len then mem (src + (x - dst)) else mem x

variable {mem : Memory} {w dst src len n : Nat}

theorem copyAt_eq (hd : dst + w * (n + 1) ≤ 2 ^ 32) (hs : src + w * (n + 1) ≤ 2 ^ 32) (hw : 0 < w) :
    copyAt w dst src mem n = moved mem (dst + w * n) (src + w * n) w := by
  rw [Nat.mul_succ] at hd hs
  funext x
  unfold copyAt splice slice moved
  rw [Nat.mod_eq_of_lt (by omega), Nat.mod_eq_of_lt (by omega)]
  simp only [List.length_map, List.length_range]
  split
  · rw [List.getD_eq_getElem _ _ (by simp; omega)]
    simp
  · rfl

theorem forward_eq (hd : dst + w * n ≤ 2 ^ 32) (hs : src + w * n ≤ 2 ^ 32) (hw : 0 < w)
    (hlt : dst < src) : forward w dst src mem n = moved mem dst src (w * n) := by
  induction n with
  | zero =>
    funext x
    exact (if_neg (by omega)).symm
  | succ n ih =>
    rw [forward, copyAt_eq hd hs hw]
    rw [Nat.mul_succ] at hd hs ⊢
    rw [ih (by omega) (by omega)]
    funext x
    -- the source of this round is above everything that was written
    have hsource (k : Nat) : moved mem dst src (w * n) (src + w * n + k) = mem (src + w * n + k) :=
      if_neg (by omega)
    unfold moved at hsource ⊢
    by_cases hlast : dst + w * n ≤ x ∧ x < dst + w * n + w
    · rw [if_pos hlast, hsource, if_pos (by omega)]
      congr 1
      omega
    · rw [if_neg hlast]
      exact if_congr (by omega) rfl rfl

theorem backward_eq (hd : dst + w * n ≤ 2 ^ 32) (hs : src + w * n ≤ 2 ^ 32) (hw : 0 < w)
    (hle : src ≤ dst) : backward w dst src n mem = moved mem dst src (w * n) := by
  induction n generalizing mem with
  | zero =>
    funext x
    exact (if_neg (by omega)).symm
  | succ n ih =>
    rw [backward, copyAt_eq hd hs hw]
    rw [Nat.mul_succ] at hd hs ⊢
    rw [ih (by omega) (by omega)]
    funext x
    unfold moved
    by_cases hfirst : dst ≤ x ∧ x < dst + w * n
    · -- its source is below what has been written
      rw [if_pos hfirst, if_neg (by omega), if_pos (by omega)]
    · rw [if_neg hfirst]
      by_cases hlast : dst + w * n ≤ x ∧ x < dst + w * n + w
      · rw [if_pos hlast, if_pos (by omega)]
        congr 1
        omega
      · rw [if_neg hlast, if_neg (by omega)]

/-- The copy is simultaneous, and the loops over words and over bytes agree. -/
theorem memmove_simultaneous (mem : Memory) (hd : dst + len ≤ 2 ^ 32) (hs : src + len ≤ 2 ^ 32) :
    memmove mem dst src len = moved mem dst src len ∧ (Aligned dst src len →
        (dst < src → forward 4 dst src mem (len / 4) = forward 1 dst src mem len) ∧
        (src ≤ dst → backward 4 dst src (len / 4) mem = backward 1 dst src len mem)) := by
  have hbytes : dst + 1 * len ≤ 2 ^ 32 ∧ src + 1 * len ≤ 2 ^ 32 := by omega
  have hwords (h : Aligned dst src len) : 4 * (len / 4) = len := by omega
  have hfit (h : Aligned dst src len) : dst + 4 * (len / 4) ≤ 2 ^ 32 ∧ src + 4 * (len / 4) ≤ 2 ^ 32 := by
    omega
  have hf1 (hlt : dst < src) : forward 1 dst src mem len = moved mem dst src len := by
    rw [forward_eq hbytes.1 hbytes.2 Nat.one_pos hlt, one_mul]
  have hb1 (hle : src ≤ dst) : backward 1 dst src len mem = moved mem dst src len := by
    rw [backward_eq hbytes.1 hbytes.2 Nat.one_pos hle, one_mul]
  have hf4 (ha : Aligned dst src len) (hlt : dst < src) :
      forward 4 dst src mem (len / 4) = moved mem dst src len := by
    rw [forward_eq (hfit ha).1 (hfit ha).2 (by decide) hlt, hwords ha]
  have hb4 (ha : Aligned dst src len) (hle : src ≤ dst) :
      backward 4 dst src (len / 4) mem = moved mem dst src len := by
    rw [backward_eq (hfit ha).1 (hfit ha).2 (by decide) hle, hwords ha]
  refine ⟨?_, fun ha => ⟨fun hlt => ?_, fun hle => ?_⟩⟩
  · unfold memmove memcpy
    split
    · split
      · exact hf4 ‹_› ‹_›
      · exact hf1 ‹_›
    · split
      · exact hb4 ‹_› (by omega)
      · exact hb1 (by omega)
  · rw [hf4 ha hlt, hf1 hlt]
  · rw [hb4 ha hle, hb1 hle]

/-- Eight bytes move up by four, over half of themselves. -/
theorem memmove_simultaneous_overlap :
    memmove (fun x => UInt8.ofNat x) 1028 1024 8 = moved (fun x => UInt8.ofNat x) 1028 1024 8 :=
  (memmove_simultaneous _ (by decide) (by decide)).1

end Os161.Libc
