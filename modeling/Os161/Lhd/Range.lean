import Os161.Lhd.Address

/-!
# The sectors of a request

`lhd_io` of `kern/dev/lamebus/lhd.c` in any thread: which sectors it starts operations on, whatever
`uiomove` and the disk answer.
-/

open Os161.Userprog

namespace Os161.Lhd.Range

open Address (decode)

/-- What one round of the loop meets: the result of `uiomove` into the buffer, then that of the
operation and of `uiomove` out of the buffer, and the uio after it. -/
structure Round where
  fill : Option Errno
  result : Option Errno
  uio : Uio

structure Started where
  sectors : List (BitVec 32)
  uio : Uio
  result : Option Errno
  deriving DecidableEq

def startFrom (write : Bool) (rounds : Nat → Round) (sector : BitVec 32) :
    (n i : Nat) → Uio → Started
  | 0, _, uio => ⟨[], uio, none⟩
  | n + 1, i, _ =>
    let r := rounds i
    if write = true ∧ r.fill ≠ none then ⟨[], r.uio, r.fill⟩
    else if r.result ≠ none then ⟨[sector + BitVec.ofNat 32 i], r.uio, r.result⟩
    else
      let rest := startFrom write rounds sector n (i + 1) r.uio
      { rest with sectors := (sector + BitVec.ofNat 32 i) :: rest.sectors }

/-- `lhd_io` in any thread, with the sectors it starts operations on. -/
def lhdIo (dBlocks : BitVec 32) (rounds : Nat → Round) (uio : Uio) : Started :=
  (decode dBlocks uio).elim ⟨[], uio, some .EINVAL⟩ fun p =>
    startFrom (uio.rw = .UIO_WRITE) rounds p.1 p.2.toNat 0 uio

def Aligned (uio : Uio) : Prop := 512 ∣ uio.offset.toInt ∧ 512 ∣ uio.resid.toNat

def endSector (uio : Uio) : Int := uio.offset.toInt / 512 + uio.resid.toNat / 512

def InRange (dBlocks : BitVec 32) (uio : Uio) : Prop :=
  Aligned uio ∧ 0 ≤ uio.offset.toInt ∧ endSector uio ≤ dBlocks.toNat

structure StartsInside (dBlocks : BitVec 32) (rounds : Nat → Round) (uio : Uio) : Prop where
  inside : InRange dBlocks uio → ∃ n ≤ uio.resid.toNat / 512,
    (lhdIo dBlocks rounds uio).sectors.map (fun sec => (sec.toNat : Int)) =
      (List.range n).map fun k : Nat => uio.offset.toInt / 512 + (k : Int)
  refused : ¬ InRange dBlocks uio → lhdIo dBlocks rounds uio = ⟨[], uio, some .EINVAL⟩

/-- A negative offset for which the sum of 32 bits passes the test. -/
def Wraps (dBlocks : BitVec 32) (uio : Uio) : Prop :=
  Aligned uio ∧ uio.offset.toInt < 0 ∧ endSector uio % 2 ^ 32 ≤ dBlocks.toNat

section Sectors

variable {dBlocks sector : BitVec 32} {uio : Uio} {rounds : Nat → Round}

theorem srem_eq_zero (x : BitVec 32) : x.srem LHD_SECTSIZE = 0 ↔ 512 ∣ x.toInt := by
  rw [← BitVec.toInt_inj, BitVec.toInt_srem]
  exact Int.dvd_iff_tmod_eq_zero.symm

theorem umod_eq_zero (x : BitVec 32) : x % LHD_SECTSIZE = 0 ↔ 512 ∣ x.toNat := by
  rw [← BitVec.toNat_inj, BitVec.toNat_umod]
  exact Nat.dvd_iff_mod_eq_zero.symm

theorem toNat_sector {x : BitVec 32} (h : 512 ∣ x.toInt) :
    ((x.sdiv LHD_SECTSIZE).toNat : Int) = x.toInt / 512 % 2 ^ 32 := by
  have hdiv : (x.sdiv LHD_SECTSIZE).toInt = (x.toInt.tdiv 512).bmod (2 ^ 32) := BitVec.toInt_sdiv ..
  rw [Int.tdiv_eq_ediv_of_dvd h] at hdiv
  rw [BitVec.toInt_eq_toNat_cond, Int.bmod_def] at hdiv
  omega

theorem lt_sum_iff (h : Aligned uio) :
    dBlocks < uio.offset.sdiv LHD_SECTSIZE + uio.resid / LHD_SECTSIZE ↔
      (dBlocks.toNat : Int) < endSector uio % 2 ^ 32 := by
  have hsector := toNat_sector h.1
  have hlen : (uio.resid / LHD_SECTSIZE).toNat = uio.resid.toNat / 512 := BitVec.toNat_udiv ..
  unfold endSector
  rw [BitVec.lt_def, BitVec.toNat_add, hlen]
  omega

theorem decode_cases : (Aligned uio ∧ endSector uio % 2 ^ 32 ≤ dBlocks.toNat ∧
      decode dBlocks uio = some (uio.offset.sdiv LHD_SECTSIZE, uio.resid / LHD_SECTSIZE)) ∨
    (¬ (Aligned uio ∧ endSector uio % 2 ^ 32 ≤ dBlocks.toNat) ∧ decode dBlocks uio = none) := by
  have htest : uio.offset.srem LHD_SECTSIZE ≠ 0 ∨ uio.resid % LHD_SECTSIZE ≠ 0 ↔ ¬ Aligned uio := by
    rw [Ne, Ne, srem_eq_zero, umod_eq_zero]
    exact not_and_or.symm
  unfold decode
  by_cases h : Aligned uio
  · simp only [if_neg (mt htest.mp (not_not_intro h)), lt_sum_iff h]
    split_ifs with hlt
    · exact .inr ⟨fun hle => Int.not_le.mpr hlt hle.2, rfl⟩
    · exact .inl ⟨h, Int.not_lt.mp hlt, rfl⟩
  · simp only [if_pos (htest.mpr h)]
    exact .inr ⟨fun hle => h hle.1, trivial⟩

theorem startFrom_sectors (write : Bool) (rounds : Nat → Round) (sector : BitVec 32) (n i : Nat)
    (uio : Uio) : ∃ m ≤ n, (startFrom write rounds sector n i uio).sectors =
      (List.range m).map fun k => sector + BitVec.ofNat 32 (i + k) := by
  induction n generalizing i uio with
  | zero => exact ⟨0, le_rfl, rfl⟩
  | succ n ih =>
    unfold startFrom
    dsimp only
    split_ifs
    · exact ⟨0, Nat.zero_le _, rfl⟩
    · exact ⟨1, Nat.le_add_left .., rfl⟩
    · obtain ⟨m, hm, hrest⟩ := ih (i + 1) (rounds i).uio
      refine ⟨m + 1, Nat.succ_le_succ hm, ?_⟩
      simp [hrest, List.range_succ_eq_map, Function.comp_def, add_assoc, add_comm 1]

def smooth (uio : Uio) : Nat → Round := fun _ => ⟨none, none, uio⟩

theorem startFrom_smooth (write : Bool) (sector : BitVec 32) (n i : Nat) (uio : Uio) :
    (startFrom write (smooth uio) sector n i uio).result = none := by
  induction n generalizing i with
  | zero => rfl
  | succ n ih =>
    unfold startFrom
    simpa [smooth] using ih (i + 1)

theorem endSector_mod (h : 0 ≤ uio.offset.toInt) : endSector uio % 2 ^ 32 = endSector uio := by
  have hoff := BitVec.toInt_lt (x := uio.offset)
  unfold endSector
  omega

theorem sectors_inside (rounds : Nat → Round) (h : InRange dBlocks uio) :
    ∃ n ≤ uio.resid.toNat / 512,
      (lhdIo dBlocks rounds uio).sectors.map (fun sec => (sec.toNat : Int)) =
        (List.range n).map fun k : Nat => uio.offset.toInt / 512 + (k : Int) := by
  obtain ⟨haligned, hpos, hle⟩ := h
  rcases @decode_cases dBlocks uio with ⟨-, -, hdecode⟩ | ⟨hnot, -⟩
  · obtain ⟨n, hn, hsectors⟩ := startFrom_sectors (uio.rw = .UIO_WRITE) rounds
      (uio.offset.sdiv LHD_SECTSIZE) (uio.resid / LHD_SECTSIZE).toNat 0 uio
    have hlen : (uio.resid / LHD_SECTSIZE).toNat = uio.resid.toNat / 512 := BitVec.toNat_udiv ..
    have hsector := toNat_sector haligned.1
    have hoff := BitVec.toInt_lt (x := uio.offset)
    refine ⟨n, hlen ▸ hn, ?_⟩
    unfold lhdIo
    rw [hdecode, Option.elim_some, hsectors, List.map_map]
    apply List.map_congr_left
    intro k hk
    have hk := List.mem_range.mp hk
    simp only [Function.comp_apply, BitVec.toNat_add, BitVec.toNat_ofNat]
    omega
  · exact absurd ⟨haligned, (endSector_mod hpos).symm ▸ hle⟩ hnot

/-- Just a negative offset gets past the test for the end of the disk. -/
theorem lhdIo_inside_iff (dBlocks : BitVec 32) (uio : Uio) :
    (∀ rounds, StartsInside dBlocks rounds uio) ↔ ¬ Wraps dBlocks uio := by
  constructor
  · rintro h ⟨haligned, hneg, hle⟩
    have hrefused := (h (smooth uio)).refused fun hin => Int.not_le.mpr hneg hin.2.1
    have hresult := congrArg Started.result hrefused
    unfold lhdIo at hresult
    rcases @decode_cases dBlocks uio with ⟨-, -, hdecode⟩ | ⟨hnot, -⟩
    · rw [hdecode] at hresult
      cases (startFrom_smooth ..).symm.trans hresult
    · exact hnot ⟨haligned, hle⟩
  · intro h rounds
    refine ⟨sectors_inside rounds, fun hout => ?_⟩
    unfold lhdIo
    rcases @decode_cases dBlocks uio with ⟨haligned, hle, -⟩ | ⟨-, hdecode⟩
    · have hpos : 0 ≤ uio.offset.toInt := by
        by_contra hneg
        exact h ⟨haligned, Int.not_le.mp hneg, hle⟩
      rw [endSector_mod hpos] at hle
      exact absurd ⟨haligned, hpos, hle⟩ hout
    · rw [hdecode]
      rfl

end Sectors

/-- The last sector before the disk, which is sector 2^32 - 1 to the device. -/
theorem starts_before_disk : ¬ InRange 8 (mkKuio 0 512 (-512) .UIO_READ) ∧
    lhdIo 8 (smooth (mkKuio 0 512 (-512) .UIO_READ)) (mkKuio 0 512 (-512) .UIO_READ) =
      ⟨[-1], mkKuio 0 512 (-512) .UIO_READ, none⟩ :=
  ⟨fun h => absurd h.2.1 (by decide), by decide⟩

end Os161.Lhd.Range
