import Os161.Lhd.Block
import Os161.Sfs.Mount

/-!
# Where a block is on the disk

SFS multiplies the number of a block into an offset, which is a signed 32-bit number, and `lhd_io`
divides it back.
-/

open Os161.Lib Os161.Userprog

namespace Os161.Lhd.Address

open Block (Outcome Request SFS_BLOCKSIZE sectorOf sectors sfsUio srem_block)

def decode (dBlocks : BitVec 32) (uio : Uio) : Option (BitVec 32 × BitVec 32) :=
  let sector := uio.offset.sdiv LHD_SECTSIZE
  let len := uio.resid / LHD_SECTSIZE
  if uio.offset.srem LHD_SECTSIZE ≠ 0 ∨ uio.resid % LHD_SECTSIZE ≠ 0 then none
  else if dBlocks < sector + len then none
  else some (sector, len)

def blockioUio (uio : Uio) (diskblock : BitVec 32) : Uio :=
  { uio with offset := diskblock * SFS_BLOCKSIZE, resid := SFS_BLOCKSIZE }

/-- Every block of the file system is the sector of its number. -/
structure Exact (dBlocks : BitVec 32) (nblocks : Nat) : Prop where
  whole : ∀ b : BitVec 32, b.toNat < nblocks → ∀ data rw,
    decode dBlocks (sfsUio data b rw) = some (b, 1)
  blockio : ∀ b : BitVec 32, b.toNat < nblocks → ∀ uio,
    decode dBlocks (blockioUio uio b) = some (b, 1)
  distinct : ∀ b b' : BitVec 32, b.toNat < nblocks → b'.toNat < nblocks → ∀ data rw,
    decode dBlocks (sfsUio data b rw) = decode dBlocks (sfsUio data b' rw) → b = b'

section Decode

variable {dBlocks b : BitVec 32} {uio : Uio} {os : Nat → Outcome} {r : Request} {nblocks : Nat}

theorem lhdIo_decode : Block.lhdIo dBlocks os r =
    (decode dBlocks r.uio).elim (some (r, some .EINVAL)) fun p =>
      sectors os p.2.toNat ⟨r.uio.rw = .UIO_WRITE, p.1, p.2, 0⟩ r := by
  unfold Block.lhdIo decode
  dsimp only
  split_ifs <;> rfl

theorem decode_block (hoff : uio.offset = b * SFS_BLOCKSIZE) (hresid : uio.resid = SFS_BLOCKSIZE) :
    decode dBlocks uio = if dBlocks < sectorOf b + 1 then none else some (sectorOf b, 1) := by
  have hlen : SFS_BLOCKSIZE / LHD_SECTSIZE = 1 := by decide
  have hrest : SFS_BLOCKSIZE % LHD_SECTSIZE = 0 := by decide
  simp only [decode, hoff, hresid, srem_block, hlen, hrest, ne_eq, not_true, or_self, if_false]
  rfl

theorem sectorOf_eq (hb : b.toNat < 2 ^ 22) : sectorOf b = b := by
  have hmul : (b * SFS_BLOCKSIZE).toNat = b.toNat * 512 := by
    change b.toNat * 512 % 2 ^ 32 = _
    omega
  have hmsb : (b * SFS_BLOCKSIZE).msb = false := by
    rw [BitVec.msb_eq_false_iff_two_mul_lt, hmul]
    omega
  apply BitVec.eq_of_toNat_eq
  rw [sectorOf, BitVec.sdiv_eq, hmsb]
  change ((b * SFS_BLOCKSIZE).udiv LHD_SECTSIZE).toNat = b.toNat
  rw [BitVec.udiv_eq, BitVec.toNat_udiv, hmul]
  change b.toNat * 512 / 512 = b.toNat
  omega

theorem exact_of_le (hn : nblocks ≤ 2 ^ 22) (hsize : nblocks ≤ dBlocks.toNat) :
    Exact dBlocks nblocks := by
  have hdecode : ∀ b : BitVec 32, b.toNat < nblocks → ∀ uio : Uio, uio.offset = b * SFS_BLOCKSIZE →
      uio.resid = SFS_BLOCKSIZE → decode dBlocks uio = some (b, 1) := by
    intro b hb uio hoff hresid
    have hin : ¬ dBlocks < b + 1 := by
      change ¬ dBlocks.toNat < (b.toNat + 1) % 2 ^ 32
      omega
    rw [decode_block hoff hresid, sectorOf_eq (lt_of_lt_of_le hb hn), if_neg hin]
  refine ⟨fun b hb data rw => hdecode b hb _ rfl rfl, fun b hb uio => hdecode b hb _ rfl rfl, ?_⟩
  intro b b' hb hb' data rw heq
  rw [hdecode b hb _ rfl rfl, hdecode b' hb' _ rfl rfl] at heq
  exact (Prod.mk.inj (Option.some.inj heq)).1

theorem le_of_exact (h : Exact dBlocks nblocks) : nblocks ≤ 2 ^ 22 := by
  by_contra hn
  have hb : (4194304 : BitVec 32).toNat < nblocks := by
    change 4194304 < nblocks
    omega
  have hdecode := h.whole 4194304 hb 0 .UIO_READ
  rw [decode_block rfl rfl] at hdecode
  split at hdecode
  · cases hdecode
  · exact absurd (Prod.mk.inj (Option.some.inj hdecode)).1 (by decide)

end Decode

def Accepted (dBlocks : BitVec 32) (disk : Nat → Sfs.Block) (nblocks : Nat) : Prop :=
  nblocks ≤ dBlocks.toNat ∧
    ∃ s, Sfs.domount dBlocks.toNat disk = .ok (.ok s) ∧ s.fs.nblocks = nblocks

/-- At most 2^22 blocks: mounting does not ask for that. -/
theorem addresses_exact_iff (dBlocks : BitVec 32) (disk : Nat → Sfs.Block) (nblocks : Nat)
    (hmount : Accepted dBlocks disk nblocks) : Exact dBlocks nblocks ↔ nblocks ≤ 2 ^ 22 :=
  ⟨le_of_exact, fun hn => exact_of_le hn hmount.1⟩

def diskOf (n : Nat) : Nat → Sfs.Block := fun _ =>
  ofWords fun k => if k = 0 then Sfs.SFS_MAGIC else n

theorem accepted_diskOf {n : BitVec 32} (hn : 3 ≤ n.toNat) :
    Accepted n (diskOf n.toNat) n.toNat := by
  have hmagic : wordAt (diskOf n.toNat Sfs.SFS_SB_LOCATION) 0 = Sfs.SFS_MAGIC :=
    wordAt_ofWords (show Sfs.SFS_MAGIC < 2 ^ 32 by decide)
  have hnblocks : wordAt (diskOf n.toNat Sfs.SFS_SB_LOCATION) 1 = n.toNat := wordAt_ofWords n.isLt
  have hroom : ∀ j < Sfs.SFS_BITBLOCKS n.toNat, Sfs.SFS_MAP_LOCATION + j < n.toNat := by
    intro j hj
    change j < (n.toNat + 4096 - 1) / 4096 * 4096 / 4096 at hj
    change 2 + j < n.toNat
    omega
  obtain ⟨s, hs, hmounted⟩ := Sfs.domount_spec (lt_of_lt_of_le (by decide) hn) hmagic hnblocks hroom
  exact ⟨le_rfl, s, hs, hmounted.nblocks⟩

theorem addresses_exact_eight : Accepted 8 (diskOf 8) 8 ∧ (Exact 8 8 ↔ 8 ≤ 2 ^ 22) :=
  have hmount : Accepted 8 (diskOf 8) 8 := accepted_diskOf (n := 8) (by decide)
  ⟨hmount, addresses_exact_iff 8 (diskOf 8) 8 hmount⟩

/-- The last block of a volume of 2^23 + 1 is its superblock again. -/
theorem address_aliases : Accepted 8388609 (diskOf 8388609) 8388609 ∧
    decode 8388609 (sfsUio 0 8388608 .UIO_WRITE) = decode 8388609 (sfsUio 0 0 .UIO_WRITE) ∧
    decode 8388609 (sfsUio 0 8388608 .UIO_WRITE) = some (0, 1) ∧
    decode 8388609 (sfsUio 0 4194304 .UIO_WRITE) = none := by
  refine ⟨accepted_diskOf (n := 8388609) (by decide), ?_, ?_, ?_⟩
  · decide
  · decide
  · decide

end Os161.Lhd.Address
