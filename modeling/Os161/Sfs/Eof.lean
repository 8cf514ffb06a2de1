import Os161.Sfs.Contents

/-!
# Reads at the end of a file

`sfs_io` computes where a read ends in 32 signed bits, and does not cut it where that wraps.
-/

namespace Os161.Sfs

open Lib

variable {own : Owner} {f : File} {n : Nat}

section Cut

variable {off resid : Nat} {buf : List UInt8}

/-- The read gets the bytes up to the end of the file, or as many as it asks for. -/
def Transfers (f : File) (off resid : Nat) (buf : List UInt8) : Prop :=
  ∃ f' uio', io f ⟨.read, off, resid, buf⟩ = .ok (f', uio', none) ∧
    uio'.resid = resid - min resid (f.sv.inode.size - off) ∧
    uio'.offset = off + min resid (f.sv.inode.size - off) ∧
    uio'.buf.length = buf.length + min resid (f.sv.inode.size - off)

theorem Reads.transfers
    (h : Reads f ⟨.read, off, resid, buf⟩ (min resid (f.sv.inode.size - off))
      (io f ⟨.read, off, resid, buf⟩)) : Transfers f off resid buf := by
  refine ⟨_, _, h, rfl, rfl, ?_⟩
  change (buf ++ slice _ _ _).length = _
  rw [List.length_append, slice_length]

theorem Stops.not_transfers (h : Stops (io f ⟨.read, off, resid, buf⟩)) :
    ¬ Transfers f off resid buf := by
  rintro ⟨_, _, hok, -⟩
  obtain ⟨_, _, hstop⟩ := h
  rw [hstop] at hok
  cases hok

theorem toOff_of_ge (h : 2 ^ 31 ≤ n) (hlt : n < 2 ^ 32) : toOff n = n - 2 ^ 32 := by
  unfold toOff
  rw [Nat.mod_eq_of_lt hlt, if_neg (by omega)]

theorem toOff_wrapped (hoff : off < 2 ^ 31) (hresid : resid < 2 ^ 32) (h : 2 ^ 31 ≤ off + resid) :
    toOff (off + resid) < off := by
  unfold toOff
  split <;> omega

theorem io_wrapped (hoff : off < 2 ^ 31) (hresid : resid < 2 ^ 32) (hsize : f.sv.inode.size < 2 ^ 31)
    (hin : off < f.sv.inode.size) (h : 2 ^ 31 ≤ off + resid) :
    io f ⟨.read, off, resid, buf⟩ = ioBody f ⟨.read, off, resid, buf⟩ := by
  have hend := toOff_wrapped hoff hresid h
  unfold io
  simp only [toOff_of_lt hsize]
  rw [if_neg (by omega), if_neg (by omega)]

/-- There is nothing to read, or `off_t` can hold the end and the size, and the blocks are a file's.
-/
def Readable (size off resid : Nat) : Prop := off < size →
    if size < 2 ^ 31 then off + resid < 2 ^ 31 ∧ InBlocks off (min resid (size - off)) else resid = 0

theorem io_read_huge (hin : off < f.sv.inode.size) (hlarge : ¬ f.sv.inode.size < 2 ^ 31)
    (hsize : f.sv.inode.size < 2 ^ 32) :
    Readable f.sv.inode.size off resid ∧
        Reads f ⟨.read, off, resid, buf⟩ (min resid (f.sv.inode.size - off))
          (io f ⟨.read, off, resid, buf⟩) ∨
      ¬ Readable f.sv.inode.size off resid ∧ ¬ Transfers f off resid buf := by
  have hend : toOff f.sv.inode.size ≤ off := by
    rw [toOff_of_ge (not_lt.mp hlarge) hsize]
    omega
  unfold Readable Transfers
  rw [if_neg hlarge, io_at_end hend]
  by_cases hz : resid = 0
  · left
    rw [hz, Nat.zero_min]
    exact ⟨fun _ => rfl, reads_nothing f _⟩
  · right
    refine ⟨fun hreadable => hz (hreadable hin), ?_⟩
    rintro ⟨f', uio', heq, hresid, -⟩
    cases heq
    simp only at hresid
    omega

theorem io_read_small (h : Owns own f) (hin : off < f.sv.inode.size)
    (hsmall : f.sv.inode.size < 2 ^ 31) (hoff : off < 2 ^ 31) (hresid : resid < 2 ^ 32) :
    Readable f.sv.inode.size off resid ∧
        Reads f ⟨.read, off, resid, buf⟩ (min resid (f.sv.inode.size - off))
          (io f ⟨.read, off, resid, buf⟩) ∨
      ¬ Readable f.sv.inode.size off resid ∧ ¬ Transfers f off resid buf := by
  unfold Readable
  rw [if_pos hsmall]
  by_cases hend : off + resid < 2 ^ 31
  · obtain ⟨hblocks, hreads⟩ | ⟨hblocks, hstops⟩ :=
      ioBody_cases h ⟨.read, off, min resid (f.sv.inode.size - off), buf⟩ rfl
    · left
      rw [io_cut hsmall hin hend]
      exact ⟨fun _ => ⟨hend, hblocks⟩, hreads.cut⟩
    · right
      refine ⟨fun hreadable => hblocks (hreadable hin).2, Stops.not_transfers ?_⟩
      obtain ⟨f', uio', hstop⟩ := hstops
      rw [io_cut hsmall hin hend, hstop]
      exact ⟨f', _, rfl⟩
  · right
    refine ⟨fun hreadable => hend (hreadable hin).1, Stops.not_transfers ?_⟩
    rw [io_wrapped hoff hresid hsmall hin (not_lt.mp hend)]
    apply ioBody_stops h rfl
    change ¬ (off + resid ≤ 143 * 512 ∨ resid = 0 ∧ _)
    omega

/-- Every other read fails, or gets nothing. -/
theorem reads_to_end_iff (own : Owner) (f : File) (h : Owns own f) (hsize : f.sv.inode.size < 2 ^ 32)
    (off resid : Nat) (hoff : off < 2 ^ 31) (hresid : resid < 2 ^ 32) (buf : List UInt8) :
    (Transfers f off resid buf ↔ Readable f.sv.inode.size off resid) ∧
      (Readable f.sv.inode.size off resid →
        Reads f ⟨.read, off, resid, buf⟩ (min resid (f.sv.inode.size - off))
          (io f ⟨.read, off, resid, buf⟩)) := by
  suffices hcases : Readable f.sv.inode.size off resid ∧
      Reads f ⟨.read, off, resid, buf⟩ (min resid (f.sv.inode.size - off))
        (io f ⟨.read, off, resid, buf⟩) ∨
      ¬ Readable f.sv.inode.size off resid ∧ ¬ Transfers f off resid buf by
    obtain ⟨hreadable, hreads⟩ | ⟨hnot, hfails⟩ := hcases
    · exact ⟨iff_of_true hreads.transfers hreadable, fun _ => hreads⟩
    · exact ⟨iff_of_false hfails hnot, fun hreadable => absurd hreadable hnot⟩
  by_cases hin : off < f.sv.inode.size
  · by_cases hsmall : f.sv.inode.size < 2 ^ 31
    · exact io_read_small h hin hsmall hoff hresid
    · exact io_read_huge hin hsmall hsize
  · left
    refine ⟨fun hlt => absurd hlt hin, ?_⟩
    rw [io_at_end (by rw [toOff_of_lt (by omega)]; omega),
      Nat.sub_eq_zero_of_le (not_lt.mp hin), Nat.min_zero]
    exact reads_nothing f _

def byteFile : File := { emptyFile with sv := emptyFile.sv.setSize 1 }

theorem byteFile_owns : Owns emptyFileOwner byteFile := ⟨emptyFile_mapOk, emptyFile_sound.file⟩

theorem read_past_end :
    ∃ f' uio', io byteFile ⟨.read, 0, 0x80000000, []⟩ = .ok (f', uio', some .EINVAL) := by
  rw [io_wrapped (by decide) (by decide) (by decide) (by decide) (by decide)]
  apply ioBody_stops byteFile_owns rfl
  unfold InBlocks
  decide

theorem reads_to_end_iff_byte :
    Owns emptyFileOwner byteFile ∧ Transfers byteFile 0 0x7fffffff [] := by
  refine ⟨byteFile_owns, ?_⟩
  apply (reads_to_end_iff emptyFileOwner byteFile byteFile_owns (by decide) 0 0x7fffffff (by decide)
    (by decide) []).1.mpr
  intro _
  exact ⟨by decide, .inl (by decide)⟩

end Cut

end Os161.Sfs
