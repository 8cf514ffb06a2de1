import Os161.Sfs.Mount

/-!
# What `mksfs` hands to the kernel

The kernel mounts it as an empty file system, and every block that the layout does not need can be
allocated.
-/

open Function List

namespace Os161.Sfs

open Lib

def ballocs : Nat → Fs → K (Fs × List (Except Errno Nat))
  | 0, fs => pure (fs, [])
  | n + 1, fs => do
    let (fs, r) ← balloc fs
    let (fs, rs) ← ballocs n fs
    pure (fs, r :: rs)

def remaining (size : Nat) : List Nat :=
  List.range' (SFS_MAP_LOCATION + SFS_BITBLOCKS size) (size - (SFS_MAP_LOCATION + SFS_BITBLOCKS size))

structure EmptyVolume (size : Nat) (s : State) : Prop where
  nbits : s.fs.freemap.nbits = SFS_BITMAPSIZE size
  bits : ∀ b < SFS_BITMAPSIZE size, s.fs.freemap.has b = true ↔
    b = SFS_SB_LOCATION ∨ b = SFS_ROOT_LOCATION ∨
      (SFS_MAP_LOCATION ≤ b ∧ b < SFS_MAP_LOCATION + SFS_BITBLOCKS size) ∨ size ≤ b
  root : Inode.decode (s.fs.disk SFS_ROOT_LOCATION) = ⟨0, SFS_TYPE_DIR, 1, fun _ => 0, 0⟩
  balloc : ∀ n, ∃ fs, ballocs n s.fs = .ok (fs, ((remaining size).take n).map .ok ++
    List.replicate (n - (remaining size).length) (.error .ENOSPC))

/-- The names that `mksfs` takes: no slash, and no colon but one at the end. -/
def LegalName (volname : List UInt8) : Prop := 47 ∉ volname ∧ 58 ∉ volname.dropLast

instance (volname : List UInt8) : Decidable (LegalName volname) :=
  inferInstanceAs (Decidable (_ ∧ _))

variable {size : Nat} {volname : List UInt8} {disk img old : Nat → Block} {s : State} {fs : Fs}

theorem volumeName_of_legal (h : LegalName volname) :
    ∃ name, volumeName volname = some name ∧ name.length ≤ volname.length := by
  have hle : (volname.takeWhile (· ≠ 58)).length ≤ volname.length :=
    (List.takeWhile_prefix _).length_le
  have hcolon : volname.length ≤ (volname.takeWhile (· ≠ 58)).length + 1 := by
    obtain rfl | ⟨l, x, rfl⟩ := volname.eq_nil_or_concat
    · exact Nat.zero_le _
    · -- before its last character the name has no colon
      have hl : ∀ c ∈ l, decide (c ≠ 58) = true := by
        intro c hc
        rw [decide_eq_true_eq]
        rintro rfl
        exact h.2 (by simpa using hc)
      rw [concat_eq_append, takeWhile_append_of_pos hl]
      simp
  refine ⟨volname.takeWhile (· ≠ 58), ?_, hle⟩
  unfold volumeName
  rw [if_neg (not_lt.mpr hcolon), if_neg fun hmem => h.1 ((takeWhile_sublist _).mem hmem)]

theorem doallocbits_ok {bits : List Nat} {m : Bitmap} (hnodup : bits.Nodup)
    (hclear : ∀ b ∈ bits, m.has b = false) : ∃ m', bits.foldlM doallocbit m = some m' := by
  induction bits generalizing m with
  | nil => exact ⟨m, rfl⟩
  | cons bit bits ih =>
    obtain ⟨hbit, hnodup⟩ := nodup_cons.mp hnodup
    have hzero : m.isset bit = 0 := by simpa [Bitmap.has] using hclear bit mem_cons_self
    rw [foldlM_cons]
    unfold doallocbit
    rw [if_pos hzero]
    apply ih hnodup
    intro b hb
    have hne : b ≠ bit := by
      rintro rfl
      exact hbit hb
    rw [Bitmap.has_setBit, if_neg hne]
    exact hclear b (mem_cons_of_mem _ hb)

theorem writeblocks_ok {l : List Nat} {bits : Bitmap}
    (hl : ∀ i ∈ l, SFS_MAP_LOCATION + i < size) :
    ∃ img, l.foldlM (fun disk i => diskwrite size disk (mapBlock bits i) (SFS_MAP_LOCATION + i))
      disk = some img := by
  induction l generalizing disk with
  | nil => exact ⟨disk, rfl⟩
  | cons i l ih =>
    rw [foldlM_cons]
    unfold diskwrite
    rw [if_pos (hl i mem_cons_self)]
    exact ih fun j hj => hl j (mem_cons_of_mem _ hj)

theorem bitblocks_lt (hsize : 3 ≤ size) : SFS_MAP_LOCATION + SFS_BITBLOCKS size ≤ size := by
  unfold SFS_MAP_LOCATION SFS_BITBLOCKS SFS_BITMAPSIZE SFS_BLOCKBITS SFS_BLOCKSIZE
  omega

theorem bitblocks_le (hmax : size ≤ MAXBITBLOCKS * SFS_BLOCKBITS) :
    SFS_BITBLOCKS size ≤ MAXBITBLOCKS := by
  unfold SFS_BITBLOCKS SFS_BITMAPSIZE SFS_BLOCKBITS SFS_BLOCKSIZE MAXBITBLOCKS at *
  omega

theorem nodup_initialBits (hsize : 3 ≤ size) : (initialBits size).Nodup := by
  have hlt := bitblocks_lt hsize
  unfold SFS_MAP_LOCATION at hlt
  unfold initialBits
  simp only [nodup_cons, mem_cons, mem_append, mem_map, mem_range,
    mem_range'_1, nodup_append, SFS_SB_LOCATION, SFS_ROOT_LOCATION, SFS_MAP_LOCATION]
  refine ⟨?_, ?_, ?_, nodup_range', ?_⟩
  · rintro (h | ⟨i, -, h⟩ | h)
    · cases h
    · omega
    · omega
  · rintro (⟨i, -, h⟩ | h)
    · omega
    · omega
  · exact nodup_range.map fun a b h => add_left_cancel h
  · rintro a ⟨i, hi, rfl⟩ b hb rfl
    omega

theorem mksfs_ok (hsize : 3 ≤ size) (hmax : size ≤ MAXBITBLOCKS * SFS_BLOCKBITS)
    (hlen : volname.length < SFS_VOLNAME_SIZE) (hlegal : LegalName volname) :
    ∃ img, mksfs size volname old = some img := by
  obtain ⟨name, hname, hle⟩ := volumeName_of_legal hlegal
  have hmap := bitblocks_lt hsize
  obtain ⟨bits, hbits⟩ := doallocbits_ok (m := ⟨MAXBITBLOCKS * SFS_BLOCKBITS, fun _ => 0⟩)
    (nodup_initialBits hsize) (by simp [Bitmap.has, Bitmap.isset])
  have hsuper : ∀ disk, writesuper size disk name =
      some (update disk SFS_SB_LOCATION (superBlock name size)) := by
    intro disk
    unfold writesuper diskwrite
    rw [if_neg (by omega), if_pos (by unfold SFS_SB_LOCATION; omega)]
  have hroot : ∀ disk, writerootdir size disk =
      some (update disk SFS_ROOT_LOCATION rootInode.encode) := by
    intro disk
    unfold writerootdir diskwrite
    rw [if_pos (by unfold SFS_ROOT_LOCATION; omega)]
  have hmapwrite : ∀ disk, ∃ img, writebitmap disk size = some img := by
    intro disk
    have hroom : ∀ i ∈ List.range (SFS_BITBLOCKS size), SFS_MAP_LOCATION + i < size := by
      intro i hi
      rw [mem_range] at hi
      omega
    obtain ⟨img, himg⟩ := @writeblocks_ok size disk _ bits hroom
    refine ⟨img, ?_⟩
    unfold writebitmap
    rw [if_neg (not_lt.mpr (bitblocks_le hmax)), hbits]
    exact himg
  obtain ⟨img, himg⟩ := hmapwrite (update
    (update old SFS_SB_LOCATION (superBlock name size)) SFS_ROOT_LOCATION rootInode.encode)
  refine ⟨img, ?_⟩
  unfold mksfs
  rw [hname]
  change (writesuper size old name).bind _ = _
  rw [hsuper]
  change (writerootdir size _).bind _ = _
  rw [hroot]
  exact himg

structure FreeFrom (size lo : Nat) (fs : Fs) : Prop where
  nblocks : fs.nblocks = size
  fits : size ≤ fs.freemap.nbits
  padded : fs.freemap.Padded
  bits : ∀ b < fs.freemap.nbits, fs.freemap.has b = (decide (b < lo) || decide (size ≤ b))

theorem FreeFrom.balloc {lo : Nat} (h : FreeFrom size lo fs) (hlo : lo < size) :
    Sfs.balloc fs = .ok (fs.take lo, .ok lo) ∧ FreeFrom size (lo + 1) (fs.take lo) := by
  have hfits := h.fits
  have hfree : fs.freemap.has lo = false := by
    rw [h.bits lo (by omega)]
    simp [hlo]
  refine ⟨?_, h.nblocks, h.fits, Bitmap.padded_setBit h.padded lo, ?_⟩
  · obtain ⟨-, hall⟩ | ⟨b, hb, halloc, hclear, hbelow⟩ := Bitmap.alloc_spec h.padded
    · rw [hall lo (by omega)] at hfree
      cases hfree
    · obtain rfl : b = lo := by
        rw [h.bits b hb] at hclear
        simp only [Bool.or_eq_false_iff, decide_eq_false_iff_not] at hclear
        by_contra hne
        rw [hbelow lo (by omega)] at hfree
        cases hfree
      unfold Sfs.balloc
      have hlt : b < fs.nblocks := h.nblocks ▸ hlo
      simp only [halloc, if_neg (not_le.mpr hlt), Sfs.wblock, if_pos hlt]
      rfl
  · intro b hb
    change (fs.freemap.setBit lo).has b = _
    rw [Bitmap.has_setBit, h.bits b hb]
    by_cases hblo : b = lo
    · simp [hblo]
    · rw [if_neg hblo]
      congr 1
      rw [decide_eq_decide]
      omega

theorem FreeFrom.full (h : FreeFrom size size fs) : Sfs.balloc fs = .ok (fs, .error .ENOSPC) := by
  unfold Sfs.balloc
  obtain ⟨hfull, -⟩ | ⟨b, hb, -, hclear, -⟩ := Bitmap.alloc_spec h.padded
  · rw [hfull]
    rfl
  · rw [h.bits b hb] at hclear
    simp only [Bool.or_eq_false_iff, decide_eq_false_iff_not] at hclear
    omega

theorem ballocs_succ {fs₁ fs₂ : Fs} {r : Except Errno Nat} {rs : List (Except Errno Nat)} {n : Nat}
    (h : Sfs.balloc fs = .ok (fs₁, r)) (hn : ballocs n fs₁ = .ok (fs₂, rs)) :
    ballocs (n + 1) fs = .ok (fs₂, r :: rs) := by
  unfold ballocs
  rw [h, ok_bind]
  dsimp only
  rw [hn]
  rfl

theorem FreeFrom.ballocs {lo : Nat} (h : FreeFrom size lo fs) (hlo : lo ≤ size) (n : Nat) :
    ∃ fs', ballocs n fs = .ok (fs', ((List.range' lo (size - lo)).take n).map .ok ++
      List.replicate (n - (size - lo)) (.error .ENOSPC)) := by
  induction n generalizing fs lo with
  | zero => exact ⟨fs, by simp [Sfs.ballocs]; rfl⟩
  | succ n ih =>
    by_cases hlt : lo < size
    · obtain ⟨halloc, hnext⟩ := h.balloc hlt
      obtain ⟨fs', hrest⟩ := ih hnext hlt
      have hrange : List.range' lo (size - lo) = lo :: List.range' (lo + 1) (size - (lo + 1)) := by
        rw [← List.range'_succ]
        congr 1
        omega
      have hcount : n + 1 - (size - lo) = n - (size - (lo + 1)) := by omega
      refine ⟨fs', ?_⟩
      rw [ballocs_succ halloc hrest, hrange, hcount]
      rfl
    · obtain rfl : lo = size := by omega
      obtain ⟨fs', hrest⟩ := ih h hlo
      refine ⟨fs', ?_⟩
      rw [ballocs_succ h.full hrest]
      simp [replicate_succ]

theorem Mounted.freeFrom {bits : Bitmap} (hsize : 3 ≤ size) (hm : Mounted size img s)
    (him : Image size volname img bits) :
    FreeFrom size (SFS_MAP_LOCATION + SFS_BITBLOCKS size) s.fs where
  nblocks := hm.nblocks
  fits := by
    rw [hm.nbits]
    exact le_bitmapsize size
  padded := (start_map him hm).padded
  bits b hb := by
    have hlt := bitblocks_lt hsize
    rw [hm.nbits] at hb
    unfold SFS_MAP_LOCATION at hlt ⊢
    rw [hm.has him hb, Bool.eq_iff_iff, Bool.or_eq_true]
    simp only [decide_eq_true_eq, mem_initialBits]
    omega

theorem mksfs_mounts_empty (hsize : 3 ≤ size) (hmax : size ≤ MAXBITBLOCKS * SFS_BLOCKBITS)
    (hlen : volname.length ≤ SFS_VOLNAME_SIZE - 1) (hlegal : LegalName volname)
    (old : Nat → Block) :
    ∃ img, mksfs size volname old = some img ∧
      ∃ s, domount size img = .ok (.ok s) ∧ EmptyVolume size s := by
  have hname : volname.length < SFS_VOLNAME_SIZE := lt_of_le_of_lt hlen (by decide)
  obtain ⟨img, himg⟩ := @mksfs_ok _ _ old hsize hmax hname hlegal
  obtain ⟨name, bits, him⟩ := mksfs_spec himg
  obtain ⟨s, hmount, hm⟩ := domount_spec (by omega) him.magic him.nblocks him.room
  refine ⟨img, himg, s, hmount, hm.nbits, ?_, ?_, ?_⟩
  · intro b hb
    rw [hm.has him hb, decide_eq_true_eq, mem_initialBits]
    unfold SFS_SB_LOCATION SFS_ROOT_LOCATION SFS_MAP_LOCATION
    omega
  · rw [hm.blocks, him.inode, decode_rootInode]
    rfl
  · intro n
    have hfree := (hm.freeFrom hsize him).ballocs (bitblocks_lt hsize) n
    simpa [remaining] using hfree

theorem mksfs_mounts_empty_two_sizes : (∃ img, mksfs 3 [118, 58] (fun _ => zeros) = some img ∧
      ∃ s, domount 3 img = .ok (.ok s) ∧ EmptyVolume 3 s) ∧
    ∃ img, mksfs 4096 [] (fun _ => zeros) = some img ∧
      ∃ s, domount 4096 img = .ok (.ok s) ∧ EmptyVolume 4096 s :=
  ⟨mksfs_mounts_empty (by decide) (by decide) (by decide) (by decide) _,
    mksfs_mounts_empty (by decide) (by decide) (by decide) (by decide) _⟩

theorem mksfs_refuses_slash : [97, 47, 98].length ≤ SFS_VOLNAME_SIZE - 1 ∧
    mksfs 3 [97, 47, 98] (fun _ => zeros) = none := by
  decide

end Os161.Sfs
