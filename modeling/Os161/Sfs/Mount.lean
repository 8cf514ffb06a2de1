import Os161.Sfs.Calls

/-!
# Making, mounting and unmounting a volume (`mksfs.c`, `sfs_fs.c`)

What `mksfs` writes mounts, and the invariant holds of it. The size of a device is an `off_t`, so
nothing wraps; a failed assert or `errx` is `none`.
-/

open Function List Option

namespace Os161.Sfs

open Lib

abbrev MAXBITBLOCKS : Nat := 32
abbrev SFS_VOLNAME_SIZE : Nat := 32

def diskwrite (size : Nat) (disk : Nat → Block) (data : Block) (block : Nat) :
    Option (Nat → Block) :=
  if block < size then some (update disk block data) else none

/-- A colon at its end is dropped; a colon elsewhere and a slash are refused. -/
def volumeName (volname : List UInt8) : Option (List UInt8) := let cut := volname.takeWhile (· ≠ 58)
  if cut.length + 1 < volname.length then none
  else if 47 ∈ cut then none
  else some cut

def superBlock (volname : List UInt8) (nblocks : Nat) : Block :=
  splice (ofWords fun k => if k = 0 then SFS_MAGIC else if k = 1 then nblocks else 0) 8 volname

def writesuper (size : Nat) (disk : Nat → Block) (volname : List UInt8) : Option (Nat → Block) :=
  if SFS_VOLNAME_SIZE ≤ volname.length then none
  else diskwrite size disk (superBlock volname size) SFS_SB_LOCATION

def rootInode : Inode := ⟨0, SFS_TYPE_DIR, 1, fun _ => 0, 0⟩

def writerootdir (size : Nat) (disk : Nat → Block) : Option (Nat → Block) :=
  diskwrite size disk rootInode.encode SFS_ROOT_LOCATION

def doallocbit (bitbuf : Bitmap) (bit : Nat) : Option Bitmap :=
  if bitbuf.isset bit = 0 then some (bitbuf.setBit bit) else none

def initialBits (fsblocks : Nat) : List Nat := SFS_SB_LOCATION :: SFS_ROOT_LOCATION ::
    ((List.range (SFS_BITBLOCKS fsblocks)).map (SFS_MAP_LOCATION + ·) ++
      List.range' fsblocks (SFS_BITMAPSIZE fsblocks - fsblocks))

def writebitmap (disk : Nat → Block) (fsblocks : Nat) : Option (Nat → Block) :=
  if MAXBITBLOCKS < SFS_BITBLOCKS fsblocks then none
  else do
    let bitbuf ← (initialBits fsblocks).foldlM doallocbit
      ⟨MAXBITBLOCKS * SFS_BLOCKBITS, fun _ => 0⟩
    (List.range (SFS_BITBLOCKS fsblocks)).foldlM
      (fun disk i => diskwrite fsblocks disk (mapBlock bitbuf i) (SFS_MAP_LOCATION + i)) disk

/-- What `mksfs` leaves on a device of `size` blocks that held `disk`. -/
def mksfs (size : Nat) (volname : List UInt8) (disk : Nat → Block) : Option (Nat → Block) := do
  let volname ← volumeName volname
  let disk ← writesuper size disk volname
  let disk ← writerootdir size disk
  writebitmap disk size

def mapioRead (fs : Fs) : K Bitmap := (List.range (SFS_BITBLOCKS fs.nblocks)).foldlM
    (fun freemap j => do
      let data ← rblock fs (SFS_MAP_LOCATION + j)
      pure { freemap with
        v := fun x => if x / SFS_BLOCKSIZE = j then data (x % SFS_BLOCKSIZE) else freemap.v x })
    (Bitmap.create (SFS_BITMAPSIZE fs.nblocks))

/-- Mounts a device of `size` blocks; the superblock may claim another number. -/
def domount (size : Nat) (disk : Nat → Block) : K (Except Errno State) := do
  let super ← rblock ⟨size, disk, Bitmap.create 0, false⟩ SFS_SB_LOCATION
  if wordAt super 0 ≠ SFS_MAGIC then pure (.error .EINVAL)
  else do
    let fs : Fs := ⟨wordAt super 1, disk, Bitmap.create 0, false⟩
    let freemap ← mapioRead fs
    pure (.ok
      { fs := { fs with freemap }
        vnodes := []
        super := update super (8 + (SFS_VOLNAME_SIZE - 1)) 0
        superdirty := false })

def unmount (s : State) : K (Except Errno (Nat → Block)) :=
  if s.vnodes ≠ [] then pure (.error .EBUSY)
  else if s.superdirty then throw .unsynced
  else if s.fs.freemapdirty then throw .unsynced
  else pure (.ok s.fs.disk)

def vfsUnmount (s : State) : K (Except Errno (Nat → Block)) := do
  let s ← sync s
  unmount s

variable {size b j : Nat} {volname : List UInt8} {disk img : Nat → Block} {m bits : Bitmap}
variable {s : State}

/-! ## The image -/

theorem bitmapsize_eq (n : Nat) : SFS_BITMAPSIZE n = SFS_BITBLOCKS n * 4096 := by
  unfold SFS_BITBLOCKS SFS_BITMAPSIZE SFS_BLOCKBITS SFS_BLOCKSIZE
  omega

theorem le_bitmapsize (n : Nat) : n ≤ SFS_BITMAPSIZE n := by
  unfold SFS_BITMAPSIZE SFS_BLOCKBITS SFS_BLOCKSIZE
  omega

theorem diskwrite_eq {data : Block} {block : Nat}
    (h : diskwrite size disk data block = some img) :
    block < size ∧ img = update disk block data := by
  unfold diskwrite at h
  split at h
  · exact ⟨‹_›, (some.inj h).symm⟩
  · cases h

theorem doallocbits_spec {bits : List Nat} {m' : Bitmap} (h : bits.foldlM doallocbit m = some m') :
    m'.nbits = m.nbits ∧ ∀ b, m'.has b = (decide (b ∈ bits) || m.has b) := by
  induction bits generalizing m with
  | nil =>
    obtain rfl := some.inj h
    exact ⟨rfl, fun b => by simp⟩
  | cons bit bits ih =>
    rw [foldlM_cons] at h
    unfold doallocbit at h
    split at h
    · obtain ⟨hn, hhas⟩ := ih h
      refine ⟨hn, ?_⟩
      intro b
      rw [hhas, Bitmap.has_setBit]
      by_cases hb : b = bit
      · simp [hb]
      · simp [hb]
    · cases h

structure Image (size : Nat) (volname : List UInt8) (img : Nat → Block) (bits : Bitmap) : Prop where
  room : ∀ j < SFS_BITBLOCKS size, SFS_MAP_LOCATION + j < size
  root : SFS_ROOT_LOCATION < size
  fits : SFS_BITBLOCKS size ≤ MAXBITBLOCKS
  super : img SFS_SB_LOCATION = superBlock volname size
  inode : img SFS_ROOT_LOCATION = rootInode.encode
  map : ∀ j < SFS_BITBLOCKS size, img (SFS_MAP_LOCATION + j) = mapBlock bits j
  bits : ∀ b, bits.has b = decide (b ∈ initialBits size)

theorem writeblocks_spec {l : List Nat}
    (h : l.foldlM (fun disk i => diskwrite size disk (mapBlock bits i) (SFS_MAP_LOCATION + i)) disk =
      some img) :
    (∀ j ∈ l, SFS_MAP_LOCATION + j < size ∧ img (SFS_MAP_LOCATION + j) = mapBlock bits j) ∧
      ∀ b, (∀ j ∈ l, b ≠ SFS_MAP_LOCATION + j) → img b = disk b := by
  induction l generalizing disk with
  | nil =>
    obtain rfl := some.inj h
    exact ⟨nofun, fun _ _ => rfl⟩
  | cons i l ih =>
    obtain ⟨disk', hwrite, hrest⟩ := bind_eq_some_iff.mp h
    obtain ⟨hlt, rfl⟩ := diskwrite_eq hwrite
    obtain ⟨hin, hout⟩ := ih hrest
    refine ⟨?_, ?_⟩
    · intro j hj
      by_cases hmem : j ∈ l
      · exact hin j hmem
      · obtain rfl : j = i := (mem_cons.mp hj).resolve_right hmem
        rw [hout _ fun m hm heq => hmem ((add_left_cancel heq : j = m) ▸ hm), update_self]
        exact ⟨hlt, rfl⟩
    · intro b hb
      rw [hout b fun j hj => hb j (mem_cons_of_mem _ hj), update_of_ne (hb i mem_cons_self)]

theorem mksfs_spec (h : mksfs size volname disk = some img) :
    ∃ name bits, Image size name img bits := by
  obtain ⟨name, -, h⟩ := bind_eq_some_iff.mp h
  obtain ⟨disk₁, hsuper, h⟩ := bind_eq_some_iff.mp h
  obtain ⟨disk₂, hroot, h⟩ := bind_eq_some_iff.mp h
  unfold writesuper at hsuper
  split at hsuper
  · cases hsuper
  obtain ⟨-, rfl⟩ := diskwrite_eq hsuper
  obtain ⟨hlt, rfl⟩ := diskwrite_eq hroot
  unfold writebitmap at h
  split at h
  · cases h
  rename_i hfits
  obtain ⟨bits, halloc, h⟩ := bind_eq_some_iff.mp h
  obtain ⟨hin, hout⟩ := writeblocks_spec h
  obtain ⟨-, hbits⟩ := doallocbits_spec halloc
  refine ⟨name, bits, ?_, hlt, not_lt.mp hfits, ?_, ?_, ?_, ?_⟩
  · exact fun j hj => (hin j (mem_range.mpr hj)).1
  · rw [hout _ (by intro j _; unfold SFS_SB_LOCATION SFS_MAP_LOCATION; omega)]
    rfl
  · rw [hout _ (by intro j _; unfold SFS_ROOT_LOCATION SFS_MAP_LOCATION; omega), update_self]
  · exact fun j hj => (hin j (mem_range.mpr hj)).2
  · intro b
    rw [hbits]
    have hzero : Bitmap.has ⟨MAXBITBLOCKS * SFS_BLOCKBITS, fun _ => 0⟩ b = false := by
      unfold Bitmap.has Bitmap.isset
      simp
    rw [hzero, Bool.or_false]

section

variable (h : Image size volname img bits)
include h

theorem Image.word {k : Nat} (hk : k < 2) : wordAt (img SFS_SB_LOCATION) k =
      if k = 0 then SFS_MAGIC else if k = 1 then size else 0 := by
  have heq := bitmapsize_eq size
  have hle := le_bitmapsize size
  have hfits := h.fits
  unfold MAXBITBLOCKS at hfits
  rw [h.super,
    ← wordAt_ofWords (w := fun k => if k = 0 then SFS_MAGIC else if k = 1 then size else 0)]
  · apply wordAt_congr
    intro x hx
    unfold superBlock splice
    rw [if_neg (by omega)]
  · split
    · decide
    · split <;> omega

theorem Image.magic : wordAt (img SFS_SB_LOCATION) 0 = SFS_MAGIC := h.word (by decide)

theorem Image.nblocks : wordAt (img SFS_SB_LOCATION) 1 = size := h.word (by decide)

end

structure Mounted (size : Nat) (disk : Nat → Block) (s : State) : Prop where
  blocks : s.fs.disk = disk
  nblocks : s.fs.nblocks = size
  nbits : s.fs.freemap.nbits = SFS_BITMAPSIZE size
  map : ∀ j < SFS_BITBLOCKS size, ∀ x < 512,
    mapBlock s.fs.freemap j x = disk (SFS_MAP_LOCATION + j) x
  clean : s.fs.freemapdirty = false
  superclean : s.superdirty = false
  vnodes : s.vnodes = []

theorem mapioRead_spec {fs : Fs} {l : List Nat}
    (hl : ∀ j ∈ l, SFS_MAP_LOCATION + j < fs.nblocks) :
    ∃ m', l.foldlM (fun freemap j => do
        let data ← rblock fs (SFS_MAP_LOCATION + j)
        pure { freemap with
          v := fun x => if x / SFS_BLOCKSIZE = j then data (x % SFS_BLOCKSIZE) else freemap.v x }) m =
        .ok m' ∧ m'.nbits = m.nbits ∧ ∀ x, m'.v x =
          if x / 512 ∈ l then fs.disk (SFS_MAP_LOCATION + x / 512) (x % 512) else m.v x := by
  induction l generalizing m with
  | nil => exact ⟨m, rfl, rfl, fun x => by simp⟩
  | cons i l ih =>
    obtain ⟨m', hrest, hn, hv⟩ := @ih { m with
      v := fun x => if x / SFS_BLOCKSIZE = i then fs.disk (SFS_MAP_LOCATION + i) (x % SFS_BLOCKSIZE)
        else m.v x } fun j hj => hl j (mem_cons_of_mem _ hj)
    refine ⟨m', ?_, hn, ?_⟩
    · rw [foldlM_cons, rblock, if_pos (hl i mem_cons_self)]
      exact hrest
    · intro x
      rw [hv]
      by_cases hmem : x / 512 ∈ l
      · simp [hmem]
      · by_cases hi : x / 512 = i
        · subst hi
          simp [hmem, SFS_BLOCKSIZE]
        · simp [hmem, hi, SFS_BLOCKSIZE]

theorem domount_spec (hsize : 0 < size) (hmagic : wordAt (disk SFS_SB_LOCATION) 0 = SFS_MAGIC)
    (hnblocks : wordAt (disk SFS_SB_LOCATION) 1 = size)
    (hroom : ∀ j < SFS_BITBLOCKS size, SFS_MAP_LOCATION + j < size) :
    ∃ s, domount size disk = .ok (.ok s) ∧ Mounted size disk s := by
  have hfit : ∀ j ∈ List.range (SFS_BITBLOCKS size),
      SFS_MAP_LOCATION + j < (⟨size, disk, Bitmap.create 0, false⟩ : Fs).nblocks :=
    fun j hj => hroom j (mem_range.mp hj)
  obtain ⟨m, hread, hn, hv⟩ := mapioRead_spec (m := Bitmap.create (SFS_BITMAPSIZE size)) hfit
  have hmap : mapioRead ⟨size, disk, Bitmap.create 0, false⟩ = .ok m := hread
  refine ⟨⟨⟨size, disk, m, false⟩, [], update (disk SFS_SB_LOCATION) (8 + 31) 0, false⟩, ?_,
    rfl, rfl, ?_, ?_, rfl, rfl, rfl⟩
  · have hsuper : rblock ⟨size, disk, Bitmap.create 0, false⟩ SFS_SB_LOCATION =
        .ok (disk SFS_SB_LOCATION) := if_pos hsize
    unfold domount
    rw [hsuper, ok_bind, if_neg (not_not_intro hmagic), hnblocks]
    change (mapioRead ⟨size, disk, Bitmap.create 0, false⟩ >>= _) = _
    rw [hmap]
    rfl
  · rw [hn]
    unfold Bitmap.create
    dsimp only
    split <;> rfl
  · intro j hj x hx
    have hdiv : (j * 512 + x) / 512 = j := by omega
    have hmod : (j * 512 + x) % 512 = x := by omega
    change m.v (j * 512 + x) = _
    rw [hv, hdiv, hmod, if_pos (mem_range.mpr hj)]

/-! ## The start -/

theorem has_congr {m' : Bitmap} {n : Nat}
    (h : ∀ j < n, ∀ x < 512, mapBlock m j x = mapBlock m' j x) (hb : b < n * 4096) :
    m.has b = m'.has b := by
  have hv := h (b / 4096) (by omega) (b / 8 % 512) (by omega)
  have hix : b / 4096 * 512 + b / 8 % 512 = b / 8 := by omega
  unfold mapBlock SFS_BLOCKSIZE at hv
  rw [hix] at hv
  rw [Bitmap.has_eq, Bitmap.has_eq, hv]

theorem mem_initialBits : b ∈ initialBits size ↔ b = 0 ∨ b = 1 ∨
    (2 ≤ b ∧ b < 2 + SFS_BITBLOCKS size) ∨ (size ≤ b ∧ b < SFS_BITMAPSIZE size) := by
  unfold initialBits
  simp only [List.mem_cons, List.mem_append, List.mem_map, List.mem_range, List.mem_range'_1]
  constructor
  · rintro (h | h | ⟨j, hj, rfl⟩ | h)
    · exact .inl h
    · exact .inr (.inl h)
    · exact .inr (.inr (.inl ⟨Nat.le_add_right .., Nat.add_lt_add_left hj _⟩))
    · exact .inr (.inr (.inr ⟨h.1, by omega⟩))
  · rintro (h | h | ⟨h, h'⟩ | h)
    · exact .inl h
    · exact .inr (.inl h)
    · exact .inr (.inr (.inl ⟨b - 2, by omega, by unfold SFS_MAP_LOCATION; omega⟩))
    · exact .inr (.inr (.inr ⟨h.1, by omega⟩))

def initialOwner (size : Nat) : Owner := fun b =>
  if b = 0 then some .super
  else if b = 1 then some (.inode 1)
  else if 2 ≤ b ∧ b < 2 + SFS_BITBLOCKS size then some .map
  else none

theorem initialOwner_eq_some {r : Role} : initialOwner size b = some r ↔
    (b = 0 ∧ r = .super) ∨ (b = 1 ∧ r = .inode 1) ∨
      ((2 ≤ b ∧ b < 2 + SFS_BITBLOCKS size) ∧ r = .map) := by
  unfold initialOwner
  split_ifs with h0 h1 h2
  · simp [h0, eq_comm]
  · simp [h1, eq_comm]
  · simp [h0, h1, h2, eq_comm]
  · simp [h0, h1, h2]

theorem initialOwner_isSome : (initialOwner size b).isSome ↔
    b = 0 ∨ b = 1 ∨ (2 ≤ b ∧ b < 2 + SFS_BITBLOCKS size) := by
  simp [isSome_iff_exists, initialOwner_eq_some, exists_or]

theorem decode_rootInode : Inode.decode rootInode.encode = rootInode :=
  Inode.decode_encode (by decide) (by decide) (by decide) (by decide) (by decide)

theorem Mounted.sv (hm : Mounted size disk s) (ino : Nat) :
    s.sv ino = ⟨ino, Inode.decode (disk ino), false, 0⟩ := by
  have hgone : ¬ Loaded s ino := by
    unfold Loaded
    rw [hm.vnodes]
    simp
  rw [sv_of_not_loaded hgone, Sv.onDisk, hm.blocks]

theorem Mounted.has (hm : Mounted size img s) (him : Image size volname img bits)
    (hb : b < SFS_BITMAPSIZE size) : s.fs.freemap.has b = decide (b ∈ initialBits size) := by
  rw [← him.bits]
  apply has_congr (n := SFS_BITBLOCKS size)
  · intro j hj x hx
    rw [hm.map j hj x hx, him.map j hj]
  · rwa [← bitmapsize_eq]

section

variable (him : Image size volname img bits) (hm : Mounted size img s)
include him hm

theorem start_map : MapOk (initialOwner size) s.fs := by
  have hsize := le_bitmapsize size
  have heq := bitmapsize_eq size
  have hfits := him.fits
  have hhas : ∀ b < SFS_BITMAPSIZE size, s.fs.freemap.has b = decide (b ∈ initialBits size) :=
    fun _ hb => hm.has him hb
  constructor
  case used =>
    intro b hb
    rw [hm.nblocks] at hb
    rw [hhas b (by omega), Bool.eq_iff_iff, decide_eq_true_eq, initialOwner_isSome, mem_initialBits]
    omega
  case high =>
    intro b hb hlt
    rw [hm.nblocks] at hb
    rw [hm.nbits] at hlt
    rw [hhas b hlt, decide_eq_true_eq, mem_initialBits]
    exact .inr (.inr (.inr ⟨hb, hlt⟩))
  case padded =>
    intro i hi hlt
    unfold Bitmap.words Bitmap.BITS_PER_WORD at hlt
    rw [hm.nbits] at hi hlt
    omega
  case range =>
    intro b hb
    rw [hm.nblocks] at hb
    rw [← not_isSome_iff_eq_none, initialOwner_isSome]
    have hroot := him.root
    have hroom := him.room (b - 2)
    unfold SFS_MAP_LOCATION at hroom
    omega
  case size =>
    rw [hm.nblocks, hm.nbits]
    exact hsize
  case fits =>
    rw [hm.nblocks]
    unfold MAXBITBLOCKS at hfits
    omega
  case super => rfl

theorem Mounted.root : s.sv SFS_ROOT_LOCATION = ⟨SFS_ROOT_LOCATION, rootInode, false, 0⟩ := by
  rw [hm.sv, him.inode, decode_rootInode]

theorem Mounted.entries : s.entries = [] := by
  change (List.range ((s.sv SFS_ROOT_LOCATION).inode.size / 64)).map _ = []
  rw [hm.root him]
  rfl

end

theorem initialOwner_ne {i : Nat} {r : Role} (hr : r.of i) : initialOwner size b ≠ some r := by
  rw [Ne, initialOwner_eq_some]
  rintro (⟨-, rfl⟩ | ⟨-, rfl⟩ | ⟨-, rfl⟩)
  · exact hr
  · exact hr
  · exact hr

section

variable (him : Image size volname img bits) (hm : Mounted size img s)
include him hm

theorem Mounted.inUse_iff {i : Nat} : InUse s i ↔ i = SFS_ROOT_LOCATION := by
  unfold InUse Linked Loaded
  rw [hm.entries him, hm.vnodes]
  simp [links]

theorem start_good : Good (initialOwner size) s SFS_ROOT_LOCATION := by
  have hsv := hm.root him
  have hempty : Empty (s.file SFS_ROOT_LOCATION).sv.inode := by
    change Empty (s.sv SFS_ROOT_LOCATION).inode
    rw [hsv]
    exact ⟨rfl, rfl⟩
  constructor
  · exact .of_zero hempty.blockAt hempty.2 fun _ _ hr => initialOwner_ne hr
  · rw [hsv]
    rfl
  · rw [hsv]
    exact Nat.two_pow_pos 31
  · intro _
    rw [hm.blocks, hsv, him.inode, decode_rootInode]
  · intro hloaded
    unfold Loaded at hloaded
    rw [hm.vnodes] at hloaded
    cases hloaded

theorem start_dir : DirOk (s.file SFS_ROOT_LOCATION) := by
  have hsv := hm.root him
  constructor
  · constructor
    · change (s.sv SFS_ROOT_LOCATION).inode.type = _
      rw [hsv]
      rfl
    · change (s.sv SFS_ROOT_LOCATION).inode.size % 64 = 0
      rw [hsv]
      rfl
    · change (s.sv SFS_ROOT_LOCATION).inode.size ≤ 143 * 512
      rw [hsv]
      exact Nat.zero_le _
    · intro k hk
      change 512 * k < (s.sv SFS_ROOT_LOCATION).inode.size at hk
      rw [hsv] at hk
      cases hk
  · change DistinctNames s.entries
    rw [hm.entries him]
    intro i j d e hd
    cases hd

theorem start_inv : Inv size (initialOwner size) 0 s := by
  constructor
  case size => exact hm.nblocks
  case map => exact start_map him hm
  case nbits => rw [hm.nbits, hm.nblocks]
  case supers =>
    intro b
    simp [initialOwner_eq_some]
  case maps =>
    intro b
    rw [hm.nblocks]
    simp [initialOwner_eq_some, SFS_MAP_LOCATION]
  case inodes =>
    intro b i
    rw [hm.inUse_iff him, initialOwner_eq_some]
    simp only [reduceCtorEq, and_false, false_or, or_false, Role.inode.injEq, SFS_ROOT_LOCATION]
    omega
  case owned => exact fun b i r hb hr => absurd hb (initialOwner_ne hr)
  case good =>
    intro i hu
    obtain rfl := (hm.inUse_iff him).mp hu
    exact start_good him hm
  case counts =>
    intro i hu
    obtain rfl := (hm.inUse_iff him).mp hu
    rw [hm.root him, hm.entries him]
    rfl
  case dir => exact start_dir him hm
  case vnodes =>
    rw [hm.vnodes]
    exact nodup_nil
  case synced =>
    intro _ j hj x hx
    rw [hm.nblocks] at hj
    rw [hm.map j hj x hx, hm.blocks]
  case super =>
    constructor
    · rw [hm.blocks]
      exact him.magic
    · rw [hm.blocks, hm.nblocks]
      exact him.nblocks
  case superclean => exact hm.superclean

end

theorem run_mksfs {old : Nat → Block} (h : mksfs size volname old = some img) :
    ∃ s₀, domount size img = .ok (.ok s₀) ∧ ∀ ops,
      run s₀ ops = .error .notFile ∨ ∃ own s, run s₀ ops = .ok s ∧ Inv size own 0 s := by
  obtain ⟨name, bits, him⟩ := mksfs_spec h
  have hpos : 0 < size := Nat.zero_lt_of_lt him.root
  obtain ⟨s₀, hmount, hm⟩ := domount_spec hpos him.magic him.nblocks him.room
  exact ⟨s₀, hmount, run_spec (start_inv him hm)⟩

end Os161.Sfs
