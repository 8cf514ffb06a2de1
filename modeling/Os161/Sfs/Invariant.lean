import Os161.Sfs.Truncate
import Os161.Sfs.Directory

/-!
# What holds of a mounted volume

The freemap, the inodes in use, their blocks, the entries and the link counts, tied together.
-/

namespace Os161.Sfs

open Lib

abbrev SFS_MAGIC : Nat := 0xabadf001

def Sv.onDisk (fs : Fs) (ino : Nat) : Sv := ⟨ino, Inode.decode (fs.disk ino), false, 0⟩

def State.sv (s : State) (ino : Nat) : Sv := (lookup Sv.ino s.vnodes ino).getD (Sv.onDisk s.fs ino)

def State.file (s : State) (ino : Nat) : File := ⟨s.fs, s.sv ino⟩

def State.entries (s : State) : List Dirent := (s.file SFS_ROOT_LOCATION).dirents

def Linked (s : State) (ino : Nat) : Prop := ino ≠ SFS_NOINO ∧ 0 < links s.entries ino

def InUse (s : State) (ino : Nat) : Prop := ino = SFS_ROOT_LOCATION ∨ Linked s ino ∨ Loaded s ino

structure Good (own : Owner) (s : State) (ino : Nat) : Prop where
  blocks : FileOk own ino (s.file ino).blockAt (s.sv ino).inode.indirect
  type : (s.sv ino).inode.type = if ino = SFS_ROOT_LOCATION then SFS_TYPE_DIR else SFS_TYPE_FILE
  size : (s.sv ino).inode.size < 2 ^ 31
  clean : (s.sv ino).dirty = false → Inode.decode (s.fs.disk ino) = (s.sv ino).inode
  held : Loaded s ino → 0 < (s.sv ino).refcount

def MapSynced (fs : Fs) : Prop := ∀ j < SFS_BITBLOCKS fs.nblocks, ∀ x < 512,
    fs.disk (SFS_MAP_LOCATION + j) x = mapBlock fs.freemap j x

structure SuperOk (fs : Fs) : Prop where
  magic : wordAt (fs.disk SFS_SB_LOCATION) 0 = SFS_MAGIC
  nblocks : wordAt (fs.disk SFS_SB_LOCATION) 1 = fs.nblocks

/-- `own` says whose each block is. The link counts are off by `gap`, zero between operations. -/
structure Inv (size : Nat) (own : Owner) (gap : Nat → Int) (s : State) : Prop where
  size : s.fs.nblocks = size
  map : MapOk own s.fs
  nbits : s.fs.freemap.nbits = SFS_BITMAPSIZE s.fs.nblocks
  supers : ∀ b, own b = some .super ↔ b = SFS_SB_LOCATION
  maps : ∀ b, own b = some .map ↔
    SFS_MAP_LOCATION ≤ b ∧ b < SFS_MAP_LOCATION + SFS_BITBLOCKS s.fs.nblocks
  inodes : ∀ b i, own b = some (.inode i) ↔ b = i ∧ InUse s i
  owned : ∀ b i r, own b = some r → r.of i → InUse s i
  good : ∀ i, InUse s i → Good own s i
  counts : ∀ i, InUse s i → ((s.sv i).inode.linkcount : Int) =
    links s.entries i + (if i = SFS_ROOT_LOCATION then 1 else 0) + gap i
  dir : DirOk (s.file SFS_ROOT_LOCATION)
  vnodes : (s.vnodes.map Sv.ino).Nodup
  synced : s.fs.freemapdirty = false → MapSynced s.fs
  super : SuperOk s.fs
  superclean : s.superdirty = false

variable {own own' : Owner} {gap gap' : Nat → Int} {s s' : State} {fs : Fs} {f f' : File}
variable {size ino i j : Nat}

theorem loaded_iff : Loaded s ino ↔ (lookup Sv.ino s.vnodes ino).isSome := lookup_isSome.symm

theorem Loaded.lookup (h : Loaded s ino) : lookup Sv.ino s.vnodes ino = some (s.sv ino) := by
  obtain ⟨sv, hsv⟩ := Option.isSome_iff_exists.mp (loaded_iff.mp h)
  unfold State.sv
  rw [hsv]
  rfl

theorem Loaded.getVnode (h : Loaded s ino) : getVnode s ino = .ok (s.sv ino) := by
  unfold Sfs.getVnode
  rw [h.lookup]
  rfl

theorem sv_of_not_loaded (h : ¬ Loaded s ino) : s.sv ino = Sv.onDisk s.fs ino := by
  unfold State.sv
  rw [lookup_eq_none.mpr h]
  rfl

theorem sv_ino (s : State) (ino : Nat) : (s.sv ino).ino = ino := by
  by_cases h : Loaded s ino
  · exact lookup_key h.lookup
  · rw [sv_of_not_loaded h]
    rfl

theorem Loaded.inUse (h : Loaded s ino) : InUse s ino := .inr (.inr h)

theorem root_inUse (s : State) : InUse s SFS_ROOT_LOCATION := .inl rfl

section

variable (h : Inv size own gap s) (hi : InUse s ino)
include h hi

theorem Inv.inode : own ino = some (.inode ino) := (h.inodes ino ino).mpr ⟨rfl, hi⟩

theorem Inv.owns : Owns own (s.file ino) where
  map := h.map
  file := (sv_ino s ino).symm ▸ (h.good ino hi).blocks

theorem Inv.ne_zero : ino ≠ 0 := by
  rintro rfl
  have hrole := h.inode hi
  rw [h.map.super] at hrole
  cases hrole

end

theorem dirents_congr (hsize : f'.sv.inode.size = f.sv.inode.size) (hbytes : f'.byteAt = f.byteAt) :
    f'.dirents = f.dirents := by
  unfold File.dirents File.dirent
  rw [hsize, hbytes]

theorem DirOk.congr (h : DirOk f) (htype : f'.sv.inode.type = f.sv.inode.type)
    (hsize : f'.sv.inode.size = f.sv.inode.size) (hblocks : f'.blockAt = f.blockAt)
    (hbytes : f'.byteAt = f.byteAt) : DirOk f' where
  type := htype.trans h.type
  aligned := by
    rw [hsize]
    exact h.aligned
  size := by
    rw [hsize]
    exact h.size
  mapped k hk := by
    rw [hblocks]
    exact h.mapped k (hsize ▸ hk)
  names := by
    rw [dirents_congr hsize hbytes]
    exact h.names

theorem FileOk.same {ind : Nat} (h : FileOk own ino f.blockAt ind)
    (hind : f.sv.inode.indirect = ind)
    (hdirect : f'.sv.inode.direct = f.sv.inode.direct)
    (hindirect : f'.sv.inode.indirect = f.sv.inode.indirect)
    (hdisk : ∀ b r, own b = some r → r.of ino → f'.fs.disk b = f.fs.disk b) :
    f'.blockAt = f.blockAt ∧ f'.byteAt = f.byteAt := by
  subst hind
  have hblocks : f'.blockAt = f.blockAt := by
    apply blockAt_congr hdirect hindirect
    intro hi m _
    rw [hdisk _ _ (h.ind_ne hi) rfl]
  refine ⟨hblocks, byteAt_congr ?_⟩
  intro k
  refine .inl ⟨congrFun hblocks k, ?_⟩
  intro hk
  exact hdisk _ _ (h.data_ne hk) rfl

/-! ## Work on one inode -/

def Role.about (ino : Nat) (r : Role) : Prop := r = .inode ino ∨ r.of ino

structure Untouched (j : Nat) (own own' : Owner) (s s' : State) : Prop where
  role : ∀ b r, Role.about j r → (own' b = some r ↔ own b = some r)
  disk : ∀ b r, own b = some r → Role.about j r → s'.fs.disk b = s.fs.disk b
  vnode : lookup Sv.ino s'.vnodes j = lookup Sv.ino s.vnodes j

namespace Untouched

theorem loaded (hl : Untouched j own own' s s') : Loaded s' j ↔ Loaded s j := by
  rw [loaded_iff, loaded_iff, hl.vnode]

section

variable (hl : Untouched j own own' s s') (h : Inv size own gap s) (hu : InUse s j)
include hl h hu

theorem sv : s'.sv j = s.sv j := by
  unfold State.sv Sv.onDisk
  rw [hl.vnode, hl.disk j _ (h.inode hu) (.inl rfl)]

theorem file :
    (s'.file j).blockAt = (s.file j).blockAt ∧ (s'.file j).byteAt = (s.file j).byteAt := by
  have hsv := hl.sv h hu
  apply (h.good j hu).blocks.same rfl
  · exact congrArg (fun sv : Sv => sv.inode.direct) hsv
  · exact congrArg (fun sv : Sv => sv.inode.indirect) hsv
  · intro b r hb hr
    exact hl.disk b r hb (.inr hr)

theorem good : Good own' s' j := by
  have hgood := h.good j hu
  have hsv := hl.sv h hu
  constructor
  · rw [hsv, (hl.file h hu).1]
    exact ⟨fun k b hb => (hgood.blocks.data k b hb).trans (hl.role b (.data j k) (.inr rfl)).symm,
      fun b hb => (hgood.blocks.ind b hb).trans (hl.role b (.ind j) (.inr rfl)).symm⟩
  · rw [hsv]
    exact hgood.type
  · rw [hsv]
    exact hgood.size
  · rw [hsv, hl.disk j _ (h.inode hu) (.inl rfl)]
    exact hgood.clean
  · rw [hsv, hl.loaded]
    exact hgood.held

end

theorem entries (hl : Untouched SFS_ROOT_LOCATION own own' s s') (h : Inv size own gap s) :
    s'.entries = s.entries := by
  apply dirents_congr
  · exact congrArg (fun sv : Sv => sv.inode.size) (hl.sv h (root_inUse s))
  · exact (hl.file h (root_inUse s)).2

theorem dir (hl : Untouched SFS_ROOT_LOCATION own own' s s') (h : Inv size own gap s) :
    DirOk (s'.file SFS_ROOT_LOCATION) := by
  have hsv := hl.sv h (root_inUse s)
  have hfile := hl.file h (root_inUse s)
  apply h.dir.congr _ _ hfile.1 hfile.2
  · exact congrArg (fun sv : Sv => sv.inode.type) hsv
  · exact congrArg (fun sv : Sv => sv.inode.size) hsv

end Untouched

structure Local (i : Nat) (own own' : Owner) (s s' : State) : Prop where
  frame : Frame (Role.about i) own own' s.fs s'.fs
  map : MapOk own' s'.fs
  others : ∀ j, j ≠ i → lookup Sv.ino s'.vnodes j = lookup Sv.ino s.vnodes j
  vnodes : (s'.vnodes.map Sv.ino).Nodup
  superdirty : s'.superdirty = s.superdirty

theorem not_about {r : Role} (h : j ≠ i) (hr : Role.about j r) : ¬ Role.about i r := by
  rintro (rfl | hof)
  · obtain heq | hof := hr
    · exact h (Role.inode.inj heq).symm
    · exact hof
  · obtain rfl | hr := hr
    · exact hof
    · cases r with
      | super => exact hr
      | map => exact hr
      | inode _ => exact hr
      | ind _ => exact h (hr.symm.trans hof)
      | data _ _ => exact h (hr.symm.trans hof)

namespace Local

section

variable (hl : Local i own own' s s')
include hl

theorem untouched (hj : j ≠ i) : Untouched j own own' s s' where
  role b r hr := hl.frame.role b r (not_about hj hr)
  disk b r hb hr := hl.frame.disk b r hb (not_about hj hr)
  vnode := hl.others j hj

theorem synced (h : Inv size own gap s)
    (hclean : s'.fs.freemapdirty = false) : MapSynced s'.fs := by
  obtain hdirty | ⟨hmap, hdirty⟩ := hl.frame.dirty
  · rw [hdirty] at hclean
    cases hclean
  · have hsynced := h.synced (hdirty ▸ hclean)
    unfold MapSynced at hsynced ⊢
    rw [hmap, hl.frame.nblocks]
    intro j hj x hx
    have hrole : own (SFS_MAP_LOCATION + j) = some .map :=
      (h.maps _).mpr ⟨Nat.le_add_right .., Nat.add_lt_add_left hj _⟩
    rw [hl.frame.disk _ _ hrole (by simp [Role.about, Role.of]), hsynced j hj x hx]

theorem super (h : Inv size own gap s) : SuperOk s'.fs := by
  have hdisk := hl.frame.disk _ _ h.map.super (by simp [Role.about, Role.of])
  constructor
  · rw [hdisk]
    exact h.super.magic
  · rw [hdisk, hl.frame.nblocks]
    exact h.super.nblocks

theorem inv (h : Inv size own gap s)
    (hdir : DirOk (s'.file SFS_ROOT_LOCATION))
    (hlinks : ∀ j, j ≠ i → InUse s j →
      (links s'.entries j + gap' j : Int) = links s.entries j + gap j)
    (huse : ∀ j, j ≠ i → (InUse s' j ↔ InUse s j))
    (hinode : ∀ b, own' b = some (.inode i) ↔ b = i ∧ InUse s' i)
    (howned : ∀ b r, own' b = some r → r.of i → InUse s' i)
    (hgood : InUse s' i → Good own' s' i)
    (hcount : InUse s' i → ((s'.sv i).inode.linkcount : Int) =
      links s'.entries i + (if i = SFS_ROOT_LOCATION then 1 else 0) + gap' i) :
    Inv size own' gap' s' where
  size := hl.frame.nblocks.trans h.size
  map := hl.map
  nbits := by rw [hl.frame.nbits, hl.frame.nblocks, h.nbits]
  supers b := (hl.frame.role b _ (by simp [Role.about, Role.of])).trans (h.supers b)
  maps b := by
    rw [hl.frame.role b _ (by simp [Role.about, Role.of]), hl.frame.nblocks]
    exact h.maps b
  inodes b j := by
    by_cases hj : j = i
    · subst hj
      exact hinode b
    · rw [(hl.untouched hj).role b _ (.inl rfl), h.inodes, huse j hj]
  owned b j r hb hr := by
    by_cases hj : j = i
    · subst hj
      exact howned b r hb hr
    · rw [huse j hj]
      exact h.owned b j r (((hl.untouched hj).role b r (.inr hr)).mp hb) hr
  good j hu := by
    by_cases hj : j = i
    · subst hj
      exact hgood hu
    · exact (hl.untouched hj).good h ((huse j hj).mp hu)
  counts j hu := by
    by_cases hj : j = i
    · subst hj
      exact hcount hu
    · have hold := (huse j hj).mp hu
      rw [(hl.untouched hj).sv h hold, h.counts j hold]
      have hsame := hlinks j hj hold
      omega
  dir := hdir
  vnodes := hl.vnodes
  synced := hl.synced h
  super := hl.super h
  superclean := hl.superdirty.trans h.superclean

theorem inUse (hentries : s'.entries = s.entries) (hj : j ≠ i) : InUse s' j ↔ InUse s j := by
  unfold InUse Linked
  rw [(hl.untouched hj).loaded, hentries]

end

end Local

structure SameFile (f f' : File) : Prop where
  type : f'.sv.inode.type = f.sv.inode.type
  size : f'.sv.inode.size = f.sv.inode.size
  indirect : f'.sv.inode.indirect = f.sv.inode.indirect
  blocks : f'.blockAt = f.blockAt
  bytes : f'.byteAt = f.byteAt

theorem Local.same (hl : Local i own own' s s') (h : Inv size own gap s)
    (hsame : SameFile (s.file i) (s'.file i)) :
    DirOk (s'.file SFS_ROOT_LOCATION) ∧ s'.entries = s.entries := by
  by_cases hi : i = SFS_ROOT_LOCATION
  · subst hi
    exact ⟨h.dir.congr hsame.type hsame.size hsame.blocks hsame.bytes,
      dirents_congr hsame.size hsame.bytes⟩
  · have huntouched := hl.untouched (Ne.symm hi)
    exact ⟨huntouched.dir h, huntouched.entries h⟩

theorem Inv.keep (h : Inv size own gap s) (hl : Local i own own s s')
    (hsame : SameFile (s.file i) (s'.file i)) (hu : InUse s i)
    (hu' : s'.entries = s.entries → InUse s' i)
    (hclean : (s'.sv i).dirty = false → Inode.decode (s'.fs.disk i) = (s'.sv i).inode)
    (hheld : Loaded s' i → 0 < (s'.sv i).refcount) (hgap : ∀ j, j ≠ i → gap' j = gap j)
    (hcount : ((s'.sv i).inode.linkcount : Int) - gap' i = (s.sv i).inode.linkcount - gap i) :
    Inv size own gap' s' ∧ s'.entries = s.entries := by
  obtain ⟨hdir, hentries⟩ := hl.same h hsame
  have hgood := h.good i hu
  have hin := hu' hentries
  refine ⟨?_, hentries⟩
  apply hl.inv h hdir
  case huse => exact fun j hj => hl.inUse hentries hj
  case hlinks =>
    intro j hj _
    rw [hentries, hgap j hj]
  case hinode =>
    intro b
    rw [h.inodes]
    exact and_congr_right fun _ => iff_of_true hu hin
  case howned => exact fun _ _ _ _ => hin
  case hgood =>
    intro _
    refine ⟨?_, ?_, ?_, hclean, hheld⟩
    · rw [hsame.blocks]
      exact hsame.indirect ▸ hgood.blocks
    · exact hsame.type.trans hgood.type
    · exact hsame.size ▸ hgood.size
  case hcount =>
    intro _
    have hold := h.counts i hu
    rw [hentries]
    omega

end Os161.Sfs
