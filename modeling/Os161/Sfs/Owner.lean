import Os161.Sfs.Spec

/-!
# Who owns which block

A function from blocks to roles, with which the freemap and the block tables agree.
-/

open Function Option

namespace Os161.Sfs

open Lib

inductive Role where
  | super
  | map
  | inode (ino : Nat)
  | ind (ino : Nat)
  | data (ino k : Nat)
  deriving DecidableEq

abbrev Owner := Nat → Option Role

def Role.of (ino : Nat) : Role → Prop
  | .ind i => i = ino
  | .data i _ => i = ino
  | _ => False

/-- The freemap marks just the blocks that have a role. -/
structure MapOk (own : Owner) (fs : Fs) : Prop where
  used : ∀ b < fs.nblocks, fs.freemap.has b = (own b).isSome
  high : ∀ b, fs.nblocks ≤ b → b < fs.freemap.nbits → fs.freemap.has b = true
  padded : fs.freemap.Padded
  range : ∀ b, fs.nblocks ≤ b → own b = none
  size : fs.nblocks ≤ fs.freemap.nbits
  fits : fs.nblocks < 2 ^ 32
  super : own 0 = some .super

/-- `tbl` and `ind` name just the blocks that have a role in the file. -/
structure FileOk (own : Owner) (ino : Nat) (tbl : Nat → Nat) (ind : Nat) : Prop where
  data : ∀ k b, b ≠ 0 → (tbl k = b ↔ own b = some (.data ino k))
  ind : ∀ b, b ≠ 0 → (ind = b ↔ own b = some (.ind ino))

/-- Roles outside `R` are as before; a freemap that changed is dirty. -/
structure Frame (R : Role → Prop) (own own' : Owner) (fs fs' : Fs) : Prop where
  role : ∀ b r, ¬ R r → (own' b = some r ↔ own b = some r)
  disk : ∀ b r, own b = some r → ¬ R r → fs'.disk b = fs.disk b
  nblocks : fs'.nblocks = fs.nblocks
  nbits : fs'.freemap.nbits = fs.freemap.nbits
  dirty : fs'.freemapdirty = true ∨ fs'.freemap = fs.freemap ∧ fs'.freemapdirty = fs.freemapdirty

variable {own own' own'' : Owner} {fs fs' fs'' : Fs} {ino b k : Nat} {r : Role} {data : Block}
variable {tbl : Nat → Nat} {ind : Nat} {R R' : Role → Prop}

theorem FileOk.of_zero (htbl : ∀ k, tbl k = 0) (hind : ind = 0)
    (hno : ∀ b r, r.of ino → own b ≠ some r) : FileOk own ino tbl ind where
  data k b hb := by
    rw [htbl]
    exact iff_of_false hb.symm (hno b _ rfl)
  ind b hb := by
    rw [hind]
    exact iff_of_false hb.symm (hno b _ rfl)

theorem FileOk.ne_of_zero (h : FileOk own ino tbl ind) (htbl : ∀ k, tbl k = 0) (hind : ind = 0)
    (hb : b ≠ 0) (hr : r.of ino) : own b ≠ some r := by
  intro hown
  cases r with
  | super => exact hr
  | map => exact hr
  | inode _ => exact hr
  | ind _ =>
    obtain rfl : _ = ino := hr
    exact hb (((h.ind b hb).mpr hown).symm.trans hind)
  | data _ k =>
    obtain rfl : _ = ino := hr
    exact hb (((h.data k b hb).mpr hown).symm.trans (htbl k))

namespace Frame

theorem refl (R : Role → Prop) (own : Owner) (fs : Fs) : Frame R own own fs fs where
  role _ _ _ := Iff.rfl
  disk _ _ _ _ := rfl
  nblocks := rfl
  nbits := rfl
  dirty := .inr ⟨rfl, rfl⟩

theorem trans (h : Frame R own own' fs fs') (h' : Frame R own' own'' fs' fs'') :
    Frame R own own'' fs fs'' where
  role b r hr := (h'.role b r hr).trans (h.role b r hr)
  disk b r hb hr := (h'.disk b r ((h.role b r hr).mpr hb) hr).trans (h.disk b r hb hr)
  nblocks := h'.nblocks.trans h.nblocks
  nbits := h'.nbits.trans h.nbits
  dirty := by
    obtain hd | ⟨hmap, hd⟩ := h'.dirty
    · exact .inl hd
    · rw [hmap, hd]
      exact h.dirty

theorem mono (h : Frame R own own' fs fs') (hsub : ∀ r, R r → R' r) : Frame R' own own' fs fs' where
  role b r hr := h.role b r fun hR => hr (hsub r hR)
  disk b r hb hr := h.disk b r hb fun hR => hr (hsub r hR)
  nblocks := h.nblocks
  nbits := h.nbits
  dirty := h.dirty

end Frame

/-! ## The three things that happen to a block -/

def Fs.take (fs : Fs) (b : Nat) : Fs :=
  { fs with disk := update fs.disk b zeros, freemap := fs.freemap.setBit b, freemapdirty := true }

def Fs.release (fs : Fs) (b : Nat) : Fs :=
  { fs with freemap := fs.freemap.clearBit b, freemapdirty := true }

def Fs.store (fs : Fs) (b : Nat) (data : Block) : Fs := { fs with disk := update fs.disk b data }

theorem take_disk_self : (fs.take b).disk b = zeros := update_self ..

/-- No block is free. -/
def Fs.Full (fs : Fs) : Prop := ∀ b < fs.nblocks, fs.freemap.has b = true

theorem take_disk_of_ne {c : Nat} (h : c ≠ b) : (fs.take b).disk c = fs.disk c := update_of_ne h ..

theorem store_disk_self : (fs.store b data).disk b = data := update_self ..

theorem store_disk_of_ne {c : Nat} (h : c ≠ b) : (fs.store b data).disk c = fs.disk c :=
  update_of_ne h ..

namespace MapOk

section

variable (h : MapOk own fs)
include h

theorem lt (hb : own b = some r) : b < fs.nblocks := by
  by_contra hge
  rw [h.range b (not_lt.mp hge)] at hb
  cases hb

theorem has (hb : own b = some r) : fs.freemap.has b = true := by
  rw [h.used b (h.lt hb), hb]
  rfl

theorem rblock (hb : own b = some r) : rblock fs b = .ok (fs.disk b) := if_pos (h.lt hb)

theorem wblock (hb : own b = some r) (data : Block) : wblock fs b data = .ok (fs.store b data) :=
  if_pos (h.lt hb)

theorem bused (hb : own b = some r) : bused fs b = .ok true := by
  unfold Sfs.bused
  rw [if_neg (not_le.mpr (h.lt hb)), h.has hb]
  rfl

theorem store : MapOk own (fs.store b data) where
  used := h.used
  high := h.high
  padded := h.padded
  range := h.range
  size := h.size
  fits := h.fits
  super := h.super

theorem balloc : (balloc fs = .ok (fs, .error .ENOSPC) ∧ fs.Full) ∨
      ∃ b < fs.nblocks, b ≠ 0 ∧ own b = none ∧ balloc fs = .ok (fs.take b, .ok b) := by
  unfold Sfs.balloc
  obtain ⟨hfull, hall⟩ | ⟨b, hb, halloc, hclear, -⟩ := Bitmap.alloc_spec h.padded
  · left
    rw [hfull]
    exact ⟨rfl, fun b hb => hall b (lt_of_lt_of_le hb h.size)⟩
  · right
    have hlt : b < fs.nblocks := by
      by_contra hge
      rw [h.high b (not_lt.mp hge) hb] at hclear
      cases hclear
    have hfree : own b = none := by
      rw [h.used b hlt, Option.isSome_eq_false_iff, Option.isNone_iff_eq_none] at hclear
      exact hclear
    have hne : b ≠ 0 := by
      rintro rfl
      rw [h.super] at hfree
      cases hfree
    refine ⟨b, hlt, hne, hfree, ?_⟩
    simp only [halloc, if_neg (not_le.mpr hlt), Sfs.wblock, if_pos hlt]
    rfl

theorem bfree (hb : own b = some r) : bfree fs b = .ok (fs.release b) := by
  unfold Sfs.bfree
  rw [Bitmap.unmark_of_has (lt_of_lt_of_le (h.lt hb) h.size) (h.has hb)]
  rfl

theorem take (hlt : b < fs.nblocks) (hne : b ≠ 0) : MapOk (update own b (some r)) (fs.take b) where
  used c hc := by
    change (fs.freemap.setBit b).has c = _
    rw [Bitmap.has_setBit]
    by_cases e : c = b
    · subst e
      rw [if_pos rfl, update_self]
      rfl
    · rw [if_neg e, update_of_ne e, h.used c hc]
  high c hc hn := by
    change (fs.freemap.setBit b).has c = true
    rw [Bitmap.has_setBit, h.high c hc hn, ite_self]
  padded := Bitmap.padded_setBit h.padded b
  range c hc := by
    rw [update_of_ne (ne_of_gt (lt_of_lt_of_le hlt hc))]
    exact h.range c hc
  size := h.size
  fits := h.fits
  super := by rw [update_of_ne hne.symm, h.super]

theorem release (hb : own b = some r) (hr : r ≠ .super) :
    MapOk (update own b none) (fs.release b) where
  used c hc := by
    change (fs.freemap.clearBit b).has c = _
    rw [Bitmap.has_clearBit]
    by_cases e : c = b
    · subst e
      rw [if_pos rfl, update_self]
      rfl
    · rw [if_neg e, update_of_ne e, h.used c hc]
  high c hc hn := by
    change (fs.freemap.clearBit b).has c = true
    rw [Bitmap.has_clearBit, if_neg (ne_of_gt (lt_of_lt_of_le (h.lt hb) hc))]
    exact h.high c hc hn
  padded := Bitmap.padded_clearBit h.padded (lt_of_lt_of_le (h.lt hb) h.size)
  range c hc := by
    rw [update_of_ne (ne_of_gt (lt_of_lt_of_le (h.lt hb) hc))]
    exact h.range c hc
  size := h.size
  fits := h.fits
  super := by
    rw [update_of_ne, h.super]
    rintro rfl
    exact hr (some.inj (hb.symm.trans h.super))

end

end MapOk

namespace Frame

theorem take (hb : own b = none) (hr : R r) :
    Frame R own (update own b (some r)) fs (fs.take b) where
  role c q hq := by
    by_cases e : c = b
    · subst e
      rw [update_self, hb]
      constructor
      · rintro ⟨⟩
        exact absurd hr hq
      · rintro ⟨⟩
    · rw [update_of_ne e]
  disk c q hc _ := by
    apply take_disk_of_ne
    rintro rfl
    rw [hb] at hc
    cases hc
  nblocks := rfl
  nbits := rfl
  dirty := .inl rfl

theorem release (hb : own b = some r) (hr : R r) :
    Frame R own (update own b none) fs (fs.release b) where
  role c q hq := by
    by_cases e : c = b
    · subst e
      rw [update_self, hb]
      constructor
      · rintro ⟨⟩
      · rintro ⟨⟩
        exact absurd hr hq
    · rw [update_of_ne e]
  disk _ _ _ _ := rfl
  nblocks := rfl
  nbits := rfl
  dirty := .inl rfl

theorem store (hb : own b = some r) (hr : R r) : Frame R own own fs (fs.store b data) where
  role _ _ _ := Iff.rfl
  disk c q hc hq := by
    apply store_disk_of_ne
    rintro rfl
    obtain rfl : r = q := some.inj (hb.symm.trans hc)
    exact hq hr
  nblocks := rfl
  nbits := rfl
  dirty := .inr ⟨rfl, rfl⟩

end Frame

namespace FileOk

section

variable (h : FileOk own ino tbl ind)
include h

theorem data_ne (hk : tbl k ≠ 0) : own (tbl k) = some (.data ino k) := (h.data k _ hk).mp rfl

theorem ind_ne (hi : ind ≠ 0) : own ind = some (.ind ino) := (h.ind _ hi).mp rfl

theorem set (hb : own b = none) (hk : tbl k = 0) :
    FileOk (update own b (some (.data ino k))) ino (update tbl k b) ind where
  data j c hc := by
    by_cases ej : j = k
    · subst ej
      rw [update_self]
      by_cases ec : c = b
      · subst ec
        rw [update_self]
        exact iff_of_true rfl rfl
      · rw [update_of_ne ec, ← h.data j c hc, hk]
        exact iff_of_false (Ne.symm ec) (Ne.symm hc)
    · rw [update_of_ne ej, h.data j c hc]
      by_cases ec : c = b
      · subst ec
        rw [update_self, hb]
        simp [Ne.symm ej]
      · rw [update_of_ne ec]
  ind c hc := by
    rw [h.ind c hc]
    by_cases ec : c = b
    · subst ec
      rw [update_self, hb]
      simp
    · rw [update_of_ne ec]

theorem clear (hk : tbl k ≠ 0) : FileOk (update own (tbl k) none) ino (update tbl k 0) ind where
  data j c hc := by
    by_cases ec : c = tbl k
    · subst ec
      refine iff_of_false ?_ (by simp)
      by_cases ej : j = k
      · rw [ej, update_self]
        exact hc.symm
      · rw [update_of_ne ej]
        intro heq
        have hrole := (h.data j _ hc).mp heq
        rw [h.data_ne hk] at hrole
        exact ej (Role.data.inj (some.inj hrole)).2.symm
    · rw [update_of_ne ec, ← h.data j c hc]
      by_cases ej : j = k
      · subst ej
        rw [update_self]
        exact iff_of_false hc.symm (Ne.symm ec)
      · rw [update_of_ne ej]
  ind c hc := by
    rw [h.ind c hc]
    by_cases ec : c = tbl k
    · subst ec
      rw [update_self, h.data_ne hk]
      simp
    · rw [update_of_ne ec]

end

theorem setInd (h : FileOk own ino tbl 0) (hb : own b = none) :
    FileOk (update own b (some (.ind ino))) ino tbl b where
  data j c hc := by
    rw [h.data j c hc]
    by_cases ec : c = b
    · subst ec
      rw [update_self, hb]
      simp
    · rw [update_of_ne ec]
  ind c hc := by
    by_cases ec : c = b
    · subst ec
      rw [update_self]
      exact iff_of_true rfl rfl
    · rw [update_of_ne ec, ← h.ind c hc]
      exact iff_of_false (Ne.symm ec) (Ne.symm hc)

theorem clearInd (h : FileOk own ino tbl ind) (hi : ind ≠ 0) :
    FileOk (update own ind none) ino tbl 0 where
  data j c hc := by
    rw [h.data j c hc]
    by_cases ec : c = ind
    · subst ec
      rw [update_self, h.ind_ne hi]
      simp
    · rw [update_of_ne ec]
  ind c hc := by
    refine iff_of_false (Ne.symm hc) ?_
    by_cases ec : c = ind
    · subst ec
      simp
    · rw [update_of_ne ec, ← h.ind c hc]
      exact Ne.symm ec

end FileOk

abbrev MAXBLOCKS : Nat := SFS_NDIRECT + SFS_DBPERIDB

/-- The block of the disk that holds block `k` of the file, or 0. -/
def File.blockAt (f : File) (k : Nat) : Nat := if h : k < 15 then f.sv.inode.direct ⟨k, h⟩
  else if k < 143 ∧ f.sv.inode.indirect ≠ 0 then
    wordAt (f.fs.disk f.sv.inode.indirect) (k - 15)
  else 0

/-- The byte at offset `x`; a hole reads as 0. -/
def File.byteAt (f : File) (x : Nat) : UInt8 :=
  if f.blockAt (x / 512) = 0 then 0 else f.fs.disk (f.blockAt (x / 512)) (x % 512)

structure Owns (own : Owner) (f : File) : Prop where
  map : MapOk own f.fs
  file : FileOk own f.sv.ino f.blockAt f.sv.inode.indirect

/-- What the operations on blocks leave of a vnode; one that changed is dirty. -/
structure Stable (sv sv' : Sv) : Prop where
  ino : sv'.ino = sv.ino
  refcount : sv'.refcount = sv.refcount
  type : sv'.inode.type = sv.inode.type
  linkcount : sv'.inode.linkcount = sv.inode.linkcount
  dirty : sv'.dirty = true ∨ sv' = sv

theorem Stable.refl (sv : Sv) : Stable sv sv := ⟨rfl, rfl, rfl, rfl, .inr rfl⟩

theorem Stable.trans {sv sv' sv'' : Sv} (h : Stable sv sv') (h' : Stable sv' sv'') :
    Stable sv sv'' where
  ino := h'.ino.trans h.ino
  refcount := h'.refcount.trans h.refcount
  type := h'.type.trans h.type
  linkcount := h'.linkcount.trans h.linkcount
  dirty := by
    obtain hd | rfl := h'.dirty
    · exact .inl hd
    · exact h.dirty

structure Evolves (own own' : Owner) (f f' : File) : Prop where
  owns : Owns own' f'
  frame : Frame (Role.of f.sv.ino) own own' f.fs f'.fs
  stable : Stable f.sv f'.sv

variable {f f' f'' : File}

theorem Evolves.refl (h : Owns own f) : Evolves own own f f where
  owns := h
  frame := .refl ..
  stable := .refl _

theorem Evolves.trans (h : Evolves own own' f f') (h' : Evolves own' own'' f' f'') :
    Evolves own own'' f f'' where
  owns := h'.owns
  frame := h.frame.trans (h.stable.ino ▸ h'.frame)
  stable := h.stable.trans h'.stable

/-- The work of an operation that takes blocks but gives none up. -/
structure Grows (own own' : Owner) (f f' : File) : Prop extends Evolves own own' f f' where
  size : f'.sv.inode.size = f.sv.inode.size
  keeps : ∀ k, f.blockAt k ≠ 0 → f'.blockAt k = f.blockAt k

theorem Grows.refl (h : Owns own f) : Grows own own f f where
  toEvolves := .refl h
  size := rfl
  keeps _ _ := rfl

theorem Grows.trans (h : Grows own own' f f') (h' : Grows own' own'' f' f'') :
    Grows own own'' f f'' where
  toEvolves := h.toEvolves.trans h'.toEvolves
  size := h'.size.trans h.size
  keeps k hk := by
    have hk' := h.keeps k hk
    rw [h'.keeps k (hk' ▸ hk), hk']

end Os161.Sfs
