import Os161.Sfs.Leak

/-! # A file on a device that fails -/

open Function

namespace Os161.Sfs.Faults

open Lib

structure Sane (f : File) : Prop where
  used : ∀ k, f.fs.freemap.has (f.blockAt k) = true
  ind : f.fs.freemap.has f.sv.inode.indirect = true
  inj : ∀ j k, f.blockAt k ≠ 0 → f.blockAt j = f.blockAt k → j = k
  apart : ∀ k, f.blockAt k ≠ 0 → f.blockAt k ≠ f.sv.inode.indirect
  fits : f.fs.nblocks < 2 ^ 32

def Mine (f : File) (b : Nat) : Prop := (∃ k, f.blockAt k = b) ∨ f.sv.inode.indirect = b

structure Extends (f f' : File) : Prop where
  sane : Sane f'
  keeps : ∀ b, f.fs.freemap.has b = true → f'.fs.freemap.has b = true
  others : ∀ b, f.fs.freemap.has b = true → ¬ Mine f b → f'.fs.disk b = f.fs.disk b
  fresh : ∀ b, Mine f' b → Mine f b ∨ f.fs.freemap.has b = false
  nblocks : f'.fs.nblocks = f.fs.nblocks
  stable : Stable f.sv f'.sv

structure Kept (f f' : File) : Prop extends Extends f f' where
  bytes : f'.byteAt = f.byteAt
  size : f'.sv.inode.size = f.sv.inode.size

variable {env : Env} {f f' f'' : File} {fs' : Fs} {n n' b k : Nat} {e : Errno}

theorem Sane.zero (h : Sane f) : f.fs.freemap.has 0 = true := by
  exact h.used 143

theorem sane_of_owns {own : Owner} (h : Owns own f) : Sane f where
  used k := by
    by_cases hk : f.blockAt k = 0
    · rw [hk]
      exact h.map.has h.map.super
    · exact h.map.has ((h.file.data k _ hk).mp rfl)
  ind := by
    by_cases hi : f.sv.inode.indirect = 0
    · rw [hi]
      exact h.map.has h.map.super
    · exact h.map.has ((h.file.ind _ hi).mp rfl)
  inj _ _ hk hjk := h.inj hk hjk
  apart k hk heq := by
    have hrole := (h.file.ind _ hk).mp heq.symm
    rw [(h.file.data k _ hk).mp rfl] at hrole
    cases hrole
  fits := h.map.fits

theorem ne_of_marked (hb : f.fs.freemap.has b = false) {c : Nat}
    (hc : f.fs.freemap.has c = true) : c ≠ b := by
  rintro rfl
  rw [hc] at hb
  cases hb

theorem Extends.refl (h : Sane f) : Extends f f where
  sane := h
  keeps _ := id
  others _ _ _ := rfl
  fresh _ := .inl
  nblocks := rfl
  stable := .refl _

theorem Extends.trans (h : Extends f f') (h' : Extends f' f'') : Extends f f'' where
  sane := h'.sane
  keeps b hb := h'.keeps b (h.keeps b hb)
  others b hb hmine := by
    rw [h'.others b (h.keeps b hb), h.others b hb hmine]
    intro hmine'
    obtain hf | hfree := h.fresh b hmine'
    · exact hmine hf
    · rw [hb] at hfree
      cases hfree
  fresh b hb := by
    obtain hb' | hfree := h'.fresh b hb
    · exact h.fresh b hb'
    · right
      rw [Bool.eq_false_iff] at hfree ⊢
      exact fun hmarked => hfree (h.keeps b hmarked)
  nblocks := h'.nblocks.trans h.nblocks
  stable := h.stable.trans h'.stable

theorem Kept.refl (h : Sane f) : Kept f f := ⟨.refl h, rfl, rfl⟩

theorem Kept.trans (h : Kept f f') (h' : Kept f' f'') : Kept f f'' :=
  ⟨h.toExtends.trans h'.toExtends, h'.bytes.trans h.bytes, h'.size.trans h.size⟩

def Marks (fs fs' : Fs) (b : Nat) : Prop :=
  ∀ c, fs'.freemap.has c = if c = b then true else fs.freemap.has c

theorem Marks.mono (h : Marks f.fs fs' b) {c : Nat} (hc : f.fs.freemap.has c = true) :
    fs'.freemap.has c = true := by
  rw [h, hc, ite_self]

theorem kept_mark (h : Sane f) (hb : f.fs.freemap.has b = false) (hmarks : Marks f.fs fs' b)
    (hdisk : ∀ c, c ≠ b → fs'.disk c = f.fs.disk c) (hn : fs'.nblocks = f.fs.nblocks) :
    Kept f { f with fs := fs' } := by
  have htbl : File.blockAt ⟨fs', f.sv⟩ = f.blockAt := by
    apply blockAt_congr
    case hdirect => rfl
    case hind => rfl
    case hdisk =>
      intro _ j _
      rw [hdisk _ (ne_of_marked hb h.ind)]
  refine ⟨⟨⟨?_, hmarks.mono h.ind, ?_, ?_, ?_⟩, fun c => hmarks.mono, ?_, ?_, hn, .refl _⟩, ?_, rfl⟩
  · intro j
    rw [htbl]
    exact hmarks.mono (h.used j)
  · rw [htbl]
    exact h.inj
  · rw [htbl]
    exact h.apart
  · rw [hn]
    exact h.fits
  · intro c hc _
    exact hdisk c (ne_of_marked hb hc)
  · intro c hc
    unfold Mine at hc
    rw [htbl] at hc
    exact .inl hc
  · apply byteAt_congr
    intro j
    exact .inl ⟨congrFun htbl j, fun _ => hdisk _ (ne_of_marked hb (h.used j))⟩

theorem kept_link (h : Sane f) (hb : f.fs.freemap.has b = false) (hk : f.blockAt k = 0)
    (hmarks : Marks f.fs f'.fs b) (htbl : f'.blockAt = update f.blockAt k b)
    (hind : f'.sv.inode.indirect = f.sv.inode.indirect)
    (hdisk : ∀ c, c ≠ b → c ≠ f.sv.inode.indirect → f'.fs.disk c = f.fs.disk c)
    (hzero : f'.fs.disk b = zeros) (hn : f'.fs.nblocks = f.fs.nblocks)
    (hstable : Stable f.sv f'.sv) (hsize : f'.sv.inode.size = f.sv.inode.size) : Kept f f' := by
  have hself : f'.blockAt k = b := by rw [htbl, update_self]
  have hother : ∀ j, j ≠ k → f'.blockAt j = f.blockAt j := by
    intro j hj
    rw [htbl, update_of_ne hj]
  have hne : ∀ j, f.blockAt j ≠ b := fun j => ne_of_marked hb (h.used j)
  refine ⟨⟨⟨?_, ?_, ?_, ?_, ?_⟩, fun c => hmarks.mono, ?_, ?_, hn, hstable⟩, ?_, hsize⟩
  · intro j
    by_cases hj : j = k
    · subst hj
      rw [hself, hmarks, if_pos rfl]
    · rw [hother j hj]
      exact hmarks.mono (h.used j)
  · rw [hind]
    exact hmarks.mono h.ind
  · intro i j hj heq
    by_cases hik : i = k
    · by_cases hjk : j = k
      · rw [hik, hjk]
      · rw [hik, hself, hother j hjk] at heq
        exact absurd heq.symm (hne j)
    · by_cases hjk : j = k
      · rw [hjk, hself, hother i hik] at heq
        exact absurd heq (hne i)
      · rw [hother j hjk] at hj heq
        rw [hother i hik] at heq
        exact h.inj i j hj heq
  · intro j hj
    rw [hind]
    by_cases hjk : j = k
    · rw [hjk, hself]
      exact (ne_of_marked hb h.ind).symm
    · rw [hother j hjk] at hj ⊢
      exact h.apart j hj
  · rw [hn]
    exact h.fits
  · intro c hc hmine
    exact hdisk c (ne_of_marked hb hc) fun heq => hmine (.inr heq.symm)
  · rintro c (⟨j, rfl⟩ | hc)
    · by_cases hjk : j = k
      · rw [hjk, hself]
        exact .inr hb
      · exact .inl (.inl ⟨j, (hother j hjk).symm⟩)
    · exact .inl (.inr (hind ▸ hc))
  · apply byteAt_congr
    intro j
    by_cases hjk : j = k
    · rw [hjk, hself]
      exact .inr ⟨hk, hzero⟩
    · exact .inl ⟨hother j hjk, fun hj => hdisk _ (hne j) (h.apart j hj)⟩

theorem kept_indirect (h : Sane f) (hfresh : Fresh f.fs b) (hi : f.sv.inode.indirect = 0) :
    Kept f { fs := f.fs.take b, sv := f.sv.setIndirect b } := by
  have hne : b ≠ 0 := (ne_of_marked hfresh.free h.zero).symm
  have hmarks : Marks f.fs (f.fs.take b) b := fun c => take_has c
  have htbl : File.blockAt ⟨f.fs.take b, f.sv.setIndirect b⟩ = f.blockAt :=
    blockAt_setIndirect_fresh hi hne take_disk_self
  refine ⟨⟨⟨?_, ?_, ?_, ?_, h.fits⟩, fun c => hmarks.mono, ?_, ?_, rfl, ?_⟩, ?_, rfl⟩
  · intro j
    rw [htbl]
    exact hmarks.mono (h.used j)
  · change (f.fs.take b).freemap.has b = true
    rw [hmarks, if_pos rfl]
  · rw [htbl]
    exact h.inj
  · intro j _
    rw [htbl]
    exact ne_of_marked hfresh.free (h.used j)
  · intro c hc _
    exact take_disk_of_ne (ne_of_marked hfresh.free hc)
  · rintro c (⟨j, rfl⟩ | rfl)
    · rw [htbl]
      exact .inl (.inl ⟨j, rfl⟩)
    · exact .inr hfresh.free
  · exact ⟨rfl, rfl, rfl, rfl, .inl rfl⟩
  · apply byteAt_congr
    intro j
    exact .inl ⟨congrFun htbl j, fun _ => take_disk_of_ne (ne_of_marked hfresh.free (h.used j))⟩

/-! ## `sfs_bmap` -/

section Bmap

variable {r : Except Errno Nat} {idoff : Nat}

theorem handBack_eq_ok (h : handBack f b n = .ok ((f', r), n')) : f' = f ∧ r = .ok b ∧ n' = n := by
  unfold handBack at h
  split at h
  · rename_i hb
    cases h
    exact ⟨rfl, by rw [hb], rfl⟩
  · obtain ⟨used, m, hused, hret⟩ := stateT_bind_eq_ok h
    obtain ⟨-, rfl⟩ := stateT_lift_eq_ok hused
    split at hret
    · cases hret
      exact ⟨rfl, rfl, rfl⟩
    · cases hret

/-- If there was no error block `k` has a place on the disk. -/
structure Mapped (f : File) (k : Nat) (f' : File) (r : Except Errno Nat) : Prop
    extends Kept f f' where
  ok : ∀ b, r = .ok b → f'.blockAt k = b ∧ b ≠ 0

theorem mapped_error (h : Kept f f') : Mapped f k f' (.error e) := ⟨h, nofun⟩

theorem mapped_ok (h : Kept f f') (hk : f'.blockAt k = b) (hb : b ≠ 0) : Mapped f k f' (.ok b) := by
  refine ⟨h, ?_⟩
  rintro _ ⟨⟩
  exact ⟨hk, hb⟩

theorem Mapped.after (h : Kept f f') (h' : Mapped f' k f'' r) : Mapped f k f'' r :=
  ⟨h.trans h'.toKept, h'.ok⟩

section

variable (h : Sane f)
include h

theorem kept_marked (hfresh : Fresh f.fs b) (a : Answer) :
    Kept f { f with fs := marked a f.fs b } :=
  kept_mark h hfresh.free (marked_has a) (fun _ => marked_disk_of_ne a) (wrote_nblocks _ _)

theorem bmapDirect_mapped {i : Fin SFS_NDIRECT}
    (hrun : bmapDirect env f i true n = .ok ((f', r), n')) : Mapped f i f' r := by
  unfold bmapDirect at hrun
  have hi : f.blockAt i = f.sv.inode.direct i := blockAt_direct f i
  by_cases hzero : f.sv.inode.direct i = 0
  · rw [if_pos ⟨hzero, rfl⟩] at hrun
    obtain ⟨⟨fs, r₁⟩, m, halloc, hrest⟩ := stateT_bind_eq_ok hrun
    cases balloc_given halloc with
    | full _ =>
      cases hrest
      exact mapped_error (.refl h)
    | failed hfresh _ _ =>
      cases hrest
      exact mapped_error (kept_marked h hfresh _)
    | @given b hfresh _ =>
      obtain ⟨rfl, rfl, rfl⟩ := handBack_eq_ok hrest
      have htbl : File.blockAt ⟨f.fs.take b, f.sv.setDirect i b⟩ = update f.blockAt i b :=
        blockAt_setDirect i fun _ => take_disk_of_ne (ne_of_marked hfresh.free h.ind)
      refine mapped_ok ?_ ?_ (ne_of_marked hfresh.free h.zero).symm
      · exact kept_link h hfresh.free (hi.trans hzero) (fun c => take_has c) htbl rfl
          (fun c hc _ => take_disk_of_ne hc) take_disk_self rfl ⟨rfl, rfl, rfl, rfl, .inl rfl⟩ rfl
      · rw [htbl, update_self]
  · rw [if_neg fun hboth => hzero hboth.1] at hrun
    obtain ⟨rfl, rfl, rfl⟩ := handBack_eq_ok hrun
    exact mapped_ok (.refl h) hi hzero

theorem kept_slot {idbuf : Nat → Nat} (hne : f.sv.inode.indirect ≠ 0)
    (hoff : idoff < 128) (hbuf : ∀ j, idbuf j = wordAt (f.fs.disk f.sv.inode.indirect) j)
    (hzero : f.blockAt (15 + idoff) = 0) (hfresh : Fresh f.fs b) :
    Kept f ⟨(f.fs.take b).store f.sv.inode.indirect (ofWords (update idbuf idoff b)), f.sv⟩ ∧
      File.blockAt ⟨(f.fs.take b).store f.sv.inode.indirect
        (ofWords (update idbuf idoff b)), f.sv⟩ (15 + idoff) = b := by
  have hbind := ne_of_marked hfresh.free h.ind
  have htbl : File.blockAt ⟨(f.fs.take b).store f.sv.inode.indirect
      (ofWords (update idbuf idoff b)), f.sv⟩ = update f.blockAt (15 + idoff) b :=
    blockAt_slot hne hoff (lt_trans hfresh.lt h.fits) (fun j _ => hbuf j) store_disk_self
  refine ⟨kept_link h hfresh.free hzero (fun c => take_has c) htbl rfl ?_ ?_ rfl (.refl _) rfl, ?_⟩
  · intro c hc hci
    rw [store_disk_of_ne hci, take_disk_of_ne hc]
  · rw [store_disk_of_ne hbind.symm, take_disk_self]
  · rw [htbl, update_self]

theorem bmapSlot_mapped {idbuf : Nat → Nat}
    (hne : f.sv.inode.indirect ≠ 0) (hoff : idoff < 128)
    (hbuf : ∀ j, idbuf j = wordAt (f.fs.disk f.sv.inode.indirect) j)
    (hrun : bmapSlot env f f.sv.inode.indirect idbuf idoff true n = .ok ((f', r), n')) :
    Mapped f (15 + idoff) f' r := by
  have hslot : f.blockAt (15 + idoff) = idbuf idoff := by
    rw [blockAt_indirect (Nat.le_add_right ..) (by omega) hne, Nat.add_sub_cancel_left, hbuf]
  unfold bmapSlot at hrun
  by_cases hzero : idbuf idoff = 0
  · rw [if_pos ⟨hzero, rfl⟩] at hrun
    obtain ⟨⟨fs, r₁⟩, m, halloc, hrest⟩ := stateT_bind_eq_ok hrun
    cases balloc_given halloc with
    | full _ =>
      cases hrest
      exact mapped_error (.refl h)
    | failed hfresh _ _ =>
      cases hrest
      exact mapped_error (kept_marked h hfresh _)
    | @given b hfresh hd =>
      obtain ⟨⟨fs₁, r₁⟩, m₁, hw, hret⟩ := stateT_bind_eq_ok hrest
      obtain ⟨hlt, rfl, -, rfl, rfl⟩ := wblock_eq_ok.mp hw
      -- the indirect block is stored, with or without an error, or it is not
      have hlink := kept_slot h hne hoff hbuf (hslot.trans hzero) hfresh
      cases ha : env.device (n + 1) with
      | ok =>
        simp only [ha, Answer.err] at hret
        obtain ⟨rfl, rfl, rfl⟩ := handBack_eq_ok hret
        exact mapped_ok hlink.1 hlink.2 (ne_of_marked hfresh.free h.zero).symm
      | fail e fate =>
        simp only [ha, Answer.err] at hret
        cases hret
        apply mapped_error
        by_cases hfate : fate = .stored
        · subst hfate
          exact hlink.1
        · have hstays : wrote (.fail e fate) (f.fs.take b) f.sv.inode.indirect
              (ofWords (update idbuf idoff b)) = f.fs.take b :=
            if_neg (by simpa [Answer.stores] using hfate)
          rw [hstays]
          exact kept_mark h hfresh.free (fun c => take_has c) (fun c => take_disk_of_ne) rfl
  · rw [if_neg fun hboth => hzero hboth.1] at hrun
    obtain ⟨rfl, rfl, rfl⟩ := handBack_eq_ok hrun
    exact mapped_ok (.refl h) hslot hzero

theorem bmapIndirect_mapped (hoff : idoff < 128)
    (hrun : bmapIndirect env f idoff true n = .ok ((f', r), n')) : Mapped f (15 + idoff) f' r := by
  unfold bmapIndirect at hrun
  by_cases hzero : f.sv.inode.indirect = 0
  · rw [if_neg (by simp), if_pos hzero] at hrun
    obtain ⟨⟨fs, r₁⟩, m, halloc, hrest⟩ := stateT_bind_eq_ok hrun
    cases balloc_given halloc with
    | full _ =>
      cases hrest
      exact mapped_error (.refl h)
    | failed hfresh _ _ =>
      cases hrest
      exact mapped_error (kept_marked h hfresh _)
    | @given b hfresh _ =>
      have hkept := kept_indirect h hfresh hzero
      refine .after hkept (bmapSlot_mapped hkept.sane ?_ hoff ?_ hrest)
      · exact (ne_of_marked hfresh.free h.zero).symm
      · intro j
        change 0 = wordAt ((f.fs.take b).disk b) j
        rw [take_disk_self]
        exact wordAt_zero.symm
  · rw [if_neg fun hboth => hzero hboth.1, if_neg hzero] at hrun
    obtain ⟨r₁, m, hread, hrest⟩ := stateT_bind_eq_ok hrun
    cases r₁ with
    | error e =>
      cases hrest
      exact mapped_error (.refl h)
    | ok buf =>
      obtain ⟨-, -, rfl, -⟩ := rblock_eq_ok.mp hread
      exact bmapSlot_mapped h hzero hoff (fun _ => rfl) hrest

theorem bmap_mapped (hrun : bmap env f k true n = .ok ((f', r), n')) : Mapped f k f' r := by
  unfold bmap at hrun
  by_cases hk : k < SFS_NDIRECT
  · rw [dif_pos hk] at hrun
    exact bmapDirect_mapped h hrun
  · rw [dif_neg hk] at hrun
    by_cases hnum : 0 < (k - SFS_NDIRECT) / SFS_DBPERIDB
    · simp only [if_pos hnum] at hrun
      cases hrun
      exact mapped_error (.refl h)
    · simp only [if_neg hnum] at hrun
      have hmod : 15 + (k - 15) % 128 = k := by
        change ¬ 0 < (k - 15) / 128 at hnum
        change ¬ k < 15 at hk
        omega
      have hmapped : Mapped f (15 + (k - 15) % 128) f' r :=
        bmapIndirect_mapped h (Nat.mod_lt _ (by decide)) hrun
      rwa [hmod] at hmapped

end

end Bmap

theorem extends_store (h : Sane f) (hk : f.blockAt k ≠ 0) (data : Block) :
    Extends f ⟨f.fs.store (f.blockAt k) data, f.sv⟩ ∧
      File.blockAt ⟨f.fs.store (f.blockAt k) data, f.sv⟩ = f.blockAt := by
  have htbl : File.blockAt ⟨f.fs.store (f.blockAt k) data, f.sv⟩ = f.blockAt :=
    blockAt_store (fun _ => (h.apart k hk).symm) data
  refine ⟨⟨⟨?_, h.ind, ?_, ?_, h.fits⟩, fun _ => id, ?_, ?_, rfl, .refl _⟩, htbl⟩
  · rw [htbl]
    exact h.used
  · rw [htbl]
    exact h.inj
  · rw [htbl]
    exact h.apart
  · intro c _ hmine
    exact store_disk_of_ne fun heq => hmine (.inl ⟨k, heq.symm⟩)
  · intro c hc
    unfold Mine at hc
    rw [htbl] at hc
    exact .inl hc

def Whole (uio : Uio) : Prop := uio.offset % SFS_BLOCKSIZE = 0 ∧ SFS_BLOCKSIZE ≤ uio.resid

instance (uio : Uio) : Decidable (Whole uio) :=
  inferInstanceAs (Decidable (uio.offset % SFS_BLOCKSIZE = 0 ∧ SFS_BLOCKSIZE ≤ uio.resid))

def pieceLen (uio : Uio) : Nat := min (SFS_BLOCKSIZE - uio.offset % SFS_BLOCKSIZE) uio.resid

def piece (env : Env) (f : File) (uio : Uio) : F Io := if Whole uio then blockio env f uio
  else partialio env f uio (uio.offset % SFS_BLOCKSIZE) (pieceLen uio)

/-- The device is asked to write the data of the piece, in call number `c`. -/
def DataCall (env : Env) (f : File) (uio : Uio) (n c : Nat) : Prop :=
  ∃ g b m, bmap env f (uio.offset / SFS_BLOCKSIZE) true n = .ok ((g, .ok b), m) ∧
    (Whole uio ∧ c = m ∨ ¬ Whole uio ∧ ∃ buf, rblock env g.fs b m = .ok (.ok buf, c))

def patched (g : File) (uio : Uio) : Block :=
  splice (g.fs.disk (g.blockAt (uio.offset / 512))) (uio.offset % 512) (uio.buf.take (pieceLen uio))

/-- There is an error before the device is asked to write the data, or the device answers. -/
inductive Piece (env : Env) (f : File) (uio : Uio) (n : Nat) :
    File → Uio → Option Errno → Prop where
  | early {f' : File} {e : Errno} : Kept f f' → (∀ c, ¬ DataCall env f uio n c) →
    Piece env f uio n f' uio (some e)
  | data {g : File} {c : Nat} : Kept f g → g.blockAt (uio.offset / 512) ≠ 0 →
    (∀ c', DataCall env f uio n c' ↔ c' = c) → (env.device c).err ≠ some .EINVAL →
    Piece env f uio n
      ⟨wrote (env.device c) g.fs (g.blockAt (uio.offset / 512)) (patched g uio), g.sv⟩
      (if Whole uio ∧ (env.device c).moves = false then uio else uio.put (pieceLen uio))
      (env.device c).err

section Write

variable {uio uio' : Uio} {r : Option Errno}

theorem dataCall_iff {g : File} {rb : Except Errno Nat} {m c : Nat}
    (hmap : bmap env f (uio.offset / SFS_BLOCKSIZE) true n = .ok ((g, rb), m)) :
    DataCall env f uio n c ↔ ∃ b, rb = .ok b ∧
      (Whole uio ∧ c = m ∨ ¬ Whole uio ∧ ∃ buf, rblock env g.fs b m = .ok (.ok buf, c)) := by
  constructor
  · rintro ⟨g', b, m', hmap', hcall⟩
    rw [hmap] at hmap'
    cases hmap'
    exact ⟨b, rfl, hcall⟩
  · rintro ⟨b, rfl, hcall⟩
    exact ⟨g, b, m, hmap, hcall⟩

theorem partialio_piece (h : Sane f) (hfull : uio.Full) (hwhole : ¬ Whole uio)
    (hrun : partialio env f uio (uio.offset % SFS_BLOCKSIZE) (pieceLen uio) n =
      .ok ((f', uio', r), n')) : Piece env f uio n f' uio' r := by
  unfold partialio at hrun
  split at hrun
  · cases hrun
  obtain ⟨⟨g, rb⟩, m, hmap, hrest⟩ := stateT_bind_eq_ok hrun
  rw [show (uio.rw == Rw.write) = true by rw [hfull.rw]; rfl] at hmap
  have hmapped := bmap_mapped h hmap
  cases rb with
  | error e =>
    cases hrest
    exact .early hmapped.toKept fun c => by simp [dataCall_iff hmap]
  | ok b =>
    obtain ⟨hblock, hne⟩ := hmapped.ok b rfl
    obtain ⟨rbuf, c, hfetch, hrest⟩ := stateT_bind_eq_ok hrest
    unfold fetch at hfetch
    rw [if_neg hne] at hfetch
    cases rbuf with
    | error e =>
      cases hrest
      exact .early hmapped.toKept fun c => by simp [dataCall_iff hmap, hwhole, hfetch]
    | ok buf =>
      obtain ⟨-, -, rfl, -⟩ := rblock_eq_ok.mp hfetch
      have hcall : ∀ c', DataCall env f uio n c' ↔ c' = c := fun c' => by
        simp [dataCall_iff hmap, hwhole, hfetch, eq_comm]
      have hlen : pieceLen uio ≤ uio.resid := min_le_right ..
      dsimp only at hrest
      rw [uiomove_write hfull hlen] at hrest
      have hput : (uio.put (pieceLen uio)).rw = .write := hfull.rw
      simp only [hput] at hrest
      obtain ⟨⟨fs₁, r₁⟩, m₁, hw, hret⟩ := stateT_bind_eq_ok hrest
      obtain ⟨-, rfl, he, rfl, -⟩ := wblock_eq_ok.mp hw
      cases hret
      subst hblock
      have hpiece := Piece.data hmapped.toKept hne hcall he
      rwa [if_neg fun hboth => hwhole hboth.1] at hpiece

theorem blockio_piece (h : Sane f) (hfull : uio.Full) (hwhole : Whole uio)
    (hrun : blockio env f uio n = .ok ((f', uio', r), n')) : Piece env f uio n f' uio' r := by
  obtain ⟨⟨g, rb⟩, m, hmap, hrest⟩ := stateT_bind_eq_ok hrun
  rw [show (uio.rw == Rw.write) = true by rw [hfull.rw]; rfl] at hmap
  have hmapped := bmap_mapped h hmap
  cases rb with
  | error e =>
    cases hrest
    exact .early hmapped.toKept fun c => by simp [dataCall_iff hmap]
  | ok b =>
    obtain ⟨hblock, hne⟩ := hmapped.ok b rfl
    have hcall : ∀ c', DataCall env f uio n c' ↔ c' = m := fun c' => by
      simp [dataCall_iff hmap, hwhole]
    have hlen : pieceLen uio = 512 := by
      unfold pieceLen
      rw [hwhole.1]
      exact min_eq_left hwhole.2
    simp only [if_neg hne, if_neg (not_lt.mpr hwhole.2)] at hrest
    obtain ⟨a, m₁, ha, hret⟩ := stateT_bind_eq_ok hrest
    obtain ⟨-, he, rfl, -⟩ := rwblock_eq_ok.mp ha
    rw [uiomove_write hfull hwhole.2] at hret
    simp only [hfull.rw] at hret
    cases hret
    subst hblock
    have hpiece := Piece.data hmapped.toKept hne hcall he
    unfold patched at hpiece
    rw [hlen, show uio.offset % 512 = 0 from hwhole.1] at hpiece
    cases hmoves : (env.device m).moves with
    | true =>
      rw [if_neg (by rw [hmoves]; exact fun hboth => absurd hboth.2 (by decide))] at hpiece
      exact hpiece
    | false =>
      rw [if_pos ⟨hwhole, hmoves⟩] at hpiece
      exact hpiece

theorem piece_piece (h : Sane f) (hfull : uio.Full)
    (hrun : piece env f uio n = .ok ((f', uio', r), n')) : Piece env f uio n f' uio' r := by
  unfold piece at hrun
  by_cases hwhole : Whole uio
  · rw [if_pos hwhole] at hrun
    exact blockio_piece h hfull hwhole hrun
  · rw [if_neg hwhole] at hrun
    exact partialio_piece h hfull hwhole hrun

end Write

end Os161.Sfs.Faults
