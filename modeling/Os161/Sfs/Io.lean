import Os161.Sfs.Bmap

/-!
# `sfs_io`

A request is cut into a partial block, whole blocks and a partial block. Each piece moves its bytes
or fails before it moves any.
-/

open List

namespace Os161.Sfs

open Lib

variable {own own' own'' : Owner} {f f' : File} {uio : Uio} {k n len skip : Nat}

theorem blockio_eq (hr : 512 ≤ uio.resid) : blockio f uio = partialio f uio 0 512 := by
  unfold blockio partialio SFS_BLOCKSIZE
  congr 1
  funext ⟨f', r⟩
  cases r with
  | error e => rfl
  | ok diskblock =>
    by_cases hz : diskblock = 0
    · by_cases hrw : uio.rw = .read
      · have hread : (uiomove zeros 0 512 uio).2.rw = .read := by
          unfold uiomove
          rw [hrw]
        simp [if_pos hz, if_pos hrw, pure_bind, hread]
      · simp only [if_pos hz, if_neg hrw]
        rfl
    · simp only [if_neg hz, if_neg (not_lt.mpr hr)]

/-! ## The pieces of a request -/

/-- What holds of the pieces of a request, and of two parts together, holds of the request. -/
structure Pieces (P : File → Uio → Nat → K Io → Prop) : Prop where
  nil : ∀ f uio, uio.offset % 512 = 0 → P f uio 0 (.ok (f, uio, none))
  piece : ∀ f uio skip len, len ≤ uio.resid → uio.offset % 512 = skip → skip + len ≤ 512 →
    0 < len ∨ skip ≠ 0 → P f uio len (partialio f uio skip len)
  next : ∀ f uio a b res k, a + b ≤ uio.resid → P f uio a res →
    (b ≠ 0 → (uio.offset + a) % 512 = 0 ∧ (a = 0 → res = .ok (f, uio, none)) ∧
      ∀ f' uio', uio'.offset = uio.offset + a → uio'.resid = uio.resid - a → P f' uio' b (k f' uio')) →
    (b = 0 → ∀ f' uio', uio'.resid = uio.resid - a → k f' uio' = .ok (f', uio', none)) →
    P f uio (a + b) (res >>= fun r => r.next k)

section Pieces

variable {P : File → Uio → Nat → K Io → Prop} (hp : Pieces P)
include hp

theorem Pieces.blocks (hlen : 512 * n ≤ uio.resid) (hoff : uio.offset % 512 = 0) :
    P f uio (512 * n) (blocks n f uio) := by
  induction n generalizing f uio with
  | zero => exact hp.nil f uio hoff
  | succ n ih =>
    have hone : 512 ≤ uio.resid := by omega
    rw [Nat.mul_succ, add_comm (512 * n)] at hlen ⊢
    apply hp.next f uio 512 (512 * n) _ _ hlen
    · rw [blockio_eq hone]
      exact hp.piece f uio 0 512 hone hoff (by decide) (.inl (by decide))
    · refine fun _ => ⟨by omega, nofun, fun f' uio' hoff' hresid => ih ?_ ?_⟩
      · omega
      · omega
    · intro hz f' uio' _
      obtain rfl : n = 0 := by omega
      rfl

theorem Pieces.ioTail (hoff : uio.offset % 512 = 0) (hlt : uio.resid < 512) :
    P f uio uio.resid (ioTail f uio) := by
  unfold Sfs.ioTail SFS_BLOCKSIZE
  rw [if_neg (not_le.mpr hlt)]
  by_cases htail : 0 < uio.resid
  · rw [if_pos htail]
    exact hp.piece f uio 0 _ le_rfl hoff (by omega) (.inl htail)
  · rw [if_neg htail, Nat.eq_zero_of_not_pos htail]
    exact hp.nil f uio hoff

theorem Pieces.ioAligned (hoff : uio.offset % 512 = 0) : P f uio uio.resid (ioAligned f uio) := by
  unfold Sfs.ioAligned SFS_BLOCKSIZE
  by_cases hz : uio.resid = 0
  · rw [if_pos hz, hz]
    exact hp.nil f uio hoff
  · have hsplit := Nat.div_add_mod uio.resid 512
    rw [if_neg hz, if_neg (not_not_intro hoff)]
    conv => arg 3; rw [← hsplit]
    apply hp.next f uio _ _ _ _ (le_of_eq hsplit)
    · exact hp.blocks (by omega) hoff
    · refine fun _ => ⟨by omega, fun hnone => ?_, fun f' uio' hoff' hresid => ?_⟩
      · obtain hnone : uio.resid / 512 = 0 := by omega
        rw [hnone]
        rfl
      · obtain hrest : uio.resid % 512 = uio'.resid := by omega
        rw [hrest]
        exact hp.ioTail (by omega) (by omega)
    · intro hrest f' uio' hresid
      unfold Sfs.ioTail SFS_BLOCKSIZE
      rw [if_neg (by omega), if_neg (by omega)]
      rfl

theorem Pieces.ioBody (f : File) (uio : Uio) : P f uio uio.resid (ioBody f uio) := by
  unfold Sfs.ioBody SFS_BLOCKSIZE
  by_cases hz : uio.offset % 512 = 0
  · rw [if_neg (not_not_intro hz)]
    exact hp.ioAligned hz
  · rw [if_pos hz]
    generalize hlen : min (512 - uio.offset % 512) uio.resid = len
    obtain ⟨rest, hrest⟩ : ∃ rest, uio.resid = len + rest := ⟨uio.resid - len, by omega⟩
    conv => arg 3; rw [hrest]
    apply hp.next f uio len rest _ _ (le_of_eq hrest.symm)
    · exact hp.piece f uio _ len (by omega) rfl (by omega) (.inr hz)
    · refine fun hpos => ⟨by omega, fun hzero => by omega, fun f' uio' hoff' hresid => ?_⟩
      obtain rfl : rest = uio'.resid := by omega
      exact hp.ioAligned (by omega)
    · intro hnone f' uio' hresid
      exact if_pos (by omega)

end Pieces

/-! ## Reads -/

def Uio.got (uio : Uio) (len : Nat) (bs : List UInt8) : Uio :=
  { uio with offset := uio.offset + len, resid := uio.resid - len, buf := uio.buf ++ bs }

def Reads (f : File) (uio : Uio) (len : Nat) (res : K Io) : Prop :=
  res = .ok (f, uio.got len (slice f.byteAt uio.offset len), none)

theorem uiomove_read {iobuf : Block} (hrw : uio.rw = .read) (hlen : len ≤ uio.resid) :
    uiomove iobuf skip len uio = (iobuf, uio.got len (slice iobuf skip len)) := by
  unfold uiomove Uio.got
  rw [min_eq_left hlen, hrw]

theorem slice_block (hfit : skip + len ≤ 512) (hoff : uio.offset % 512 = skip) :
    slice f.byteAt uio.offset len = slice (if f.blockAt (uio.offset / 512) = 0 then zeros
        else f.fs.disk (f.blockAt (uio.offset / 512))) skip len := by
  apply slice_congr
  intro x hx
  have hdiv : (uio.offset + x) / 512 = uio.offset / 512 := by omega
  have hmod : (uio.offset + x) % 512 = skip + x := by omega
  unfold File.byteAt
  rw [hdiv, hmod]
  split <;> rfl

theorem partialio_read (h : Owns own f) (hrw : uio.rw = .read) (hlen : len ≤ uio.resid)
    (hoff : uio.offset % 512 = skip) (hfit : skip + len ≤ 512) (hk : uio.offset < 143 * 512) :
    Reads f uio len (partialio f uio skip len) := by
  have hgot : ∀ bs, (uio.got len bs).rw = .read := fun _ => hrw
  unfold Reads partialio SFS_BLOCKSIZE
  rw [if_neg (not_lt.mpr hfit), slice_block hfit hoff, hrw]
  change (bmap f (uio.offset / 512) false >>= _) = _
  rw [bmap_find h (by omega), ok_bind]
  by_cases hz : f.blockAt (uio.offset / 512) = 0
  · simp only [hz, if_true, pure_bind, uiomove_read hrw hlen, hgot]
    rfl
  · simp only [if_neg hz, h.map.rblock (h.file.data_ne hz), ok_bind, uiomove_read hrw hlen, hgot]
    rfl

theorem Reads.next {a b : Nat} {res : K Io} {k : File → Uio → K Io} (h : Reads f uio a res)
    (hk : Reads f (uio.got a (slice f.byteAt uio.offset a)) b
      (k f (uio.got a (slice f.byteAt uio.offset a)))) :
    Reads f uio (a + b) (res >>= fun r => r.next k) := by
  rw [h, ok_bind]
  change k f _ = _
  rw [hk]
  unfold Uio.got
  simp [add_assoc, Nat.sub_sub, append_assoc, slice_add]

theorem reads_nothing (f : File) (uio : Uio) : Reads f uio 0 (.ok (f, uio, none)) := by
  unfold Reads Uio.got slice
  simp

def Stops (res : K Io) : Prop := ∃ f' uio', res = .ok (f', uio', some .EINVAL)

theorem partialio_stops (f : File) (hfit : skip + len ≤ 512) (hk : 143 * 512 ≤ uio.offset) :
    Stops (partialio f uio skip len) := by
  unfold partialio SFS_BLOCKSIZE
  rw [if_neg (not_lt.mpr hfit), bmap_einval (by omega), ok_bind]
  exact ⟨f, uio, rfl⟩

def InBlocks (off n : Nat) : Prop :=
  off + n ≤ MAXBLOCKS * SFS_BLOCKSIZE ∨ n = 0 ∧ off % SFS_BLOCKSIZE = 0

theorem pieces_read : Pieces fun f uio len res => Owns own f → uio.rw = .read →
    InBlocks uio.offset len ∧ Reads f uio len res ∨ ¬ InBlocks uio.offset len ∧ Stops res := by
  unfold InBlocks
  rw [show MAXBLOCKS * SFS_BLOCKSIZE = 143 * 512 from rfl]
  unfold SFS_BLOCKSIZE
  constructor
  case nil => exact fun f uio hoff _ _ => .inl ⟨.inr ⟨rfl, hoff⟩, reads_nothing f uio⟩
  case piece =>
    intro f uio skip len hlen hoff hfit hpos h hrw
    by_cases hk : uio.offset < 143 * 512
    · exact .inl ⟨by omega, partialio_read h hrw hlen hoff hfit hk⟩
    · exact .inr ⟨by omega, partialio_stops f hfit (not_lt.mp hk)⟩
  case next =>
    intro f uio a b res k hab hfirst hmore hlast h hrw
    obtain ⟨hin, hreads⟩ | ⟨hout, f', uio', rfl⟩ := hfirst h hrw
    · by_cases hb : b = 0
      · subst hb
        rw [hreads, ok_bind]
        refine .inl ⟨hin, ?_⟩
        change Reads f uio a (k f _)
        rw [hlast rfl f _ rfl]
        rfl
      · obtain ⟨halign, -, hk⟩ := hmore hb
        obtain ⟨hin', hreads'⟩ | ⟨hout, hstops⟩ := hk f (uio.got a _) rfl rfl h hrw
        · refine .inl ⟨?_, hreads.next hreads'⟩
          change uio.offset + a + b ≤ _ ∨ _ at hin'
          omega
        · rw [hreads, ok_bind]
          refine .inr ⟨?_, hstops⟩
          change ¬ (uio.offset + a + b ≤ _ ∨ _) at hout
          omega
    · exact .inr ⟨by omega, f', uio', rfl⟩

theorem ioBody_cases (h : Owns own f) (uio : Uio) (hrw : uio.rw = .read) :
    InBlocks uio.offset uio.resid ∧ Reads f uio uio.resid (ioBody f uio) ∨
      ¬ InBlocks uio.offset uio.resid ∧ Stops (ioBody f uio) :=
  pieces_read.ioBody f uio h hrw

theorem ioBody_read (h : Owns own f) (hrw : uio.rw = .read) (hin : InBlocks uio.offset uio.resid) :
    Reads f uio uio.resid (ioBody f uio) :=
  ((ioBody_cases h uio hrw).resolve_right fun hout => hout.1 hin).2

theorem ioBody_stops (h : Owns own f) (hrw : uio.rw = .read)
    (hout : ¬ InBlocks uio.offset uio.resid) : Stops (ioBody f uio) :=
  ((ioBody_cases h uio hrw).resolve_left fun hin => hout hin.1).2

theorem toOff_of_lt (h : n < 2 ^ 31) : toOff n = n := by
  unfold toOff
  rw [Nat.mod_eq_of_lt (by omega), if_pos h]

section Cut

variable {off resid : Nat} {buf : List UInt8}

theorem io_at_end (h : toOff f.sv.inode.size ≤ off) :
    io f ⟨.read, off, resid, buf⟩ = .ok (f, ⟨.read, off, resid, buf⟩, none) := by
  exact if_pos h

theorem io_cut (hsize : f.sv.inode.size < 2 ^ 31) (hin : off < f.sv.inode.size)
    (h : off + resid < 2 ^ 31) :
    io f ⟨.read, off, resid, buf⟩ =
      (ioBody f ⟨.read, off, min resid (f.sv.inode.size - off), buf⟩ >>= fun r =>
        .ok (r.1, { r.2.1 with
          resid := r.2.1.resid + (resid - min resid (f.sv.inode.size - off)) }, r.2.2)) := by
  unfold io
  simp only [toOff_of_lt hsize, toOff_of_lt h, Int.ofNat_le, Int.ofNat_lt]
  rw [if_neg (not_le.mpr hin)]
  by_cases hclip : f.sv.inode.size < off + resid
  · have hextra : ((off + resid : Nat) - (f.sv.inode.size : Int)).toNat =
        resid - min resid (f.sv.inode.size - off) := by omega
    have hleft : resid - (resid - min resid (f.sv.inode.size - off)) =
        min resid (f.sv.inode.size - off) := by omega
    rw [if_pos hclip, hextra, if_neg (by omega), hleft]
    rfl
  · have hmin : min resid (f.sv.inode.size - off) = resid := by omega
    rw [if_neg hclip, hmin, Nat.sub_self]
    exact (bind_pure _).symm

theorem Reads.cut {res : K Io} (h : Reads f ⟨.read, off, n, buf⟩ n res) :
    Reads f ⟨.read, off, resid, buf⟩ n (res >>= fun r =>
      .ok (r.1, { r.2.1 with resid := r.2.1.resid + (resid - n) }, r.2.2)) := by
  unfold Reads at h ⊢
  rw [h, ok_bind]
  unfold Uio.got
  simp

end Cut

theorem io_read (h : Owns own f) (hsize : f.sv.inode.size ≤ 143 * 512) (off resid : Nat)
    (hreq : off + resid < 2 ^ 31) (buf : List UInt8) :
    Reads f ⟨.read, off, resid, buf⟩ (min resid (f.sv.inode.size - off))
      (io f ⟨.read, off, resid, buf⟩) := by
  by_cases heof : f.sv.inode.size ≤ off
  · rw [io_at_end (by rw [toOff_of_lt (by omega)]; omega), Nat.sub_eq_zero_of_le heof, Nat.min_zero]
    exact reads_nothing f _
  · rw [io_cut (by omega) (not_le.mp heof) hreq]
    apply Reads.cut
    exact ioBody_read h rfl (.inl (show off + min _ _ ≤ 143 * 512 by omega))

/-! ## Writes -/

def Uio.put (uio : Uio) (n : Nat) : Uio :=
  { uio with offset := uio.offset + n, resid := uio.resid - n, buf := uio.buf.drop n }

structure Uio.Full (uio : Uio) : Prop where
  rw : uio.rw = .write
  buf : uio.buf.length = uio.resid

theorem Uio.Full.put (h : uio.Full) (n : Nat) : (uio.put n).Full where
  rw := h.rw
  buf := by
    change (uio.buf.drop n).length = uio.resid - n
    rw [length_drop, h.buf]

/-- The first `n` bytes were stored; an error came at a piece for which the file had no block. -/
structure Wrote (own own' : Owner) (f f' : File) (uio : Uio) (len n : Nat) (e : Option Errno) :
    Prop extends Grows own own' f f' where
  le : n ≤ len
  bytes : f'.byteAt = splice f.byteAt uio.offset (uio.buf.take n)
  mapped : ∀ x, uio.offset ≤ x → x < uio.offset + n → f'.blockAt (x / 512) ≠ 0
  done : e = none → n = len
  error : e = none ∨ e = some .ENOSPC ∨ e = some .EINVAL ∧ 143 * 512 ≤ uio.offset + n
  hole : e ≠ none → f.blockAt ((uio.offset + n) / 512) = 0
  short : e ≠ none → n < len ∨ len = 0
  stop : e ≠ none → n = 0 ∨ (uio.offset + n) % 512 = 0
  room : e = some .ENOSPC → n = 0 → ¬ f.fs.Roomy

def Writes (own : Owner) (f : File) (uio : Uio) (len : Nat) (res : K Io) : Prop :=
  ∃ own' f' n e, res = .ok (f', uio.put n, e) ∧ Wrote own own' f f' uio len n e

theorem put_zero (uio : Uio) : uio.put 0 = uio := by
  unfold Uio.put
  simp

theorem writes_error {e : Errno} (hgrows : Grows own own' f f') (hbytes : f'.byteAt = f.byteAt)
    (he : (e = .ENOSPC ∧ ¬ f.fs.Roomy) ∨ e = .EINVAL ∧ 143 * 512 ≤ uio.offset)
    (hhole : f.blockAt (uio.offset / 512) = 0) :
    Writes own f uio len (.ok (f', uio, some e)) := by
  refine ⟨own', f', 0, some e, by rw [put_zero], hgrows, Nat.zero_le _, ?_, ?_, ?_, ?_,
    fun _ => hhole, fun _ => (Nat.eq_zero_or_pos len).symm, fun _ => .inl rfl, ?_⟩
  · rw [hbytes, take_zero, splice_nil]
  · intro x hx hlt
    omega
  · rintro ⟨⟩
  · obtain ⟨rfl, -⟩ | ⟨rfl, hk⟩ := he
    · exact .inr (.inl rfl)
    · exact .inr (.inr ⟨rfl, hk⟩)
  · rintro ⟨⟩ -
    exact (he.resolve_right nofun).2

theorem writes_nothing (h : Owns own f) (uio : Uio) : Writes own f uio 0 (.ok (f, uio, none)) := by
  refine ⟨own, f, 0, none, by rw [put_zero], .refl h, le_rfl, ?_, ?_, fun _ => rfl, .inl rfl,
    nofun, nofun, nofun, nofun⟩
  · rw [take_zero, splice_nil]
  · intro x hx hlt
    omega

theorem blockAt_store {b : Nat} (hne : f.sv.inode.indirect ≠ 0 → f.sv.inode.indirect ≠ b)
    (data : Block) : File.blockAt ⟨f.fs.store b data, f.sv⟩ = f.blockAt := by
  apply blockAt_congr
  case hdirect => rfl
  case hind => rfl
  case hdisk =>
    intro hi j _
    rw [store_disk_of_ne (hne hi)]

/-- No other entry of the table leads to the block. -/
theorem byteAt_store_splice (hk : f.blockAt k ≠ 0)
    (htbl : ∀ data, File.blockAt ⟨f.fs.store (f.blockAt k) data, f.sv⟩ = f.blockAt)
    (hinj : ∀ j, f.blockAt j = f.blockAt k → j = k) {off : Nat} {bs : List UInt8}
    (hblock : off / 512 = k) (hfit : off % 512 + bs.length ≤ 512) :
    File.byteAt ⟨f.fs.store (f.blockAt k) (splice (f.fs.disk (f.blockAt k)) (off % 512) bs), f.sv⟩ =
      splice f.byteAt off bs := by
  funext x
  unfold File.byteAt
  rw [htbl]
  unfold splice
  by_cases hx : x / 512 = k
  · have hin : off % 512 ≤ x % 512 ∧ x % 512 < off % 512 + bs.length ↔
        off ≤ x ∧ x < off + bs.length := by omega
    have hpos : x % 512 - off % 512 = x - off := by omega
    rw [hx, if_neg hk, store_disk_self]
    simp [hx, hk, hin, hpos]
  · have hout : ¬ (off ≤ x ∧ x < off + bs.length) := by omega
    rw [if_neg hout]
    by_cases hz : f.blockAt (x / 512) = 0
    · simp [hz]
    · rw [store_disk_of_ne fun heq => hx (hinj _ heq)]

theorem grows_store (h : Owns own f) (hk : f.blockAt k ≠ 0) (data : Block) :
    Grows own own f ⟨f.fs.store (f.blockAt k) data, f.sv⟩ ∧
      File.blockAt ⟨f.fs.store (f.blockAt k) data, f.sv⟩ = f.blockAt := by
  have hrole := h.file.data_ne hk
  have htbl : File.blockAt ⟨f.fs.store (f.blockAt k) data, f.sv⟩ = f.blockAt := by
    refine blockAt_store (fun hi heq => ?_) data
    have hind := h.file.ind_ne hi
    rw [heq, hrole] at hind
    cases hind
  refine ⟨⟨⟨⟨h.map.store, ?_⟩, .store hrole rfl, .refl _⟩, rfl, ?_⟩, htbl⟩
  · rw [htbl]
    exact h.file
  · intro j _
    rw [htbl]

theorem Owns.inj (h : Owns own f) (hk : f.blockAt k ≠ 0) {j : Nat} (heq : f.blockAt j = f.blockAt k) :
    j = k := by
  have hrole := h.file.data_ne (heq ▸ hk)
  rw [heq, h.file.data_ne hk] at hrole
  exact (Role.data.inj (Option.some.inj hrole)).2.symm

theorem uiomove_write {iobuf : Block} (hfull : uio.Full) (hlen : len ≤ uio.resid) :
    uiomove iobuf skip len uio = (splice iobuf skip (uio.buf.take len), uio.put len) := by
  unfold uiomove Uio.put
  rw [min_eq_left hlen, hfull.rw]

theorem partialio_write (h : Owns own f) (hfull : uio.Full) (hlen : len ≤ uio.resid)
    (hoff : uio.offset % 512 = skip) (hfit : skip + len ≤ 512) :
    Writes own f uio len (partialio f uio skip len) := by
  unfold partialio SFS_BLOCKSIZE
  rw [if_neg (not_lt.mpr hfit), hfull.rw]
  change Writes own f uio len (bmap f (uio.offset / 512) true >>= _)
  by_cases hk : uio.offset / 512 < 143
  · obtain ⟨own', f', hgrows, hbytes, ⟨⟨hz, hroom⟩, hfail⟩ | ⟨hne, hok⟩⟩ := bmap_alloc h hk
    · rw [hfail]
      exact writes_error hgrows hbytes (.inl ⟨rfl, hroom⟩) hz
    · have hrole := hgrows.owns.file.data_ne hne
      have hput : (uio.put len).rw = .write := hfull.rw
      have htake : (uio.buf.take len).length = len := by
        rw [length_take, hfull.buf]
        exact min_eq_left hlen
      rw [hok, ok_bind]
      simp only [if_neg hne, hgrows.owns.map.rblock hrole, ok_bind, uiomove_write hfull hlen, hput,
        hgrows.owns.map.wblock hrole]
      obtain ⟨hstore, htbl⟩ := grows_store hgrows.owns hne
        (splice (f'.fs.disk (f'.blockAt (uio.offset / 512))) skip (uio.buf.take len))
      refine ⟨own', _, len, none, rfl, hgrows.trans hstore, le_rfl, ?_, ?_, fun _ => rfl,
        .inl rfl, nofun, nofun, nofun, nofun⟩
      · subst hoff
        rw [byteAt_store_splice hne (fun data => (grows_store hgrows.owns hne data).2)
          (fun _ => hgrows.owns.inj hne) rfl (by rwa [htake]), hbytes]
      · intro x hx hlt
        have hdiv : x / 512 = uio.offset / 512 := by omega
        rwa [htbl, hdiv]
  · rw [bmap_einval (not_lt.mp hk)]
    exact writes_error (.refl h) rfl (.inr ⟨rfl, by omega⟩)
      (blockAt_eq_zero (by omega) (.inl (not_lt.mp hk)))

theorem Wrote.next {own'' : Owner} {f'' : File} {a b m : Nat} {e : Option Errno} (hfull : uio.Full)
    (hab : a + b ≤ uio.resid) (hb : b ≠ 0) (halign : (uio.offset + a) % 512 = 0)
    (hw : Wrote own own' f f' uio a a none) (hw' : Wrote own' own'' f' f'' (uio.put a) b m e)
    (hsame : a = 0 → f' = f) : Wrote own own'' f f'' uio (a + b) (a + m) e := by
  have hlen : (uio.buf.take a).length = a := by
    rw [length_take, hfull.buf]
    omega
  have hle := hw'.le
  refine ⟨hw.toGrows.trans hw'.toGrows, by omega, ?_, ?_, ?_, ?_, ?_, ?_, ?_, ?_⟩
  · rw [hw'.bytes, hw.bytes, take_add, ← splice_append, hlen]
    rfl
  · intro x hx hlt
    by_cases hin : x < uio.offset + a
    · have hmap := hw.mapped x hx hin
      rwa [hw'.keeps _ hmap]
    · apply hw'.mapped x
      · change uio.offset + a ≤ x
        omega
      · change x < uio.offset + a + m
        omega
  · intro he
    rw [hw'.done he]
  · obtain he | he | ⟨he, hbig⟩ := hw'.error
    · exact .inl he
    · exact .inr (.inl he)
    · refine .inr (.inr ⟨he, ?_⟩)
      change 143 * 512 ≤ uio.offset + a + m at hbig
      omega
  · intro he
    have hz := hw'.hole he
    change f'.blockAt ((uio.offset + a + m) / 512) = 0 at hz
    rw [add_assoc] at hz
    by_contra hne
    exact hne ((hw.keeps _ hne).symm.trans hz)
  · intro he
    exact .inl (Nat.add_lt_add_left ((hw'.short he).resolve_right hb) a)
  · intro he
    right
    obtain rfl | hstop := hw'.stop he
    · exact halign
    · rwa [← add_assoc]
  · intro he hzero
    obtain rfl : f' = f := hsame (by omega)
    exact hw'.room he (by omega)

theorem pieces_write : Pieces fun f uio len res =>
    ∀ own, Owns own f → uio.Full → Writes own f uio len res := by
  constructor
  case nil => exact fun f uio _ own h _ => writes_nothing h uio
  case piece =>
    exact fun f uio skip len hlen hoff hfit _ own h hfull => partialio_write h hfull hlen hoff hfit
  case next =>
    intro f uio a b res k hab hfirst hmore hlast own h hfull
    obtain ⟨own', f', n, e, rfl, hw⟩ := hfirst own h hfull
    cases e with
    | some e =>
      refine ⟨own', f', n, some e, rfl, { hw with
        le := Nat.le_add_right_of_le hw.le, done := nofun, short := fun _ => ?_ }⟩
      by_cases hb : b = 0
      · rw [hb]
        exact hw.short nofun
      · have hle := hw.le
        omega
    | none =>
      obtain rfl : n = a := hw.done rfl
      by_cases hb : b = 0
      · subst hb
        exact ⟨own', f', n, none, hlast rfl f' _ rfl, hw⟩
      · obtain ⟨halign, hzero, hk⟩ := hmore hb
        obtain ⟨own'', f'', m, e, hres, hw'⟩ := hk f' (uio.put n) rfl rfl own' hw.owns (hfull.put n)
        refine ⟨own'', f'', n + m, e, ?_, hw.next hfull hab hb halign hw' fun hz => ?_⟩
        · change k f' (uio.put n) = _
          rw [hres]
          unfold Uio.put
          simp [add_assoc, Nat.sub_sub]
        · exact congrArg Prod.fst (Except.ok.inj (hzero hz))

/-- What a write leaves: it stored the first `n` of its bytes and reports that many. -/
structure Written (own own' : Owner) (f f' : File) (uio : Uio) (n : Nat) (e : Option Errno) :
    Prop extends Evolves own own' f f' where
  le : n ≤ uio.resid
  size : f'.sv.inode.size = max f.sv.inode.size (uio.offset + n)
  bytes : f'.byteAt = splice f.byteAt uio.offset (uio.buf.take n)
  keeps : ∀ k, f.blockAt k ≠ 0 → f'.blockAt k ≠ 0
  mapped : ∀ x, uio.offset ≤ x → x < uio.offset + n → f'.blockAt (x / 512) ≠ 0
  done : e = none → n = uio.resid
  error : e = none ∨ e = some .ENOSPC ∨ e = some .EINVAL ∧ 143 * 512 ≤ uio.offset + n
  hole : e ≠ none → f.blockAt ((uio.offset + n) / 512) = 0
  short : e ≠ none → n < uio.resid ∨ uio.resid = 0
  stop : e ≠ none → n = 0 ∨ (uio.offset + n) % 512 = 0
  room : e = some .ENOSPC → n = 0 → ¬ f.fs.Roomy

theorem io_write (h : Owns own f) (hsize : f.sv.inode.size < 2 ^ 31) (hfull : uio.Full) :
    ∃ own' f' n e, io f uio = .ok (f', uio.put n, e) ∧ Written own own' f f' uio n e := by
  obtain ⟨own', f', n, e, hbody, hw⟩ := pieces_write.ioBody f uio own h hfull
  have hkeeps : ∀ k, f.blockAt k ≠ 0 → f'.blockAt k ≠ 0 := by
    intro k hk
    rwa [hw.keeps k hk]
  have hoff : toOff f'.sv.inode.size = f.sv.inode.size := by rw [hw.size, toOff_of_lt hsize]
  unfold io
  rw [hfull.rw]
  simp only [hbody, ok_bind, hoff, Int.ofNat_lt]
  by_cases hlong : f.sv.inode.size < uio.offset + n
  · refine ⟨own', { f' with sv := f'.sv.setSize (uio.offset + n) }, n, e, if_pos hlong,
      ⟨⟨hw.owns.map, hw.owns.file⟩, hw.frame, ?_⟩, hw.le, ?_, hw.bytes, hkeeps, hw.mapped, hw.done,
      hw.error, hw.hole, hw.short, hw.stop, hw.room⟩
    · exact hw.stable.trans ⟨rfl, rfl, rfl, rfl, .inl rfl⟩
    · exact (Nat.max_eq_right (le_of_lt hlong)).symm
  · refine ⟨own', f', n, e, if_neg hlong, hw.toEvolves, hw.le, ?_, hw.bytes, hkeeps, hw.mapped,
      hw.done, hw.error, hw.hole, hw.short, hw.stop, hw.room⟩
    rw [hw.size, Nat.max_eq_left (not_lt.mp hlong)]

end Os161.Sfs
