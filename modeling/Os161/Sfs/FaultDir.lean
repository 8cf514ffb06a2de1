import Os161.Sfs.Directory
import Os161.Sfs.FailedWrite

/-! # The root directory on a device that fails -/

open Function List Option

namespace Os161.Sfs.Faults

open Lib

variable {env : Env} {f f' : File} {uio uio' : Uio} {n n' k slot : Nat} {d : Dirent}
variable {name : List UInt8}

/-! ## Reading -/

section Read

variable {r : Except Errno Nat}

theorem bmapSlot_lookup {idblock idoff : Nat} {idbuf : Nat → Nat}
    (hrun : bmapSlot env f idblock idbuf idoff false n = .ok ((f', r), n')) :
    f' = f ∧ r = .ok (idbuf idoff) := by
  unfold bmapSlot at hrun
  rw [if_neg fun hboth => Bool.noConfusion hboth.2] at hrun
  obtain ⟨hf, hr, -⟩ := handBack_eq_ok hrun
  exact ⟨hf, hr⟩

theorem bmapIndirect_lookup {idoff : Nat} (hoff : idoff < 128)
    (hrun : bmapIndirect env f idoff false n = .ok ((f', r), n')) :
    f' = f ∧ ∀ b, r = .ok b → b = f.blockAt (15 + idoff) := by
  unfold bmapIndirect at hrun
  by_cases hzero : f.sv.inode.indirect = 0
  · rw [if_pos ⟨hzero, rfl⟩] at hrun
    cases hrun
    refine ⟨rfl, ?_⟩
    rintro _ ⟨⟩
    exact (blockAt_eq_zero (Nat.le_add_right ..) (.inr hzero)).symm
  · rw [if_neg fun hboth => hzero hboth.1, if_neg hzero] at hrun
    obtain ⟨r₁, m, hread, hrest⟩ := stateT_bind_eq_ok hrun
    cases r₁ with
    | error e =>
      cases hrest
      exact ⟨rfl, nofun⟩
    | ok buf =>
      obtain ⟨-, -, rfl, -⟩ := rblock_eq_ok.mp hread
      obtain ⟨rfl, rfl⟩ := bmapSlot_lookup hrest
      refine ⟨rfl, ?_⟩
      rintro _ ⟨⟩
      rw [blockAt_indirect (Nat.le_add_right ..) (by omega) hzero, Nat.add_sub_cancel_left]

theorem bmap_lookup (hrun : bmap env f k false n = .ok ((f', r), n')) :
    f' = f ∧ ∀ b, r = .ok b → b = f.blockAt k := by
  unfold bmap at hrun
  by_cases hk : k < SFS_NDIRECT
  · rw [dif_pos hk] at hrun
    unfold bmapDirect at hrun
    rw [if_neg fun hboth => Bool.noConfusion hboth.2] at hrun
    obtain ⟨rfl, rfl, -⟩ := handBack_eq_ok hrun
    refine ⟨rfl, ?_⟩
    rintro _ ⟨⟩
    exact (blockAt_direct f' ⟨k, hk⟩).symm
  · rw [dif_neg hk] at hrun
    change ¬ k < 15 at hk
    by_cases hbig : 0 < (k - SFS_NDIRECT) / SFS_DBPERIDB
    · rw [if_pos hbig] at hrun
      cases hrun
      exact ⟨rfl, nofun⟩
    · rw [if_neg hbig] at hrun
      have hoff : (k - SFS_NDIRECT) % SFS_DBPERIDB < 128 := Nat.mod_lt _ (by decide)
      have hk' : 15 + (k - SFS_NDIRECT) % SFS_DBPERIDB = k := by
        change ¬ 0 < (k - 15) / 128 at hbig
        change 15 + (k - 15) % 128 = k
        omega
      rw [← hk']
      exact bmapIndirect_lookup hoff hrun

theorem partialio_read {r : Option Errno} {len : Nat} (hrw : uio.rw = .read)
    (hlen : len ≤ uio.resid)
    (hrun : partialio env f uio (uio.offset % 512) len n = .ok ((f', uio', r), n')) :
    f' = f ∧ (r = none → uio' = uio.got len (slice f.byteAt uio.offset len)) := by
  unfold partialio at hrun
  split at hrun
  · cases hrun
  rename_i hfit
  obtain ⟨⟨g, rb⟩, m, hmap, hrest⟩ := stateT_bind_eq_ok hrun
  rw [show (uio.rw == Rw.write) = false by rw [hrw]; rfl] at hmap
  obtain ⟨rfl, hblock⟩ := bmap_lookup hmap
  cases rb with
  | error e =>
    cases hrest
    exact ⟨rfl, nofun⟩
  | ok b =>
    obtain rfl := hblock b rfl
    obtain ⟨rbuf, m₁, hfetch, hrest⟩ := stateT_bind_eq_ok hrest
    cases rbuf with
    | error e =>
      cases hrest
      exact ⟨rfl, nofun⟩
    | ok buf =>
      have hbuf : buf = if g.blockAt (uio.offset / 512) = 0 then zeros
          else g.fs.disk (g.blockAt (uio.offset / 512)) := by
        unfold fetch at hfetch
        by_cases hhole : g.blockAt (uio.offset / 512) = 0
        · rw [if_pos hhole, if_pos hrw] at hfetch
          cases hfetch
          rw [if_pos hhole]
        · rw [if_neg hhole] at hfetch
          obtain ⟨-, -, rfl, -⟩ := rblock_eq_ok.mp hfetch
          rw [if_neg hhole]
      dsimp only at hrest
      have hgot : (uio.got len (slice buf (uio.offset % 512) len)).rw = .read := hrw
      rw [uiomove_read hrw hlen] at hrest
      simp only [hgot] at hrest
      cases hrest
      refine ⟨rfl, fun _ => ?_⟩
      rw [slice_block (not_lt.mp hfit) rfl, hbuf]

end Read

theorem ioBody_inside {r : Option Errno} (hfit : uio.offset % 512 + uio.resid ≤ 512)
    (hpos : 0 < uio.resid) (hlt : uio.resid < 512)
    (hdone : ∀ g v m, partialio env f uio (uio.offset % 512) uio.resid n = .ok ((g, v, none), m) →
      v.resid = 0)
    (hrun : ioBody env f uio n = .ok ((f', uio', r), n')) :
    partialio env f uio (uio.offset % 512) uio.resid n = .ok ((f', uio', r), n') := by
  unfold ioBody at hrun
  by_cases hoff : uio.offset % 512 = 0
  · rw [if_neg (not_not_intro hoff)] at hrun
    unfold ioAligned at hrun
    rw [if_neg (ne_of_gt hpos), if_neg (not_not_intro hoff),
      show uio.resid / SFS_BLOCKSIZE = 0 from Nat.div_eq_of_lt hlt] at hrun
    have hrun : ioTail env f uio n = .ok ((f', uio', r), n') := hrun
    unfold ioTail at hrun
    rw [if_neg (not_le.mpr hlt), if_pos hpos] at hrun
    rwa [hoff]
  · have hmin : min (SFS_BLOCKSIZE - uio.offset % SFS_BLOCKSIZE) uio.resid = uio.resid :=
      min_eq_right (by change _ ≤ 512 - uio.offset % 512; omega)
    rw [if_pos hoff, hmin] at hrun
    obtain ⟨⟨g, v, r₁⟩, m, hone, hrest⟩ := stateT_bind_eq_ok hrun
    cases r₁ with
    | some e =>
      cases hrest
      exact hone
    | none =>
      have hrest : ioAligned env g v m = .ok ((f', uio', r), n') := hrest
      unfold ioAligned at hrest
      rw [if_pos (hdone g v m hone)] at hrest
      cases hrest
      exact hone

section

variable (hsize : f.sv.inode.size < 2 ^ 31)
include hsize

theorem readdir_dirent {r : Except Errno Dirent}
    (hslot : slot < f.sv.inode.size / 64) (hrun : readdir env f slot n = .ok ((f', r), n')) :
    f' = f ∧ ∀ d, r = .ok d → d = f.dirent slot := by
  obtain ⟨⟨g, v, r₁⟩, m, hio, hrest⟩ := stateT_bind_eq_ok hrun
  have hbody : ioBody env f ⟨.read, slot * 64, 64, []⟩ n = .ok ((g, v, r₁), m) := by
    have hend : slot * 64 + 64 < 2 ^ 31 := by omega
    unfold io DIRENT_SIZE SFS_NAMELEN at hio
    simp only [Nat.reduceAdd, toOff_of_lt hsize, toOff_of_lt hend] at hio
    rwa [if_neg (by omega), if_neg (by omega)] at hio
  have hpos : 0 < 64 := by decide
  have hone := ioBody_inside (by simp only; omega) hpos (by decide : 64 < 512)
    (fun g' v' m' h => by
      rw [(partialio_read rfl (le_rfl) h).2 rfl]
      rfl) hbody
  obtain ⟨rfl, hread⟩ := partialio_read rfl (le_rfl) hone
  cases r₁ with
  | some e =>
    cases hrest
    exact ⟨rfl, nofun⟩
  | none =>
    obtain rfl := hread rfl
    cases hrest
    refine ⟨rfl, ?_⟩
    rintro _ ⟨⟩
    rfl

theorem findFrom_found {i j : Nat} {found : Found}
    {r : Except Errno Found}
    (hj : i + j = f.sv.inode.size / 64) (hfound : FoundIn f.dirents name i found)
    (hrun : findFrom env name j i f found n = .ok ((f', r), n')) :
    f' = f ∧ ∀ found', r = .ok found' → FoundIn f.dirents name f.dirents.length found' := by
  induction j generalizing i found n with
  | zero =>
    cases hrun
    refine ⟨rfl, ?_⟩
    rintro _ ⟨⟩
    rw [dirents_length, ← hj]
    exact hfound
  | succ j ih =>
    have hlt : i < f.sv.inode.size / 64 := by omega
    obtain ⟨⟨g, r₁⟩, m, hread, hrest⟩ := stateT_bind_eq_ok hrun
    obtain ⟨rfl, hd⟩ := readdir_dirent hsize hlt hread
    have hi := getElem?_dirents hlt
    cases r₁ with
    | error e =>
      cases hrest
      exact ⟨rfl, nofun⟩
    | ok d =>
      obtain rfl := hd d rfl
      dsimp only at hrest
      by_cases hino : (g.dirent i).ino = SFS_NOINO
      · rw [if_pos hino] at hrest
        exact ih (by omega) (hfound.free hi hino) hrest
      · rw [if_neg hino] at hrest
        by_cases hname : (g.dirent i).name = name
        · rw [if_pos hname] at hrest
          split at hrest
          · cases hrest
          · exact ih (by omega) (hfound.add hi hino hname) hrest
        · rw [if_neg hname] at hrest
          exact ih (by omega) (hfound.skip hi fun _ => hname) hrest

theorem findname_found {r : Except Errno Found}
    (hrun : findname env f name n = .ok ((f', r), n')) :
    f' = f ∧ f.sv.inode.type = SFS_TYPE_DIR ∧
      ∀ found, r = .ok found → FoundIn f.dirents name f.dirents.length found := by
  obtain ⟨nentries, m, hcount, hrest⟩ := stateT_bind_eq_ok hrun
  unfold dirNentries at hcount
  split_ifs at hcount with htype hshort
  · cases hcount
  · cases hcount
  cases hcount
  have hstart : FoundIn f.dirents name 0 ⟨none, none⟩ :=
    ⟨nofun, fun _ _ hj => absurd hj (Nat.not_lt_zero _), nofun⟩
  obtain ⟨rfl, hfound⟩ := findFrom_found hsize (zero_add _) hstart hrest
  exact ⟨rfl, Decidable.not_not.mp htype, hfound⟩

end

/-! ## Writing -/

structure DirLike (f : File) : Prop where
  aligned : f.sv.inode.size % 64 = 0
  size : f.sv.inode.size ≤ 143 * 512
  tail : ∀ x, f.sv.inode.size ≤ x → f.byteAt x = 0

def SlotStored (env : Env) (f : File) (slot : Nat) (d : Dirent) (n : Nat) : Prop :=
  StoredAnyway env f ⟨.write, slot * 64, 64, d.encode⟩ n

def Idle (l l' : List Dirent) : Prop := l' = l ∨ l' = l ++ [⟨0, []⟩]

inductive SlotWrite (env : Env) (f : File) (slot : Nat) (d : Dirent) (n : Nat) (f' : File) :
    Option Errno → Prop where
  | done : f'.dirents = setSlot f.dirents slot d → ¬ SlotStored env f slot d n →
    SlotWrite env f slot d n f' none
  | stored {e : Errno} : f'.dirents = setSlot f.dirents slot d → SlotStored env f slot d n →
    SlotWrite env f slot d n f' (some e)
  | failed {e : Errno} : Idle f.dirents f'.dirents →
    (slot < f.dirents.length → f'.dirents = f.dirents) → ¬ SlotStored env f slot d n →
    SlotWrite env f slot d n f' (some e)

section Write

variable {f₁ : File} {q p : Nat} {r : Option Errno}

theorem Extends.setSize (h : Extends f f') (len : Nat) :
    Extends f { f' with sv := f'.sv.setSize len } :=
  ⟨⟨h.sane.used, h.sane.ind, h.sane.inj, h.sane.apart, h.sane.fits⟩, h.keeps, h.others, h.fresh,
    h.nblocks, h.stable.trans ⟨rfl, rfl, rfl, rfl, .inl rfl⟩⟩

structure Filled (f : File) (slot : Nat) (d : Dirent) (f' : File) (q p : Nat) : Prop
    extends Extends f f' where
  bytes : f'.byteAt = splice f.byteAt (slot * 64) (d.encode.take q)
  size : f'.sv.inode.size = max f.sv.inode.size (slot * 64 + p)
  bound : p = 0 ∨ slot * 64 + p ≤ 143 * 512

theorem Wrote.filled (hd : DirLike f)
    (h : Wrote f ⟨.write, slot * 64, 64, d.encode⟩ f₁ uio' q p)
    (hf : f' = if toOff f₁.sv.inode.size < (uio'.offset : Int) then
      { f₁ with sv := f₁.sv.setSize uio'.offset } else f₁) : Filled f slot d f' q p := by
  have hsize : f.sv.inode.size < 2 ^ 31 := lt_of_le_of_lt hd.size (by decide)
  obtain rfl := h.counted
  rw [h.size, toOff_of_lt hsize] at hf
  change f' = if (f.sv.inode.size : Int) < ((slot * 64 + p : Nat) : Int) then
    { f₁ with sv := f₁.sv.setSize (slot * 64 + p) } else f₁ at hf
  split_ifs at hf with hlong
  · subst hf
    refine ⟨h.toExtends.setSize _, h.bytes, ?_, h.bound⟩
    change slot * 64 + p = _
    omega
  · subst hf
    refine ⟨h.toExtends, h.bytes, ?_, h.bound⟩
    rw [h.size]
    omega

theorem Filled.dirLike (h : Filled f slot d f' q p) (hd : DirLike f)
    (hslot : slot ≤ f.sv.inode.size / 64) (hq : q ≤ p) (hp : p = 0 ∨ p = 64) : DirLike f' where
  aligned := by
    have := hd.aligned
    rw [h.size]
    omega
  size := by
    have := hd.size
    have := h.bound
    rw [h.size]
    omega
  tail x hx := by
    have hlen : (d.encode.take q).length ≤ q := length_take_le ..
    rw [h.size] at hx
    rw [h.bytes, splice, if_neg (by omega)]
    exact hd.tail x (by omega)

theorem Filled.stored (h : Filled f slot d f' 64 64) (hd : DirLike f) (hvalid : d.Valid)
    (hslot : slot ≤ f.sv.inode.size / 64) : f'.dirents = setSlot f.dirents slot d := by
  have hbytes := h.bytes
  rw [take_of_length_le (le_of_eq (d.encode_length hvalid))] at hbytes
  exact dirents_store hslot hd.aligned hvalid h.size hbytes

theorem decode_free : Dirent.decode (slice (fun _ => 0) 0 64) = ⟨0, []⟩ := by decide

theorem Filled.idle (h : Filled f slot d f' 0 p) (hd : DirLike f)
    (hslot : slot ≤ f.sv.inode.size / 64) (hp : p = 0 ∨ p = 64) :
    Idle f.dirents f'.dirents ∧ (slot < f.dirents.length → f'.dirents = f.dirents) := by
  have hbytes : f'.byteAt = f.byteAt := by rw [h.bytes, take_zero, splice_nil]
  have haligned := hd.aligned
  by_cases hnew : p = 64 ∧ slot = f.sv.inode.size / 64
  · obtain ⟨rfl, rfl⟩ := hnew
    have hlen : f'.sv.inode.size / 64 = f.sv.inode.size / 64 + 1 := by
      rw [h.size]
      omega
    have hfree : f.dirent (f.sv.inode.size / 64) = ⟨0, []⟩ := by
      rw [← decode_free]
      unfold File.dirent
      congr 1
      apply slice_congr
      intro x _
      exact hd.tail _ (by omega)
    constructor
    · right
      unfold File.dirents File.dirent at hfree ⊢
      rw [hlen, hbytes, range_succ, map_append, map_singleton, hfree]
    · intro hlt
      rw [dirents_length] at hlt
      exact absurd hlt (lt_irrefl _)
  · have hsame : f'.dirents = f.dirents := by
      have hsize : f'.sv.inode.size = f.sv.inode.size := by
        rw [h.size]
        omega
      unfold File.dirents File.dirent
      rw [hsize, hbytes]
    exact ⟨.inl hsame, fun _ => hsame⟩

theorem io_inside (h : Sane f) (hfull : uio.Full) (hfit : uio.offset % 512 + uio.resid ≤ 512)
    (hpos : 0 < uio.resid) (hlt : uio.resid < 512)
    (hrun : io env f uio n = .ok ((f', uio', r), n')) :
    ∃ f₁, piece env f uio n = .ok ((f₁, uio', r), n') ∧
      f' = if toOff f₁.sv.inode.size < (uio'.offset : Int) then
        { f₁ with sv := f₁.sv.setSize uio'.offset } else f₁ := by
  unfold io at hrun
  simp only [hfull.rw] at hrun
  obtain ⟨⟨f₁, uio₁, r₁⟩, m, hbody, hadjust⟩ := stateT_bind_eq_ok hrun
  have hone : piece env f uio n = .ok ((f₁, uio₁, r₁), m) := by
    rw [piece_inside hfit hlt]
    refine ioBody_inside hfit hpos hlt ?_ hbody
    intro g v m' hok
    rw [← piece_inside hfit hlt] at hok
    rw [(piece_none h hfull hok).1.counted, pieceLen_inside hfit]
    exact Nat.sub_self _
  split_ifs at hadjust with hlong
  · cases hadjust
    exact ⟨_, hone, (if_pos hlong).symm⟩
  · cases hadjust
    exact ⟨_, hone, (if_neg hlong).symm⟩

theorem writedir_slot (h : Sane f) (hd : DirLike f) (hvalid : d.Valid)
    (hslot : slot ≤ f.dirents.length) (hrun : writedir env f d slot n = .ok ((f', r), n')) :
    Extends f f' ∧ DirLike f' ∧ SlotWrite env f slot d n f' r := by
  rw [dirents_length] at hslot
  have hfull : Uio.Full ⟨.write, slot * 64, 64, d.encode⟩ := ⟨rfl, d.encode_length hvalid⟩
  have hfit : slot * 64 % 512 + 64 ≤ 512 := by omega
  have hlen : pieceLen ⟨.write, slot * 64, 64, d.encode⟩ = 64 := pieceLen_inside hfit
  obtain ⟨⟨g, v, r₁⟩, m, hio, hrest⟩ := stateT_bind_eq_ok hrun
  obtain ⟨f₁, hone, hg⟩ := io_inside h hfull hfit (by decide : 0 < 64) (by decide : 64 < 512) hio
  have heffect := (piece_piece h hfull hone).effect hfull
  cases heffect with
  | done hwrote _ hstored =>
    rw [hlen] at hwrote
    have hs := hwrote.filled hd hg
    dsimp only at hrest
    split_ifs at hrest
    · cases hrest
    · cases hrest
      exact ⟨hs.toExtends, hs.dirLike hd hslot (le_rfl) (.inr rfl),
        .done (hs.stored hd hvalid hslot) hstored⟩
  | refused hwrote _ hstored =>
    have hs := hwrote.filled hd hg
    cases hrest
    obtain ⟨hidle, hsame⟩ := hs.idle hd hslot (.inl rfl)
    exact ⟨hs.toExtends, hs.dirLike hd hslot (le_rfl) (.inl rfl), .failed hidle hsame hstored⟩
  | lost hwrote _ hstored =>
    rw [hlen] at hwrote
    have hs := hwrote.filled hd hg
    cases hrest
    obtain ⟨hidle, hsame⟩ := hs.idle hd hslot (.inr rfl)
    exact ⟨hs.toExtends, hs.dirLike hd hslot (Nat.zero_le _) (.inr rfl),
      .failed hidle hsame hstored⟩
  | stored hwrote hstored _ =>
    rw [hlen] at hwrote
    have hs := hwrote.filled hd hg
    cases hrest
    exact ⟨hs.toExtends, hs.dirLike hd hslot (le_rfl) (.inr rfl),
      .stored (hs.stored hd hvalid hslot) hstored⟩

end Write

def nameMap (l : List Dirent) (name : List UInt8) : Option Nat :=
  (l.find? fun d => d.ino ≠ SFS_NOINO ∧ d.name = name).map Dirent.ino

structure FreeSlot (l : List Dirent) (slot : Nat) (name : List UInt8) : Prop where
  le : slot ≤ l.length
  free : ∀ e, l[slot]? = some e → e.ino = 0
  new : ∀ (j : Nat) (e : Dirent), l[j]? = some e → e.ino ≠ 0 → e.name ≠ name

section Names

variable {l l' : List Dirent} {name : List UInt8} {ino : Nat}

theorem nameMap_eq_some (hl : DistinctNames l) :
    nameMap l name = some ino ↔ ino ≠ 0 ∧ ∃ i : Nat, l[i]? = some ⟨ino, name⟩ := by
  unfold nameMap
  rw [map_eq_some_iff]
  constructor
  · rintro ⟨⟨_, _⟩, hfind, rfl⟩
    have hpred := List.find?_some hfind
    obtain ⟨hino, rfl⟩ := of_decide_eq_true hpred
    exact ⟨hino, mem_iff_getElem?.mp (mem_of_find?_eq_some hfind)⟩
  · rintro ⟨hino, i, hi⟩
    have hsome : (l.find? fun d => d.ino ≠ SFS_NOINO ∧ d.name = name).isSome := by
      rw [List.find?_isSome]
      exact ⟨_, mem_iff_getElem?.mpr ⟨i, hi⟩, decide_eq_true ⟨hino, rfl⟩⟩
    obtain ⟨d, hd⟩ := isSome_iff_exists.mp hsome
    obtain ⟨j, hj⟩ := mem_iff_getElem?.mp (mem_of_find?_eq_some hd)
    have hpred := List.find?_some hd
    obtain ⟨hdino, hdname⟩ := of_decide_eq_true hpred
    obtain rfl := hl i j _ d hi hj hino hdino hdname.symm
    rw [hi] at hj
    cases hj
    exact ⟨_, hd, rfl⟩

theorem FreeSlot.distinct (h : FreeSlot l slot name) (hl : DistinctNames l) :
    DistinctNames (setSlot l slot ⟨ino, name⟩) :=
  distinctNames_setSlot hl h.le fun _ => h.new

theorem FreeSlot.nameMap (h : FreeSlot l slot name) (hl : DistinctNames l) (hino : ino ≠ 0) :
    nameMap (setSlot l slot ⟨ino, name⟩) = update (nameMap l) name (some ino) := by
  funext other
  apply Option.ext
  intro a
  rw [nameMap_eq_some (h.distinct hl)]
  by_cases hother : other = name
  · rw [hother, update_self, some_inj]
    constructor
    · rintro ⟨ha, i, hi⟩
      by_cases hslot : i = slot
      · rw [hslot, getElem?_setSlot_self h.le] at hi
        exact congrArg Dirent.ino (some.inj hi)
      · rw [getElem?_setSlot_of_ne h.le hslot] at hi
        exact absurd rfl (h.new i _ hi ha)
    · rintro rfl
      exact ⟨hino, slot, getElem?_setSlot_self h.le⟩
  · rw [update_of_ne hother, nameMap_eq_some hl]
    refine and_congr_right fun ha => exists_congr fun i => ?_
    by_cases hslot : i = slot
    · subst hslot
      rw [getElem?_setSlot_self h.le]
      refine iff_of_false ?_ fun hi => ha (h.free _ hi)
      rintro ⟨⟩
      exact hother rfl
    · rw [getElem?_setSlot_of_ne h.le hslot]

theorem lt_of_slot (hslot : l[slot]? = some d) : slot < l.length :=
  (List.getElem?_eq_some_iff.mp hslot).1

theorem distinct_clear (hl : DistinctNames l) (hslot : slot ≤ l.length) :
    DistinctNames (setSlot l slot ⟨0, []⟩) :=
  distinctNames_setSlot hl hslot nofun

theorem nameMap_clear (hl : DistinctNames l) (hslot : l[slot]? = some ⟨ino, name⟩)
    (hino : ino ≠ 0) : nameMap (setSlot l slot ⟨0, []⟩) = update (nameMap l) name none := by
  have hle := le_of_lt (lt_of_slot hslot)
  funext other
  apply Option.ext
  intro a
  rw [nameMap_eq_some (distinct_clear hl hle)]
  by_cases hother : other = name
  · rw [hother, update_self]
    refine iff_of_false ?_ nofun
    rintro ⟨ha, i, hi⟩
    by_cases hi' : i = slot
    · rw [hi', getElem?_setSlot_self hle] at hi
      exact ha (congrArg Dirent.ino (some.inj hi)).symm
    · rw [getElem?_setSlot_of_ne hle hi'] at hi
      exact hi' (hl i slot _ _ hi hslot ha hino rfl)
  · rw [update_of_ne hother, nameMap_eq_some hl]
    refine and_congr_right fun ha => exists_congr fun i => ?_
    by_cases hi : i = slot
    · subst hi
      rw [getElem?_setSlot_self hle, hslot]
      refine iff_of_false ?_ ?_
      · rintro ⟨⟩
        exact ha rfl
      · rintro ⟨⟩
        exact hother rfl
    · rw [getElem?_setSlot_of_ne hle hi]

theorem Idle.nameMap (h : Idle l l') : nameMap l' = nameMap l := by
  obtain rfl | rfl := h
  · rfl
  · funext name
    unfold Faults.nameMap
    simp

theorem Idle.links (h : Idle l l') (hino : ino ≠ 0) : links l' ino = links l ino := by
  obtain rfl | rfl := h
  · rfl
  · simp [Sfs.links, hino.symm]

end Names

def LinkStored (env : Env) (f : File) (name : List UInt8) (ino n : Nat) : Prop :=
  ∃ found m, findname env f name n = .ok ((f, .ok found), m) ∧ found.entry = none ∧
    name.length < SFS_NAMELEN ∧
    SlotStored env f (found.emptyslot.getD f.dirents.length) ⟨ino, name⟩ m

inductive Linking (env : Env) (f : File) (name : List UInt8) (ino n : Nat) (f' : File) :
    Except Errno Nat → Prop where
  | done {slot : Nat} : FreeSlot f.dirents slot name →
    f'.dirents = setSlot f.dirents slot ⟨ino, name⟩ → ¬ LinkStored env f name ino n →
    Linking env f name ino n f' (.ok slot)
  | stored {slot : Nat} {e : Errno} : FreeSlot f.dirents slot name →
    f'.dirents = setSlot f.dirents slot ⟨ino, name⟩ → LinkStored env f name ino n →
    Linking env f name ino n f' (.error e)
  | failed {e : Errno} : Idle f.dirents f'.dirents → ¬ LinkStored env f name ino n →
    Linking env f name ino n f' (.error e)

theorem FoundIn.freeSlot {l : List Dirent} {found : Found}
    (h : FoundIn l name l.length found) (hnone : found.entry = none) :
    FreeSlot l (found.emptyslot.getD l.length) name := by
  have hnew : ∀ (j : Nat) (e : Dirent), l[j]? = some e → e.ino ≠ 0 → e.name ≠ name := by
    intro j e he
    exact h.miss hnone j (lt_of_slot he) e he
  cases hempty : found.emptyslot with
  | none => exact ⟨le_rfl, by simp, hnew⟩
  | some j =>
    obtain ⟨e, he, hz⟩ := h.empty j hempty
    refine ⟨le_of_lt (lt_of_slot he), ?_, hnew⟩
    intro e' he'
    obtain rfl : e = e' := some.inj (he.symm.trans he')
    exact hz

theorem dirLink_linking {ino : Nat} {r : Except Errno Nat} (h : Sane f)
    (hd : DirLike f) (hino : ino < 2 ^ 32) (hname : 0 ∉ name)
    (hrun : dirLink env f name ino n = .ok ((f', r), n')) :
    Extends f f' ∧ DirLike f' ∧ Linking env f name ino n f' r := by
  have hsize : f.sv.inode.size < 2 ^ 31 := lt_of_le_of_lt hd.size (by decide)
  obtain ⟨⟨g, r₁⟩, m, hfind, hrest⟩ := stateT_bind_eq_ok hrun
  obtain ⟨rfl, -, hfound⟩ := findname_found hsize hfind
  -- the search is the one that `LinkStored` is about
  have hstored : LinkStored env g name ino n ↔ ∃ found, r₁ = .ok found ∧ found.entry = none ∧
      name.length < SFS_NAMELEN ∧
      SlotStored env g (found.emptyslot.getD g.dirents.length) ⟨ino, name⟩ m := by
    constructor
    · rintro ⟨found, m', hfind', hrest'⟩
      rw [hfind] at hfind'
      cases hfind'
      exact ⟨found, rfl, hrest'⟩
    · rintro ⟨found, rfl, hrest'⟩
      exact ⟨found, m, hfind, hrest'⟩
  cases r₁ with
  | error e =>
    cases hrest
    refine ⟨.refl h, hd, .failed (.inl rfl) ?_⟩
    rw [hstored]
    rintro ⟨_, ⟨⟩, _⟩
  | ok found =>
    dsimp only at hrest
    cases hentry : found.entry with
    | some entry =>
      rw [hentry] at hrest
      cases hrest
      refine ⟨.refl h, hd, .failed (.inl rfl) ?_⟩
      rw [hstored]
      rintro ⟨_, ⟨⟩, hnone, _⟩
      rw [hentry] at hnone
      cases hnone
    | none =>
      rw [hentry] at hrest
      have hfree := FoundIn.freeSlot (hfound found rfl) hentry
      by_cases hlong : SFS_NAMELEN < name.length + 1
      · rw [if_neg (by simp), if_pos hlong] at hrest
        cases hrest
        refine ⟨.refl h, hd, .failed (.inl rfl) ?_⟩
        rw [hstored]
        rintro ⟨_, ⟨⟩, _, hshort, _⟩
        exact absurd hlong (not_lt.mpr hshort)
      · rw [if_neg (by simp), if_neg hlong] at hrest
        have hshort : name.length < SFS_NAMELEN := Nat.lt_of_succ_le (not_lt.mp hlong)
        obtain ⟨nentries, m₁, hcount, hrest⟩ := stateT_bind_eq_ok hrest
        obtain ⟨hcount, rfl⟩ := stateT_lift_eq_ok hcount
        have hentries : nentries = g.dirents.length := by
          rw [dirents_length]
          unfold dirNentries at hcount
          split_ifs at hcount <;> cases hcount
          rfl
        subst hentries
        obtain ⟨⟨g₁, r₂⟩, m₂, hwrite, hret⟩ := stateT_bind_eq_ok hrest
        have hvalid : Dirent.Valid ⟨ino, name⟩ := ⟨hino, hshort, hname⟩
        obtain ⟨hext, hd', hslot⟩ := writedir_slot h hd hvalid hfree.le hwrite
        have hiff : LinkStored env g name ino n ↔
            SlotStored env g (found.emptyslot.getD g.dirents.length) ⟨ino, name⟩ m₁ := by
          rw [hstored]
          constructor
          · rintro ⟨_, ⟨⟩, _, _, hs⟩
            exact hs
          · intro hs
            exact ⟨found, rfl, hentry, hshort, hs⟩
        cases hslot with
        | done hset hnot =>
          cases hret
          exact ⟨hext, hd', .done hfree hset (hiff.not.mpr hnot)⟩
        | stored hset hs =>
          cases hret
          exact ⟨hext, hd', .stored hfree hset (hiff.mpr hs)⟩
        | failed hidle _ hnot =>
          cases hret
          exact ⟨hext, hd', .failed hidle (hiff.not.mpr hnot)⟩

end Os161.Sfs.Faults
