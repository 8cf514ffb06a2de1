import Os161.Sfs.Io
import Os161.Sfs.Volume

/-! # The root directory as a list of entries -/

open List Option

namespace Os161.Sfs

open Lib

def File.dirent (f : File) (slot : Nat) : Dirent := Dirent.decode (slice f.byteAt (slot * 64) 64)

def File.dirents (f : File) : List Dirent := (List.range (f.sv.inode.size / 64)).map f.dirent

structure DirShape (f : File) : Prop where
  type : f.sv.inode.type = SFS_TYPE_DIR
  aligned : f.sv.inode.size % 64 = 0
  size : f.sv.inode.size ≤ 143 * 512
  mapped : ∀ k, 512 * k < f.sv.inode.size → f.blockAt k ≠ 0

def DistinctNames (l : List Dirent) : Prop :=
  ∀ (i j : Nat) (d e : Dirent), l[i]? = some d → l[j]? = some e → d.ino ≠ 0 → e.ino ≠ 0 → d.name = e.name → i = j

structure Dirent.Valid (d : Dirent) : Prop where
  ino : d.ino < 2 ^ 32
  length : d.name.length < 60
  name : 0 ∉ d.name

variable {own own' : Owner} {f f' : File} {name : List UInt8} {slot ino : Nat} {d : Dirent}

theorem dirents_length (f : File) : f.dirents.length = f.sv.inode.size / 64 := by
  unfold File.dirents
  rw [length_map, length_range]

theorem getElem?_dirents (h : slot < f.sv.inode.size / 64) :
    f.dirents[slot]? = some (f.dirent slot) := by
  unfold File.dirents
  rw [List.getElem?_map, List.getElem?_range h, map_some]

theorem Dirent.encode_length (h : d.Valid) : d.encode.length = 64 := by
  have := h.length
  unfold Dirent.encode SFS_NAMELEN
  simp only [length_append, slice_length, length_replicate]
  omega

theorem Dirent.decode_encode (h : d.Valid) : Dirent.decode d.encode = d := by
  have hlen := h.length
  have hino : wordAt (fun x => d.encode.getD x 0) 0 = d.ino := by
    rw [← wordAt_ofWords (w := fun _ => d.ino) (k := 0) h.ino]
    apply wordAt_congr
    intro j hj
    have hget : (slice (ofWords fun _ => d.ino) 0 4)[4 * 0 + j]? =
        some (ofWords (fun _ => d.ino) (4 * 0 + j)) := by
      rw [getElem?_slice, if_pos (by omega), zero_add]
    unfold Dirent.encode
    rw [append_assoc, getD_append _ _ _ _ (by rw [slice_length]; omega),
      getD_eq_getElem?_getD, hget, getD_some]
  have hname : ((d.encode.drop 4).take 59).takeWhile (· ≠ 0) = d.name := by
    have hdrop : d.encode.drop 4 = d.name ++ List.replicate (60 - d.name.length) 0 := by
      exact drop_left' slice_length
    have htake : (d.name ++ List.replicate (60 - d.name.length) 0).take 59 =
        d.name ++ List.replicate (59 - d.name.length) 0 := by
      rw [take_append, take_of_length_le (by omega), take_replicate]
      congr 2
      omega
    rw [hdrop, htake, takeWhile_append_of_pos]
    · cases hz : 59 - d.name.length with
      | zero => simp
      | succ n => simp [replicate_succ]
    · intro c hc
      rw [decide_eq_true_eq]
      rintro rfl
      exact h.name hc
  unfold Dirent.decode
  rw [hino]
  exact congrArg (Dirent.mk d.ino) hname

theorem readdir_spec (h : Owns own f) (hd : DirShape f) (hslot : slot < f.sv.inode.size / 64) :
    readdir f slot = .ok (f, .ok (f.dirent slot)) := by
  have hread := io_read h hd.size (slot * 64) 64 (by have := hd.size; omega) []
  have hmin : min 64 (f.sv.inode.size - slot * 64) = 64 := by omega
  rw [hmin] at hread
  unfold readdir DIRENT_SIZE SFS_NAMELEN
  rw [hread, ok_bind]
  rfl

theorem dirNentries_spec (hd : DirShape f) : dirNentries f = .ok (f.sv.inode.size / 64) := by
  unfold dirNentries DIRENT_SIZE SFS_NAMELEN
  rw [if_neg (not_not_intro hd.type), if_neg (not_not_intro hd.aligned)]
  rfl

structure FoundIn (l : List Dirent) (name : List UInt8) (i : Nat) (found : Found) : Prop where
  hit : ∀ ino slot, found.entry = some (ino, slot) →
    slot < i ∧ l[slot]? = some ⟨ino, name⟩ ∧ ino ≠ 0
  miss : found.entry = none → ∀ j < i, ∀ d : Dirent, l[j]? = some d → d.ino ≠ 0 → d.name ≠ name
  empty : ∀ j, found.emptyslot = some j → ∃ d, l[j]? = some d ∧ d.ino = 0

variable {l : List Dirent} {i : Nat} {found : Found}

section

variable (h : FoundIn l name i found) (hi : l[i]? = some d)
include h hi

theorem FoundIn.skip
    (hother : d.ino ≠ 0 → d.name ≠ name) : FoundIn l name (i + 1) found where
  hit ino slot hentry := by
    obtain ⟨hlt, hrest⟩ := h.hit ino slot hentry
    exact ⟨Nat.lt_succ_of_lt hlt, hrest⟩
  miss hnone j hj e he := by
    obtain hlt | rfl := Nat.lt_succ_iff_lt_or_eq.mp hj
    · exact h.miss hnone j hlt e he
    · obtain rfl : d = e := some.inj (hi.symm.trans he)
      exact hother
  empty := h.empty

theorem FoundIn.free (hino : d.ino = 0) :
    FoundIn l name (i + 1) { found with emptyslot := some i } := by
  have hskip := h.skip hi (absurd hino)
  refine ⟨hskip.hit, hskip.miss, ?_⟩
  rintro j ⟨⟩
  exact ⟨d, hi, hino⟩

theorem FoundIn.add (hino : d.ino ≠ 0)
    (hname : d.name = name) :
    FoundIn l name (i + 1) { found with entry := some (d.ino, i) } where
  hit ino slot hentry := by
    obtain ⟨rfl, rfl⟩ := Prod.mk.inj (some.inj hentry)
    subst hname
    exact ⟨Nat.lt_succ_self i, hi, hino⟩
  miss := nofun
  empty := h.empty

end

theorem FoundIn.fresh (h : FoundIn l name i found) (hl : DistinctNames l) (hi : l[i]? = some d)
    (hino : d.ino ≠ 0) (hname : d.name = name) : found.entry = none := by
  cases hentry : found.entry with
  | none => rfl
  | some entry =>
    obtain ⟨ino, slot⟩ := entry
    obtain ⟨hlt, hslot, hne⟩ := h.hit ino slot hentry
    have := hl slot i _ d hslot hi hne hino hname.symm
    omega

theorem findFrom_spec (h : Owns own f) (hd : DirShape f) (hnames : DistinctNames f.dirents)
    {n : Nat} (hn : i + n = f.sv.inode.size / 64) (hfound : FoundIn f.dirents name i found) :
    ∃ found', findFrom name n i f found = .ok (f, .ok found') ∧
      FoundIn f.dirents name (f.sv.inode.size / 64) found' := by
  induction n generalizing i found with
  | zero =>
    subst hn
    exact ⟨found, rfl, hfound⟩
  | succ n ih =>
    have hlt : i < f.sv.inode.size / 64 := by omega
    have hi := getElem?_dirents hlt
    unfold findFrom
    rw [readdir_spec h hd hlt, ok_bind]
    by_cases hino : (f.dirent i).ino = 0
    · simp only [SFS_NOINO, if_pos hino]
      exact ih (by omega) (hfound.free hi hino)
    · by_cases hname : (f.dirent i).name = name
      · have hnone := hfound.fresh hnames hi hino hname
        simp only [SFS_NOINO, if_neg hino, if_pos hname, hnone, isSome_none,
          Bool.false_eq_true, if_false]
        exact ih (by omega) (hfound.add hi hino hname)
      · simp only [SFS_NOINO, if_neg hino, if_neg hname]
        exact ih (by omega) (hfound.skip hi fun _ => hname)

theorem findname_spec (h : Owns own f) (hd : DirShape f) (hnames : DistinctNames f.dirents)
    (name : List UInt8) :
    ∃ found, findname f name = .ok (f, .ok found) ∧
      FoundIn f.dirents name (f.sv.inode.size / 64) found := by
  unfold findname
  rw [dirNentries_spec hd, ok_bind]
  exact findFrom_spec h hd hnames (zero_add _) ⟨nofun, fun _ _ hj => absurd hj (by omega), nofun⟩

def setSlot (l : List Dirent) (slot : Nat) (d : Dirent) : List Dirent :=
  if slot < l.length then l.set slot d else l ++ [d]

theorem getElem?_setSlot_self (h : slot ≤ l.length) : (setSlot l slot d)[slot]? = some d := by
  unfold setSlot
  split
  · rename_i hlt
    rw [List.getElem?_set_self hlt]
  · have : slot = l.length := by omega
    rw [this, List.getElem?_concat_length]

theorem getElem?_setSlot_of_ne (h : slot ≤ l.length) (hne : i ≠ slot) :
    (setSlot l slot d)[i]? = l[i]? := by
  unfold setSlot
  split
  · rw [List.getElem?_set_ne hne.symm]
  · by_cases hi : i < l.length
    · rw [List.getElem?_append_left hi]
    · have hlen : (l ++ [d]).length ≤ i := by
        rw [length_append, length_singleton]
        omega
      rw [List.getElem?_eq_none hlen, List.getElem?_eq_none (not_lt.mp hi)]

theorem dirents_store (hslot : slot ≤ f.sv.inode.size / 64) (hd : f.sv.inode.size % 64 = 0)
    (hvalid : d.Valid) (hsize : f'.sv.inode.size = max f.sv.inode.size (slot * 64 + 64))
    (hbytes : f'.byteAt = splice f.byteAt (slot * 64) d.encode) :
    f'.dirents = setSlot f.dirents slot d := by
  have hlen := d.encode_length hvalid
  have hself : f'.dirent slot = d := by
    have hslice : slice (splice f.byteAt (slot * 64) d.encode) (slot * 64) d.encode.length =
        d.encode := slice_splice_self
    rw [hlen] at hslice
    unfold File.dirent
    rw [hbytes, hslice, d.decode_encode hvalid]
  have hother : ∀ j ≠ slot, f'.dirent j = f.dirent j := by
    intro j hj
    unfold File.dirent
    rw [hbytes, slice_splice_of_disjoint (by rw [hlen]; omega)]
  have hslotlen : slot ≤ f.dirents.length := by rwa [dirents_length]
  apply ext_getElem?
  intro j
  by_cases hj : j = slot
  · subst hj
    rw [getElem?_setSlot_self hslotlen, getElem?_dirents (by rw [hsize]; omega), hself]
  · rw [getElem?_setSlot_of_ne hslotlen hj]
    by_cases hlt : j < f.sv.inode.size / 64
    · rw [getElem?_dirents hlt, getElem?_dirents (by rw [hsize]; omega), hother j hj]
    · have hlen' : f'.dirents.length ≤ j := by
        rw [dirents_length, hsize]
        omega
      have hlenf : f.dirents.length ≤ j := by
        rw [dirents_length]
        omega
      rw [List.getElem?_eq_none hlen', List.getElem?_eq_none hlenf]

/-- The entry is in its slot, or there was an error at the end of the list, which is as before. -/
structure Slotted (own own' : Owner) (f f' : File) (slot : Nat) (d : Dirent) (e : Option Errno) :
    Prop extends Evolves own own' f f', DirShape f' where
  entries : f'.dirents = if e = none then setSlot f.dirents slot d else f.dirents
  room : e ≠ none → slot = f.dirents.length

theorem writedir_spec (h : Owns own f) (hd : DirShape f) (hslot : slot ≤ f.dirents.length)
    (hvalid : d.Valid) :
    ∃ own' f' e, writedir f d slot = .ok (f', e) ∧ Slotted own own' f f' slot d e := by
  rw [dirents_length] at hslot
  have hsize := hd.size
  have haligned := hd.aligned
  have hlen := d.encode_length hvalid
  have hfull : Uio.Full ⟨.write, slot * 64, 64, d.encode⟩ := ⟨rfl, hlen⟩
  obtain ⟨own', f', n, e, hio, hw⟩ := io_write h (by omega) hfull
  have hsize' : f'.sv.inode.size = max f.sv.inode.size (slot * 64 + n) := hw.size
  have htype : f'.sv.inode.type = SFS_TYPE_DIR := hw.stable.type.trans hd.type
  unfold writedir DIRENT_SIZE SFS_NAMELEN
  rw [hio, ok_bind]
  cases e with
  | none =>
    obtain rfl : n = 64 := hw.done rfl
    have htake : d.encode.take 64 = d.encode := take_of_length_le (le_of_eq hlen)
    have hlast := blockAt_lt (hw.mapped (slot * 64 + 63) (by simp only; omega) (by simp only; omega))
    refine ⟨own', f', none, rfl, hw.toEvolves, ⟨htype, ?_, ?_, ?_⟩, ?_, nofun⟩
    · omega
    · omega
    · intro k hk
      by_cases hold : 512 * k < f.sv.inode.size
      · exact hw.keeps k (hd.mapped k hold)
      · have hnew := hw.mapped (512 * k) (by simp only; omega) (by simp only; omega)
        rwa [Nat.mul_div_cancel_left k (by decide)] at hnew
    · apply dirents_store hslot haligned hvalid hsize'
      rw [hw.bytes, htake]
  | some e =>
    -- nothing was stored: an entry does not cross a block
    have hshort : n < 64 := (hw.short nofun).resolve_right (by simp)
    obtain rfl : n = 0 := by
      obtain hz | hstop := hw.stop nofun
      · exact hz
      · simp only at hstop
        omega
    have hhole : f.blockAt (slot * 64 / 512) = 0 := hw.hole nofun
    have hend : f.sv.inode.size ≤ slot * 64 := by
      by_contra hlt
      exact hd.mapped _ (by omega) hhole
    have hsame : f'.sv.inode.size = f.sv.inode.size := by omega
    have hbytes : f'.byteAt = f.byteAt := by rw [hw.bytes, take_zero, splice_nil]
    have hentries : f'.dirents = f.dirents := by
      unfold File.dirents File.dirent
      rw [hsame, hbytes]
    refine ⟨own', f', some e, rfl, hw.toEvolves, ⟨htype, hsame ▸ hd.aligned, hsame ▸ hd.size, ?_⟩,
      ?_, ?_⟩
    · intro k hk
      exact hw.keeps k (hd.mapped k (hsame ▸ hk))
    · rw [if_neg nofun, hentries]
    · intro _
      rw [dirents_length]
      omega

def links (l : List Dirent) (ino : Nat) : Nat := l.countP fun d => d.ino = ino

theorem links_setSlot (l : List Dirent) (slot : Nat) (d : Dirent) (ino : Nat) :
    links (setSlot l slot d) ino + links l[slot]?.toList ino =
      links l ino + if d.ino = ino then 1 else 0 := by
  unfold links setSlot
  by_cases hlt : slot < l.length
  · have hle : (if l[slot].ino = ino then 1 else 0) ≤ l.countP fun e => e.ino = ino := by
      split
      · rename_i hino
        exact countP_pos_iff.mpr ⟨l[slot], getElem_mem hlt, by simpa using hino⟩
      · exact Nat.zero_le _
    rw [if_pos hlt, countP_set hlt, List.getElem?_eq_getElem hlt]
    simp only [toList_some, countP_cons, countP_nil, decide_eq_true_eq]
    omega
  · rw [if_neg hlt, countP_append, List.getElem?_eq_none (not_lt.mp hlt)]
    simp only [toList_none, countP_cons, countP_nil, decide_eq_true_eq]
    omega

theorem distinctNames_setSlot (hl : DistinctNames l) (h : slot ≤ l.length)
    (hnew : d.ino ≠ 0 → ∀ (j : Nat) (e : Dirent), l[j]? = some e → e.ino ≠ 0 → e.name ≠ d.name) :
    DistinctNames (setSlot l slot d) := by
  intro i j a b ha hb hai hbi hab
  by_cases hi : i = slot
  · subst hi
    by_cases hj : j = i
    · exact hj.symm
    · rw [getElem?_setSlot_self h] at ha
      rw [getElem?_setSlot_of_ne h hj] at hb
      obtain rfl := some.inj ha
      exact absurd hab.symm (hnew hai j b hb hbi)
  · rw [getElem?_setSlot_of_ne h hi] at ha
    by_cases hj : j = slot
    · subst hj
      rw [getElem?_setSlot_self h] at hb
      obtain rfl := some.inj hb
      exact absurd hab (hnew hbi i a ha hai)
    · rw [getElem?_setSlot_of_ne h hj] at hb
      exact hl i j a b ha hb hai hbi hab

structure DirOk (f : File) : Prop extends DirShape f where
  names : DistinctNames f.dirents

def Added (l l' : List Dirent) (d : Dirent) : Except Errno Nat → Prop
  | .error _ => l' = l
  | .ok slot => slot ≤ l.length ∧ (∀ e, l[slot]? = some e → e.ino = 0) ∧ l' = setSlot l slot d

theorem dirLink_spec (h : Owns own f) (hd : DirOk f) (hino : ino < 2 ^ 32) (hname : 0 ∉ name) :
    ∃ own' f' r, dirLink f name ino = .ok (f', r) ∧ Evolves own own' f f' ∧ DirOk f' ∧
      Added f.dirents f'.dirents ⟨ino, name⟩ r := by
  obtain ⟨found, hfind, hin⟩ := findname_spec h hd.toDirShape hd.names name
  rw [← dirents_length] at hin
  unfold dirLink
  rw [hfind, ok_bind]
  cases hentry : found.entry with
  | some entry => exact ⟨own, f, .error .EEXIST, by simp [hentry]; rfl, .refl h, hd, rfl⟩
  | none =>
    by_cases hlong : 60 < name.length + 1
    · exact ⟨own, f, .error .ENAMETOOLONG, by simp [hentry, hlong]; rfl, .refl h, hd, rfl⟩
    · have hvalid : Dirent.Valid ⟨ino, name⟩ := ⟨hino, by simp only; omega, hname⟩
      have hslot : found.emptyslot.getD f.dirents.length ≤ f.dirents.length ∧
          ∀ e, f.dirents[found.emptyslot.getD f.dirents.length]? = some e → e.ino = 0 := by
        cases hempty : found.emptyslot with
        | none => simp
        | some j =>
          obtain ⟨e, he, hz⟩ := hin.empty j hempty
          refine ⟨le_of_lt (List.getElem?_eq_some_iff.mp he).1, ?_⟩
          intro e' he'
          obtain rfl : e = e' := some.inj (he.symm.trans he')
          exact hz
      obtain ⟨own', f', e, hwrite, hs⟩ := writedir_spec h hd.toDirShape hslot.1 hvalid
      have hnew : ∀ (j : Nat) (e : Dirent), f.dirents[j]? = some e → e.ino ≠ 0 → e.name ≠ name := by
        intro j e he
        exact hin.miss hentry j (List.getElem?_eq_some_iff.mp he).1 e he
      simp only [hentry, isSome_none, Bool.false_eq_true, if_false, SFS_NAMELEN, hlong,
        dirNentries_spec hd.toDirShape, ok_bind, ← dirents_length, hwrite]
      cases e with
      | some e =>
        have hsame : f'.dirents = f.dirents := by rw [hs.entries, if_neg nofun]
        refine ⟨own', f', .error e, rfl, hs.toEvolves, ⟨hs.toDirShape, ?_⟩, hsame⟩
        rw [hsame]
        exact hd.names
      | none =>
        have hset := hs.entries
        refine ⟨own', f', .ok _, rfl, hs.toEvolves, ⟨hs.toDirShape, ?_⟩, hslot.1, hslot.2, hset⟩
        rw [hset]
        exact distinctNames_setSlot hd.names hslot.1 fun _ => hnew

theorem dirUnlink_spec (h : Owns own f) (hd : DirOk f) (hslot : slot < f.dirents.length) :
    ∃ own' f', dirUnlink f slot = .ok (f', none) ∧ Evolves own own' f f' ∧ DirOk f' ∧
      f'.dirents = setSlot f.dirents slot ⟨0, []⟩ := by
  have hvalid : Dirent.Valid ⟨0, []⟩ := ⟨by decide, by decide, by simp⟩
  obtain ⟨own', f', e, hwrite, hs⟩ := writedir_spec h hd.toDirShape (le_of_lt hslot) hvalid
  obtain rfl : e = none := by
    by_contra he
    exact ne_of_lt hslot (hs.room he)
  have hset := hs.entries
  refine ⟨own', f', hwrite, hs.toEvolves, ⟨hs.toDirShape, ?_⟩, hset⟩
  rw [hset]
  exact distinctNames_setSlot hd.names (le_of_lt hslot) nofun

end Os161.Sfs
