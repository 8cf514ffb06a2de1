import Os161.Sfs.Invariant

/-!
# The steps the operations are made of

Each step works on one inode, and keeps the invariant up to the link counts that the next one sets
right.
-/

open Function List Option

namespace Os161.Sfs

open Lib

variable {own own' : Owner} {gap gap' : Nat → Int} {s s' : State} {fs : Fs} {f f' : File}
variable {size ino i j : Nat}

theorem loaded_set : Loaded (s.set f) j ↔ Loaded s j := by
  unfold Loaded State.set
  rw [map_key_put]

theorem sv_set (hi : Loaded s i) (hino : f.sv.ino = i) : (s.set f).sv i = f.sv := by
  subst hino
  unfold State.sv State.set
  rw [lookup_put_self (loaded_iff.mp hi)]
  rfl

theorem file_set (hi : Loaded s i) (hino : f.sv.ino = i) : (s.set f).file i = f :=
  congrArg (File.mk f.fs) (sv_set hi hino)

theorem set_file (hn : (s.vnodes.map Sv.ino).Nodup) (hi : Loaded s i) : s.set (s.file i) = s := by
  have hput : put Sv.ino s.vnodes (s.sv i) = s.vnodes := by
    apply put_self hn
    rw [sv_ino]
    exact hi.lookup
  unfold State.set State.file
  rw [hput]

def refs (s : State) (i : Nat) : Nat := ((lookup Sv.ino s.vnodes i).map Sv.refcount).getD 0

def bump (r : Nat → Nat) (i : Nat) : Nat → Nat := Function.update r i (r i + 1)

theorem bump_apply (r : Nat → Nat) (i j : Nat) : bump r i j = r j + if i = j then 1 else 0 := by
  simp only [bump, update_apply, eq_comm (a := j)]
  split <;> simp [*]

theorem bump_pos (r : Nat → Nat) (i : Nat) : 0 < bump r i i := by
  simp [bump_apply]

theorem bump_inj {r r' : Nat → Nat} (h : bump r i = bump r' i) : r = r' := by
  funext j
  simpa only [bump_apply, Nat.add_right_cancel_iff] using congrFun h j

theorem bump_update {r : Nat → Nat} {n : Nat} (h : n + 1 = r i) : bump (update r i n) i = r := by
  rw [bump, update_self, update_idem, h, update_eq_self]

theorem bump_comm (r : Nat → Nat) (i j : Nat) : bump (bump r i) j = bump (bump r j) i := by
  funext k
  simp only [bump_apply]
  exact add_right_comm ..

theorem refs_eq (hi : Loaded s i) : refs s i = (s.sv i).refcount := by
  rw [refs, hi.lookup]
  rfl

theorem refs_of_not_loaded (hi : ¬ Loaded s i) : refs s i = 0 := by
  rw [refs, lookup_eq_none.mpr hi]
  rfl

theorem Inv.loaded_iff_refs (h : Inv size own gap s) : Loaded s i ↔ 0 < refs s i := by
  refine ⟨fun hi => ?_, fun hpos => ?_⟩
  · rw [refs_eq hi]
    exact (h.good i hi.inUse).held hi
  · by_contra hi
    rw [refs_of_not_loaded hi] at hpos
    cases hpos

theorem refs_set (hi : Loaded s i) (hino : f.sv.ino = i) :
    refs (s.set f) = update (refs s) i f.sv.refcount := by
  funext j
  by_cases heq : j = i
  · subst heq
    rw [update_self, refs_eq (loaded_set.mpr hi), sv_set hi hino]
  · rw [update_of_ne heq, refs, refs]
    exact congrArg (fun o => (o.map Sv.refcount).getD 0) (lookup_put_of_ne (hino ▸ heq))

theorem refs_set_same (hi : Loaded s i) (hino : f.sv.ino = i)
    (href : f.sv.refcount = (s.sv i).refcount) : refs (s.set f) = refs s := by
  rw [refs_set hi hino, href, ← refs_eq hi, update_eq_self]

theorem refs_append {sv : Sv} (hnew : ¬ Loaded s sv.ino) (href : sv.refcount = 1) :
    refs { s with fs, vnodes := s.vnodes ++ [sv] } = bump (refs s) sv.ino := by
  have hnone : lookup Sv.ino s.vnodes sv.ino = none := lookup_eq_none.mpr hnew
  funext j
  rw [bump, refs_of_not_loaded hnew, refs]
  rw [lookup_append hnone]
  by_cases heq : j = sv.ino
  · subst heq
    rw [if_pos rfl, update_self]
    exact href
  · rw [if_neg heq, update_of_ne heq, refs]

theorem refs_remove (hn : (s.vnodes.map Sv.ino).Nodup) :
    refs { s with fs, vnodes := remove Sv.ino s.vnodes i } = update (refs s) i 0 := by
  funext j
  rw [refs]
  by_cases heq : j = i
  · subst heq
    rw [lookup_remove_self hn, update_self]
    rfl
  · rw [lookup_remove_of_ne heq, update_of_ne heq, refs]

theorem Local.set (h : Inv size own gap s) (hino : f.sv.ino = i) (hmap : MapOk own' f.fs)
    (hframe : Frame (Role.about i) own own' s.fs f.fs) : Local i own own' s (s.set f) where
  frame := hframe
  map := hmap
  others j hj := lookup_put_of_ne (hino ▸ hj)
  vnodes := by
    unfold State.set
    rw [map_key_put]
    exact h.vnodes
  superdirty := rfl

theorem Inv.setVnode (h : Inv size own gap s) (hi : Loaded s i) (sv' : Sv) (gap' : Nat → Int)
    {linkcount : Nat}
    (hino : sv'.ino = i) (hinode : sv'.inode = { (s.sv i).inode with linkcount })
    (hdirty : sv'.dirty = true ∨ sv'.dirty = (s.sv i).dirty ∧ linkcount = (s.sv i).inode.linkcount)
    (hheld : 0 < sv'.refcount) (hgap : ∀ j, j ≠ i → gap' j = gap j)
    (hcount : (linkcount : Int) - gap' i = (s.sv i).inode.linkcount - gap i) :
    Inv size own gap' (s.set ⟨s.fs, sv'⟩) ∧ (s.set ⟨s.fs, sv'⟩).entries = s.entries := by
  have hl : Local i own own s (s.set ⟨s.fs, sv'⟩) := .set h hino h.map (.refl ..)
  have hfile : (s.set ⟨s.fs, sv'⟩).file i = ⟨s.fs, sv'⟩ := file_set hi hino
  have hsv : (s.set ⟨s.fs, sv'⟩).sv i = sv' := sv_set hi hino
  have hblocks : File.blockAt ⟨s.fs, sv'⟩ = (s.file i).blockAt ∧
      File.byteAt ⟨s.fs, sv'⟩ = (s.file i).byteAt :=
    (h.good i hi.inUse).blocks.same rfl (by rw [hinode]; rfl) (by rw [hinode]; rfl)
      (fun _ _ _ _ => rfl)
  apply h.keep hl _ hi.inUse (fun _ => (loaded_set.mpr hi).inUse) _ _ hgap
  · rw [hsv, hinode]
    exact hcount
  · rw [hfile]
    exact ⟨by rw [hinode]; rfl, by rw [hinode]; rfl, by rw [hinode]; rfl, hblocks.1, hblocks.2⟩
  · rw [hsv]
    intro hclean
    obtain hd | ⟨hd, rfl⟩ := hdirty
    · rw [hd] at hclean
      cases hclean
    · rw [hinode]
      exact (h.good i hi.inUse).clean (hd ▸ hclean)
  · rw [hsv]
    exact fun _ => hheld

section

variable (h : Inv size own gap s)
include h

theorem Inv.evolved (he : Evolves own own' (s.file i) f') :
    f'.sv.ino = i ∧ Local i own own' s (s.set f') ∧
      ∀ b, own' b = some (.inode i) ↔ own b = some (.inode i) := by
  have hino : f'.sv.ino = i := he.stable.ino.trans (sv_ino s i)
  have hframe : Frame (Role.of i) own own' s.fs f'.fs := sv_ino s i ▸ he.frame
  refine ⟨hino, .set h hino he.owns.map (hframe.mono fun _ => .inr), ?_⟩
  intro b
  exact hframe.role b _ id

theorem Inv.goodEvolved (hi : Loaded s i)
    (he : Evolves own own' (s.file i) f') (hsize : f'.sv.inode.size < 2 ^ 31) :
    Good own' (s.set f') i := by
  obtain ⟨hino, hl, -⟩ := h.evolved he
  have hgood := h.good i hi.inUse
  have hframe : Frame (Role.of i) own own' s.fs f'.fs := sv_ino s i ▸ he.frame
  constructor
  · rw [file_set hi hino, sv_set hi hino]
    exact hino ▸ he.owns.file
  · rw [sv_set hi hino]
    exact he.stable.type.trans hgood.type
  · rw [sv_set hi hino]
    exact hsize
  · rw [sv_set hi hino]
    intro hclean
    obtain hd | (hsame : f'.sv = s.sv i) := he.stable.dirty
    · rw [hd] at hclean
      cases hclean
    · have hdisk : f'.fs.disk i = s.fs.disk i := hframe.disk i _ (h.inode hi.inUse) id
      rw [hsame] at hclean ⊢
      change Inode.decode (f'.fs.disk i) = _
      rw [hdisk]
      exact hgood.clean hclean
  · rw [sv_set hi hino]
    intro _
    rw [he.stable.refcount]
    exact hgood.held hi

theorem Inv.evolve (hi : Loaded s i) (hne : i ≠ SFS_ROOT_LOCATION)
    (he : Evolves own own' (s.file i) f') (hsize : f'.sv.inode.size < 2 ^ 31) :
    Inv size own' gap (s.set f') := by
  obtain ⟨hino, hl, hrole⟩ := h.evolved he
  have hin : InUse (s.set f') i := (loaded_set.mpr hi).inUse
  have huntouched := hl.untouched hne.symm
  have hentries := huntouched.entries h
  apply hl.inv h (huntouched.dir h)
  case huse => exact fun j hj => hl.inUse hentries hj
  case hlinks =>
    intro j _ _
    rw [hentries]
  case hinode =>
    intro b
    rw [hrole, h.inodes]
    exact and_congr_right fun _ => iff_of_true hi.inUse hin
  case howned => exact fun _ _ _ _ => hin
  case hgood => exact fun _ => h.goodEvolved hi he hsize
  case hcount =>
    intro _
    rw [sv_set hi hino, he.stable.linkcount, hentries]
    exact h.counts i hi.inUse

theorem Inv.evolve_entries (hne : i ≠ SFS_ROOT_LOCATION)
    (he : Evolves own own' (s.file i) f') : (s.set f').entries = s.entries :=
  ((h.evolved he).2.1.untouched hne.symm).entries h

theorem Inv.evolve_refs (hi : Loaded s i)
    (he : Evolves own own' (s.file i) f') : refs (s.set f') = refs s :=
  refs_set_same hi (h.evolved he).1 he.stable.refcount

theorem Inv.evolveRoot (hroot : Loaded s SFS_ROOT_LOCATION)
    (he : Evolves own own' (s.file SFS_ROOT_LOCATION) f') (hd : DirOk f')
    (hlinks : ∀ j, j ≠ 0 → (links f'.dirents j + gap' j : Int) = links s.entries j + gap j)
    (hgap : ∀ j, gap' j ≠ gap j → Loaded s j) : Inv size own' gap' (s.set f') := by
  obtain ⟨hino, hl, hrole⟩ := h.evolved he
  have hin : InUse (s.set f') SFS_ROOT_LOCATION := .inl rfl
  have hfile : (s.set f').file SFS_ROOT_LOCATION = f' := file_set hroot hino
  have hentries : (s.set f').entries = f'.dirents := by
    unfold State.entries
    rw [hfile]
  have hsize : f'.sv.inode.size < 2 ^ 31 := by
    have := hd.size
    omega
  apply hl.inv h
  case hdir =>
    rw [hfile]
    exact hd
  case huse =>
    intro j _
    unfold InUse Linked
    rw [loaded_set, hentries]
    by_cases hj : Loaded s j
    · simp [hj]
    · have hsame : gap' j = gap j := by
        by_contra hne
        exact hj (hgap j hne)
      refine or_congr_right (or_congr_left (and_congr_right fun hz => ?_))
      have := hlinks j hz
      omega
  case hlinks =>
    intro j _ hu
    rw [hentries]
    exact hlinks j (h.ne_zero hu)
  case hinode =>
    intro b
    rw [hrole, h.inodes]
    exact and_congr_right fun _ => iff_of_true (root_inUse s) hin
  case howned => exact fun _ _ _ _ => hin
  case hgood => exact fun _ => h.goodEvolved hroot he hsize
  case hcount =>
    intro _
    rw [sv_set hroot hino, he.stable.linkcount, hentries]
    have hold := h.counts _ (root_inUse s)
    have hnew := hlinks SFS_ROOT_LOCATION (by decide)
    change ((s.sv SFS_ROOT_LOCATION).inode.linkcount : Int) = _
    omega

end

theorem Inode.decode_encode {inode : Inode} (hsize : inode.size < 2 ^ 32)
    (htype : inode.type < 2 ^ 16) (hlinks : inode.linkcount < 2 ^ 16)
    (hdirect : ∀ k, inode.direct k < 2 ^ 32) (hindirect : inode.indirect < 2 ^ 32) :
    Inode.decode inode.encode = inode := by
  have hword : ∀ k, inode.word k < 2 ^ 32 → wordAt inode.encode k = inode.word k := by
    intro k hk
    exact wordAt_ofWords hk
  have h0 : wordAt inode.encode 0 = inode.size := hword 0 hsize
  have h1 : wordAt inode.encode 1 = inode.type * 2 ^ 16 + inode.linkcount := by
    apply hword 1
    change inode.type * 2 ^ 16 + inode.linkcount < 2 ^ 32
    omega
  have h17 : wordAt inode.encode 17 = inode.indirect := hword 17 hindirect
  have hd : ∀ k : Fin 15, wordAt inode.encode (2 + k) = inode.direct k := by
    intro k
    have hk : inode.word (2 + k) = inode.direct k := by
      unfold Inode.word
      rw [if_neg (by omega), if_neg (by omega), dif_pos (by simp [SFS_NDIRECT])]
      congr 1
      ext
      simp
    rw [hword _ (hk ▸ hdirect k), hk]
  unfold Inode.decode
  rw [h0, h1, h17]
  obtain ⟨size, type, linkcount, direct, indirect⟩ := inode
  simp only at hd htype hlinks ⊢
  congr 1
  · omega
  · omega
  · funext k
    exact hd k

section

variable (h : Inv size own gap s)
include h

theorem entries_length : s.entries.length ≤ 1144 := by
  have hsize := h.dir.size
  unfold State.entries
  rw [dirents_length]
  omega

theorem Inv.linkcount_lt (hu : InUse s i) (hgap : gap i ≤ 1) :
    (s.sv i).inode.linkcount < 2 ^ 16 - 1 := by
  have hcount := h.counts i hu
  have hle : links s.entries i ≤ s.entries.length := countP_le_length
  have hlen := entries_length h
  split at hcount <;> omega

theorem Inv.block_lt (hu : InUse s i) (k : Nat) : (s.file i).blockAt k < 2 ^ 32 := by
  by_cases hk : (s.file i).blockAt k = 0
  · rw [hk]
    decide
  · exact (h.map.lt ((h.good i hu).blocks.data_ne hk)).trans h.map.fits

theorem Inv.decode_encode (hu : InUse s i) (hgap : gap i ≤ 1) :
    Inode.decode (s.sv i).inode.encode = (s.sv i).inode := by
  have hgood := h.good i hu
  apply Inode.decode_encode
  · have := hgood.size
    omega
  · rw [hgood.type]
    split <;> decide
  · have := h.linkcount_lt hu hgap
    omega
  · intro k
    have hk := h.block_lt hu k
    rw [blockAt_direct] at hk
    exact hk
  · by_cases hz : (s.sv i).inode.indirect = 0
    · rw [hz]
      decide
    · exact (h.map.lt (hgood.blocks.ind_ne hz)).trans h.map.fits

theorem Inv.store (hi : Loaded s i) (hgap : gap i ≤ 1)
    (hs : s' = s.set ⟨s.fs.store i (s.sv i).inode.encode, { s.sv i with dirty := false }⟩) :
    Inv size own gap s' ∧ s'.entries = s.entries := by
  subst hs
  have hrole := h.inode hi.inUse
  have hino : ({ s.sv i with dirty := false } : Sv).ino = i := sv_ino s i
  have hl : Local i own own s
      (s.set ⟨s.fs.store i (s.sv i).inode.encode, { s.sv i with dirty := false }⟩) :=
    .set h hino h.map.store (.store hrole (.inl rfl))
  have hblocks : File.blockAt ⟨s.fs.store i (s.sv i).inode.encode, { s.sv i with dirty := false }⟩ =
      (s.file i).blockAt ∧
      File.byteAt ⟨s.fs.store i (s.sv i).inode.encode, { s.sv i with dirty := false }⟩ =
      (s.file i).byteAt := by
    apply (h.good i hi.inUse).blocks.same rfl
    case hdirect => rfl
    case hindirect => rfl
    case hdisk =>
      intro b r hb hr
      apply store_disk_of_ne
      rintro rfl
      obtain rfl : r = .inode b := some.inj (hb.symm.trans hrole)
      exact hr
  apply h.keep hl _ hi.inUse (fun _ => (loaded_set.mpr hi).inUse) _ _ (fun _ _ => rfl)
  · rw [sv_set hi hino]
  · rw [file_set hi hino]
    exact ⟨rfl, rfl, rfl, hblocks.1, hblocks.2⟩
  · rw [sv_set hi hino]
    intro _
    change Inode.decode ((s.fs.store i (s.sv i).inode.encode).disk i) = _
    rw [store_disk_self]
    exact h.decode_encode hi.inUse hgap
  · rw [sv_set hi hino]
    exact fun _ => (h.good i hi.inUse).held hi

end

/-! ## Into the table and out of it -/

theorem loaded_append {sv : Sv} :
    Loaded { s with fs, vnodes := s.vnodes ++ [sv] } j ↔ j = sv.ino ∨ Loaded s j := by
  unfold Loaded
  rw [map_append, mem_append, map_singleton, mem_singleton, or_comm]

theorem Inv.load (h : Inv size own gap s) (hu : InUse s i) (hi : ¬ Loaded s i)
    (hs : s' = { s with vnodes := s.vnodes ++ [⟨i, Inode.decode (s.fs.disk i), false, 1⟩] }) :
    Inv size own gap s' ∧ s'.entries = s.entries ∧ ∀ j, Loaded s' j ↔ j = i ∨ Loaded s j := by
  have hfresh : lookup Sv.ino s.vnodes i = none := lookup_eq_none.mpr hi
  have hlookup : ∀ j, lookup Sv.ino s'.vnodes j =
      if j = i then some ⟨i, Inode.decode (s.fs.disk i), false, 1⟩ else lookup Sv.ino s.vnodes j := by
    intro j
    rw [hs]
    exact lookup_append hfresh
  have hsv : s'.sv i = ⟨i, Inode.decode (s.fs.disk i), false, 1⟩ := by
    unfold State.sv
    rw [hlookup, if_pos rfl]
    rfl
  have hall : ∀ j, Loaded s' j ↔ j = i ∨ Loaded s j := by
    intro j
    rw [hs]
    exact loaded_append
  have hloaded : Loaded s' i := (hall i).mpr (.inl rfl)
  have hfs : s'.fs = s.fs := by rw [hs]
  have hl : Local i own own s s' := by
    refine ⟨hfs ▸ .refl .., hfs ▸ h.map, ?_, ?_, ?_⟩
    · intro j hj
      rw [hlookup, if_neg hj]
    · rw [hs]
      exact nodup_append h.vnodes hfresh
    · rw [hs]
  have hold : s.sv i = Sv.onDisk s.fs i := sv_of_not_loaded hi
  have hinode : (s'.sv i).inode = (s.sv i).inode := by
    rw [hsv, hold]
    rfl
  have hblocks : (s'.file i).blockAt = (s.file i).blockAt ∧ (s'.file i).byteAt = (s.file i).byteAt := by
    apply (h.good i hu).blocks.same rfl (congrArg Inode.direct hinode)
      (congrArg Inode.indirect hinode)
    intro b r _ _
    exact congrArg (fun fs : Fs => fs.disk b) hfs
  rw [← and_assoc]
  refine ⟨?_, hall⟩
  apply h.keep hl _ hu (fun _ => hloaded.inUse) _ _ (fun _ _ => rfl)
  · rw [hinode]
  · exact ⟨congrArg Inode.type hinode, congrArg Inode.size hinode, congrArg Inode.indirect hinode,
      hblocks.1, hblocks.2⟩
  · rw [hsv, hfs]
    exact fun _ => rfl
  · rw [hsv]
    exact fun _ => Nat.one_pos

theorem Inv.drop (h : Inv size own gap s) (hi : Loaded s i) (hgap : gap i = 0)
    (hclean : (s.sv i).dirty = false) (hlinks : (s.sv i).inode.linkcount ≠ 0)
    (hs : s' = { s with vnodes := remove Sv.ino s.vnodes i }) :
    Inv size own gap s' ∧ s'.entries = s.entries := by
  have hfs : s'.fs = s.fs := by rw [hs]
  have hgone : ¬ Loaded s' i := by
    rw [hs]
    exact lookup_eq_none.mp (lookup_remove_self h.vnodes)
  have hl : Local i own own s s' := by
    refine ⟨hfs ▸ .refl .., hfs ▸ h.map, ?_, ?_, ?_⟩
    · intro j hj
      rw [hs]
      exact lookup_remove_of_ne hj
    · rw [hs]
      exact nodup_remove h.vnodes
    · rw [hs]
  have hinode : (s'.sv i).inode = (s.sv i).inode := by
    rw [sv_of_not_loaded hgone, ← (h.good i hi.inUse).clean hclean, hfs]
    rfl
  have hblocks : (s'.file i).blockAt = (s.file i).blockAt ∧
      (s'.file i).byteAt = (s.file i).byteAt := by
    apply (h.good i hi.inUse).blocks.same rfl (congrArg Inode.direct hinode)
      (congrArg Inode.indirect hinode)
    intro b r _ _
    exact congrArg (fun fs : Fs => fs.disk b) hfs
  apply h.keep hl _ hi.inUse _ _ _ (fun _ _ => rfl)
  · rw [hinode]
  · exact ⟨congrArg Inode.type hinode, congrArg Inode.size hinode, congrArg Inode.indirect hinode,
      hblocks.1, hblocks.2⟩
  · intro hentries
    by_cases hroot : i = SFS_ROOT_LOCATION
    · exact .inl hroot
    · have hcount := h.counts i hi.inUse
      refine .inr (.inl ⟨h.ne_zero hi.inUse, ?_⟩)
      rw [hentries]
      omega
  · rw [sv_of_not_loaded hgone]
    exact fun _ => rfl
  · exact fun hloaded => absurd hloaded hgone

theorem Inv.free (h : Inv size own gap s) (hi : Loaded s i) (hgap : gap i = 0)
    (hlinks : (s.sv i).inode.linkcount = 0) (hnone : ∀ k, (s.file i).blockAt k = 0)
    (hind : (s.sv i).inode.indirect = 0)
    (hs : s' = { s with fs := s.fs.release i, vnodes := remove Sv.ino s.vnodes i }) :
    Inv size (update own i none) gap s' ∧ s'.entries = s.entries := by
  have hrole := h.inode hi.inUse
  have hcount := h.counts i hi.inUse
  have hroot : i ≠ SFS_ROOT_LOCATION := by
    rintro rfl
    omega
  have hgone : ¬ Loaded s' i := by
    rw [hs]
    exact lookup_eq_none.mp (lookup_remove_self h.vnodes)
  have hl : Local i own (update own i none) s s' := by
    rw [hs]
    exact ⟨.release hrole (.inl rfl), h.map.release hrole nofun, fun j hj => lookup_remove_of_ne hj,
      nodup_remove h.vnodes, rfl⟩
  have huntouched := hl.untouched hroot.symm
  have hentries := huntouched.entries h
  have hunused : ¬ InUse s' i := by
    rintro (heq | ⟨-, hpos⟩ | hloaded)
    · exact hroot heq
    · rw [hentries] at hpos
      omega
    · exact hgone hloaded
  have hblocks := (h.good i hi.inUse).blocks
  refine ⟨?_, hentries⟩
  apply hl.inv h (huntouched.dir h)
  case huse => exact fun j hj => hl.inUse hentries hj
  case hlinks =>
    intro j _ _
    rw [hentries]
  case hinode =>
    intro b
    refine iff_of_false ?_ fun hin => hunused hin.2
    by_cases hb : b = i
    · subst hb
      simp
    · rw [update_of_ne hb, h.inodes]
      exact fun hin => hb hin.1
  case howned =>
    intro b r hb hr
    by_cases hbi : b = i
    · subst hbi
      rw [update_self] at hb
      cases hb
    · rw [update_of_ne hbi] at hb
      have hz : b ≠ 0 := by
        rintro rfl
        obtain rfl : r = .super := some.inj (hb.symm.trans h.map.super)
        exact hr.elim
      exact absurd hb (hblocks.ne_of_zero hnone hind hz hr)
  case hgood => exact fun hin => absurd hin hunused
  case hcount => exact fun hin => absurd hin hunused

def Empty (inode : Inode) : Prop := inode.direct = (fun _ => 0) ∧ inode.indirect = 0

theorem Empty.blockAt (h : Empty f.sv.inode) (k : Nat) : f.blockAt k = 0 := by
  unfold File.blockAt
  rw [h.1, h.2]
  split
  · rfl
  · exact if_neg fun hk => hk.2 rfl

def newFile (ino : Nat) : Sv := ⟨ino, ⟨0, SFS_TYPE_FILE, 0, fun _ => 0, 0⟩, true, 1⟩

theorem Inv.make (h : Inv size own gap s) (hlt : i < s.fs.nblocks) (hz : i ≠ 0) (hnone : own i = none)
    (hgap : gap i = 0) (hs : s' = { s with fs := s.fs.take i, vnodes := s.vnodes ++ [newFile i] }) :
    Inv size (update own i (some (.inode i))) gap s' ∧
      s'.entries = s.entries ∧ ∀ j, Loaded s' j ↔ j = i ∨ Loaded s j := by
  have hunused : ¬ InUse s i := by
    intro hin
    rw [h.inode hin] at hnone
    cases hnone
  have hroot : i ≠ SFS_ROOT_LOCATION := fun heq => hunused (.inl heq)
  have hfresh : lookup Sv.ino s.vnodes i = none :=
    lookup_eq_none.mpr fun hloaded => hunused (.inr (.inr hloaded))
  have hlookup : ∀ j, lookup Sv.ino s'.vnodes j =
      if j = i then some (newFile i) else lookup Sv.ino s.vnodes j := by
    intro j
    rw [hs]
    exact lookup_append hfresh
  have hsv : s'.sv i = newFile i := by
    unfold State.sv
    rw [hlookup, if_pos rfl]
    rfl
  have hall : ∀ j, Loaded s' j ↔ j = i ∨ Loaded s j := by
    intro j
    rw [hs]
    exact loaded_append
  have hin : InUse s' i := .inr (.inr ((hall i).mpr (.inl rfl)))
  have hl : Local i own (update own i (some (.inode i))) s s' := by
    rw [hs]
    refine ⟨.take hnone (.inl rfl), h.map.take hlt hz, ?_, nodup_append h.vnodes hfresh, rfl⟩
    intro j hj
    have hj' := hlookup j
    rw [hs, if_neg hj] at hj'
    exact hj'
  have huntouched := hl.untouched hroot.symm
  have hentries := huntouched.entries h
  have hempty : Empty (s'.file i).sv.inode := by
    change Empty (s'.sv i).inode
    rw [hsv]
    exact ⟨rfl, rfl⟩
  -- no block belongs to an inode that was not in use
  have hno : ∀ b r, r.of i → update own i (some (.inode i)) b ≠ some r := by
    intro b r hr hb
    by_cases hbi : b = i
    · subst hbi
      rw [update_self] at hb
      obtain rfl := some.inj hb
      exact hr
    · rw [update_of_ne hbi] at hb
      exact hunused (h.owned b i r hb hr)
  refine ⟨?_, hentries, hall⟩
  apply hl.inv h (huntouched.dir h)
  case huse => exact fun j hj => hl.inUse hentries hj
  case hlinks =>
    intro j _ _
    rw [hentries]
  case hinode =>
    intro b
    by_cases hb : b = i
    · subst hb
      rw [update_self]
      exact iff_of_true rfl ⟨rfl, hin⟩
    · rw [update_of_ne hb, h.inodes]
      exact iff_of_false (fun hc => hb hc.1) fun hc => hb hc.1
  case howned => exact fun _ _ _ _ => hin
  case hgood =>
    intro _
    constructor
    · exact .of_zero hempty.blockAt hempty.2 hno
    · rw [hsv, if_neg hroot]
      rfl
    · rw [hsv]
      exact Nat.two_pow_pos 31
    · rw [hsv]
      nofun
    · rw [hsv]
      exact fun _ => Nat.one_pos
  case hcount =>
    intro _
    have hzero : links s.entries i = 0 := by
      by_contra hne
      exact hunused (.inr (.inl ⟨hz, Nat.pos_of_ne_zero hne⟩))
    rw [hsv, if_neg hroot, hgap, hentries, hzero]
    rfl

end Os161.Sfs
