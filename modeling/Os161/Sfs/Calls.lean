import Os161.Sfs.Update

/-! # The operations keep the invariant -/

open List

namespace Os161.Sfs

open Lib

def off (i : Nat) (d : Int) : Nat → Int := fun j => if j = i then d else 0

theorem off_self (i : Nat) (d : Int) : off i d i = d := if_pos rfl

theorem off_of_ne {i j : Nat} (d : Int) (h : j ≠ i) : off i d j = 0 := if_neg h

variable {own own' : Owner} {gap gap' : Nat → Int} {s s' : State} {f f' : File}
variable {size ino i j slot : Nat} {name : List UInt8} {fs fs' : Fs} {l : List Dirent}

theorem set_self (h : Inv size own gap s) (hi : Loaded s i) : s.set (s.file i) = s :=
  set_file h.vnodes hi

theorem onFile_eq {α : Type} {work : File → K (File × α)} {a : α} (hi : Loaded s i)
    (hwork : work (s.file i) = .ok (f', a)) : onFile s i work = .ok (s.set f', a) := by
  unfold onFile
  rw [hi.getVnode, ok_bind]
  change (work (s.file i) >>= _) = _
  rw [hwork]
  rfl

theorem incref_spec (h : Inv size own gap s) (hi : Loaded s i) :
    ∃ s', incref s i = .ok s' ∧ Inv size own gap s' ∧ s'.entries = s.entries ∧
      (∀ j, Loaded s' j ↔ Loaded s j) ∧ refs s' = bump (refs s) i := by
  obtain ⟨hinv, hentries⟩ := h.setVnode hi { s.sv i with refcount := (s.sv i).refcount + 1 } gap
    (sv_ino s i) rfl (.inr ⟨rfl, rfl⟩) (Nat.succ_pos _) (fun _ _ => rfl) rfl
  refine ⟨_, ?_, hinv, hentries, fun _ => loaded_set, ?_⟩
  · unfold incref
    rw [hi.getVnode]
    rfl
  · rw [refs_set hi (sv_ino s i), bump, refs_eq hi]

theorem findVnode_spec {vnodes : List Sv}
    (hused : ∀ sv ∈ vnodes, bused fs sv.ino = .ok true) (ino : Nat) :
    findVnode fs ino vnodes = .ok (decide (ino ∈ vnodes.map Sv.ino)) := by
  induction vnodes with
  | nil => rfl
  | cons sv vnodes ih =>
    unfold findVnode
    rw [hused sv mem_cons_self, ok_bind]
    by_cases heq : sv.ino = ino
    · simp [heq]
      rfl
    · rw [ih fun sv hsv => hused sv (mem_cons_of_mem _ hsv)]
      simp [heq, Ne.symm heq]

theorem Inv.used (h : Inv size own gap s) : ∀ sv ∈ s.vnodes, bused s.fs sv.ino = .ok true := by
  intro sv hsv
  have hloaded : Loaded s sv.ino := mem_map_of_mem hsv
  exact h.map.bused (h.inode hloaded.inUse)

theorem Inv.findVnode (h : Inv size own gap s) (ino : Nat) :
    findVnode s.fs ino s.vnodes = .ok (decide (Loaded s ino)) :=
  findVnode_spec h.used ino

theorem newVnode_load {inode : Inode}
    (htype : inode.type = SFS_TYPE_FILE ∨ inode.type = SFS_TYPE_DIR) :
    newVnode ino inode SFS_TYPE_INVAL = .ok ⟨ino, inode, false, 1⟩ := by
  exact if_pos htype

theorem Good.file_or_dir (h : Good own s i) :
    (s.sv i).inode.type = SFS_TYPE_FILE ∨ (s.sv i).inode.type = SFS_TYPE_DIR := by
  rw [h.type]
  split
  · exact .inr rfl
  · exact .inl rfl

theorem loadvnode_spec (h : Inv size own gap s) (hu : InUse s i) :
    ∃ s', loadvnode s i SFS_TYPE_INVAL = .ok s' ∧ Inv size own gap s' ∧ s'.entries = s.entries ∧
      Loaded s' i ∧ (∀ j, Loaded s j → Loaded s' j) ∧ refs s' = bump (refs s) i := by
  unfold loadvnode
  rw [h.findVnode, ok_bind]
  by_cases hi : Loaded s i
  · obtain ⟨s', hincref, hinv, hentries, hall, hrefs⟩ := incref_spec h hi
    refine ⟨s', ?_, hinv, hentries, (hall i).mpr hi, fun j => (hall j).mpr, hrefs⟩
    rw [if_pos (decide_eq_true hi), if_neg (fun hne => hne rfl)]
    exact hincref
  · obtain ⟨hinv, hentries, hall⟩ := h.load hu hi rfl
    refine ⟨_, ?_, hinv, hentries, (hall i).mpr (.inl rfl), fun j hj => (hall j).mpr (.inr hj),
      refs_append hi rfl⟩
    have htype := (h.good i hu).file_or_dir
    rw [sv_of_not_loaded hi] at htype
    have hnew : newVnode i (Inode.decode (s.fs.disk i)) SFS_TYPE_INVAL =
      .ok ⟨i, Inode.decode (s.fs.disk i), false, 1⟩ := newVnode_load htype
    rw [decide_eq_false hi, if_neg Bool.false_ne_true, h.map.bused (h.inode hu), ok_bind,
      if_neg (by decide), h.map.rblock (h.inode hu), ok_bind, hnew, ok_bind]
    rfl

theorem getroot_spec (h : Inv size own gap s) :
    ∃ s', getroot s = .ok s' ∧ Inv size own gap s' ∧ s'.entries = s.entries ∧
      refs s' = bump (refs s) SFS_ROOT_LOCATION := by
  obtain ⟨s', hload, hinv, hentries, -, -, hrefs⟩ := loadvnode_spec h (root_inUse s)
  exact ⟨s', hload, hinv, hentries, hrefs⟩

theorem decode_zeros : Inode.decode zeros = ⟨0, 0, 0, fun _ => 0, 0⟩ := by
  unfold Inode.decode zeros
  simp

theorem newVnode_make : newVnode ino (Inode.decode zeros) SFS_TYPE_FILE = .ok (newFile ino) := by
  rw [decode_zeros]
  rfl

theorem makeobj_spec (h : Inv size own 0 s) : makeobj s SFS_TYPE_FILE = .ok (s, .error .ENOSPC) ∨
      ∃ own' s' ino, makeobj s SFS_TYPE_FILE = .ok (s', .ok ino) ∧ Inv size own' 0 s' ∧
        s'.entries = s.entries ∧ Loaded s' ino ∧ (∀ j, Loaded s j → Loaded s' j) ∧
        ino ≠ SFS_ROOT_LOCATION ∧ refs s' = bump (refs s) ino := by
  unfold makeobj
  obtain ⟨hfull, -⟩ | ⟨ino, hlt, hz, hnone, hballoc⟩ := h.map.balloc
  · left
    rw [hfull]
    rfl
  · right
    obtain ⟨hinv, hentries, hall⟩ := h.make hlt hz hnone rfl rfl
    have hunused : ¬ InUse s ino := by
      intro hin
      rw [h.inode hin] at hnone
      cases hnone
    have hfresh : ¬ Loaded s ino := fun hloaded => hunused hloaded.inUse
    refine ⟨_, _, ino, ?_, hinv, hentries, (hall ino).mpr (.inl rfl),
      fun j hj => (hall j).mpr (.inr hj), fun heq => hunused (.inl heq), refs_append hfresh rfl⟩
    have hmap := hinv.map
    have hfind : findVnode (s.fs.take ino) ino s.vnodes = .ok false := by
      rw [findVnode_spec]
      · exact congrArg Except.ok (decide_eq_false hfresh)
      intro sv hsv
      have hloaded : Loaded s sv.ino := mem_map_of_mem hsv
      exact hmap.bused (hinv.inode ((hall sv.ino).mpr (.inr hloaded)).inUse)
    have hrole := hinv.inode ((hall ino).mpr (.inl rfl)).inUse
    rw [hballoc, ok_bind]
    have hload : loadvnode { s with fs := s.fs.take ino } ino SFS_TYPE_FILE =
        .ok { s with fs := s.fs.take ino, vnodes := s.vnodes ++ [newFile ino] } := by
      unfold loadvnode
      rw [hfind, ok_bind, if_neg Bool.false_ne_true, hmap.bused hrole, ok_bind,
        if_neg (by decide), hmap.rblock hrole, ok_bind, take_disk_self, newVnode_make, ok_bind]
      rfl
    change (loadvnode { s with fs := s.fs.take ino } ino SFS_TYPE_FILE >>= _) = _
    rw [hload]
    rfl

def Entered (size : Nat) (own : Owner) (s s' : State) (d : Dirent) (r : Except Errno Nat) : Prop :=
  Added s.entries s'.entries d r ∧
    Inv size own (match r with | .ok _ => off d.ino (-1) | .error _ => 0) s'

theorem links_added {l' : List Dirent} {d : Dirent} (h : Added l l' d (.ok slot)) (hj : j ≠ 0) :
    links l' j = links l j + if d.ino = j then 1 else 0 := by
  obtain ⟨-, hempty, rfl⟩ := h
  rw [← links_setSlot, Nat.left_eq_add]
  cases hslot : l[slot]? with
  | none => rfl
  | some e =>
    unfold links
    simp [hempty e hslot, hj.symm]

theorem links_erased (hslot : l[slot]? = some ⟨ino, name⟩) (hj : j ≠ 0) :
    links (setSlot l slot ⟨0, []⟩) j + (if ino = j then 1 else 0) = links l j := by
  have hset := links_setSlot l slot ⟨0, []⟩ j
  rw [hslot, if_neg hj.symm] at hset
  rw [add_zero] at hset
  rw [← hset]
  unfold links
  simp

theorem dirLink_root (h : Inv size own 0 s) (hroot : Loaded s SFS_ROOT_LOCATION) (hi : Loaded s ino)
    (hname : 0 ∉ name) :
    ∃ own' s' r, onFile s SFS_ROOT_LOCATION (dirLink · name ino) = .ok (s', r) ∧
      (∀ j, Loaded s' j ↔ Loaded s j) ∧ refs s' = refs s ∧
      Entered size own' s s' ⟨ino, name⟩ r := by
  have hino : ino < 2 ^ 32 := (h.map.lt (h.inode hi.inUse)).trans h.map.fits
  obtain ⟨own', f', r, hlink, he, hd, hadded⟩ :=
    dirLink_spec (h.owns (root_inUse s)) h.dir hino hname
  have hentries : (s.set f').entries = f'.dirents := by
    unfold State.entries
    rw [file_set hroot (h.evolved he).1]
  refine ⟨own', s.set f', r, onFile_eq hroot hlink, fun _ => loaded_set, h.evolve_refs hroot he,
    ?_, ?_⟩
  · rw [hentries]
    exact hadded
  · cases r with
    | error e =>
      apply h.evolveRoot hroot he hd
      · intro j _
        rw [show f'.dirents = s.entries from hadded]
      · exact fun j hne => absurd rfl hne
    | ok slot =>
      apply h.evolveRoot hroot he hd
      · intro j hj
        rw [links_added hadded hj]
        change ((links s.entries j + if ino = j then 1 else 0 : Nat) : Int) + off ino (-1) j = _
        by_cases heq : ino = j
        · subst heq
          rw [if_pos rfl, off_self]
          simp
        · rw [if_neg heq, off_of_ne _ (Ne.symm heq)]
          rfl
      · intro j hne
        by_cases heq : j = ino
        · subst heq
          exact hi
        · exact absurd (off_of_ne (-1) heq) hne

theorem dirUnlink_root (h : Inv size own 0 s) (hroot : Loaded s SFS_ROOT_LOCATION) (hi : Loaded s ino)
    (hslot : s.entries[slot]? = some ⟨ino, name⟩) :
    ∃ own' s', unlinkSlot s slot = .ok (s', none) ∧ (∀ j, Loaded s' j ↔ Loaded s j) ∧
      refs s' = refs s ∧ s'.entries = setSlot s.entries slot ⟨0, []⟩ ∧ Inv size own' (off ino 1) s' := by
  have hlt : slot < s.entries.length := (List.getElem?_eq_some_iff.mp hslot).1
  obtain ⟨own', f', hunlink, he, hd, hset⟩ := dirUnlink_spec (h.owns (root_inUse s)) h.dir hlt
  refine ⟨own', s.set f', onFile_eq hroot hunlink, fun _ => loaded_set, h.evolve_refs hroot he, ?_, ?_⟩
  · unfold State.entries
    rw [file_set hroot (h.evolved he).1]
    exact hset
  apply h.evolveRoot hroot he hd
  · intro j hj
    have herased := links_erased hslot hj
    rw [hset, ← herased]
    change (links (setSlot s.entries slot ⟨0, []⟩) j : Int) + off ino 1 j = _
    by_cases heq : ino = j
    · subst heq
      rw [if_pos rfl, off_self]
      simp
    · rw [if_neg heq, off_of_ne _ (Ne.symm heq)]
      rfl
  · intro j hne
    by_cases heq : j = ino
    · subst heq
      exact hi
    · exact absurd (off_of_ne 1 heq) hne

theorem addLink_spec (h : Inv size own (off i (-1)) s) (hi : Loaded s i) :
    ∃ s', addLink s i = .ok s' ∧ (∀ j, Loaded s' j ↔ Loaded s j) ∧ Inv size own 0 s' ∧
      s'.entries = s.entries ∧ refs s' = refs s := by
  have hlt := h.linkcount_lt hi.inUse (by rw [off_self]; decide)
  have hmod : ((s.sv i).inode.linkcount + 1) % 2 ^ 16 = (s.sv i).inode.linkcount + 1 := by omega
  obtain ⟨hinv, hentries⟩ := h.setVnode hi
    { s.sv i with
      inode := { (s.sv i).inode with linkcount := (s.sv i).inode.linkcount + 1 }, dirty := true }
    0 (sv_ino s i) rfl (.inl rfl) ((h.good i hi.inUse).held hi)
    (fun j hj => (off_of_ne _ hj).symm) (by rw [off_self, Pi.zero_apply]; omega)
  refine ⟨_, ?_, fun _ => loaded_set, hinv, hentries, refs_set_same hi (sv_ino s i) rfl⟩
  unfold addLink
  rw [hi.getVnode, ok_bind, hmod]
  rfl

theorem dropLink_spec (h : Inv size own (off i 1) s) (hi : Loaded s i) :
    ∃ s', dropLink s i = .ok s' ∧ (∀ j, Loaded s' j ↔ Loaded s j) ∧ Inv size own 0 s' ∧
      s'.entries = s.entries ∧ refs s' = refs s := by
  have hcount := h.counts i hi.inUse
  have hpos : (s.sv i).inode.linkcount ≠ 0 := by
    rw [off_self] at hcount
    split at hcount <;> omega
  obtain ⟨hinv, hentries⟩ := h.setVnode hi
    { s.sv i with
      inode := { (s.sv i).inode with linkcount := (s.sv i).inode.linkcount - 1 }, dirty := true }
    0 (sv_ino s i) rfl (.inl rfl) ((h.good i hi.inUse).held hi)
    (fun j hj => (off_of_ne _ hj).symm) (by rw [off_self, Pi.zero_apply]; omega)
  refine ⟨_, ?_, fun _ => loaded_set, hinv, hentries, refs_set_same hi (sv_ino s i) rfl⟩
  unfold dropLink
  rw [hi.getVnode, ok_bind, if_neg hpos]
  rfl

theorem syncInode_spec (h : Inv size own gap s) (hi : Loaded s i) (hgap : gap i ≤ 1) :
    ∃ s', syncInode s i = .ok s' ∧ (∀ j, Loaded s' j ↔ Loaded s j) ∧ Inv size own gap s' ∧
      s'.sv i = { s.sv i with dirty := false } ∧ s'.entries = s.entries ∧ refs s' = refs s := by
  unfold syncInode
  rw [hi.getVnode, ok_bind]
  by_cases hd : (s.sv i).dirty = true
  · obtain ⟨hinv, hentries⟩ := h.store hi hgap rfl
    refine ⟨_, ?_, fun _ => loaded_set, hinv, sv_set hi (sv_ino s i), hentries,
      refs_set_same hi (sv_ino s i) rfl⟩
    rw [if_pos hd, h.map.wblock (h.inode hi.inUse)]
    rfl
  · refine ⟨s, if_neg hd, fun _ => Iff.rfl, h, ?_, rfl, rfl⟩
    rw [Bool.not_eq_true] at hd
    rw [← hd]

theorem discard_spec (h : Inv size own 0 s) (hi : Loaded s i)
    (hempty : (s.sv i).inode.linkcount = 0 → Empty (s.sv i).inode) :
    ∃ own' s', discard s i = .ok s' ∧ Inv size own' 0 s' ∧ s'.entries = s.entries ∧
      refs s' = Function.update (refs s) i 0 := by
  obtain ⟨s', hsync, hall, hinv, hsv, hentries, hrefs⟩ := syncInode_spec h hi Int.one_nonneg
  have hi' : Loaded s' i := (hall i).mpr hi
  unfold discard
  rw [hsync, ok_bind, hi'.getVnode, ok_bind]
  have hcount : (s'.sv i).inode.linkcount = (s.sv i).inode.linkcount := by rw [hsv]
  by_cases hz : (s.sv i).inode.linkcount = 0
  · have hnone : Empty (s'.sv i).inode := by
      rw [hsv]
      exact hempty hz
    obtain ⟨hfree, hsame⟩ :=
      hinv.free hi' rfl (hcount.trans hz) (fun k => Empty.blockAt hnone k) hnone.2 rfl
    refine ⟨_, _, ?_, hfree, hsame.trans hentries, hrefs ▸ refs_remove hinv.vnodes⟩
    rw [if_pos (hcount.trans hz), hinv.map.bfree (hinv.inode hi'.inUse)]
    rfl
  · obtain ⟨hdrop, hsame⟩ := hinv.drop hi' rfl (by rw [hsv]) (hcount ▸ hz) rfl
    refine ⟨own, _, ?_, hdrop, hsame.trans hentries, hrefs ▸ refs_remove hinv.vnodes⟩
    rw [if_neg (hcount ▸ hz)]
    rfl

theorem Truncated.toEmpty (h : Truncated own own' f f' 0) : Empty f'.sv.inode := by
  obtain ⟨hblocks, hind⟩ := h.nothing
  refine ⟨?_, hind⟩
  funext k
  rw [← blockAt_direct, hblocks]

theorem onFile_dir (h : Inv size own 0 s) (hroot : Loaded s SFS_ROOT_LOCATION)
    (work : File → K (File × Option Errno)) :
    onFile s SFS_ROOT_LOCATION (fun f =>
      if f.sv.inode.type = SFS_TYPE_DIR then pure (f, some .EISDIR) else work f) =
      .ok (s, some .EISDIR) := by
  conv_rhs => rw [← set_self h hroot]
  apply onFile_eq hroot
  exact if_pos h.dir.type

section

variable (h : Inv size own 0 s) (hi : Loaded s i)
include h hi

theorem onFile_file (hne : i ≠ SFS_ROOT_LOCATION)
    {work : File → K (File × Option Errno)} {r : Option Errno}
    (hwork : work (s.file i) = .ok (f', r)) :
    onFile s i (fun f =>
      if f.sv.inode.type = SFS_TYPE_DIR then pure (f, some .EISDIR) else work f) =
      .ok (s.set f', r) := by
  apply onFile_eq hi
  have htype : (s.file i).sv.inode.type ≠ SFS_TYPE_DIR := by
    have hgood := (h.good i hi.inUse).type
    rw [if_neg hne] at hgood
    change (s.sv i).inode.type ≠ _
    rw [hgood]
    decide
  rw [if_neg htype]
  exact hwork

theorem vopTruncate_file (hne : i ≠ SFS_ROOT_LOCATION)
    {len : Nat} (hlen : len < 2 ^ 31) :
    ∃ own' f', vopTruncate s i len = .ok (s.set f', none) ∧ Inv size own' 0 (s.set f') ∧
      Truncated own own' (s.file i) f' len := by
  obtain ⟨own', f', htrunc, ht⟩ := truncate_spec (h.owns hi.inUse) len
  have hsize : f'.sv.inode.size < 2 ^ 31 := by
    rw [ht.size]
    exact hlen
  refine ⟨own', f', ?_, h.evolve hi hne ht.toEvolves hsize, ht⟩
  apply onFile_file h hi hne
  rw [htrunc]
  rfl

theorem reclaim_spec (href : (s.sv i).refcount = 1) :
    ∃ own' s', reclaim s i = .ok (s', none) ∧ Inv size own' 0 s' ∧ s'.entries = s.entries ∧
      refs s' = Function.update (refs s) i 0 := by
  unfold reclaim
  rw [hi.getVnode, ok_bind, if_neg (not_not_intro href)]
  by_cases hz : (s.sv i).inode.linkcount = 0
  · have hne : i ≠ SFS_ROOT_LOCATION := by
      rintro rfl
      have hcount := h.counts _ hi.inUse
      rw [if_pos rfl, Pi.zero_apply] at hcount
      omega
    obtain ⟨own₁, f', htrunc, hinv, ht⟩ := vopTruncate_file h hi hne (by decide : 0 < 2 ^ 31)
    have hi' : Loaded (s.set f') i := loaded_set.mpr hi
    obtain ⟨own₂, s₂, hdiscard, hinv₂, hentries, hrefs⟩ := discard_spec hinv hi' fun _ => by
      rw [sv_set hi (h.evolved ht.toEvolves).1]
      exact ht.toEmpty
    rw [h.evolve_entries hne ht.toEvolves] at hentries
    rw [h.evolve_refs hi ht.toEvolves] at hrefs
    refine ⟨own₂, s₂, ?_, hinv₂, hentries, hrefs⟩
    rw [if_pos hz, htrunc, ok_bind]
    change (discard (s.set f') i >>= _) = _
    rw [hdiscard]
    rfl
  · obtain ⟨own₁, s₁, hdiscard, hspec⟩ := discard_spec h hi fun hc => absurd hc hz
    refine ⟨own₁, s₁, ?_, hspec⟩
    rw [if_neg hz, hdiscard]
    rfl

theorem decref_spec : ∃ own' s', decref s i = .ok s' ∧ Inv size own' 0 s' ∧ s'.entries = s.entries ∧
      refs s = bump (refs s') i := by
  have hheld := (h.good i hi.inUse).held hi
  unfold decref
  rw [hi.getVnode, ok_bind, if_neg (ne_of_gt hheld)]
  by_cases hmany : 1 < (s.sv i).refcount
  · obtain ⟨hinv, hentries⟩ := h.setVnode hi { s.sv i with refcount := (s.sv i).refcount - 1 } 0
      (sv_ino s i) rfl (.inr ⟨rfl, rfl⟩) (Nat.sub_pos_of_lt hmany) (fun _ _ => rfl) rfl
    refine ⟨own, _, ?_, hinv, hentries, ?_⟩
    · rw [if_pos hmany]
      rfl
    · have hpred : (s.sv i).refcount - 1 + 1 = refs s i := by
        rw [refs_eq hi]
        omega
      rw [refs_set hi (sv_ino s i)]
      exact (bump_update hpred).symm
  · have hone : (s.sv i).refcount = 1 := by omega
    obtain ⟨own', s', hreclaim, hinv, hentries, hrefs⟩ := reclaim_spec h hi hone
    refine ⟨own', s', ?_, hinv, hentries, ?_⟩
    · rw [if_neg hmany, hreclaim]
      rfl
    · rw [hrefs]
      exact (bump_update (by rw [refs_eq hi, hone])).symm

end

/-! ## The operations -/

def handed (r : Nat → Nat) : Option Nat → Nat → Nat
  | none => r
  | some i => bump r i

def rootLinks (s : State) : Nat := links s.entries SFS_ROOT_LOCATION

theorem links_pos (hslot : l[slot]? = some ⟨ino, name⟩) : 0 < links l ino :=
  countP_pos_iff.mpr ⟨_, mem_of_getElem? hslot, by simp⟩

section

variable (h : Inv size own 0 s) (hroot : Loaded s SFS_ROOT_LOCATION)
include h hroot

theorem findname_root (name : List UInt8) :
    ∃ found, onFile s SFS_ROOT_LOCATION (findname · name) = .ok (s, .ok found) ∧
      ∀ ino slot, found.entry = some (ino, slot) →
        s.entries[slot]? = some ⟨ino, name⟩ ∧ Linked s ino := by
  obtain ⟨found, hfind, hin⟩ :=
    findname_spec (h.owns (root_inUse s)) h.dir.toDirShape h.dir.names name
  refine ⟨found, ?_, ?_⟩
  · conv_rhs => rw [← set_self h hroot]
    exact onFile_eq hroot hfind
  · intro ino slot hentry
    obtain ⟨-, hslot, hino⟩ := hin.hit ino slot hentry
    exact ⟨hslot, hino, links_pos hslot⟩

theorem lookonce_spec (name : List UInt8) :
    ∃ s' r, lookonce s name = .ok (s', r) ∧ Inv size own 0 s' ∧ (∀ j, Loaded s j → Loaded s' j) ∧
      (∀ ino slot, r = .ok (ino, slot) →
        Loaded s' ino ∧ s'.entries[slot]? = some ⟨ino, name⟩ ∧ ino ≠ 0) ∧
      s'.entries = s.entries ∧ refs s' = handed (refs s) (r.toOption.map Prod.fst) := by
  obtain ⟨found, hfind, hin⟩ := findname_root h hroot name
  unfold lookonce
  rw [hfind, ok_bind]
  cases hentry : found.entry with
  | none =>
    refine ⟨s, .error .ENOENT, ?_, h, fun _ => id, nofun, rfl, rfl⟩
    simp only [hentry]
    rfl
  | some entry =>
    obtain ⟨ino, slot⟩ := entry
    obtain ⟨hslot, hlinked⟩ := hin ino slot hentry
    obtain ⟨s', hload, hinv, hentries, hi, hall, hrefs⟩ := loadvnode_spec h (.inr (.inl hlinked))
    have hpos : (s'.sv ino).inode.linkcount ≠ 0 := by
      have hcount := hinv.counts ino hi.inUse
      rw [hentries, Pi.zero_apply] at hcount
      have := hlinked.2
      split at hcount <;> omega
    refine ⟨s', .ok (ino, slot), ?_, hinv, hall, ?_, hentries, hrefs⟩
    · simp only [hentry]
      rw [hload, ok_bind, hi.getVnode, ok_bind, if_neg hpos]
      rfl
    · rintro _ _ ⟨⟩
      rw [hentries]
      exact ⟨hi, hslot, hlinked.1⟩

theorem creatNew_spec (hname : 0 ∉ name) :
    ∃ own' s' r, creatNew s name = .ok (s', r) ∧ Inv size own' 0 s' ∧ rootLinks s' = rootLinks s ∧
      refs s' = handed (refs s) r.toOption := by
  unfold creatNew
  obtain hfull | ⟨own₁, s₁, ino, hmake, hinv₁, hentries₁, hi₁, hall₁, hne, hrefs₁⟩ := makeobj_spec h
  · exact ⟨own, s, .error .ENOSPC, by rw [hfull]; rfl, h, rfl, rfl⟩
  · obtain ⟨own₂, s₂, r, hlink, hall₂, hrefs₂, hadded, hinv₂⟩ :=
      dirLink_root hinv₁ (hall₁ _ hroot) hi₁ hname
    have hi₂ := (hall₂ ino).mpr hi₁
    rw [hmake, ok_bind]
    cases r with
    | error e =>
      obtain ⟨own₃, s₃, hdecref, hinv₃, hentries₃, hrefs₃⟩ := decref_spec hinv₂ hi₂
      have hsame : s₂.entries = s₁.entries := hadded
      rw [hsame, hentries₁] at hentries₃
      rw [hrefs₂, hrefs₁] at hrefs₃
      refine ⟨own₃, s₃, .error e, ?_, hinv₃, congrArg (links · _) hentries₃, (bump_inj hrefs₃).symm⟩
      change (onFile s₁ SFS_ROOT_LOCATION (dirLink · name ino) >>= _) = _
      rw [hlink, ok_bind]
      change (decref s₂ ino >>= _) = _
      rw [hdecref]
      rfl
    | ok slot =>
      obtain ⟨s₃, hadd, -, hinv₃, hentries₃, hrefs₃⟩ := addLink_spec hinv₂ hi₂
      have hlinks : rootLinks s₃ = rootLinks s := by
        unfold rootLinks
        rw [hentries₃, links_added hadded (by decide), if_neg hne, hentries₁]
        rfl
      refine ⟨own₂, s₃, .ok ino, ?_, hinv₃, hlinks, hrefs₃.trans (hrefs₂.trans hrefs₁)⟩
      change (onFile s₁ SFS_ROOT_LOCATION (dirLink · name ino) >>= _) = _
      rw [hlink, ok_bind]
      change (addLink s₂ ino >>= _) = _
      rw [hadd]
      rfl

theorem creat_spec (hname : 0 ∉ name)
    (excl : Bool) : ∃ own' s' r, creat s name excl = .ok (s', r) ∧ Inv size own' 0 s' ∧
      rootLinks s' = rootLinks s ∧ refs s' = handed (refs s) r.toOption := by
  obtain ⟨found, hfind, hin⟩ := findname_root h hroot name
  unfold creat
  rw [hfind, ok_bind]
  cases hentry : found.entry with
  | none =>
    simp only [hentry]
    exact creatNew_spec h hroot hname
  | some entry =>
    obtain ⟨ino, slot⟩ := entry
    simp only [hentry]
    cases excl with
    | true => exact ⟨own, s, .error .EEXIST, rfl, h, rfl, rfl⟩
    | false =>
      obtain ⟨s', hload, hinv, hentries, -, -, hrefs⟩ :=
        loadvnode_spec h (.inr (.inl (hin ino slot hentry).2))
      refine ⟨own, s', .ok ino, ?_, hinv, congrArg (links · _) hentries, hrefs⟩
      rw [if_neg Bool.false_ne_true, hload]
      rfl

theorem link_spec (hi : Loaded s ino)
    (hname : 0 ∉ name) : ∃ own' s' r, link s name ino = .ok (s', r) ∧ Inv size own' 0 s' ∧
      refs s' = refs s ∧
      rootLinks s' = rootLinks s + if r = none ∧ ino = SFS_ROOT_LOCATION then 1 else 0 := by
  obtain ⟨own₁, s₁, r, hlink, hall, hrefs, hadded, hinv⟩ := dirLink_root h hroot hi hname
  unfold link
  rw [hlink, ok_bind]
  cases r with
  | error e =>
    have hsame : s₁.entries = s.entries := hadded
    refine ⟨own₁, s₁, some e, rfl, hinv, hrefs, ?_⟩
    exact congrArg (links · _) hsame
  | ok slot =>
    obtain ⟨s₂, hadd, -, hinv₂, hentries, hrefs₂⟩ := addLink_spec hinv ((hall ino).mpr hi)
    refine ⟨own₁, s₂, none, ?_, hinv₂, hrefs₂.trans hrefs, ?_⟩
    · change (addLink s₁ ino >>= _) = _
      rw [hadd]
      rfl
    · unfold rootLinks
      rw [hentries, links_added hadded (by decide)]
      simp

theorem unlinkSlot_spec (hi : Loaded s ino)
    (hslot : s.entries[slot]? = some ⟨ino, name⟩) :
    ∃ s₁ s₂ own' s', unlinkSlot s slot = .ok (s₁, none) ∧ dropLink s₁ ino = .ok s₂ ∧
      decref s₂ ino = .ok s' ∧ Inv size own' 0 s' ∧ refs s = bump (refs s') ino ∧
      s'.entries = setSlot s.entries slot ⟨0, []⟩ := by
  obtain ⟨own₁, s₁, hunlink, hall₁, hrefs₁, hentries₁, hinv₁⟩ := dirUnlink_root h hroot hi hslot
  have hi₁ := (hall₁ ino).mpr hi
  obtain ⟨s₂, hdrop, hall₂, hinv₂, hentries₂, hrefs₂⟩ := dropLink_spec hinv₁ hi₁
  obtain ⟨own₃, s₃, hdecref, hinv₃, hentries₃, hrefs₃⟩ := decref_spec hinv₂ ((hall₂ ino).mpr hi₁)
  refine ⟨s₁, s₂, own₃, s₃, hunlink, hdrop, hdecref, hinv₃, ?_, ?_⟩
  · rw [← hrefs₃, hrefs₂, hrefs₁]
  · rw [hentries₃, hentries₂, hentries₁]

theorem unlink_spec (name : List UInt8) :
    ∃ own' s' r, unlink s name = .ok (s', r) ∧ Inv size own' 0 s' ∧ refs s' = refs s ∧
      rootLinks s' ≤ rootLinks s := by
  obtain ⟨s₁, r, hlook, hinv, hall, hfound, hentries, hrefs⟩ := lookonce_spec h hroot name
  unfold unlink
  rw [hlook, ok_bind]
  cases r with
  | error e => exact ⟨own, s₁, some e, rfl, hinv, hrefs, by rw [rootLinks, hentries]; rfl⟩
  | ok entry =>
    obtain ⟨ino, slot⟩ := entry
    obtain ⟨hi, hslot, -⟩ := hfound ino slot rfl
    obtain ⟨s₂, s₃, own', s', hunlink, hdrop, hdecref, hinv', hrefs', hentries'⟩ :=
      unlinkSlot_spec hinv (hall _ hroot) hi hslot
    have herased := links_erased hslot (by decide : SFS_ROOT_LOCATION ≠ 0)
    rw [← hentries', hentries] at herased
    refine ⟨own', s', none, ?_, hinv', bump_inj (hrefs'.symm.trans hrefs), Nat.le.intro herased⟩
    change removeEntry s₁ ino slot = _
    unfold removeEntry
    rw [hunlink, ok_bind]
    change (dropLink s₂ ino >>= _) = _
    rw [hdrop, ok_bind, hdecref]
    rfl

end

theorem Added.keeps {l' : List Dirent} {d e : Dirent} {slot' : Nat} (h : Added l l' d (.ok slot'))
    (hslot : l[slot]? = some e) (he : e.ino ≠ 0) : l'[slot]? = some e := by
  obtain ⟨hle, hempty, rfl⟩ := h
  rw [getElem?_setSlot_of_ne hle, hslot]
  rintro rfl
  exact he (hempty e hslot)

theorem rename_spec (h : Inv size own 0 s) (hroot : Loaded s SFS_ROOT_LOCATION) (n1 : List UInt8)
    {n2 : List UInt8} (hname : 0 ∉ n2) :
    (rename s n1 n2 = .error .notFile ∧ 0 < rootLinks s) ∨
      ∃ own' s' r, rename s n1 n2 = .ok (s', r) ∧ Inv size own' 0 s' ∧ refs s' = refs s ∧
        rootLinks s' = rootLinks s := by
  obtain ⟨s₁, r, hlook, hinv₁, hall₁, hfound, hentries₁, hrefs₁⟩ := lookonce_spec h hroot n1
  unfold rename
  rw [hlook, ok_bind]
  cases r with
  | error e => exact .inr ⟨own, s₁, some e, rfl, hinv₁, hrefs₁, congrArg (links · _) hentries₁⟩
  | ok entry =>
    obtain ⟨ino, slot1⟩ := entry
    obtain ⟨hi₁, hslot, hz⟩ := hfound ino slot1 rfl
    change ((getVnode s₁ ino >>= _) = _ ∧ _) ∨ ∃ own' s' r, (getVnode s₁ ino >>= _) = _ ∧ _
    rw [hi₁.getVnode, ok_bind]
    by_cases htype : (s₁.sv ino).inode.type = SFS_TYPE_FILE
    · right
      obtain ⟨own₂, s₂, r, hlink, hall₂, hrefs₂, hadded, hinv₂⟩ :=
        dirLink_root hinv₁ (hall₁ _ hroot) hi₁ hname
      have hi₂ := (hall₂ ino).mpr hi₁
      rw [if_neg (not_not_intro htype), hlink, ok_bind]
      cases r with
      | error e =>
        obtain ⟨own₃, s₃, hdecref, hinv₃, hentries₃, hrefs₃⟩ := decref_spec hinv₂ hi₂
        have hsame : s₂.entries = s₁.entries := hadded
        rw [hrefs₂, hrefs₁] at hrefs₃
        rw [hsame, hentries₁] at hentries₃
        refine ⟨own₃, s₃, some e, ?_, hinv₃, (bump_inj hrefs₃).symm, congrArg (links · _) hentries₃⟩
        change (decref s₂ ino >>= _) = _
        rw [hdecref]
        rfl
      | ok slot2 =>
        -- the file has both names now, and loses the old one
        obtain ⟨s₃, hadd, hall₃, hinv₃, hentries, hrefs₃⟩ := addLink_spec hinv₂ hi₂
        have hslot₃ : s₃.entries[slot1]? = some ⟨ino, n1⟩ := by
          rw [hentries]
          exact hadded.keeps hslot hz
        obtain ⟨s₄, s₅, own', s', hunlink, hdrop, hdecref, hinv', hrefs', hentries'⟩ :=
          unlinkSlot_spec hinv₃ ((hall₃ _).mpr ((hall₂ _).mpr (hall₁ _ hroot)))
            ((hall₃ ino).mpr hi₂) hslot₃
        rw [hrefs₃, hrefs₂, hrefs₁] at hrefs'
        have herased := links_erased hslot₃ (by decide : SFS_ROOT_LOCATION ≠ 0)
        rw [← hentries', hentries, links_added hadded (by decide), hentries₁] at herased
        refine ⟨own', s', none, ?_, hinv', (bump_inj hrefs').symm, Nat.add_right_cancel herased⟩
        change (addLink s₂ ino >>= _) = _
        rw [hadd, ok_bind]
        unfold renameOld
        rw [hunlink, ok_bind]
        change (dropLink s₄ ino >>= _) = _
        rw [hdrop, ok_bind, hdecref]
        rfl
    · left
      have hroot' : ino = SFS_ROOT_LOCATION := by
        by_contra hne
        have hgood := (hinv₁.good ino hi₁.inUse).type
        rw [if_neg hne] at hgood
        exact htype hgood
      refine ⟨by rw [if_pos htype]; rfl, ?_⟩
      rw [rootLinks, ← hentries₁, ← hroot']
      exact links_pos hslot

theorem Written.size_lt {uio : Uio} {n : Nat} {e : Option Errno} (h : Written own own' f f' uio n e)
    (hsize : f.sv.inode.size < 2 ^ 31) (hoff : uio.offset < 2 ^ 31) :
    f'.sv.inode.size < 2 ^ 31 := by
  rw [h.size]
  by_cases hn : n = 0
  · omega
  · have hlast := blockAt_lt (h.mapped (uio.offset + n - 1) (by omega) (by omega))
    omega

theorem write_spec (h : Inv size own 0 s) (hi : Loaded s i) {offset : Nat} (hoff : offset < 2 ^ 31)
    (bytes : List UInt8) : ∃ own' s' r, write s i offset bytes = .ok (s', r) ∧ Inv size own' 0 s' ∧
      s'.entries = s.entries ∧ refs s' = refs s := by
  by_cases hne : i = SFS_ROOT_LOCATION
  · subst hne
    exact ⟨own, s, some .EISDIR, onFile_dir h hi _, h, rfl, rfl⟩
  · have hsize := (h.good i hi.inUse).size
    have hfull : Uio.Full ⟨.write, offset, bytes.length, bytes⟩ := ⟨rfl, rfl⟩
    obtain ⟨own', f', n, e, hio, hw⟩ := io_write (h.owns hi.inUse) hsize hfull
    refine ⟨own', s.set f', e, ?_, h.evolve hi hne hw.toEvolves (hw.size_lt hsize hoff),
      h.evolve_entries hne hw.toEvolves, h.evolve_refs hi hw.toEvolves⟩
    apply onFile_file h hi hne
    rw [hio]
    rfl

theorem vopTruncate_spec (h : Inv size own 0 s) (hi : Loaded s i) {len : Nat} (hlen : len < 2 ^ 31) :
    ∃ own' s' r, vopTruncate s i len = .ok (s', r) ∧ Inv size own' 0 s' ∧ s'.entries = s.entries ∧
      refs s' = refs s := by
  by_cases hne : i = SFS_ROOT_LOCATION
  · subst hne
    exact ⟨own, s, some .EISDIR, onFile_dir h hi _, h, rfl, rfl⟩
  · obtain ⟨own', f', htrunc, hinv, ht⟩ := vopTruncate_file h hi hne hlen
    exact ⟨own', s.set f', none, htrunc, hinv, h.evolve_entries hne ht.toEvolves,
      h.evolve_refs hi ht.toEvolves⟩

/-! ## Writing everything back -/

theorem syncInodes_spec (h : Inv size own 0 s) {l : List Nat} (hl : ∀ j ∈ l, Loaded s j) :
    ∃ s', l.foldlM syncInode s = .ok s' ∧ (∀ j, Loaded s' j ↔ Loaded s j) ∧ Inv size own 0 s' := by
  induction l generalizing s with
  | nil => exact ⟨s, rfl, fun _ => Iff.rfl, h⟩
  | cons i l ih =>
    obtain ⟨s₁, hsync, hall₁, hinv₁, -⟩ := syncInode_spec h (hl i mem_cons_self) Int.one_nonneg
    obtain ⟨s₂, hrest, hall₂, hinv₂⟩ :=
      ih hinv₁ fun j hj => (hall₁ j).mpr (hl j (mem_cons_of_mem _ hj))
    refine ⟨s₂, ?_, fun j => (hall₂ j).trans (hall₁ j), hinv₂⟩
    rw [foldlM_cons, hsync, ok_bind]
    exact hrest

structure MapWritten (fs fs' : Fs) (l : List Nat) : Prop where
  nblocks : fs'.nblocks = fs.nblocks
  freemap : fs'.freemap = fs.freemap
  written : ∀ j ∈ l, fs'.disk (SFS_MAP_LOCATION + j) = mapBlock fs.freemap j
  others : ∀ b, (∀ j ∈ l, b ≠ SFS_MAP_LOCATION + j) → fs'.disk b = fs.disk b

theorem mapioWrite_spec {l : List Nat} (hl : ∀ j ∈ l, SFS_MAP_LOCATION + j < fs.nblocks) :
    ∃ fs', l.foldlM (fun fs j => wblock fs (SFS_MAP_LOCATION + j) (mapBlock fs.freemap j)) fs =
      .ok fs' ∧ MapWritten fs fs' l := by
  induction l generalizing fs with
  | nil => exact ⟨fs, rfl, rfl, rfl, nofun, fun _ _ => rfl⟩
  | cons i l ih =>
    have hi := hl i mem_cons_self
    obtain ⟨fs', hrest, hw⟩ := @ih (fs.store (SFS_MAP_LOCATION + i) (mapBlock fs.freemap i))
        fun j hj => hl j (mem_cons_of_mem _ hj)
    refine ⟨fs', ?_, hw.nblocks, hw.freemap, ?_, ?_⟩
    · rw [foldlM_cons, wblock, if_pos hi]
      exact hrest
    · intro j hj
      by_cases hmem : j ∈ l
      · exact hw.written j hmem
      · obtain rfl : j = i := (mem_cons.mp hj).resolve_right hmem
        rw [hw.others _ fun m hm heq => hmem ((add_left_cancel heq : j = m) ▸ hm), store_disk_self]
    · intro b hb
      rw [hw.others b fun j hj => hb j (mem_cons_of_mem _ hj),
        store_disk_of_ne (hb i mem_cons_self)]

theorem MapOk.congr (h : MapOk own fs) (hn : fs'.nblocks = fs.nblocks)
    (hm : fs'.freemap = fs.freemap) : MapOk own fs' := by
  obtain ⟨nblocks, disk, freemap, freemapdirty⟩ := fs'
  subst hn hm
  exact ⟨h.used, h.high, h.padded, h.range, h.size, h.fits, h.super⟩

theorem MapWritten.untouched (h : Inv size own gap s)
    (hw : MapWritten s.fs fs' (List.range (SFS_BITBLOCKS s.fs.nblocks))) (j : Nat) :
    Untouched j own own s { s with fs := { fs' with freemapdirty := false } } where
  role _ _ _ := Iff.rfl
  disk b r hb hr := by
    apply hw.others
    rintro m hm rfl
    have hmap : own (SFS_MAP_LOCATION + m) = some .map :=
      (h.maps _).mpr ⟨Nat.le_add_right .., Nat.add_lt_add_left (mem_range.mp hm) _⟩
    obtain rfl : r = .map := Option.some.inj (hb.symm.trans hmap)
    obtain heq | hof := hr
    · cases heq
    · exact hof
  vnode := rfl

theorem Inv.mapWritten (h : Inv size own gap s)
    (hw : MapWritten s.fs fs' (List.range (SFS_BITBLOCKS s.fs.nblocks))) :
    Inv size own gap { s with fs := { fs' with freemapdirty := false } } := by
  have huntouched := hw.untouched h
  have hentries := (huntouched SFS_ROOT_LOCATION).entries h
  have huse : ∀ j, InUse { s with fs := { fs' with freemapdirty := false } } j ↔ InUse s j := by
    intro j
    unfold InUse Linked
    rw [hentries, (huntouched j).loaded]
  have hsuper : fs'.disk SFS_SB_LOCATION = s.fs.disk SFS_SB_LOCATION := by
    apply hw.others
    intro j _
    unfold SFS_SB_LOCATION SFS_MAP_LOCATION
    omega
  constructor
  case size => exact hw.nblocks.trans h.size
  case map => exact h.map.congr hw.nblocks hw.freemap
  case nbits =>
    simp only [hw.nblocks, hw.freemap]
    exact h.nbits
  case supers => exact h.supers
  case maps =>
    simp only [hw.nblocks]
    exact h.maps
  case inodes =>
    intro b i
    rw [huse, h.inodes]
  case owned =>
    intro b i r hb hr
    rw [huse]
    exact h.owned b i r hb hr
  case good => exact fun i hu => (huntouched i).good h ((huse i).mp hu)
  case counts =>
    intro i hu
    rw [hentries, (huntouched i).sv h ((huse i).mp hu)]
    exact h.counts i ((huse i).mp hu)
  case dir => exact (huntouched _).dir h
  case vnodes => exact h.vnodes
  case synced =>
    intro _ j hj x _
    simp only [hw.nblocks] at hj
    rw [hw.written j (mem_range.mpr hj), hw.freemap]
  case super =>
    have hold := h.super
    constructor
    · simp only [hsuper]
      exact hold.magic
    · simp only [hsuper, hw.nblocks]
      exact hold.nblocks
  case superclean => exact h.superclean

theorem syncFreemap_spec (h : Inv size own 0 s) :
    ∃ s', syncFreemap s = .ok s' ∧ Inv size own 0 s' ∧ s'.fs.freemapdirty = false ∧
      s'.fs.freemap = s.fs.freemap ∧ s'.vnodes = s.vnodes ∧ ∀ j, Untouched j own own s s' := by
  unfold syncFreemap
  by_cases hd : s.fs.freemapdirty = true
  · have hfit : ∀ j ∈ List.range (SFS_BITBLOCKS s.fs.nblocks),
        SFS_MAP_LOCATION + j < s.fs.nblocks := by
      intro j hj
      exact h.map.lt ((h.maps _).mpr
        ⟨Nat.le_add_right .., Nat.add_lt_add_left (mem_range.mp hj) _⟩)
    obtain ⟨fs', hwrite, hw⟩ := mapioWrite_spec hfit
    refine ⟨_, ?_, h.mapWritten hw, rfl, hw.freemap, rfl, hw.untouched h⟩
    rw [if_pos hd, mapioWrite, hwrite]
    rfl
  · refine ⟨s, if_neg hd, h, Bool.not_eq_true _ ▸ hd, rfl, rfl, ?_⟩
    exact fun _ => ⟨fun _ _ _ => Iff.rfl, fun _ _ _ _ => rfl, rfl⟩

theorem syncSuper_eq (h : Inv size own gap s) : syncSuper s = .ok s := by
  unfold syncSuper
  rw [h.superclean]
  rfl

theorem sync_spec (h : Inv size own 0 s) :
    ∃ s', sync s = .ok s' ∧ Inv size own 0 s' ∧ s'.fs.freemapdirty = false ∧
      ∀ j, Loaded s' j ↔ Loaded s j := by
  have hloaded : ∀ j ∈ s.vnodes.map Sv.ino, Loaded s j := fun _ => id
  obtain ⟨s₁, hinodes, hall, hinv₁⟩ := syncInodes_spec h hloaded
  obtain ⟨s₂, hmap, hinv₂, hclean, -, -, huntouched⟩ := syncFreemap_spec hinv₁
  refine ⟨s₂, ?_, hinv₂, hclean, fun j => (huntouched j).loaded.trans (hall j)⟩
  unfold sync
  rw [hinodes, ok_bind, hmap, ok_bind]
  exact syncSuper_eq hinv₂

/-- A vnode leaves the table only with its last reference. -/
def Keeps (s s' : State) (op : Op) : Prop :=
  ∀ i, Loaded s i → Loaded s' i ∨ op = .decref i ∧ refs s i = 1

theorem Inv.keeps (h : Inv size own 0 s) (h' : Inv size own' 0 s') {o : Option Nat}
    (hrefs : refs s' = handed (refs s) o) (op : Op) : Keeps s s' op := by
  intro i hi
  left
  rw [h.loaded_iff_refs] at hi
  rw [h'.loaded_iff_refs, hrefs]
  cases o with
  | none => exact hi
  | some j =>
    change 0 < bump (refs s) j i
    rw [bump_apply]
    exact Nat.add_pos_left hi _

theorem step_spec (h : Inv size own 0 s) (op : Op) (hcall : Callable s op) :
    step s op = .error .notFile ∨
      ∃ own' s', step s op = .ok s' ∧ Inv size own' 0 s' ∧ Keeps s s' op := by
  cases op with
  | getroot =>
    obtain ⟨s', hop, hinv, -, hrefs⟩ := getroot_spec h
    exact .inr ⟨own, s', hop, hinv, h.keeps hinv (o := some _) hrefs _⟩
  | lookup name =>
    obtain ⟨s', r, hop, hinv, -, -, -, hrefs⟩ := lookonce_spec h hcall.1 name
    exact .inr ⟨own, s', by rw [step, hop]; rfl, hinv, h.keeps hinv hrefs _⟩
  | creat name excl =>
    obtain ⟨own', s', r, hop, hinv, -, hrefs⟩ := creat_spec h hcall.1 hcall.2 excl
    exact .inr ⟨own', s', by rw [step, hop]; rfl, hinv, h.keeps hinv hrefs _⟩
  | link name ino =>
    obtain ⟨own', s', r, hop, hinv, hrefs, -⟩ := link_spec h hcall.1 hcall.2.1 hcall.2.2
    exact .inr ⟨own', s', by rw [step, hop]; rfl, hinv, h.keeps hinv (o := none) hrefs _⟩
  | remove name =>
    obtain ⟨own', s', r, hop, hinv, hrefs, -⟩ := unlink_spec h hcall.1 name
    exact .inr ⟨own', s', by rw [step, hop]; rfl, hinv, h.keeps hinv (o := none) hrefs _⟩
  | rename n1 n2 =>
    obtain ⟨hop, -⟩ | ⟨own', s', r, hop, hinv, hrefs, -⟩ := rename_spec h hcall.1 n1 hcall.2.2
    · left
      rw [step, hop]
      rfl
    · exact .inr ⟨own', s', by rw [step, hop]; rfl, hinv, h.keeps hinv (o := none) hrefs _⟩
  | write ino offset bytes =>
    obtain ⟨own', s', r, hop, hinv, -, hrefs⟩ := write_spec h hcall.1 hcall.2 bytes
    exact .inr ⟨own', s', by rw [step, hop]; rfl, hinv, h.keeps hinv (o := none) hrefs _⟩
  | truncate ino len =>
    obtain ⟨own', s', r, hop, hinv, -, hrefs⟩ := vopTruncate_spec h hcall.1 hcall.2
    exact .inr ⟨own', s', by rw [step, hop]; rfl, hinv, h.keeps hinv (o := none) hrefs _⟩
  | fsync ino =>
    obtain ⟨s', hop, hall, hinv, -⟩ := syncInode_spec h hcall Int.one_nonneg
    exact .inr ⟨own, s', hop, hinv, fun i hi => .inl ((hall i).mpr hi)⟩
  | incref ino =>
    obtain ⟨s', hop, hinv, -, hall, -⟩ := incref_spec h hcall
    exact .inr ⟨own, s', hop, hinv, fun i hi => .inl ((hall i).mpr hi)⟩
  | decref ino =>
    obtain ⟨own', s', hop, hinv, -, hrefs⟩ := decref_spec h hcall
    refine .inr ⟨own', s', hop, hinv, fun i hi => ?_⟩
    rw [h.loaded_iff_refs, hrefs, bump_apply] at hi
    rw [hinv.loaded_iff_refs, hrefs, bump_apply]
    by_cases heq : ino = i
    · rw [if_pos heq, heq]
      rcases Nat.eq_zero_or_pos (refs s' i) with hlast | hpos
      · exact .inr ⟨rfl, by rw [hlast]⟩
      · exact .inl hpos
    · rw [if_neg heq] at hi
      exact .inl hi
  | sync =>
    obtain ⟨s', hop, hinv, -, hall⟩ := sync_spec h
    exact .inr ⟨own, s', hop, hinv, fun i hi => .inl ((hall i).mpr hi)⟩

theorem run_spec (h : Inv size own 0 s) (ops : List Op) :
    run s ops = .error .notFile ∨ ∃ own' s', run s ops = .ok s' ∧ Inv size own' 0 s' := by
  induction ops generalizing own s with
  | nil => exact .inr ⟨own, s, rfl, h⟩
  | cons op ops ih =>
    unfold run
    by_cases hcall : Callable s op
    · rw [if_pos hcall]
      obtain hop | ⟨own', s', hop, hinv, -⟩ := step_spec h op hcall
      · left
        rw [hop]
        rfl
      · rw [hop, ok_bind]
        exact ih hinv
    · rw [if_neg hcall]
      exact ih h

end Os161.Sfs
