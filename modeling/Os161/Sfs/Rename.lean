import Os161.Sfs.FaultVnode

/-!
# Renaming on a device that fails

An entry that is stored although an error is reported is not undone.
-/

open Function List Option

namespace Os161.Sfs.Faults

open Lib

/-- All or nothing. A vnode that is not in memory has no references. -/
structure AllOrNothing (s s' : State) (n1 n2 : List UInt8) (r : Option Errno) : Prop where
  renamed : r = none → ∃ ino, nameMap s.entries n1 = some ino ∧ nameMap s.entries n2 = none ∧
    nameMap s'.entries = update (update (nameMap s.entries) n1 none) n2 (some ino)
  unchanged : r ≠ none → nameMap s'.entries = nameMap s.entries
  counts : Counted s'
  refs : ∀ i, (s'.sv i).refcount = (s.sv i).refcount

/-- From where the file has both names: the old one is erased with an error, or the vnode is kept.
-/
def OldSpoils (env : Env) (s t : State) (ino slot1 slot2 n : Nat) : Prop :=
  SlotStored env (t.file SFS_ROOT_LOCATION) slot1 ⟨SFS_NOINO, []⟩ n ∨
  (∃ t' m, unlinkSlot env t slot1 n = .ok ((t', none), m) ∧ VnodeKept env s ino m) ∨
  ∃ t' e m t'' m', unlinkSlot env t slot1 n = .ok ((t', some e), m) ∧
    unlinkSlot env t' slot2 m = .ok ((t'', none), m') ∧ VnodeKept env s ino m'

def RenameSpoils (env : Env) (s : State) (n1 n2 : List UInt8) (n : Nat) : Prop :=
  ∃ t ino slot1 m, lookonce env s n1 n = .ok ((t, .ok (ino, slot1)), m) ∧
    (LinkStored env (t.file SFS_ROOT_LOCATION) n2 ino m ∨
      ∃ t₁ slot2 m₁ t₂,
        onFile t SFS_ROOT_LOCATION (dirLink env · n2 ino) m = .ok ((t₁, .ok slot2), m₁) ∧
        addLink t₁ ino = .ok t₂ ∧ OldSpoils env s t₂ ino slot1 slot2 m₁)

variable {env : Env} {s s' t t' : State} {sv sv' : Sv} {f : File} {n n' ino slot : Nat}
variable {name : List UInt8}

section Finish

variable {n1 n2 : List UInt8} {r : Option Errno}

theorem finish_iff (hinv : DirInv s) (hm : Mid s t ino sv) (hlinked : Linked s ino)
    (hne : ino ≠ SFS_ROOT_LOCATION) (hcount : sv.inode.linkcount ≠ 0)
    (hinode : sv.inode = (s.sv ino).inode) (href : sv.refcount = (s.sv ino).refcount + 1)
    (hlinks : ∀ i, i ≠ 0 → links t.entries i = links s.entries i)
    (hrenamed : r = none → ∃ ino, nameMap s.entries n1 = some ino ∧ nameMap s.entries n2 = none ∧
      nameMap t.entries = update (update (nameMap s.entries) n1 none) n2 (some ino))
    (hsame : r ≠ none → nameMap t.entries = nameMap s.entries)
    (hrun : decref env t ino n = .ok (s', n')) :
    AllOrNothing s s' n1 n2 r ↔ ¬ (sv.dirty = true ∧ VnodeKept env s ino n) := by
  obtain ⟨hb, hrelease⟩ := decref_release hinv hm hlinked hcount hinode href hrun
  have hentries := (hb.entries hne (hm.not_mine hinv hlinked) hm.root).2
  rw [← hentries] at hrenamed hsame hlinks
  cases hrelease with
  | back hback hrefs hnot =>
    refine iff_of_true ⟨hrenamed, hsame, ?_, ?_⟩ hnot
    · exact hm.counted hinv hlinked hne hb hlinks hback
    · exact hm.refs hinv hlinked hne hb hrefs
  | kept hdirty hkept hrefs =>
    exact iff_of_false (fun hall => hrefs (hall.refs ino)) (not_not_intro ⟨hdirty, hkept⟩)

theorem finish_spoiled (hinv : DirInv s) (hm : Mid s t ino sv) (hlinked : Linked s ino)
    (hne : ino ≠ SFS_ROOT_LOCATION) (hcount : sv.inode.linkcount ≠ 0)
    (hinode : sv.inode = (s.sv ino).inode) (href : sv.refcount = (s.sv ino).refcount + 1)
    (hr : r ≠ none) (hnames : nameMap t.entries ≠ nameMap s.entries)
    (hrun : decref env t ino n = .ok (s', n')) : ¬ AllOrNothing s s' n1 n2 r := by
  obtain ⟨hb, -⟩ := decref_release hinv hm hlinked hcount hinode href hrun
  have hentries := (hb.entries hne (hm.not_mine hinv hlinked) hm.root).2
  intro hall
  apply hnames
  rw [← hentries]
  exact hall.unchanged hr

end Finish

/-! ## Erasing the old name -/

def linked (s : State) (ino : Nat) : Sv :=
  { taken s ino with
    inode := { (s.sv ino).inode with linkcount := ((s.sv ino).inode.linkcount + 1) % 2 ^ 16 },
    dirty := true }

def dirtied (s : State) (ino : Nat) : Sv := { taken s ino with dirty := true }

theorem linked_key (s : State) (ino : Nat) : (linked s ino).ino = ino := Sfs.sv_ino s ino

theorem dirtied_key (s : State) (ino : Nat) : (dirtied s ino).ino = ino := Sfs.sv_ino s ino

section Old

variable {n1 n2 : List UInt8} {r : Option Errno} {slot1 slot2 : Nat}

theorem addLink_linked (hm : Mid s t ino (taken s ino)) :
    addLink t ino = .ok (t.set ⟨t.fs, linked s ino⟩) := by
  unfold addLink
  rw [hm.getVnode]
  rfl

theorem dropLink_dirtied (hm : Mid s t ino (linked s ino))
    (hl : (s.sv ino).inode.linkcount + 1 < 2 ^ 16) :
    dropLink t ino = .ok (t.set ⟨t.fs, dirtied s ino⟩) := by
  have hmod : (linked s ino).inode.linkcount = (s.sv ino).inode.linkcount + 1 := Nat.mod_eq_of_lt hl
  unfold dropLink
  rw [hm.getVnode, ok_bind, hmod, if_neg (Nat.succ_ne_zero _)]
  rfl

theorem undoLink_dirtied (hm : Mid s t ino (linked s ino))
    (hl : (s.sv ino).inode.linkcount + 1 < 2 ^ 16) :
    undoLink t ino = .ok (t.set ⟨t.fs, dirtied s ino⟩) := by
  have hmod : (linked s ino).inode.linkcount = (s.sv ino).inode.linkcount + 1 := Nat.mod_eq_of_lt hl
  have hback : ((s.sv ino).inode.linkcount + 1 + 2 ^ 16 - 1) % 2 ^ 16 =
      (s.sv ino).inode.linkcount := by omega
  unfold undoLink
  rw [hm.getVnode, ok_bind, hmod, hback]
  rfl

theorem DirInv.linkcount_lt (hinv : DirInv s) (hlinked : Linked s ino)
    (hne : ino ≠ SFS_ROOT_LOCATION) : (s.sv ino).inode.linkcount + 1 < 2 ^ 16 := by
  have hcount := hinv.counts ino hlinked.1 (.inr (.inl hlinked))
  have hle : links s.entries ino ≤ s.entries.length := countP_le_length
  have hlen : s.entries.length = (s.file SFS_ROOT_LOCATION).sv.inode.size / 64 := dirents_length _
  have hsize := hinv.dir.size
  rw [if_neg hne] at hcount
  omega

theorem unlinkSlot_mid (hm : Mid s t ino sv) (hne : ino ≠ SFS_ROOT_LOCATION)
    (hd : DirLike (t.file SFS_ROOT_LOCATION)) (hslot : slot ≤ t.entries.length)
    (hrun : unlinkSlot env t slot n = .ok ((t', r), n')) :
    Mid s t' ino sv ∧ DirLike (t'.file SFS_ROOT_LOCATION) ∧
      SlotWrite env (t.file SFS_ROOT_LOCATION) slot ⟨SFS_NOINO, []⟩ n
        (t'.file SFS_ROOT_LOCATION) r := by
  obtain ⟨-, f, hwrite, rfl⟩ := onFile_root hrun
  have hvalid : Dirent.Valid ⟨SFS_NOINO, []⟩ := ⟨by decide, by decide, by simp⟩
  obtain ⟨hext, hd', hw⟩ := writedir_slot hm.ext.sane hd hvalid hslot hwrite
  obtain ⟨hm', hfile⟩ := hm.work hne hext
  rw [hfile]
  exact ⟨hm', hd', hw⟩

structure Both (s t : State) (ino slot1 slot2 : Nat) (n1 n2 : List UInt8) : Prop where
  inv : DirInv s
  mid : Mid s t ino (linked s ino)
  dir : DirLike (t.file SFS_ROOT_LOCATION)
  ne : ino ≠ SFS_ROOT_LOCATION
  used : ino ≠ 0
  count : (s.sv ino).inode.linkcount ≠ 0
  old : s.entries[slot1]? = some ⟨ino, n1⟩
  free : FreeSlot s.entries slot2 n2
  entries : t.entries = setSlot s.entries slot2 ⟨ino, n2⟩

namespace Both

variable (h : Both s t ino slot1 slot2 n1 n2)
include h

theorem linked_old : Linked s ino := by
  refine ⟨h.used, countP_pos_iff.mpr ⟨_, mem_of_getElem? h.old, ?_⟩⟩
  simp

theorem slots_ne : slot1 ≠ slot2 := by
  rintro rfl
  exact h.used (h.free.free _ h.old)

theorem names_ne : n1 ≠ n2 := h.free.new slot1 _ h.old h.used

theorem distinct : DistinctNames t.entries := by
  rw [h.entries]
  exact h.free.distinct h.inv.names

theorem old_entry : t.entries[slot1]? = some ⟨ino, n1⟩ := by
  rw [h.entries, getElem?_setSlot_of_ne h.free.le h.slots_ne]
  exact h.old

theorem new_entry : t.entries[slot2]? = some ⟨ino, n2⟩ := by
  rw [h.entries, getElem?_setSlot_self h.free.le]

theorem names : nameMap t.entries = update (nameMap s.entries) n2 (some ino) := by
  rw [h.entries]
  exact h.free.nameMap h.inv.names h.used

theorem name_old : nameMap s.entries n1 = some ino :=
  (nameMap_eq_some h.inv.names).mpr ⟨h.used, slot1, h.old⟩

theorem name_new : nameMap s.entries n2 = none := by
  rw [eq_none_iff_forall_ne_some]
  intro a ha
  obtain ⟨hne, i, hi⟩ := (nameMap_eq_some h.inv.names).mp ha
  exact h.free.new i _ hi hne rfl

theorem links (i : Nat) (hi : i ≠ 0) :
    links t.entries i = links s.entries i + if ino = i then 1 else 0 := by
  have hadded : Added s.entries t.entries ⟨ino, n2⟩ (.ok slot2) := ⟨h.free.le, h.free.free, h.entries⟩
  exact links_added hadded hi

theorem links_clear (hslot : t.entries[slot]? = some ⟨ino, name⟩)
    (i : Nat) (hi : i ≠ 0) : Sfs.links (setSlot t.entries slot ⟨0, []⟩) i = Sfs.links s.entries i := by
  have herased := links_erased hslot hi
  rw [h.links i hi] at herased
  omega

theorem finish (hm : Mid s t' ino (linked s ino))
    (hlinks : ∀ i, i ≠ 0 → Sfs.links t'.entries i = Sfs.links s.entries i)
    (hrenamed : r = none → ∃ ino, nameMap s.entries n1 = some ino ∧ nameMap s.entries n2 = none ∧
      nameMap t'.entries =
        update (update (nameMap s.entries) n1 none) n2 (some ino))
    (hsame : r ≠ none → nameMap t'.entries = nameMap s.entries)
    (hrun : decref env (t'.set ⟨t'.fs, dirtied s ino⟩) ino n = .ok (s', n')) :
    AllOrNothing s s' n1 n2 r ↔ ¬ VnodeKept env s ino n := by
  obtain ⟨hm', hfile⟩ := hm.setVnode h.ne (dirtied_key s ino)
  have hentries : (t'.set ⟨t'.fs, dirtied s ino⟩).entries = t'.entries := congrArg File.dirents hfile
  rw [← hentries] at hlinks hrenamed hsame
  rw [finish_iff h.inv hm' h.linked_old h.ne h.count rfl rfl hlinks hrenamed hsame hrun]
  exact not_congr (and_iff_right rfl)

end Both

theorem pukeHarder_eq_ok {e : Errno} (h : Both s t ino slot1 slot2 n1 n2)
    (hm : Mid s t' ino (linked s ino)) (hd : DirLike (t'.file SFS_ROOT_LOCATION))
    (hslot : slot2 ≤ t'.entries.length)
    (hrun : pukeHarder env t' ino slot2 e n = .ok ((s', r), n')) :
    ∃ t₂ m, unlinkSlot env t' slot2 n = .ok ((t₂, none), m) ∧ Mid s t₂ ino (linked s ino) ∧
      t₂.entries = setSlot t'.entries slot2 ⟨0, []⟩ ∧ r = some e ∧
      decref env (t₂.set ⟨t₂.fs, dirtied s ino⟩) ino m = .ok (s', n') := by
  obtain ⟨⟨t₂, r₂⟩, m, hundo, hrest⟩ := stateT_bind_eq_ok hrun
  obtain ⟨hm₂, -, hw⟩ := unlinkSlot_mid hm h.ne hd hslot hundo
  cases hw with
  | stored _ _ => cases hrest
  | failed _ _ _ => cases hrest
  | done hset _ =>
    obtain ⟨t₃, m₃, hlift, hrest⟩ := stateT_bind_eq_ok hrest
    rw [undoLink_dirtied hm₂ (h.inv.linkcount_lt h.linked_old h.ne)] at hlift
    cases hlift
    obtain ⟨s₁, m₄, hdecref, hret⟩ := stateT_bind_eq_ok hrest
    cases hret
    exact ⟨t₂, _, hundo, hm₂, hset, rfl, hdecref⟩

theorem renameOld_iff (h : Both s t ino slot1 slot2 n1 n2)
    (hrun : renameOld env t ino slot1 slot2 n = .ok ((s', r), n')) :
    AllOrNothing s s' n1 n2 r ↔ ¬ OldSpoils env s t ino slot1 slot2 n := by
  have hle := le_of_lt (lt_of_slot h.old_entry)
  obtain ⟨⟨t₁, r₁⟩, m, hunlink, hrest⟩ := stateT_bind_eq_ok hrun
  obtain ⟨hm₁, hd₁, hw⟩ := unlinkSlot_mid h.mid h.ne h.dir hle hunlink
  have hclear := nameMap_clear h.distinct h.old_entry h.used
  cases hw with
  | done hset hnot =>
    have hset : t₁.entries = setSlot t.entries slot1 ⟨0, []⟩ := hset
    obtain ⟨t₂, m₂, hlift, hrest⟩ := stateT_bind_eq_ok hrest
    rw [dropLink_dirtied hm₁ (h.inv.linkcount_lt h.linked_old h.ne)] at hlift
    cases hlift
    obtain ⟨s₁, m₃, hdecref, hret⟩ := stateT_bind_eq_ok hrest
    cases hret
    have hlinks : ∀ i, i ≠ 0 → links t₁.entries i = links s.entries i := by
      rw [hset]
      exact h.links_clear h.old_entry
    have hnames : nameMap t₁.entries =
        update (update (nameMap s.entries) n1 none) n2 (some ino) := by
      rw [hset, hclear, h.names, update_comm h.names_ne.symm]
    rw [h.finish hm₁ hlinks (fun _ => ⟨ino, h.name_old, h.name_new, hnames⟩) nofun hdecref]
    refine not_congr ⟨fun hkept => .inr (.inl ⟨t₁, _, hunlink, hkept⟩), ?_⟩
    rintro (hstored | ⟨t', m', hun, hkept⟩ | ⟨t', e, m', t'', m'', hun, -⟩)
    · exact absurd hstored hnot
    · rw [hunlink] at hun
      cases hun
      exact hkept
    · rw [hunlink] at hun
      cases hun
  | @stored e hset hstored =>
    have hset : t₁.entries = setSlot t.entries slot1 ⟨0, []⟩ := hset
    have hnew : t₁.entries[slot2]? = some ⟨ino, n2⟩ := by
      rw [hset, getElem?_setSlot_of_ne hle h.slots_ne.symm]
      exact h.new_entry
    have hdistinct : DistinctNames t₁.entries := by
      rw [hset]
      exact distinct_clear h.distinct hle
    obtain ⟨t₂, m₂, -, hm₂, hset₂, rfl, hdecref⟩ :=
      pukeHarder_eq_ok h hm₁ hd₁ (le_of_lt (lt_of_slot hnew)) hrest
    obtain ⟨hm₃, hfile⟩ := hm₂.setVnode h.ne (dirtied_key s ino)
    have hentries : (t₂.set ⟨t₂.fs, dirtied s ino⟩).entries = t₂.entries :=
      congrArg File.dirents hfile
    refine iff_of_false ?_ (not_not_intro (.inl hstored))
    refine finish_spoiled h.inv hm₃ h.linked_old h.ne h.count rfl rfl (some_ne_none e) ?_
      hdecref
    -- neither name is left
    intro hsame
    have hgone := congrFun hsame n1
    rw [hentries, hset₂, nameMap_clear hdistinct hnew h.used, update_of_ne h.names_ne,
      hset, hclear, update_self, h.name_old] at hgone
    cases hgone
  | @failed e _ hsame hnot =>
    have hsame : t₁.entries = t.entries := hsame (lt_of_slot h.old_entry)
    have hle₂ : slot2 ≤ t₁.entries.length := by
      rw [hsame]
      exact le_of_lt (lt_of_slot h.new_entry)
    obtain ⟨t₂, m₂, hundo, hm₂, hset₂, rfl, hdecref⟩ := pukeHarder_eq_ok h hm₁ hd₁ hle₂ hrest
    rw [hsame] at hset₂
    have hlinks : ∀ i, i ≠ 0 → links t₂.entries i = links s.entries i := by
      rw [hset₂]
      exact h.links_clear h.new_entry
    have hnames : nameMap t₂.entries = nameMap s.entries := by
      rw [hset₂, nameMap_clear h.distinct h.new_entry h.used, h.names, update_idem,
        ← h.name_new, update_eq_self]
    have hiff : AllOrNothing s s' n1 n2 (some e) ↔ ¬ VnodeKept env s ino m₂ :=
      h.finish hm₂ hlinks nofun (fun _ => hnames) hdecref
    rw [hiff]
    refine not_congr ⟨fun hkept => .inr (.inr ⟨t₁, e, m, t₂, m₂, hunlink, hundo, hkept⟩), ?_⟩
    rintro (hstored | ⟨t', m', hun, -⟩ | ⟨t', e, m', t'', m'', hun, hun', hkept⟩)
    · exact absurd hstored hnot
    · rw [hunlink] at hun
      cases hun
    · rw [hunlink] at hun
      cases hun
      rw [hundo] at hun'
      cases hun'
      exact hkept

end Old

/-! ## Adding the new name -/

structure Looked (s t : State) (ino slot1 : Nat) (n1 : List UInt8) : Prop where
  inv : DirInv s
  mid : Mid s t ino (taken s ino)
  root : t.file SFS_ROOT_LOCATION = s.file SFS_ROOT_LOCATION
  ne : ino ≠ SFS_ROOT_LOCATION
  used : ino ≠ 0
  count : (s.sv ino).inode.linkcount ≠ 0
  old : s.entries[slot1]? = some ⟨ino, n1⟩

section New

variable {n1 n2 : List UInt8} {slot1 : Nat} {t₁ : State} {m : Nat}

theorem Looked.linked (h : Looked s t ino slot1 n1) : Linked s ino := by
  refine ⟨h.used, countP_pos_iff.mpr ⟨_, mem_of_getElem? h.old, ?_⟩⟩
  simp

theorem decode_ino_lt (bs : List UInt8) : (Dirent.decode bs).ino < 2 ^ 32 :=
  wordAt_lt (fun x => bs.getD x 0) 0

theorem ino_lt_of_entry {d : Dirent} (h : s.entries[slot]? = some d) : d.ino < 2 ^ 32 := by
  have hlt := lt_of_slot h
  have hslot : slot < (s.file SFS_ROOT_LOCATION).sv.inode.size / 64 := by
    rwa [← dirents_length]
  have hget := getElem?_dirents hslot
  rw [← some.inj (hget.symm.trans h)]
  exact decode_ino_lt _

section

variable (h : Looked s t ino slot1 n1) (hname : 0 ∉ n2)
include h hname

theorem Looked.linking {r : Except Errno Nat}
    (hrun : onFile t SFS_ROOT_LOCATION (dirLink env · n2 ino) n = .ok ((t₁, r), m)) :
    Mid s t₁ ino (taken s ino) ∧ DirLike (t₁.file SFS_ROOT_LOCATION) ∧
      Linking env (t.file SFS_ROOT_LOCATION) n2 ino n (t₁.file SFS_ROOT_LOCATION) r := by
  obtain ⟨-, f, hlink, rfl⟩ := onFile_root hrun
  have hd : DirLike (t.file SFS_ROOT_LOCATION) := by
    rw [h.root]
    exact h.inv.dir
  obtain ⟨hext, hd', hlinking⟩ :=
    dirLink_linking h.mid.ext.sane hd (ino_lt_of_entry h.old) hname hlink
  obtain ⟨hm', hfile⟩ := h.mid.work h.ne hext
  rw [hfile]
  exact ⟨hm', hd', hlinking⟩

theorem Looked.puke {e : Errno}
    (hrun : onFile t SFS_ROOT_LOCATION (dirLink env · n2 ino) n = .ok ((t₁, .error e), m))
    (hdecref : decref env t₁ ino m = .ok (s', n')) :
    AllOrNothing s s' n1 n2 (some e) ↔ ¬ LinkStored env (t.file SFS_ROOT_LOCATION) n2 ino n := by
  obtain ⟨hm₁, -, hlinking⟩ := h.linking hname hrun
  have hentries : (t.file SFS_ROOT_LOCATION).dirents = s.entries := congrArg File.dirents h.root
  cases hlinking with
  | failed hidle hnot =>
    rw [hentries] at hidle
    have hiff : AllOrNothing s s' n1 n2 (some e) ↔
        ¬ ((taken s ino).dirty = true ∧ VnodeKept env s ino m) :=
      finish_iff h.inv hm₁ h.linked h.ne h.count rfl rfl (fun i hi => hidle.links hi) nofun
        (fun _ => hidle.nameMap) hdecref
    refine iff_of_true (hiff.mpr ?_) hnot
    -- a vnode that was just read is not written back
    rintro ⟨hdirty, hload, -⟩
    have hdirty : (s.sv ino).dirty = true := hdirty
    rw [sv_of_not_loaded hload] at hdirty
    cases hdirty
  | @stored slot2 _ hfree hset hstored =>
    rw [hentries] at hfree
    have hset : t₁.entries = setSlot s.entries slot2 ⟨ino, n2⟩ := hset.trans (by rw [hentries])
    refine iff_of_false ?_ (not_not_intro hstored)
    refine finish_spoiled h.inv hm₁ h.linked h.ne h.count rfl rfl (some_ne_none e) ?_ hdecref
    intro hsame
    have hnew := congrFun hsame n2
    rw [hset, hfree.nameMap h.inv.names h.used, update_self, eq_comm,
      nameMap_eq_some h.inv.names] at hnew
    obtain ⟨hne, i, hi⟩ := hnew
    exact hfree.new i _ hi hne rfl

theorem Looked.both {slot2 : Nat}
    (hrun : onFile t SFS_ROOT_LOCATION (dirLink env · n2 ino) n = .ok ((t₁, .ok slot2), m)) :
    ¬ LinkStored env (t.file SFS_ROOT_LOCATION) n2 ino n ∧
      addLink t₁ ino = .ok (t₁.set ⟨t₁.fs, Faults.linked s ino⟩) ∧
      Both s (t₁.set ⟨t₁.fs, Faults.linked s ino⟩) ino slot1 slot2 n1 n2 := by
  obtain ⟨hm₁, hd₁, hlinking⟩ := h.linking hname hrun
  have hentries : (t.file SFS_ROOT_LOCATION).dirents = s.entries := congrArg File.dirents h.root
  cases hlinking with
  | done hfree hset hnot =>
    obtain ⟨hm₂, hfile⟩ := hm₁.setVnode h.ne (linked_key s ino)
    refine ⟨hnot, addLink_linked hm₁, ⟨h.inv, hm₂, ?_, h.ne, h.used, h.count, h.old, ?_, ?_⟩⟩
    · rw [hfile]
      exact hd₁
    · rwa [hentries] at hfree
    · refine (congrArg File.dirents hfile).trans (hset.trans ?_)
      rw [hentries]

end

end New

def oneFile : State where
  fs :=
    { nblocks := 8,
      disk := fun b =>
        if b = 3 then Inode.encode ⟨0, SFS_TYPE_FILE, 1, fun _ => 0, 0⟩
        else if b = 4 then splice zeros 0 (Dirent.encode ⟨3, [97]⟩)
        else zeros,
      freemap := { nbits := 4096, v := fun ix => if ix = 0 then 0x1f else 0xff },
      freemapdirty := false }
  vnodes := [⟨1, ⟨64, SFS_TYPE_DIR, 1, fun i => if i = 0 then 4 else 0, 0⟩, false, 1⟩]
  super := zeros
  superdirty := false

def failsAt (c : Nat) (fate : Fate) : Env :=
  ⟨fun n => if n = c then .fail Kern.Errno.EIO fate else .ok, fun _ => true⟩

theorem oneFile_blockAt (k : Nat) :
    (oneFile.file SFS_ROOT_LOCATION).blockAt k = if k = 0 then 4 else 0 := by
  by_cases hk : k < 15
  · refine (blockAt_direct _ ⟨k, hk⟩).trans ?_
    change (if (⟨k, hk⟩ : Fin 15) = 0 then 4 else 0) = _
    by_cases hzero : k = 0
    · subst hzero
      rfl
    · rw [if_neg hzero, if_neg fun heq => hzero (congrArg Fin.val heq)]
  · rw [blockAt_eq_zero (not_lt.mp hk) (.inr rfl), if_neg (by omega)]

theorem oneFile_entries : oneFile.entries = [⟨3, [97]⟩] := by decide +kernel

theorem oneFile_loaded {i : Nat} : Loaded oneFile i ↔ i = 1 := mem_singleton

theorem oneFile_linked {i : Nat} : Linked oneFile i ↔ i = 3 := by
  unfold Linked
  rw [oneFile_entries]
  constructor
  · rintro ⟨-, hpos⟩
    by_contra hne
    simp [links, Ne.symm hne] at hpos
  · rintro rfl
    decide

theorem oneFile_dirInv : DirInv oneFile where
  vnodes := by decide
  held i hi := by
    rw [oneFile_loaded.mp hi]
    decide
  sane := by
    constructor
    · intro k
      rw [oneFile_blockAt]
      split <;> decide
    · decide
    · intro j k hk hjk
      rw [oneFile_blockAt] at hk hjk
      rw [oneFile_blockAt] at hjk
      split_ifs at hk hjk <;> omega
    · intro k hk
      exact hk
    · decide
  dir := by
    constructor
    · decide
    · decide
    · intro x hx
      have hx : 64 ≤ x := hx
      have hlen : (Dirent.encode ⟨3, [97]⟩).length = 64 := rfl
      unfold File.byteAt
      rw [oneFile_blockAt]
      by_cases hblock : x / 512 = 0
      · rw [if_pos hblock, if_neg (by decide)]
        change splice zeros 0 (Dirent.encode ⟨3, [97]⟩) (x % 512) = 0
        rw [splice, if_neg (by omega)]
        rfl
      · rw [if_neg hblock, if_pos rfl]
  names := by
    rw [oneFile_entries]
    intro i j d e hi hj _ _ _
    have hi := lt_of_slot hi
    have hj := lt_of_slot hj
    simp at hi hj
    omega
  counts i _ hi := by
    obtain rfl | hlink | hload := hi
    · decide
    · rw [oneFile_linked.mp hlink, oneFile_entries]
      decide +kernel
    · rw [oneFile_loaded.mp hload, oneFile_entries]
      decide
  marked i hi := by
    rw [oneFile_linked.mp hi]
    decide
  apart i hi := by
    rw [oneFile_linked.mp hi]
    rintro (⟨k, hk⟩ | hind)
    · rw [oneFile_blockAt] at hk
      split_ifs at hk
      cases hk
    · cases hind

end Os161.Sfs.Faults
