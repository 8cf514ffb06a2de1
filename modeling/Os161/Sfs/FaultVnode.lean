import Os161.Sfs.FaultDir
import Os161.Sfs.SyncErrors
import Os161.Sfs.Calls

/-!
# A vnode held for the time of a call

If nobody else has it the vnode leaves the table at the end of the call, unless its inode has to be
written and cannot be.
-/

namespace Os161.Sfs.Faults

open Lib

/-- Every link count is the number of entries for the inode; the root has one more. -/
def Counted (s : State) : Prop := ∀ i, i ≠ SFS_NOINO → InUse s i →
    (s.sv i).inode.linkcount = links s.entries i + if i = SFS_ROOT_LOCATION then 1 else 0

/-- Nothing is said of blocks that nobody has: a failed allocation may have left them marked. -/
structure DirInv (s : State) : Prop where
  vnodes : (s.vnodes.map Sv.ino).Nodup
  held : ∀ i, Loaded s i → 0 < (s.sv i).refcount
  sane : Sane (s.file SFS_ROOT_LOCATION)
  dir : DirLike (s.file SFS_ROOT_LOCATION)
  names : DistinctNames s.entries
  counts : Counted s
  marked : ∀ i, Linked s i → s.fs.freemap.has i = true
  apart : ∀ i, Linked s i → ¬ Mine (s.file SFS_ROOT_LOCATION) i

def VnodeKept (env : Env) (s : State) (ino n : Nat) : Prop :=
  ¬ Loaded s ino ∧ ∃ e fate, env.device n = .fail e fate

variable {env : Env} {s s' t t' : State} {sv sv' : Sv} {f : File} {n n' ino slot : Nat}
variable {name : List UInt8}

theorem onFile_root {α : Type} {work : File → F (File × α)} {a : α}
    (hrun : onFile s SFS_ROOT_LOCATION work n = .ok ((s', a), n')) :
    Loaded s SFS_ROOT_LOCATION ∧
      ∃ f, work (s.file SFS_ROOT_LOCATION) n = .ok ((f, a), n') ∧ s' = s.set f := by
  obtain ⟨sv, m, hget, hrest⟩ := stateT_bind_eq_ok hrun
  obtain ⟨⟨f, b⟩, m', hwork, hret⟩ := stateT_bind_eq_ok hrest
  unfold getVnode at hget
  cases hlookup : lookup Sv.ino s.vnodes SFS_ROOT_LOCATION with
  | none =>
    rw [hlookup] at hget
    cases hget
  | some sv₁ =>
    rw [hlookup] at hget
    cases hget
    cases hret
    have hloaded : Loaded s SFS_ROOT_LOCATION := loaded_iff.mpr (by rw [hlookup]; rfl)
    refine ⟨hloaded, f, ?_, rfl⟩
    have hsv : s.sv SFS_ROOT_LOCATION = sv := Option.some.inj (hloaded.lookup.symm.trans hlookup)
    unfold State.file
    rwa [hsv]

structure Mid (s t : State) (ino : Nat) (sv : Sv) : Prop where
  nodup : (t.vnodes.map Sv.ino).Nodup
  root : Loaded t SFS_ROOT_LOCATION
  ext : Extends (s.file SFS_ROOT_LOCATION) (t.file SFS_ROOT_LOCATION)
  others : ∀ i, i ≠ SFS_ROOT_LOCATION → i ≠ ino →
    lookup Sv.ino t.vnodes i = lookup Sv.ino s.vnodes i
  vnode : lookup Sv.ino t.vnodes ino = some sv

section

variable (h : Mid s t ino sv)
include h

theorem Mid.loaded : Loaded t ino := loaded_iff.mpr (by rw [h.vnode]; rfl)

theorem Mid.key : sv.ino = ino := lookup_key h.vnode

theorem Mid.getVnode : getVnode t ino = .ok sv := by
  unfold Sfs.getVnode
  rw [h.vnode]
  rfl

theorem Mid.work (hino : ino ≠ SFS_ROOT_LOCATION)
    (hext : Extends (t.file SFS_ROOT_LOCATION) f) :
    Mid s (t.set f) ino sv ∧ (t.set f).file SFS_ROOT_LOCATION = f := by
  have hroot : f.sv.ino = SFS_ROOT_LOCATION := hext.stable.ino.trans (Sfs.sv_ino t _)
  have hfile : (t.set f).file SFS_ROOT_LOCATION = f := file_set h.root hroot
  refine ⟨⟨?_, loaded_set.mpr h.root, ?_, ?_, ?_⟩, hfile⟩
  · unfold State.set
    rw [map_key_put]
    exact h.nodup
  · rw [hfile]
    exact h.ext.trans hext
  · intro i hi hne
    exact (lookup_put_of_ne (by rwa [hroot])).trans (h.others i hi hne)
  · exact (lookup_put_of_ne (by rwa [hroot])).trans h.vnode

theorem Mid.setVnode (hino : ino ≠ SFS_ROOT_LOCATION) (hsv' : sv'.ino = ino) :
    Mid s (t.set ⟨t.fs, sv'⟩) ino sv' ∧
      (t.set ⟨t.fs, sv'⟩).file SFS_ROOT_LOCATION = t.file SFS_ROOT_LOCATION := by
  have hlookup : ∀ i, i ≠ ino → lookup Sv.ino (put Sv.ino t.vnodes sv') i = lookup Sv.ino t.vnodes i :=
    fun i hi => lookup_put_of_ne (by rwa [hsv'])
  have hfile : (t.set ⟨t.fs, sv'⟩).file SFS_ROOT_LOCATION = t.file SFS_ROOT_LOCATION := by
    unfold State.file State.sv State.set
    rw [hlookup _ hino.symm]
  refine ⟨⟨?_, loaded_set.mpr h.root, ?_, ?_, ?_⟩, hfile⟩
  · unfold State.set
    rw [map_key_put]
    exact h.nodup
  · rw [hfile]
    exact h.ext
  · intro i hi hne
    exact (hlookup i hne).trans (h.others i hi hne)
  · have hself := @lookup_put_self _ _ _ Sv.ino t.vnodes sv' (by rw [hsv', h.vnode]; rfl)
    rwa [hsv'] at hself

end

/-! ## Looking the old name up -/

theorem findVnode_eq_ok {fs : Fs} {l : List Sv} {b : Bool} (h : findVnode fs ino l = .ok b) :
    b = true ↔ ino ∈ l.map Sv.ino := by
  induction l with
  | nil =>
    cases h
    simp
  | cons sv l ih =>
    obtain ⟨used, -, h⟩ := bind_eq_ok h
    rw [List.map_cons, List.mem_cons]
    split_ifs at h with hused hino
    · cases h
      exact iff_of_true rfl (.inl hino.symm)
    · rw [ih h, or_iff_right (Ne.symm hino)]

theorem newVnode_eq_ok {inode : Inode} (h : newVnode ino inode SFS_TYPE_INVAL = .ok sv) :
    sv = ⟨ino, inode, false, 1⟩ := by
  unfold newVnode at h
  rw [if_neg fun hboth => hboth.1 rfl, if_neg (not_not_intro rfl)] at h
  dsimp only at h
  split at h
  · cases h
    rfl
  · cases h

theorem enter_eq_ok (h : enter env s sv n = .ok ((s', none), n')) :
    s' = { s with vnodes := s.vnodes ++ [sv] } := by
  obtain ⟨room, m, -, h⟩ := stateT_bind_eq_ok h
  split at h
  · cases h
  · obtain ⟨room, m, -, h⟩ := stateT_bind_eq_ok h
    split at h
    · cases h
    · cases h
      rfl

theorem loadvnode_loaded (h : loadvnode env s ino SFS_TYPE_INVAL n = .ok ((s', none), n')) :
    (Loaded s ino ∧ s' = s.set ⟨s.fs, { s.sv ino with refcount := (s.sv ino).refcount + 1 }⟩) ∨
      (¬ Loaded s ino ∧
        s' = { s with vnodes := s.vnodes ++ [⟨ino, Inode.decode (s.fs.disk ino), false, 1⟩] }) := by
  obtain ⟨found, m, hfind, h⟩ := stateT_bind_eq_ok h
  have hfound := findVnode_eq_ok (stateT_lift_eq_ok hfind).1
  cases found with
  | true =>
    have hloaded : Loaded s ino := hfound.mp rfl
    left
    refine ⟨hloaded, ?_⟩
    obtain ⟨s₁, m₁, hincref, hret⟩ := stateT_bind_eq_ok h
    unfold incref at hincref
    rw [hloaded.getVnode] at hincref
    cases hincref
    cases hret
    rfl
  | false =>
    have hloaded : ¬ Loaded s ino := fun hl => Bool.noConfusion (hfound.mpr hl)
    right
    refine ⟨hloaded, ?_⟩
    obtain ⟨room, m, -, h⟩ := stateT_bind_eq_ok h
    split at h
    · cases h
    obtain ⟨used, m, -, h⟩ := stateT_bind_eq_ok h
    split at h
    · cases h
    obtain ⟨r, m, hread, h⟩ := stateT_bind_eq_ok h
    cases r with
    | error e => cases h
    | ok buf =>
      obtain ⟨-, -, rfl, -⟩ := rblock_eq_ok.mp hread
      obtain ⟨sv, m, hnew, h⟩ := stateT_bind_eq_ok h
      obtain rfl := newVnode_eq_ok (stateT_lift_eq_ok hnew).1
      exact enter_eq_ok h

theorem DirInv.size_lt (h : DirInv s) : (s.file SFS_ROOT_LOCATION).sv.inode.size < 2 ^ 31 :=
  lt_of_le_of_lt h.dir.size (by decide)

theorem findname_onFile {r : Except Errno Found} (h : DirInv s)
    (hrun : onFile s SFS_ROOT_LOCATION (findname env · name) n = .ok ((s', r), n')) :
    s' = s ∧ Loaded s SFS_ROOT_LOCATION ∧ (s.sv SFS_ROOT_LOCATION).inode.type = SFS_TYPE_DIR ∧
      ∀ found, r = .ok found → FoundIn s.entries name s.entries.length found := by
  obtain ⟨hroot, f, hfind, rfl⟩ := onFile_root hrun
  obtain ⟨rfl, htype, hfound⟩ := findname_found h.size_lt hfind
  exact ⟨set_file h.vnodes hroot, hroot, htype, hfound⟩

theorem lookonce_failed {e : Errno} (h : DirInv s)
    (hrun : lookonce env s name n = .ok ((s', .error e), n')) : s' = s := by
  obtain ⟨⟨s₁, r⟩, m, hfind, hrest⟩ := stateT_bind_eq_ok hrun
  obtain ⟨rfl, -⟩ := findname_onFile h hfind
  cases r with
  | error e =>
    cases hrest
    rfl
  | ok found =>
    dsimp only at hrest
    cases hentry : found.entry with
    | none =>
      rw [hentry] at hrest
      cases hrest
      rfl
    | some entry =>
      rw [hentry] at hrest
      obtain ⟨⟨s₂, r₂⟩, m₂, hload, hret⟩ := stateT_bind_eq_ok hrest
      cases r₂ with
      | some e =>
        cases hret
        exact (loadvnode_failed hload).1
      | none =>
        obtain ⟨sv, m₃, -, hret⟩ := stateT_bind_eq_ok hret
        split at hret <;> cases hret

def taken (s : State) (ino : Nat) : Sv := { s.sv ino with refcount := (s.sv ino).refcount + 1 }

theorem taken_key (s : State) (ino : Nat) : (taken s ino).ino = ino := Sfs.sv_ino s ino

theorem loadvnode_lookup (h : (s.vnodes.map Sv.ino).Nodup)
    (hload : loadvnode env s ino SFS_TYPE_INVAL n = .ok ((s', none), n')) :
    s'.fs = s.fs ∧ (s'.vnodes.map Sv.ino).Nodup ∧ ∀ i, lookup Sv.ino s'.vnodes i =
      if i = ino then some (taken s ino) else lookup Sv.ino s.vnodes i := by
  obtain ⟨hloaded, rfl⟩ | ⟨hloaded, rfl⟩ := loadvnode_loaded hload
  · refine ⟨rfl, by unfold State.set; rwa [map_key_put], ?_⟩
    intro i
    split
    · rename_i hi
      subst hi
      have hself := @lookup_put_self _ _ _ Sv.ino s.vnodes (taken s i)
        (by rw [taken_key]; exact loaded_iff.mp hloaded)
      rwa [taken_key] at hself
    · exact lookup_put_of_ne (by change _ ≠ (taken s ino).ino; rwa [taken_key])
  · have hnone : lookup Sv.ino s.vnodes ino = none := lookup_eq_none.mpr hloaded
    refine ⟨rfl, nodup_append h hnone, ?_⟩
    intro i
    rw [lookup_append hnone]
    unfold taken
    rw [sv_of_not_loaded hloaded]
    rfl

theorem lookonce_found (h : DirInv s)
    (hrun : lookonce env s name n = .ok ((s', .ok (ino, slot)), n')) :
    s.entries[slot]? = some ⟨ino, name⟩ ∧ ino ≠ 0 ∧ (s.sv ino).inode.linkcount ≠ 0 ∧
      (s.sv SFS_ROOT_LOCATION).inode.type = SFS_TYPE_DIR ∧ getVnode s' ino = .ok (taken s ino) ∧
      (ino ≠ SFS_ROOT_LOCATION → Mid s s' ino (taken s ino) ∧
        s'.file SFS_ROOT_LOCATION = s.file SFS_ROOT_LOCATION) := by
  obtain ⟨⟨s₁, r⟩, m, hfind, hrest⟩ := stateT_bind_eq_ok hrun
  obtain ⟨rfl, hroot, htype, hfound⟩ := findname_onFile h hfind
  cases r with
  | error e => cases hrest
  | ok found =>
    dsimp only at hrest
    cases hentry : found.entry with
    | none =>
      rw [hentry] at hrest
      cases hrest
    | some entry =>
      obtain ⟨i, slot'⟩ := entry
      rw [hentry] at hrest
      obtain ⟨⟨s₂, r₂⟩, m₂, hload, hret⟩ := stateT_bind_eq_ok hrest
      cases r₂ with
      | some e => cases hret
      | none =>
        obtain ⟨hfs, hnodup, hlookup⟩ := loadvnode_lookup h.vnodes hload
        obtain ⟨sv, m₃, hlift, hend⟩ := stateT_bind_eq_ok hret
        have hget := (stateT_lift_eq_ok hlift).1
        by_cases hcount : sv.inode.linkcount = 0
        · rw [if_pos hcount] at hend
          cases hend
        rw [if_neg hcount] at hend
        obtain ⟨rfl, rfl, rfl⟩ : s₂ = s' ∧ i = ino ∧ slot' = slot := by
          cases hend
          exact ⟨rfl, rfl, rfl⟩
        obtain ⟨-, hslot, hino⟩ := (hfound found rfl).hit i slot' hentry
        have hvnode : lookup Sv.ino s₂.vnodes i = some (taken s₁ i) := by
          rw [hlookup, if_pos rfl]
        have hgot : getVnode s₂ i = .ok (taken s₁ i) := by
          unfold getVnode
          rw [hvnode]
          rfl
        rw [hgot] at hget
        cases hget
        refine ⟨hslot, hino, hcount, htype, hgot, fun hne => ?_⟩
        have hfile : s₂.file SFS_ROOT_LOCATION = s₁.file SFS_ROOT_LOCATION := by
          unfold State.file State.sv
          rw [hfs, hlookup, if_neg hne.symm]
        refine ⟨⟨hnodup, ?_, ?_, ?_, hvnode⟩, hfile⟩
        · rw [loaded_iff, hlookup, if_neg hne.symm]
          exact loaded_iff.mp hroot
        · rw [hfile]
          exact .refl h.sane
        · intro j _ hj
          rw [hlookup, if_neg hj]

structure Beyond (t s' : State) (ino : Nat) : Prop where
  others : ∀ i, i ≠ ino → lookup Sv.ino s'.vnodes i = lookup Sv.ino t.vnodes i
  disk : ∀ b, b ≠ ino → s'.fs.disk b = t.fs.disk b

inductive Release (env : Env) (s : State) (sv : Sv) (ino n : Nat) (s' : State) : Prop where
  | back : (s'.sv ino).inode = (s.sv ino).inode → (s'.sv ino).refcount = (s.sv ino).refcount →
    ¬ (sv.dirty = true ∧ VnodeKept env s ino n) → Release env s sv ino n s'
  | kept : sv.dirty = true → VnodeKept env s ino n →
    (s'.sv ino).refcount ≠ (s.sv ino).refcount → Release env s sv ino n s'

theorem decode_encode_decode (b : Block) :
    Inode.decode (Inode.decode b).encode = Inode.decode b := by
  apply Inode.decode_encode
  · exact wordAt_lt b 0
  · have := wordAt_lt b 1
    change wordAt b 1 / 2 ^ 16 < 2 ^ 16
    omega
  · exact Nat.mod_lt _ (by decide)
  · intro k
    exact wordAt_lt b _
  · exact wordAt_lt b 17

theorem Mid.disk (hm : Mid s t ino sv) (hinv : DirInv s) {i : Nat} (hi : Linked s i) :
    t.fs.disk i = s.fs.disk i :=
  hm.ext.others i (hinv.marked i hi) (hinv.apart i hi)

theorem refcount_of_not_loaded (h : ¬ Loaded s ino) : (s.sv ino).refcount = 0 := by
  rw [sv_of_not_loaded h]
  rfl

theorem discard_release {r : Option Errno} (hinv : DirInv s) (hm : Mid s t ino sv)
    (hlinked : Linked s ino) (hload : ¬ Loaded s ino) (hcount : sv.inode.linkcount ≠ 0)
    (hinode : sv.inode = (s.sv ino).inode) (href : sv.refcount ≠ 0)
    (hrun : discard env t ino n = .ok ((s', r), n')) :
    Beyond t s' ino ∧ Release env s sv ino n s' := by
  have hkey := hm.key
  have hdisk : Inode.decode (t.fs.disk ino) = sv.inode := by
    rw [hm.disk hinv hlinked, hinode, sv_of_not_loaded hload]
    rfl
  have hencode : Inode.decode sv.inode.encode = sv.inode := by
    rw [← hdisk]
    exact decode_encode_decode _
  -- the vnode leaves the table, and the inode is on disk
  have hgone : ∀ t' : State, (t'.vnodes.map Sv.ino).Nodup →
      Inode.decode (t'.fs.disk ino) = sv.inode →
      s' = { t' with vnodes := remove Sv.ino t'.vnodes ino } →
      (s'.sv ino).inode = (s.sv ino).inode ∧ (s'.sv ino).refcount = (s.sv ino).refcount := by
    rintro t' hnodup hdecode rfl
    have hnone : ¬ Loaded { t' with vnodes := remove Sv.ino t'.vnodes ino } ino := by
      rw [loaded_iff, lookup_remove_self hnodup]
      exact Bool.false_ne_true
    rw [sv_of_not_loaded hnone, refcount_of_not_loaded hload, ← hinode]
    exact ⟨hdecode, rfl⟩
  obtain ⟨⟨t₁, r₁⟩, m, hsync, hrest⟩ := stateT_bind_eq_ok hrun
  rw [← hkey] at hsync
  cases syncInode_flush (by rw [hkey]; exact hm.vnode) hsync with
  | clean hclean =>
    obtain ⟨sv₁, m₁, hlift, hend⟩ := stateT_bind_eq_ok hrest
    have hget := (stateT_lift_eq_ok hlift).1
    rw [hm.getVnode] at hget
    cases hget
    rw [if_neg hcount] at hend
    cases hend
    obtain ⟨h₁, h₂⟩ := hgone t hm.nodup hdisk rfl
    refine ⟨⟨fun i hi => lookup_remove_of_ne hi, fun _ _ => rfl⟩, .back h₁ h₂ ?_⟩
    rw [hclean]
    exact fun hboth => Bool.noConfusion hboth.1
  | written hdirty hok =>
    obtain ⟨sv₁, m₁, hlift, hend⟩ := stateT_bind_eq_ok hrest
    have hget := (stateT_lift_eq_ok hlift).1
    have hvnode := (loaded_set.mpr hm.loaded :
      Loaded (t.set ⟨t.fs.store sv.ino sv.inode.encode, { sv with dirty := false }⟩) ino).getVnode
    rw [sv_set hm.loaded hkey] at hvnode
    rw [hvnode] at hget
    cases hget
    rw [if_neg hcount] at hend
    cases hend
    have hnodup : ((t.set ⟨t.fs.store sv.ino sv.inode.encode, { sv with dirty := false }⟩).vnodes.map
        Sv.ino).Nodup := by
      unfold State.set
      rw [map_key_put]
      exact hm.nodup
    obtain ⟨h₁, h₂⟩ := hgone _ hnodup (by
      change Inode.decode ((t.fs.store sv.ino sv.inode.encode).disk ino) = _
      rw [← hkey, store_disk_self, hencode]) rfl
    refine ⟨⟨?_, ?_⟩, .back h₁ h₂ ?_⟩
    · intro i hi
      exact (lookup_remove_of_ne hi).trans (lookup_put_of_ne (by change _ ≠ sv.ino; rwa [hkey]))
    · intro b hb
      exact store_disk_of_ne (by rwa [hkey])
    · rintro ⟨-, -, e, fate, hfail⟩
      rw [hok] at hfail
      cases hfail
  | failed hdirty hfail =>
    cases hrest
    refine ⟨⟨fun _ _ => rfl, ?_⟩, .kept hdirty ⟨hload, _, _, hfail⟩ ?_⟩
    · intro b hb
      exact wrote_disk_of_ne _ _ (by rwa [hkey])
    · rw [refcount_of_not_loaded hload]
      unfold State.sv
      rw [hm.vnode]
      exact href

theorem decref_release (hinv : DirInv s) (hm : Mid s t ino sv) (hlinked : Linked s ino)
    (hcount : sv.inode.linkcount ≠ 0) (hinode : sv.inode = (s.sv ino).inode)
    (href : sv.refcount = (s.sv ino).refcount + 1) (hrun : decref env t ino n = .ok (s', n')) :
    Beyond t s' ino ∧ Release env s sv ino n s' := by
  have hkey := hm.key
  obtain ⟨sv₁, m, hlift, hrest⟩ := stateT_bind_eq_ok hrun
  obtain ⟨hget, rfl⟩ := stateT_lift_eq_ok hlift
  rw [hm.getVnode] at hget
  cases hget
  rw [if_neg (by omega)] at hrest
  by_cases hmore : 1 < sv.refcount
  · rw [if_pos hmore] at hrest
    cases hrest
    have hloaded : Loaded s ino := by
      by_contra hnot
      have := refcount_of_not_loaded hnot
      omega
    have hsv : ((t.set ⟨t.fs, { sv with refcount := sv.refcount - 1 }⟩).sv ino) =
        { sv with refcount := sv.refcount - 1 } := sv_set hm.loaded hkey
    refine ⟨⟨?_, fun _ _ => rfl⟩, .back ?_ ?_ fun hboth => hboth.2.1 hloaded⟩
    · intro i hi
      exact lookup_put_of_ne (by change _ ≠ sv.ino; rwa [hkey])
    · rw [hsv]
      exact hinode
    · rw [hsv]
      exact Nat.sub_eq_of_eq_add href
  · rw [if_neg hmore] at hrest
    have hload : ¬ Loaded s ino := by
      intro hl
      have := hinv.held ino hl
      omega
    obtain ⟨⟨t₁, r⟩, m₁, hreclaim, hret⟩ := stateT_bind_eq_ok hrest
    cases hret
    obtain ⟨sv₁, m₂, hlift₁, hrest₁⟩ := stateT_bind_eq_ok hreclaim
    obtain ⟨hget₁, rfl⟩ := stateT_lift_eq_ok hlift₁
    rw [hm.getVnode] at hget₁
    cases hget₁
    have hone : sv.refcount = 1 := by omega
    rw [if_neg (not_not_intro hone), if_neg hcount] at hrest₁
    exact discard_release hinv hm hlinked hload hcount hinode (by omega) hrest₁

theorem Mid.not_mine (hm : Mid s t ino sv) (hinv : DirInv s) (hlinked : Linked s ino) :
    ¬ Mine (t.file SFS_ROOT_LOCATION) ino := by
  intro hmine
  obtain hmine | hfree := hm.ext.fresh ino hmine
  · exact hinv.apart ino hlinked hmine
  · have hfree : s.fs.freemap.has ino = false := hfree
    rw [hinv.marked ino hlinked] at hfree
    cases hfree

theorem sv_of_loaded (hl : Loaded s ino)
    (h : lookup Sv.ino s'.vnodes ino = lookup Sv.ino s.vnodes ino) : s'.sv ino = s.sv ino := by
  unfold State.sv
  rw [h, hl.lookup, Option.getD_some, Option.getD_some]

theorem Beyond.entries (hb : Beyond t s' ino) (hne : ino ≠ SFS_ROOT_LOCATION)
    (hmine : ¬ Mine (t.file SFS_ROOT_LOCATION) ino) (hroot : Loaded t SFS_ROOT_LOCATION) :
    s'.sv SFS_ROOT_LOCATION = t.sv SFS_ROOT_LOCATION ∧ s'.entries = t.entries := by
  have hsv : s'.sv SFS_ROOT_LOCATION = t.sv SFS_ROOT_LOCATION :=
    sv_of_loaded hroot (hb.others _ hne.symm)
  refine ⟨hsv, ?_⟩
  have htbl : (s'.file SFS_ROOT_LOCATION).blockAt = (t.file SFS_ROOT_LOCATION).blockAt := by
    apply blockAt_congr
    case hdirect =>
      change (s'.sv SFS_ROOT_LOCATION).inode.direct = _
      rw [hsv]
      rfl
    case hind =>
      change (s'.sv SFS_ROOT_LOCATION).inode.indirect = _
      rw [hsv]
      rfl
    case hdisk =>
      intro _ j _
      congr 1
      exact hb.disk _ fun heq => hmine (.inr heq)
  apply dirents_congr
  · change (s'.sv SFS_ROOT_LOCATION).inode.size = _
    rw [hsv]
    rfl
  · apply byteAt_congr
    intro j
    exact .inl ⟨congrFun htbl j, fun _ => hb.disk _ fun heq => hmine (.inl ⟨j, heq⟩)⟩

theorem Mid.counted (hm : Mid s t ino sv) (hinv : DirInv s) (hlinked : Linked s ino)
    (hne : ino ≠ SFS_ROOT_LOCATION) (hb : Beyond t s' ino)
    (hlinks : ∀ i, i ≠ 0 → links s'.entries i = links s.entries i)
    (hinode : (s'.sv ino).inode = (s.sv ino).inode) : Counted s' := by
  have hroot := (hb.entries hne (hm.not_mine hinv hlinked) hm.root).1
  intro i hi huse
  have hlookup : i ≠ SFS_ROOT_LOCATION → i ≠ ino →
      lookup Sv.ino s'.vnodes i = lookup Sv.ino s.vnodes i :=
    fun h₁ h₂ => (hb.others i h₂).trans (hm.others i h₁ h₂)
  have huse' : InUse s i := by
    by_cases hir : i = SFS_ROOT_LOCATION
    · exact .inl hir
    by_cases hii : i = ino
    · rw [hii]
      exact .inr (.inl hlinked)
    obtain hroot | hlink | hload := huse
    · exact .inl hroot
    · refine .inr (.inl ⟨hi, ?_⟩)
      rw [← hlinks i hi]
      exact hlink.2
    · exact .inr (.inr (loaded_iff.mpr (by rw [← hlookup hir hii]; exact loaded_iff.mp hload)))
  rw [hlinks i hi, ← hinv.counts i hi huse']
  by_cases hir : i = SFS_ROOT_LOCATION
  · rw [hir, hroot]
    exact hm.ext.stable.linkcount
  by_cases hii : i = ino
  · rw [hii, hinode]
  have hload : Loaded s' i ↔ Loaded s i := by
    rw [loaded_iff, loaded_iff, hlookup hir hii]
  by_cases hl : Loaded s i
  · rw [sv_of_loaded hl (hlookup hir hii)]
  · have hlink : Linked s i := (huse'.resolve_left hir).resolve_right hl
    rw [sv_of_not_loaded hl, sv_of_not_loaded (hload.not.mpr hl)]
    unfold Sv.onDisk
    rw [hb.disk i hii, hm.disk hinv hlink]

theorem Mid.refs (hm : Mid s t ino sv) (hinv : DirInv s) (hlinked : Linked s ino)
    (hne : ino ≠ SFS_ROOT_LOCATION) (hb : Beyond t s' ino)
    (href : (s'.sv ino).refcount = (s.sv ino).refcount) (i : Nat) :
    (s'.sv i).refcount = (s.sv i).refcount := by
  by_cases hir : i = SFS_ROOT_LOCATION
  · rw [hir, (hb.entries hne (hm.not_mine hinv hlinked) hm.root).1]
    exact hm.ext.stable.refcount
  by_cases hii : i = ino
  · rw [hii, href]
  have hlookup : lookup Sv.ino s'.vnodes i = lookup Sv.ino s.vnodes i :=
    (hb.others i hii).trans (hm.others i hir hii)
  by_cases hl : Loaded s i
  · rw [sv_of_loaded hl hlookup]
  · have hl' : ¬ Loaded s' i := by rwa [loaded_iff, hlookup, ← loaded_iff]
    rw [refcount_of_not_loaded hl, refcount_of_not_loaded hl']

theorem dirInv_of_inv {size : Nat} {own : Owner} {gap : Nat → Int} (h : Inv size own gap s)
    (hgap : ∀ i, gap i = 0)
    (htail : ∀ x, (s.sv SFS_ROOT_LOCATION).inode.size ≤ x →
      (s.file SFS_ROOT_LOCATION).byteAt x = 0) : DirInv s where
  vnodes := h.vnodes
  held i hi := (h.good i hi.inUse).held hi
  sane := sane_of_owns (h.owns (root_inUse s))
  dir := ⟨h.dir.aligned, h.dir.size, htail⟩
  names := h.dir.names
  counts i _ hi := by
    have hcount := h.counts i hi
    rw [hgap, Int.add_zero] at hcount
    split_ifs at hcount ⊢ <;> omega
  marked i hi := h.map.has (h.inode (.inr (.inl hi)))
  apart i hi := by
    have hrole := h.inode (.inr (.inl hi))
    have hblocks := (h.good _ (root_inUse s)).blocks
    rintro (⟨k, hk⟩ | hind)
    · rw [(hblocks.data k i hi.1).mp hk] at hrole
      cases hrole
    · rw [(hblocks.ind i hi.1).mp hind] at hrole
      cases hrole

end Os161.Sfs.Faults
