import Os161.Sfs.Contents
import Os161.Sfs.Faults

/-! # Blocks that a failed allocation leaves marked -/

open Function

namespace Os161.Sfs.Faults

open Lib

/-- The inode or the indirect block on disk has the number of the block. -/
def Referenced (f : File) (b : Nat) : Prop :=
  (∃ i, f.sv.inode.direct i = b) ∨ f.sv.inode.indirect = b ∨
    f.sv.inode.indirect ≠ 0 ∧ ∃ j < SFS_DBPERIDB, wordAt (f.fs.disk f.sv.inode.indirect) j = b

structure Regular (f : File) : Prop where
  marked : ∀ b, Referenced f b → f.fs.freemap.has b = true
  fits : f.fs.nblocks < 2 ^ 32

structure NoLeak (f f' : File) : Prop where
  accounted : ∀ b, f'.fs.freemap.has b = true → f.fs.freemap.has b = false → Referenced f' b
  unchanged : (∀ b, Referenced f' b → Referenced f b) →
    ∀ b, f'.fs.freemap.has b = f.fs.freemap.has b

def ClearFails (env : Env) (fs : Fs) (n : Nat) : Prop :=
  ∃ freemap b, fs.freemap.alloc = some (some (freemap, b)) ∧ b < fs.nblocks ∧
    ∃ e fate, env.device n = .fail e fate ∧ e ≠ .EINVAL

/-- The new block cannot be cleared, or the indirect block cannot be written. -/
def SlotLoses (env : Env) (f : File) (idblock : Nat) (idbuf : Nat → Nat) (idoff n : Nat) : Prop :=
  idbuf idoff = 0 ∧ (ClearFails env f.fs n ∨ ∃ fs b n', balloc env f.fs n = .ok ((fs, .ok b), n') ∧
    idblock < fs.nblocks ∧ ∃ e fate, env.device n' = .fail e fate ∧ e ≠ .EINVAL ∧ fate ≠ .stored)

def IndirectLoses (env : Env) (f : File) (idoff n : Nat) : Prop := if f.sv.inode.indirect = 0 then
    ClearFails env f.fs n ∨ ∃ fs idblock n', balloc env f.fs n = .ok ((fs, .ok idblock), n') ∧
      SlotLoses env { fs, sv := f.sv.setIndirect idblock } idblock (fun _ => 0) idoff n'
  else ∃ buf n', rblock env f.fs f.sv.inode.indirect n = .ok (.ok buf, n') ∧
    SlotLoses env f f.sv.inode.indirect (wordAt buf) idoff n'

def BmapLoses (env : Env) (f : File) (fileblock n : Nat) : Prop :=
  if h : fileblock < SFS_NDIRECT then f.sv.inode.direct ⟨fileblock, h⟩ = 0 ∧ ClearFails env f.fs n
  else (fileblock - SFS_NDIRECT) / SFS_DBPERIDB = 0 ∧
    IndirectLoses env f ((fileblock - SFS_NDIRECT) % SFS_DBPERIDB) n

/-- There is no memory for the vnode, its inode cannot be read, or there is no memory for its lock or
for its place in the table. -/
def LoadFails (env : Env) (s : State) (ino type n : Nat) : Prop :=
  findVnode s.fs ino s.vnodes = .ok false ∧ (env.kmalloc n = false ∨
    bused s.fs ino = .ok true ∧ ino < s.fs.nblocks ∧
      ((∃ e fate, env.device (n + 1) = .fail e fate ∧ e ≠ .EINVAL) ∨
        env.device (n + 1) = .ok ∧ (∃ sv, newVnode ino (Inode.decode (s.fs.disk ino)) type = .ok sv) ∧
          (env.kmalloc (n + 2) = false ∨ env.kmalloc (n + 3) = false)))

/-- The new inode has its block, and no vnode. -/
def InodeLoses (env : Env) (s : State) (type n : Nat) : Prop :=
  ∃ ino, s.fs.freemap.alloc = some (some (s.fs.freemap.setBit ino, ino)) ∧ ino < s.fs.nblocks ∧
    env.device n = .ok ∧ LoadFails env { s with fs := s.fs.take ino } ino type (n + 1)

variable {env : Env} {fs fs' : Fs} {f f' : File} {n n' b : Nat} {e : Errno}

def marked (a : Answer) (fs : Fs) (b : Nat) : Fs :=
  wrote a { fs with freemap := fs.freemap.setBit b, freemapdirty := true } b zeros

structure Fresh (fs : Fs) (b : Nat) : Prop where
  lt : b < fs.nblocks
  free : fs.freemap.has b = false
  first : fs.freemap.alloc = some (some (fs.freemap.setBit b, b))

inductive Given (env : Env) (fs : Fs) (n : Nat) : Fs → Except Errno Nat → Nat → Prop where
  | full : fs.freemap.alloc = some none → Given env fs n fs (.error .ENOSPC) n
  | failed {b : Nat} {e : Errno} {fate : Fate} : Fresh fs b → env.device n = .fail e fate →
    e ≠ .EINVAL → Given env fs n (marked (.fail e fate) fs b) (.error e) (n + 1)
  | given {b : Nat} : Fresh fs b → env.device n = .ok → Given env fs n (fs.take b) (.ok b) (n + 1)

theorem balloc_given {r : Except Errno Nat} (h : balloc env fs n = .ok ((fs', r), n')) :
    Given env fs n fs' r n' := by
  unfold balloc at h
  cases halloc : fs.freemap.alloc with
  | none =>
    rw [halloc] at h
    cases h
  | some found =>
    rw [halloc] at h
    cases found with
    | none =>
      cases h
      exact .full halloc
    | some got =>
      obtain ⟨freemap, b⟩ := got
      obtain ⟨rfl, hfree⟩ := Bitmap.alloc_eq_some halloc
      dsimp only at h
      split at h
      · cases h
      · rename_i hb
        have hfresh : Fresh fs b := ⟨not_le.mp hb, hfree, halloc⟩
        obtain ⟨⟨fs₁, r₁⟩, m, hw, hret⟩ := stateT_bind_eq_ok h
        obtain ⟨-, rfl, he, rfl, rfl⟩ := wblock_eq_ok.mp hw
        cases hd : env.device n with
        | ok =>
          simp only [hd, Answer.err] at hret
          cases hret
          exact .given hfresh hd
        | fail e fate =>
          simp only [hd, Answer.err] at hret he
          cases hret
          exact .failed hfresh hd fun heq => he (congrArg some heq)

theorem balloc_fresh {a : Answer} (h : Fresh fs b) (hd : env.device n = a) (he : a.err ≠ some .EINVAL) :
    balloc env fs n = .ok ((marked a fs b, a.err.elim (.ok b) .error), n + 1) := by
  have hw : wblock env { fs with freemap := fs.freemap.setBit b, freemapdirty := true } b zeros n =
      .ok ((marked a fs b, a.err), n + 1) := by
    subst hd
    exact wblock_eq_ok.mpr ⟨h.lt, rfl, he, rfl, rfl⟩
  unfold balloc
  simp only [h.first, if_neg (not_le.mpr h.lt)]
  rw [stateT_bind_of_ok hw]
  cases a.err <;> rfl

theorem balloc_failed {fate : Fate} (h : Fresh fs b) (hd : env.device n = .fail e fate)
    (he : e ≠ .EINVAL) :
    balloc env fs n = .ok ((marked (.fail e fate) fs b, .error e), n + 1) :=
  balloc_fresh h hd fun heq => he (Option.some.inj heq)

theorem balloc_taken (h : Fresh fs b) (hd : env.device n = .ok) :
    balloc env fs n = .ok ((fs.take b, .ok b), n + 1) :=
  balloc_fresh h hd nofun

theorem clearFails_iff : ClearFails env fs n ↔
    ∃ b e fate, Fresh fs b ∧ env.device n = .fail e fate ∧ e ≠ .EINVAL := by
  constructor
  · rintro ⟨freemap, b, halloc, hb, e, fate, hd, he⟩
    obtain ⟨rfl, hfree⟩ := Bitmap.alloc_eq_some halloc
    exact ⟨b, e, fate, ⟨hb, hfree, halloc⟩, hd, he⟩
  · rintro ⟨b, e, fate, hfresh, hd, he⟩
    exact ⟨_, b, hfresh.first, hfresh.lt, e, fate, hd, he⟩

theorem marked_has (a : Answer) (c : Nat) :
    (marked a fs b).freemap.has c = if c = b then true else fs.freemap.has c := by
  unfold marked
  rw [wrote_freemap, Bitmap.has_setBit]

theorem marked_disk_of_ne (a : Answer) {c : Nat} (h : c ≠ b) : (marked a fs b).disk c = fs.disk c := by
  unfold marked wrote
  split
  · exact update_of_ne h ..
  · rfl

theorem take_has (c : Nat) : (fs.take b).freemap.has c = if c = b then true else fs.freemap.has c :=
  Bitmap.has_setBit ..

theorem balloc_safe_iff : (∀ fs' e n', balloc env fs n = .ok ((fs', .error e), n') →
    fs'.freemap = fs.freemap) ↔ ¬ ClearFails env fs n := by
  rw [clearFails_iff]
  constructor
  · rintro hsafe ⟨b, e, fate, hfresh, hd, he⟩
    have hsame := hsafe _ _ _ (balloc_failed hfresh hd he)
    have hbit : (marked (.fail e fate) fs b).freemap.has b = _ := marked_has _ _
    rw [hsame, if_pos rfl, hfresh.free] at hbit
    cases hbit
  · intro hclear fs' e n' h
    cases balloc_given h with
    | full _ => rfl
    | failed hfresh hd he => exact absurd ⟨_, _, _, hfresh, hd, he⟩ hclear

/-! ## `sfs_bmap` -/

def Loses (f f' : File) : Prop :=
  ∃ b, f.fs.freemap.has b = false ∧ f'.fs.freemap.has b = true ∧ ¬ Referenced f' b

structure Accounts (f f' : File) : Prop where
  keeps : ∀ b, f.fs.freemap.has b = true → f'.fs.freemap.has b = true
  accounted : ∀ b, f'.fs.freemap.has b = true → f.fs.freemap.has b = false → Referenced f' b

theorem Accounts.refl (f : File) : Accounts f f where
  keeps _ := id
  accounted b hset hfree := absurd (hset.symm.trans hfree) (by decide)

theorem Accounts.noLeak (h : Accounts f f') (hf : Regular f) : NoLeak f f' where
  accounted := h.accounted
  unchanged hnone b := by
    cases hb : f.fs.freemap.has b with
    | true => exact h.keeps b hb
    | false =>
      rw [Bool.eq_false_iff]
      intro hset
      have hmarked := hf.marked b (hnone b (h.accounted b hset hb))
      rw [hb] at hmarked
      cases hmarked

theorem Loses.not_noLeak (h : Loses f f') : ¬ NoLeak f f' := by
  obtain ⟨b, hfree, hset, hnone⟩ := h
  exact fun hno => hnone (hno.accounted b hset hfree)

theorem Regular.loses (h : Regular f) (hfree : f.fs.freemap.has b = false)
    (hset : fs'.freemap.has b = true) (hdisk : ∀ c, c ≠ b → fs'.disk c = f.fs.disk c) :
    Loses f { f with fs := fs' } := by
  refine ⟨b, hfree, hset, ?_⟩
  have hunmarked : ¬ Referenced f b := by
    intro href
    rw [h.marked b href] at hfree
    cases hfree
  have hind : f.sv.inode.indirect ≠ b := fun heq => hunmarked (.inr (.inl heq))
  intro href
  apply hunmarked
  unfold Referenced at href
  rwa [hdisk _ hind] at href

theorem handBack_ne_error : handBack f b n ≠ .ok ((f', .error e), n') := by
  unfold handBack
  split
  · nofun
  · intro h
    obtain ⟨used, m, -, hret⟩ := stateT_bind_eq_ok h
    split at hret <;> cases hret

section Slot

variable {idbuf : Nat → Nat} {idoff : Nat}

theorem bmapSlot_loses (h : Regular f)
    (hloses : SlotLoses env f f.sv.inode.indirect idbuf idoff n) :
    ∃ f' e n', bmapSlot env f f.sv.inode.indirect idbuf idoff true n = .ok ((f', .error e), n') ∧
      f'.sv = f.sv ∧ Loses f f' := by
  obtain ⟨hzero, hfails | ⟨fs, b, m, halloc, hlt, e, fate, hd, he, hfate⟩⟩ := hloses
  · obtain ⟨b, e, fate, hfresh, hd, he⟩ := clearFails_iff.mp hfails
    refine ⟨{ f with fs := marked (.fail e fate) f.fs b }, e, n + 1, ?_, rfl,
      h.loses hfresh.free ?_ fun c => marked_disk_of_ne _⟩
    · unfold bmapSlot
      rw [if_pos ⟨hzero, rfl⟩, stateT_bind_of_ok (balloc_failed hfresh hd he)]
      rfl
    · rw [marked_has, if_pos rfl]
  · cases balloc_given halloc with
    | given hfresh _ =>
      have hstays : wrote (.fail e fate) (f.fs.take b) f.sv.inode.indirect
          (ofWords (update idbuf idoff b)) = f.fs.take b :=
        if_neg (by simpa [Answer.stores] using hfate)
      have hw : wblock env (f.fs.take b) f.sv.inode.indirect
          (ofWords (update idbuf idoff b)) (n + 1) = .ok ((f.fs.take b, some e), n + 1 + 1) := by
        refine wblock_eq_ok.mpr ⟨hlt, ?_, fun heq => he (Option.some.inj heq), ?_, rfl⟩
        · rw [hd]
          rfl
        · rw [hd, hstays]
      refine ⟨{ f with fs := f.fs.take b }, e, n + 1 + 1, ?_, rfl,
        h.loses hfresh.free ?_ fun c => take_disk_of_ne⟩
      · unfold bmapSlot
        rw [if_pos ⟨hzero, rfl⟩, stateT_bind_of_ok halloc]
        change (wblock env _ _ _ >>= _) _ = _
        rw [stateT_bind_of_ok hw]
        rfl
      · rw [take_has, if_pos rfl]

theorem bmapSlot_accounts (h : Regular f) (hne : f.sv.inode.indirect ≠ 0)
    (hoff : idoff < SFS_DBPERIDB)
    (hkeeps : ¬ SlotLoses env f f.sv.inode.indirect idbuf idoff n)
    (hrun : bmapSlot env f f.sv.inode.indirect idbuf idoff true n = .ok ((f', .error e), n')) :
    f'.sv = f.sv ∧ Accounts f f' := by
  unfold bmapSlot at hrun
  by_cases hzero : idbuf idoff = 0
  · rw [if_pos ⟨hzero, rfl⟩] at hrun
    obtain ⟨⟨fs, r⟩, m, halloc, hrest⟩ := stateT_bind_eq_ok hrun
    cases balloc_given halloc with
    | full _ =>
      cases hrest
      exact ⟨rfl, .refl f⟩
    | failed hfresh hd he =>
      exact absurd ⟨hzero, .inl (clearFails_iff.mpr ⟨_, _, _, hfresh, hd, he⟩)⟩ hkeeps
    | @given b hfresh hd =>
      obtain ⟨⟨fs₁, r₁⟩, m₁, hw, hret⟩ := stateT_bind_eq_ok hrest
      obtain ⟨hlt, rfl, he, rfl, rfl⟩ := wblock_eq_ok.mp hw
      cases hd' : env.device (n + 1) with
      | ok =>
        simp only [hd', Answer.err] at hret
        exact absurd hret handBack_ne_error
      | fail e fate =>
        simp only [hd', Answer.err] at hret he
        cases hret
        have hfate : fate = .stored := by
          by_contra hne
          exact hkeeps ⟨hzero, .inr ⟨_, b, _, halloc, hlt, e, fate, hd',
            fun heq => he (congrArg some heq), hne⟩⟩
        subst hfate
        refine ⟨rfl, ?_, ?_⟩
        · intro c hc
          change (f.fs.take b).freemap.has c = true
          rw [take_has, hc, ite_self]
        · intro c hset hfree
          change (f.fs.take b).freemap.has c = true at hset
          have hc : c = b := by
            by_contra hne
            rw [take_has, if_neg hne, hfree] at hset
            cases hset
          subst hc
          have hword : update idbuf idoff c idoff = c := update_self ..
          have hstored : (wrote (.fail e .stored) (f.fs.take c) f.sv.inode.indirect
              (ofWords (update idbuf idoff c))).disk f.sv.inode.indirect =
                ofWords (update idbuf idoff c) := update_self ..
          refine .inr (.inr ⟨hne, idoff, hoff, ?_⟩)
          rw [hstored, wordAt_ofWords, hword]
          rw [hword]
          exact lt_trans hfresh.lt h.fits
  · rw [if_neg fun hboth => hzero hboth.1] at hrun
    exact absurd hrun handBack_ne_error

theorem Regular.setIndirect (h : Regular f) (hzero : f.sv.inode.indirect = 0) (b : Nat) :
    Regular { fs := f.fs.take b, sv := f.sv.setIndirect b } where
  marked c href := by
    have hkeeps : f.fs.freemap.has c = true → (f.fs.take b).freemap.has c = true := by
      intro hc
      rw [take_has, hc, ite_self]
    obtain ⟨i, hi⟩ | hi | ⟨-, j, -, hj⟩ := href
    · exact hkeeps (h.marked c (.inl ⟨i, hi⟩))
    · rw [take_has, if_pos (show c = b from hi.symm)]
    · have hzeros : (f.fs.take b).disk b = zeros := take_disk_self
      change wordAt ((f.fs.take b).disk b) j = c at hj
      rw [hzeros] at hj
      have hc : c = 0 := hj.symm.trans wordAt_zero
      subst hc
      exact hkeeps (h.marked 0 (.inr (.inl hzero)))
  fits := h.fits

theorem Accounts.trans {g : File} (h : Accounts g f')
    (hg : ∀ c, g.fs.freemap.has c = if c = b then true else f.fs.freemap.has c)
    (hb : Referenced f' b) : Accounts f f' where
  keeps c hc := h.keeps c (by rw [hg, hc, ite_self])
  accounted c hset hfree := by
    by_cases hcb : c = b
    · subst hcb
      exact hb
    · exact h.accounted c hset (by rw [hg, if_neg hcb, hfree])

theorem Loses.trans {g : File} (h : Loses g f')
    (hg : ∀ c, g.fs.freemap.has c = if c = b then true else f.fs.freemap.has c) : Loses f f' := by
  obtain ⟨c, hfree, hset, hnone⟩ := h
  refine ⟨c, ?_, hset, hnone⟩
  rw [hg] at hfree
  split at hfree
  · cases hfree
  · exact hfree

theorem bmapIndirect_loses (h : Regular f) (hloses : IndirectLoses env f idoff n) :
    ∃ f' e n', bmapIndirect env f idoff true n = .ok ((f', .error e), n') ∧ Loses f f' := by
  unfold IndirectLoses at hloses
  unfold bmapIndirect
  by_cases hzero : f.sv.inode.indirect = 0
  · rw [if_pos hzero] at hloses
    rw [if_neg (by simp), if_pos hzero]
    obtain hfails | ⟨fs, idblock, m, halloc, hslot⟩ := hloses
    · obtain ⟨b, e, fate, hfresh, hd, he⟩ := clearFails_iff.mp hfails
      refine ⟨{ f with fs := marked (.fail e fate) f.fs b }, e, n + 1, ?_,
        h.loses hfresh.free ?_ fun c => marked_disk_of_ne _⟩
      · rw [stateT_bind_of_ok (balloc_failed hfresh hd he)]
        rfl
      · rw [marked_has, if_pos rfl]
    · cases balloc_given halloc with
      | given hfresh hd =>
        obtain ⟨f', e, n', hrun, -, hlost⟩ := bmapSlot_loses (h.setIndirect hzero _) hslot
        refine ⟨f', e, n', ?_, hlost.trans fun c => take_has c⟩
        rw [stateT_bind_of_ok halloc]
        exact hrun
  · rw [if_neg hzero] at hloses
    rw [if_neg fun hboth => hzero hboth.1, if_neg hzero]
    obtain ⟨buf, m, hread, hslot⟩ := hloses
    obtain ⟨f', e, n', hrun, -, hlost⟩ := bmapSlot_loses h hslot
    refine ⟨f', e, n', ?_, hlost⟩
    rw [stateT_bind_of_ok hread]
    exact hrun

theorem bmapIndirect_accounts (h : Regular f) (hoff : idoff < SFS_DBPERIDB)
    (hkeeps : ¬ IndirectLoses env f idoff n)
    (hrun : bmapIndirect env f idoff true n = .ok ((f', .error e), n')) : Accounts f f' := by
  unfold IndirectLoses at hkeeps
  unfold bmapIndirect at hrun
  by_cases hzero : f.sv.inode.indirect = 0
  · rw [if_pos hzero] at hkeeps
    rw [if_neg (by simp), if_pos hzero] at hrun
    obtain ⟨⟨fs, r⟩, m, halloc, hrest⟩ := stateT_bind_eq_ok hrun
    cases balloc_given halloc with
    | full _ =>
      cases hrest
      exact .refl f
    | failed hfresh hd he =>
      exact absurd (.inl (clearFails_iff.mpr ⟨_, _, _, hfresh, hd, he⟩)) hkeeps
    | @given b hfresh hd =>
      have hne : b ≠ 0 := by
        rintro rfl
        have hmarked := h.marked 0 (.inr (.inl hzero))
        rw [hfresh.free] at hmarked
        cases hmarked
      obtain ⟨hsv, hacc⟩ := bmapSlot_accounts (h.setIndirect hzero _) hne hoff
        (fun hslot => hkeeps (.inr ⟨_, b, _, halloc, hslot⟩)) hrest
      refine hacc.trans (fun c => take_has c) (.inr (.inl ?_))
      rw [hsv]
      rfl
  · rw [if_neg hzero] at hkeeps
    rw [if_neg fun hboth => hzero hboth.1, if_neg hzero] at hrun
    obtain ⟨r, m, hread, hrest⟩ := stateT_bind_eq_ok hrun
    cases r with
    | error e =>
      cases hrest
      exact .refl f
    | ok buf =>
      exact (bmapSlot_accounts h hzero hoff (fun hslot => hkeeps ⟨buf, m, hread, hslot⟩) hrest).2

end Slot

theorem bmapDirect_safe_iff (h : Regular f) {i : Fin SFS_NDIRECT} :
    (∀ f' e n', bmapDirect env f i true n = .ok ((f', .error e), n') → NoLeak f f') ↔
      ¬ (f.sv.inode.direct i = 0 ∧ ClearFails env f.fs n) := by
  unfold bmapDirect
  by_cases hzero : f.sv.inode.direct i = 0
  · rw [if_pos ⟨hzero, rfl⟩, and_iff_right hzero, clearFails_iff]
    constructor
    · rintro hsafe ⟨b, e, fate, hfresh, hd, he⟩
      have hlost : Loses f { f with fs := marked (.fail e fate) f.fs b } := by
        refine h.loses hfresh.free ?_ fun c => marked_disk_of_ne _
        rw [marked_has, if_pos rfl]
      refine hlost.not_noLeak (hsafe _ e (n + 1) ?_)
      rw [stateT_bind_of_ok (balloc_failed hfresh hd he)]
      rfl
    · intro hclear f' e n' hrun
      obtain ⟨⟨fs, r⟩, m, halloc, hrest⟩ := stateT_bind_eq_ok hrun
      cases balloc_given halloc with
      | full _ =>
        cases hrest
        exact (Accounts.refl f).noLeak h
      | failed hfresh hd he => exact absurd ⟨_, _, _, hfresh, hd, he⟩ hclear
      | given hfresh hd => exact absurd hrest handBack_ne_error
  · rw [if_neg fun hboth => hzero hboth.1]
    exact iff_of_true (fun f' e n' hrun => absurd hrun handBack_ne_error) fun hboth => hzero hboth.1

theorem bmap_safe_iff (h : Regular f) {k : Nat} :
    (∀ f' e n', bmap env f k true n = .ok ((f', .error e), n') → NoLeak f f') ↔
      ¬ BmapLoses env f k n := by
  unfold bmap BmapLoses
  by_cases hk : k < SFS_NDIRECT
  · simp only [dif_pos hk]
    exact bmapDirect_safe_iff h
  · simp only [dif_neg hk]
    by_cases hnum : (k - SFS_NDIRECT) / SFS_DBPERIDB = 0
    · rw [if_neg (by rw [hnum]; exact lt_irrefl 0), and_iff_right hnum]
      constructor
      · intro hsafe hloses
        obtain ⟨f', e, n', hrun, hlost⟩ := bmapIndirect_loses h hloses
        exact hlost.not_noLeak (hsafe f' e n' hrun)
      · intro hkeeps f' e n' hrun
        exact (bmapIndirect_accounts h (Nat.mod_lt _ (by decide)) hkeeps hrun).noLeak h
    · rw [if_pos (Nat.pos_of_ne_zero hnum)]
      refine iff_of_true ?_ fun hboth => hnum hboth.1
      intro f' e n' hrun
      cases hrun
      exact (Accounts.refl f).noLeak h

theorem regular_of_owns {own : Owner} (h : Owns own f) : Regular f where
  marked b href := by
    by_cases hb : b = 0
    · subst hb
      exact h.map.has h.map.super
    obtain ⟨i, hi⟩ | hi | ⟨hne, j, hj, hw⟩ := href
    · have hblock : f.blockAt i = b := (blockAt_direct f i).trans hi
      exact h.map.has ((h.file.data i b hb).mp hblock)
    · exact h.map.has ((h.file.ind b hb).mp hi)
    · have hj' : 15 + j - 15 = j := Nat.add_sub_cancel_left ..
      have hblock : f.blockAt (15 + j) = b := by
        rw [blockAt_indirect (Nat.le_add_right ..) (Nat.add_lt_add_left hj 15) hne, hj', hw]
      exact h.map.has ((h.file.data (15 + j) b hb).mp hblock)
  fits := h.map.fits

theorem enter_failed {s s' : State} {sv : Sv} (h : enter env s sv n = .ok ((s', some e), n')) :
    s' = s ∧ (env.kmalloc n = false ∨ env.kmalloc (n + 1) = false) := by
  obtain ⟨b, m, hb, h⟩ := stateT_bind_eq_ok h
  cases hb
  cases hb : env.kmalloc n with
  | false =>
    rw [hb] at h
    cases h
    exact ⟨rfl, .inl rfl⟩
  | true =>
    rw [hb] at h
    obtain ⟨b, m, hb, h⟩ := stateT_bind_eq_ok h
    cases hb
    cases hb : env.kmalloc (n + 1) with
    | false =>
      rw [hb] at h
      cases h
      exact ⟨rfl, .inr rfl⟩
    | true =>
      rw [hb] at h
      cases h

theorem loadvnode_failed {s s' : State} {ino type : Nat}
    (h : loadvnode env s ino type n = .ok ((s', some e), n')) : s' = s ∧ LoadFails env s ino type n := by
  obtain ⟨found, m, hlift, h⟩ := stateT_bind_eq_ok h
  obtain ⟨hfound, hm⟩ := stateT_lift_eq_ok hlift
  rw [hm] at h
  cases found with
  | true =>
    simp only [if_true] at h
    split at h
    · cases h
    · obtain ⟨_, _, -, h⟩ := stateT_bind_eq_ok h
      cases h
  | false =>
    obtain ⟨room, m, hroom, h⟩ := stateT_bind_eq_ok h
    cases hroom
    cases hroom : env.kmalloc n with
    | false =>
      rw [hroom] at h
      cases h
      exact ⟨rfl, hfound, .inl hroom⟩
    | true =>
      rw [hroom] at h
      obtain ⟨used, m, hused, h⟩ := stateT_bind_eq_ok h
      obtain ⟨hused, hm⟩ := stateT_lift_eq_ok hused
      rw [hm] at h
      cases used with
      | false => cases h
      | true =>
        obtain ⟨r, m, hread, h⟩ := stateT_bind_eq_ok h
        obtain ⟨a, m, ha, hread⟩ := stateT_bind_eq_ok hread
        obtain ⟨hlt, he, rfl, rfl⟩ := rwblock_eq_ok.mp ha
        cases hd : env.device (n + 1) with
        | fail e fate =>
          simp only [hd, Answer.err] at he hread
          cases hread
          cases h
          exact ⟨rfl, hfound, .inr ⟨hused, hlt, .inl ⟨e, fate, hd, fun heq => he (congrArg some heq)⟩⟩⟩
        | ok =>
          simp only [hd, Answer.err] at hread
          cases hread
          obtain ⟨sv, m, hnew, h⟩ := stateT_bind_eq_ok h
          obtain ⟨hnew, hm⟩ := stateT_lift_eq_ok hnew
          rw [hm] at h
          obtain ⟨rfl, henter⟩ := enter_failed h
          exact ⟨rfl, hfound, .inr ⟨hused, hlt, .inr ⟨hd, ⟨sv, hnew⟩, henter⟩⟩⟩

theorem LoadFails.fails {s : State} {ino type : Nat} (h : LoadFails env s ino type n) :
    ∃ e n', loadvnode env s ino type n = .ok ((s, some e), n') := by
  obtain ⟨hfound, h⟩ := h
  have hask : ∀ m, ask env.kmalloc m = .ok (env.kmalloc m, m + 1) := fun _ => rfl
  unfold loadvnode
  rw [stateT_bind_of_ok (stateT_lift_of_ok hfound), if_neg Bool.false_ne_true,
    stateT_bind_of_ok (hask n)]
  cases hroom : env.kmalloc n with
  | false => exact ⟨.ENOMEM, n + 1, rfl⟩
  | true =>
    obtain ⟨hused, hlt, h⟩ := h.resolve_left (by simp [hroom])
    rw [if_neg (by simp), stateT_bind_of_ok (stateT_lift_of_ok hused), if_neg (by simp)]
    obtain ⟨e, fate, hd, he⟩ | ⟨hd, ⟨sv, hnew⟩, h⟩ := h
    · have hread : rblock env s.fs ino (n + 1) = .ok (.error e, n + 2) := by
        have herr : (env.device (n + 1)).err = some e := by rw [hd]; rfl
        unfold rblock
        rw [stateT_bind_of_ok (rwblock_eq_ok.mpr
          ⟨hlt, herr ▸ fun heq => he (Option.some.inj heq), rfl, rfl⟩), herr]
        rfl
      exact ⟨e, n + 2, by rw [stateT_bind_of_ok hread]; rfl⟩
    · have hread := rblock_eq_ok.mpr ⟨hlt, hd, rfl, rfl⟩
      rw [stateT_bind_of_ok hread]
      dsimp only
      rw [stateT_bind_of_ok (stateT_lift_of_ok hnew)]
      unfold enter
      rw [stateT_bind_of_ok (hask _)]
      cases hlock : env.kmalloc (n + 2) with
      | false => exact ⟨.ENOMEM, n + 3, rfl⟩
      | true =>
        rw [if_neg (by simp), stateT_bind_of_ok (hask _), h.resolve_left (by simp [hlock])]
        exact ⟨.ENOMEM, n + 4, rfl⟩

theorem makeobj_safe_iff {s : State} {type : Nat} :
    (∀ s' e n', makeobj env s type n = .ok ((s', .error e), n') → s'.fs.freemap = s.fs.freemap) ↔
      ¬ ClearFails env s.fs n ∧ ¬ InodeLoses env s type n := by
  unfold makeobj
  constructor
  · intro hsafe
    constructor
    · intro hfails
      obtain ⟨b, e, fate, hfresh, hd, he⟩ := clearFails_iff.mp hfails
      have hsame := hsafe { s with fs := marked (.fail e fate) s.fs b } e (n + 1)
        (by rw [stateT_bind_of_ok (balloc_failed hfresh hd he)]; rfl)
      have hbit : (marked (.fail e fate) s.fs b).freemap.has b = _ := marked_has _ _
      rw [show (marked (.fail e fate) s.fs b).freemap = s.fs.freemap from hsame, if_pos rfl,
        hfresh.free] at hbit
      cases hbit
    · rintro ⟨ino, hfirst, hlt, hd, hload⟩
      obtain ⟨-, hfree⟩ := Bitmap.alloc_eq_some hfirst
      obtain ⟨e, m', hrun⟩ := hload.fails
      have hsame := hsafe { s with fs := s.fs.take ino } e m' (by
        rw [stateT_bind_of_ok (balloc_taken ⟨hlt, hfree, hfirst⟩ hd)]
        change (loadvnode env _ ino type >>= _) _ = _
        rw [stateT_bind_of_ok hrun]
        rfl)
      have hbit : (s.fs.take ino).freemap.has ino = _ := take_has _
      rw [show (s.fs.take ino).freemap = s.fs.freemap from hsame, if_pos rfl, hfree] at hbit
      cases hbit
  · rintro ⟨hclear, hload⟩ s' e n' hrun
    obtain ⟨⟨fs, r⟩, m, halloc, hrest⟩ := stateT_bind_eq_ok hrun
    cases balloc_given halloc with
    | full _ =>
      cases hrest
      rfl
    | failed hfresh hd he =>
      exact absurd (clearFails_iff.mpr ⟨_, _, _, hfresh, hd, he⟩) hclear
    | @given ino hfresh hd =>
      obtain ⟨⟨s₁, r₁⟩, m₁, hl, hret⟩ := stateT_bind_eq_ok hrest
      cases r₁ with
      | none => cases hret
      | some e => exact absurd ⟨ino, hfresh.first, hfresh.lt, hd, (loadvnode_failed hl).2⟩ hload

theorem failed_allocation_iff (env : Env) (n : Nat) (s : State) (type : Nat) (f : File)
    (fileblock : Nat) (h : Regular f) :
    ((∀ fs' e n', balloc env s.fs n = .ok ((fs', .error e), n') → fs'.freemap = s.fs.freemap) ↔
      ¬ ClearFails env s.fs n) ∧
    ((∀ s' e n', makeobj env s type n = .ok ((s', .error e), n') → s'.fs.freemap = s.fs.freemap) ↔
      ¬ ClearFails env s.fs n ∧ ¬ InodeLoses env s type n) ∧
    ((∀ f' e n', bmap env f fileblock true n = .ok ((f', .error e), n') → NoLeak f f') ↔
      ¬ BmapLoses env f fileblock n) :=
  ⟨balloc_safe_iff, makeobj_safe_iff, bmap_safe_iff h⟩

def brokenDisk : Env := ⟨fun _ => .fail Kern.Errno.EIO .refused, fun _ => true⟩

def noMemory : Env := ⟨fun _ => .ok, fun _ => false⟩

def emptyState : State := ⟨emptyFile.fs, [], zeros, false⟩

/-- The block that the device reports an error for is on the disk. -/
def lateDisk : Env := ⟨fun n => if n = 2 then .fail Kern.Errno.EIO .stored else .ok, fun _ => true⟩

theorem failed_allocation_late : Regular emptyFile ∧
    ∃ f' n', bmap lateDisk emptyFile 15 true 0 = .ok ((f', .error Kern.Errno.EIO), n') ∧
      f'.fs.freemap.has 4 = true ∧ f'.fs.freemap.has 5 = true ∧ NoLeak emptyFile f' := by
  have h : Regular emptyFile := regular_of_owns ⟨emptyFile_mapOk, emptyFile_sound.file⟩
  have hkeeps : ¬ BmapLoses lateDisk emptyFile 15 0 := by
    have hclear : ∀ fs, ∀ n < 2, ¬ ClearFails lateDisk fs n := by
      rintro fs n hn ⟨-, -, -, -, e, fate, hd, -⟩
      simp [lateDisk, hn.ne] at hd
    rintro ⟨-, hloses⟩
    obtain ⟨fs, b, m, halloc, -, hslot⟩ := hloses.resolve_left (hclear _ 0 (by decide))
    cases balloc_given halloc
    obtain ⟨fs, b, m, halloc, -, e, fate, hd, -, hfate⟩ := hslot.resolve_left (hclear _ 1 (by decide))
    cases balloc_given halloc
    cases hd
    exact hfate rfl
  refine ⟨h, _, _, rfl, by decide, by decide, ?_⟩
  exact (failed_allocation_iff lateDisk 0 emptyState SFS_TYPE_FILE emptyFile 15 h).2.2.mpr hkeeps _ _ _ rfl

theorem failed_allocation_leaks :
    (∃ f' n', bmap brokenDisk emptyFile 0 true 0 = .ok ((f', .error Kern.Errno.EIO), n') ∧
      ¬ NoLeak emptyFile f') ∧
    ∃ s' n', makeobj noMemory emptyState SFS_TYPE_FILE 0 = .ok ((s', .error .ENOMEM), n') ∧
      emptyState.fs.freemap.has 4 = false ∧ s'.fs.freemap.has 4 = true := by
  constructor
  · refine ⟨{ emptyFile with fs := marked (brokenDisk.device 0) emptyFile.fs 4 }, 1, rfl, ?_⟩
    have hlost : Loses emptyFile
        { emptyFile with fs := marked (brokenDisk.device 0) emptyFile.fs 4 } :=
      (regular_of_owns ⟨emptyFile_mapOk, emptyFile_sound.file⟩).loses (by decide) (by decide)
        fun c => marked_disk_of_ne _
    exact hlost.not_noLeak
  · exact ⟨{ emptyState with fs := emptyFile.fs.take 4 }, 2, rfl, by decide, by decide⟩

end Os161.Sfs.Faults
