import Os161.Sfs.Contents
import Os161.Sfs.Faults
import Os161.Sfs.Update

/-!
# What `sfs_sync` reports

The inodes are written first, then the freemap and the superblock. The loop over the inodes goes on
after an error and forgets it.
-/

open Function List Option

namespace Os161.Sfs.Faults

open Lib

def dirtyInodes (s : State) : List Sv := s.vnodes.filter Sv.dirty

def mapCalls (s : State) : Nat := if s.fs.freemapdirty then SFS_BITBLOCKS s.fs.nblocks else 0

def superCalls (s : State) : Nat := if s.superdirty then 1 else 0

def firstError (env : Env) : (k n : Nat) → Option Errno
  | 0, _ => none
  | k + 1, n => (env.device n).err.or (firstError env k (n + 1))

/-- The inodes, the freemap and the superblock that are clean are on disk. -/
structure Tracked (s : State) : Prop where
  vnodes : (s.vnodes.map Sv.ino).Nodup
  apart : ∀ sv ∈ s.vnodes, sv.ino ≠ SFS_SB_LOCATION ∧
    (sv.ino < SFS_MAP_LOCATION ∨ SFS_MAP_LOCATION + SFS_BITBLOCKS s.fs.nblocks ≤ sv.ino)
  fits : ∀ sv ∈ s.vnodes, Inode.decode sv.inode.encode = sv.inode
  clean : ∀ sv ∈ s.vnodes, sv.dirty = false → Inode.decode (s.fs.disk sv.ino) = sv.inode
  freemap : s.fs.freemapdirty = false → MapSynced s.fs
  super : s.superdirty = false → ∀ x < SFS_BLOCKSIZE, s.fs.disk SFS_SB_LOCATION x = s.super x

structure Stored (s : State) : Prop where
  inodes : ∀ sv ∈ s.vnodes, Inode.decode (s.fs.disk sv.ino) = sv.inode ∧ sv.dirty = false
  freemap : MapSynced s.fs ∧ s.fs.freemapdirty = false
  super : (∀ x < SFS_BLOCKSIZE, s.fs.disk SFS_SB_LOCATION x = s.super x) ∧ s.superdirty = false

/-- 0 tells that everything is stored. A failed write is reported, and stays dirty. -/
structure Reports (env : Env) (n : Nat) (s s' : State) (r : Option Errno) : Prop where
  stored : r = none → Stored s'
  inode : ∀ i sv e fate, (dirtyInodes s)[i]? = some sv → env.device (n + i) = .fail e fate →
    r = some e ∧ ∃ sv' ∈ s'.vnodes, sv'.ino = sv.ino ∧ sv'.dirty = true
  freemap : ∀ j < mapCalls s, ∀ e fate, firstError env j (n + (dirtyInodes s).length) = none →
    env.device (n + (dirtyInodes s).length + j) = .fail e fate →
      r = some e ∧ s'.fs.freemapdirty = true
  super : ∀ e fate, s.superdirty = true →
    firstError env (mapCalls s) (n + (dirtyInodes s).length) = none →
      env.device (n + (dirtyInodes s).length + mapCalls s) = .fail e fate →
        r = some e ∧ s'.superdirty = true

/-- An error in writing an inode comes up again in the calls that follow the inodes. -/
def ErrorsSeen (env : Env) (n : Nat) (s : State) : Prop :=
  ∀ i < (dirtyInodes s).length, ∀ e fate, env.device (n + i) = .fail e fate →
    firstError env (mapCalls s + superCalls s) (n + (dirtyInodes s).length) = some e

variable {env : Env} {s s' : State} {fs fs' : Fs} {n n' : Nat} {r : Option Errno} {sv : Sv}

inductive Flush (env : Env) (sv : Sv) (s : State) (n : Nat) :
    State → Option Errno → Nat → Prop where
  | clean : sv.dirty = false → Flush env sv s n s none n
  | written : sv.dirty = true → env.device n = .ok →
    Flush env sv s n (s.set ⟨s.fs.store sv.ino sv.inode.encode, { sv with dirty := false }⟩) none
      (n + 1)
  | failed {e : Errno} {fate : Fate} : sv.dirty = true → env.device n = .fail e fate →
    Flush env sv s n { s with fs := wrote (.fail e fate) s.fs sv.ino sv.inode.encode } (some e)
      (n + 1)

theorem syncInode_flush (hsv : lookup Sv.ino s.vnodes sv.ino = some sv)
    (h : syncInode env s sv.ino n = .ok ((s', r), n')) : Flush env sv s n s' r n' := by
  have hget : getVnode s sv.ino = .ok sv := by
    unfold getVnode
    rw [hsv]
    rfl
  obtain ⟨sv₁, m, hvn, h⟩ := stateT_bind_eq_ok h
  rw [hget] at hvn
  cases hvn
  by_cases hd : sv.dirty = true
  · rw [if_pos hd] at h
    obtain ⟨⟨fs₁, r₁⟩, m₁, hw, hret⟩ := stateT_bind_eq_ok h
    obtain ⟨-, rfl, -, rfl, rfl⟩ := wblock_eq_ok.mp hw
    cases ha : env.device n with
    | ok =>
      simp only [ha, Answer.err] at hret
      cases hret
      exact .written hd ha
    | fail e fate =>
      simp only [ha, Answer.err] at hret
      cases hret
      exact .failed hd ha
  · rw [if_neg hd] at h
    cases h
    exact .clean (Bool.eq_false_iff.mpr hd)

/-! ## The loop over the inodes -/

structure Beside (s s' : State) : Prop where
  nblocks : s'.fs.nblocks = s.fs.nblocks
  freemap : s'.fs.freemap = s.fs.freemap
  freemapdirty : s'.fs.freemapdirty = s.fs.freemapdirty
  super : s'.super = s.super
  superdirty : s'.superdirty = s.superdirty
  keys : s'.vnodes.map Sv.ino = s.vnodes.map Sv.ino

theorem Beside.refl (s : State) : Beside s s := ⟨rfl, rfl, rfl, rfl, rfl, rfl⟩

theorem Beside.trans {s'' : State} (h : Beside s s') (h' : Beside s' s'') : Beside s s'' where
  nblocks := h'.nblocks.trans h.nblocks
  freemap := h'.freemap.trans h.freemap
  freemapdirty := h'.freemapdirty.trans h.freemapdirty
  super := h'.super.trans h.super
  superdirty := h'.superdirty.trans h.superdirty
  keys := h'.keys.trans h.keys

section

variable (h : Flush env sv s n s' r n')
include h

theorem Flush.beside : Beside s s' := by
  cases h with
  | clean _ => exact .refl s
  | written _ _ => exact ⟨rfl, rfl, rfl, rfl, rfl, map_key_put⟩
  | failed _ _ =>
    exact ⟨wrote_nblocks _ _, wrote_freemap _ _, wrote_freemapdirty _ _, rfl, rfl, rfl⟩

theorem Flush.others {ino : Nat} (hne : ino ≠ sv.ino) :
    lookup Sv.ino s'.vnodes ino = lookup Sv.ino s.vnodes ino ∧ s'.fs.disk ino = s.fs.disk ino := by
  cases h with
  | clean _ => exact ⟨rfl, rfl⟩
  | written _ _ => exact ⟨lookup_put_of_ne hne, update_of_ne hne ..⟩
  | failed _ _ => exact ⟨rfl, wrote_disk_of_ne _ _ hne⟩

theorem Flush.calls : n' = n + if sv.dirty then 1 else 0 := by
  cases h with
  | clean hd => simp [hd]
  | written hd _ => simp [hd]
  | failed hd _ => simp [hd]

end

variable {l : List Sv}

theorem Flush.lookups (h : Flush env sv s n s' r n') (hn : sv.ino ∉ l.map Sv.ino)
    (hl : ∀ sv' ∈ sv :: l, lookup Sv.ino s.vnodes sv'.ino = some sv') :
    ∀ sv' ∈ l, lookup Sv.ino s'.vnodes sv'.ino = some sv' := by
  intro sv' hmem
  have hne : sv'.ino ≠ sv.ino := fun heq => hn (heq ▸ mem_map_of_mem hmem)
  rw [(h.others hne).1]
  exact hl sv' (mem_cons_of_mem _ hmem)

inductive Flushes (env : Env) : List Sv → State → Nat → State → Nat → Prop where
  | nil {s : State} {n : Nat} : Flushes env [] s n s n
  | cons {sv : Sv} {l : List Sv} {s s₁ s' : State} {r : Option Errno} {n n₁ n' : Nat} :
    Flush env sv s n s₁ r n₁ → Flushes env l s₁ n₁ s' n' → Flushes env (sv :: l) s n s' n'

theorem syncInodes_flushes (hn : (l.map Sv.ino).Nodup)
    (hl : ∀ sv ∈ l, lookup Sv.ino s.vnodes sv.ino = some sv)
    (h : syncInodes env (l.map Sv.ino) s n = .ok (s', n')) : Flushes env l s n s' n' := by
  induction l generalizing s n with
  | nil =>
    cases h
    exact .nil
  | cons sv l ih =>
    rw [map_cons, nodup_cons] at hn
    obtain ⟨⟨s₁, r⟩, n₁, hsync, hrest⟩ := stateT_bind_eq_ok h
    have hflush := syncInode_flush (hl sv mem_cons_self) hsync
    exact .cons hflush (ih hn.2 (hflush.lookups hn.1 hl) hrest)

section

variable (h : Flushes env l s n s' n')
include h

theorem Flushes.beside : Beside s s' := by
  induction h with
  | nil => exact .refl _
  | cons hflush _ ih => exact hflush.beside.trans ih

theorem Flushes.others {ino : Nat} (hne : ino ∉ l.map Sv.ino) :
    lookup Sv.ino s'.vnodes ino = lookup Sv.ino s.vnodes ino ∧ s'.fs.disk ino = s.fs.disk ino := by
  induction h with
  | nil => exact ⟨rfl, rfl⟩
  | cons hflush _ ih =>
    rw [map_cons, mem_cons, not_or] at hne
    obtain ⟨hlook, hdisk⟩ := ih hne.2
    obtain ⟨hlook₁, hdisk₁⟩ := hflush.others hne.1
    exact ⟨hlook.trans hlook₁, hdisk.trans hdisk₁⟩

theorem Flushes.calls : n' = n + (l.filter Sv.dirty).length := by
  induction h with
  | nil => rfl
  | @cons sv l _ _ _ _ _ _ _ hflush _ ih =>
    rw [ih, hflush.calls, filter_cons]
    split
    · rw [length_cons, add_assoc, add_comm 1]
    · rw [add_zero]

theorem Flushes.failed (hn : (l.map Sv.ino).Nodup)
    (hl : ∀ sv ∈ l, lookup Sv.ino s.vnodes sv.ino = some sv) {i : Nat} {e : Errno} {fate : Fate}
    (hi : (l.filter Sv.dirty)[i]? = some sv) (ha : env.device (n + i) = .fail e fate) :
    lookup Sv.ino s'.vnodes sv.ino = some sv := by
  induction h generalizing i with
  | nil => cases hi
  | @cons sv₀ l s s₁ s' r n n₁ n' hflush hrest ih =>
    rw [map_cons, nodup_cons] at hn
    have hl₁ := hflush.lookups hn.1 hl
    rw [filter_cons] at hi
    have hcalls := hflush.calls
    by_cases hd : sv₀.dirty = true
    · rw [if_pos hd] at hi hcalls
      cases i with
      | zero =>
        cases hi
        rw [(hrest.others hn.1).1]
        cases hflush with
        | clean hclean =>
          rw [hd] at hclean
          cases hclean
        | written _ hok =>
          rw [add_zero, hok] at ha
          cases ha
        | failed _ _ => exact hl sv mem_cons_self
      | succ i =>
        refine ih hn.2 hl₁ hi ?_
        rw [hcalls, add_assoc, add_comm 1 i]
        exact ha
    · rw [if_neg hd] at hi hcalls
      exact ih hn.2 hl₁ hi (by rw [hcalls]; exact ha)

theorem Flushes.stored (hn : (l.map Sv.ino).Nodup)
    (hl : ∀ sv ∈ l, lookup Sv.ino s.vnodes sv.ino = some sv)
    (hok : ∀ i < (l.filter Sv.dirty).length, env.device (n + i) = .ok) (hsv : sv ∈ l) :
    lookup Sv.ino s'.vnodes sv.ino = some { sv with dirty := false } ∧
      s'.fs.disk sv.ino = if sv.dirty then sv.inode.encode else s.fs.disk sv.ino := by
  induction h with
  | nil => cases hsv
  | @cons sv₀ l s s₁ s' r n n₁ n' hflush hrest ih =>
    rw [map_cons, nodup_cons] at hn
    have hcalls := hflush.calls
    rw [filter_cons] at hok
    obtain rfl | hmem := mem_cons.mp hsv
    · obtain ⟨hlook, hdisk⟩ := hrest.others hn.1
      rw [hlook, hdisk]
      cases hflush with
      | clean hd =>
        rw [hd, if_neg Bool.false_ne_true, hl sv mem_cons_self, ← hd]
        exact ⟨rfl, rfl⟩
      | written hd _ =>
        rw [hd, if_pos rfl]
        have hsome : (lookup Sv.ino s.vnodes sv.ino).isSome := by
          rw [hl sv mem_cons_self]
          rfl
        exact ⟨lookup_put_self (a := { sv with dirty := false }) hsome, update_self ..⟩
      | failed hd ha =>
        rw [if_pos hd] at hok
        have hfine := hok 0 (Nat.zero_lt_succ _)
        rw [add_zero, ha] at hfine
        cases hfine
    · have hne : sv.ino ≠ sv₀.ino := fun heq => hn.1 (heq ▸ mem_map_of_mem hmem)
      rw [← (hflush.others hne).2]
      refine ih hn.2 (hflush.lookups hn.1 hl) ?_ hmem
      intro i hi
      by_cases hd : sv₀.dirty = true
      · rw [if_pos hd] at hok hcalls
        rw [hcalls, add_assoc, add_comm 1 i]
        exact hok (i + 1) (Nat.succ_lt_succ hi)
      · rw [if_neg hd] at hok hcalls
        rw [hcalls]
        exact hok i hi

end

theorem firstError_add (env : Env) (j k n : Nat) :
    firstError env (j + k) n = (firstError env j n).or (firstError env k (n + j)) := by
  induction j generalizing n with
  | zero =>
    rw [zero_add, add_zero]
    rfl
  | succ j ih =>
    rw [Nat.succ_add, firstError, firstError, ih, Option.or_assoc, add_assoc, add_comm 1]

theorem firstError_eq {j k : Nat} {e : Errno} {fate : Fate} (hj : j < k)
    (hbefore : firstError env j n = none) (ha : env.device (n + j) = .fail e fate) :
    firstError env k n = some e := by
  obtain ⟨d, rfl⟩ := Nat.exists_eq_add_of_lt hj
  rw [add_assoc, firstError_add, hbefore, add_comm d 1, add_comm 1 d, firstError, ha]
  rfl

structure MapFlush (env : Env) (k j : Nat) (fs : Fs) (n : Nat) (fs' : Fs) (r : Option Errno)
    (n' : Nat) : Prop where
  err : r = firstError env k n
  calls : r = none → n' = n + k
  nblocks : fs'.nblocks = fs.nblocks
  freemap : fs'.freemap = fs.freemap
  dirty : fs'.freemapdirty = fs.freemapdirty
  others : ∀ b, b < SFS_MAP_LOCATION + j ∨ SFS_MAP_LOCATION + (j + k) ≤ b → fs'.disk b = fs.disk b
  stored : r = none → ∀ i < k, fs'.disk (SFS_MAP_LOCATION + (j + i)) = mapBlock fs.freemap (j + i)

theorem mapioWrite_flush {k j : Nat} (h : mapioWrite env k j fs n = .ok ((fs', r), n')) :
    MapFlush env k j fs n fs' r n' := by
  induction k generalizing j fs n with
  | zero =>
    cases h
    exact ⟨rfl, fun _ => rfl, rfl, rfl, rfl, fun _ _ => rfl, fun _ i hi => absurd hi (Nat.not_lt_zero i)⟩
  | succ k ih =>
    obtain ⟨⟨fs₁, r₁⟩, n₁, hw, hrest⟩ := stateT_bind_eq_ok h
    obtain ⟨-, rfl, -, rfl, rfl⟩ := wblock_eq_ok.mp hw
    cases ha : env.device n with
    | fail e fate =>
      simp only [ha, Answer.err] at hrest
      cases hrest
      refine ⟨?_, nofun, wrote_nblocks _ _, wrote_freemap _ _, wrote_freemapdirty _ _, ?_, nofun⟩
      · rw [firstError, ha]
        rfl
      · intro b hb
        exact wrote_disk_of_ne _ _ (by omega)
    | ok =>
      simp only [ha, Answer.err] at hrest
      have hih := ih hrest
      refine ⟨?_, ?_, hih.nblocks, hih.freemap, hih.dirty, ?_, ?_⟩
      · rw [firstError, ha]
        exact hih.err
      · intro hr
        rw [hih.calls hr]
        omega
      · intro b hb
        rw [hih.others b (by omega)]
        exact wrote_disk_of_ne _ _ (by omega)
      · intro hr i hi
        cases i with
        | zero =>
          rw [hih.others _ (by omega)]
          exact update_self ..
        | succ i =>
          have hblock := hih.stored hr i (Nat.lt_of_succ_lt_succ hi)
          rwa [add_assoc j 1 i, add_comm 1 i] at hblock

structure Part (env : Env) (calls : Nat) (s : State) (n : Nat) (s' : State) (r : Option Errno)
    (n' : Nat) : Prop where
  err : r = firstError env calls n
  calls : r = none → n' = n + calls
  vnodes : s'.vnodes = s.vnodes
  super : s'.super = s.super
  nblocks : s'.fs.nblocks = s.fs.nblocks
  freemap : s'.fs.freemap = s.fs.freemap

theorem syncFreemap_part (h : syncFreemap env s n = .ok ((s', r), n')) :
    Part env (mapCalls s) s n s' r n' ∧ s'.superdirty = s.superdirty ∧
      s'.fs.freemapdirty = r.isSome ∧ (s.fs.freemapdirty = true → r = none → MapSynced s'.fs) ∧
      ∀ b, b < SFS_MAP_LOCATION ∨ SFS_MAP_LOCATION + SFS_BITBLOCKS s.fs.nblocks ≤ b →
        s'.fs.disk b = s.fs.disk b := by
  unfold syncFreemap at h
  unfold mapCalls
  by_cases hd : s.fs.freemapdirty = true
  · rw [if_pos hd] at h ⊢
    obtain ⟨⟨fs₁, r₁⟩, n₁, hmap, hret⟩ := stateT_bind_eq_ok h
    have hflush := mapioWrite_flush hmap
    cases r₁ with
    | some e =>
      cases hret
      refine ⟨⟨hflush.err, nofun, rfl, rfl, hflush.nblocks, hflush.freemap⟩, rfl,
        hflush.dirty.trans hd, nofun, ?_⟩
      intro b hb
      exact hflush.others b (by omega)
    | none =>
      cases hret
      refine ⟨⟨hflush.err, hflush.calls, rfl, rfl, hflush.nblocks, hflush.freemap⟩, rfl, rfl, ?_, ?_⟩
      · intro _ _ j hj x _
        rw [hflush.nblocks] at hj
        have hblock := hflush.stored rfl j hj
        rw [zero_add] at hblock
        rw [hblock, hflush.freemap]
      · intro b hb
        exact hflush.others b (by omega)
  · rw [if_neg hd] at h ⊢
    cases h
    exact ⟨⟨rfl, fun _ => rfl, rfl, rfl, rfl, rfl⟩, rfl, Bool.eq_false_iff.mpr hd,
      fun htrue => absurd htrue hd, fun _ _ => rfl⟩

theorem syncSuper_part (h : syncSuper env s n = .ok ((s', r), n')) :
    Part env (superCalls s) s n s' r n' ∧ s'.fs.freemapdirty = s.fs.freemapdirty ∧
      s'.superdirty = r.isSome ∧
      (s.superdirty = true → r = none → s'.fs.disk SFS_SB_LOCATION = s.super) ∧
      (s.superdirty = false → s'.fs.disk SFS_SB_LOCATION = s.fs.disk SFS_SB_LOCATION) ∧
      ∀ b, b ≠ SFS_SB_LOCATION → s'.fs.disk b = s.fs.disk b := by
  unfold syncSuper at h
  unfold superCalls
  by_cases hd : s.superdirty = true
  · rw [if_pos hd] at h ⊢
    obtain ⟨⟨fs₁, r₁⟩, n₁, hw, hret⟩ := stateT_bind_eq_ok h
    obtain ⟨-, rfl, -, rfl, rfl⟩ := wblock_eq_ok.mp hw
    have herr : firstError env 1 n = (env.device n).err := or_none
    cases ha : env.device n with
    | fail e fate =>
      simp only [ha, Answer.err] at hret
      cases hret
      refine ⟨⟨?_, nofun, rfl, rfl, wrote_nblocks _ _, wrote_freemap _ _⟩, wrote_freemapdirty _ _, hd,
        nofun, fun hfalse => ?_, fun b hb => wrote_disk_of_ne _ _ hb⟩
      · rw [herr, ha]
        rfl
      · rw [hd] at hfalse
        cases hfalse
    | ok =>
      simp only [ha, Answer.err] at hret
      cases hret
      have hself : (wrote .ok s.fs SFS_SB_LOCATION s.super).disk SFS_SB_LOCATION = s.super := by
        exact store_disk_self
      have hothers : ∀ b, b ≠ SFS_SB_LOCATION →
          (wrote .ok s.fs SFS_SB_LOCATION s.super).disk b = s.fs.disk b :=
        fun b hb => wrote_disk_of_ne _ _ hb
      refine ⟨⟨?_, fun _ => rfl, rfl, rfl, rfl, rfl⟩, rfl, rfl, fun _ _ => hself, fun hfalse => ?_,
        hothers⟩
      · rw [herr, ha]
        rfl
      · rw [hd] at hfalse
        cases hfalse
  · rw [if_neg hd] at h ⊢
    cases h
    exact ⟨⟨rfl, fun _ => rfl, rfl, rfl, rfl, rfl⟩, rfl, Bool.eq_false_iff.mpr hd,
      fun htrue => absurd htrue hd, fun _ => rfl, fun _ _ => rfl⟩

/-! ## All of it -/

theorem sync_parts (h : sync env s n = .ok ((s', r), n')) : ∃ s₁ n₁ s₂ r₂ n₂,
    syncInodes env (s.vnodes.map Sv.ino) s n = .ok (s₁, n₁) ∧
      syncFreemap env s₁ n₁ = .ok ((s₂, r₂), n₂) ∧
      (r₂ ≠ none ∧ s' = s₂ ∧ r = r₂ ∨ r₂ = none ∧ syncSuper env s₂ n₂ = .ok ((s', r), n')) := by
  obtain ⟨s₁, n₁, hinodes, h⟩ := stateT_bind_eq_ok h
  obtain ⟨⟨s₂, r₂⟩, n₂, hmap, h⟩ := stateT_bind_eq_ok h
  refine ⟨s₁, n₁, s₂, r₂, n₂, hinodes, hmap, ?_⟩
  cases r₂ with
  | some e =>
    cases h
    exact .inl ⟨nofun, rfl, rfl⟩
  | none => exact .inr ⟨rfl, h⟩

section Sync

variable {s₁ : State} {n₁ : Nat}

structure Rest (env : Env) (s : State) (n : Nat) (s' : State) (r : Option Errno) : Prop where
  err : r = firstError env (mapCalls s + superCalls s) n
  vnodes : s'.vnodes = s.vnodes
  freemapdirty : firstError env (mapCalls s) n ≠ none → s'.fs.freemapdirty = true
  superdirty : firstError env (mapCalls s) n = none → r ≠ none → s'.superdirty = true
  others : ∀ b, b ≠ SFS_SB_LOCATION → (b < SFS_MAP_LOCATION ∨
    SFS_MAP_LOCATION + SFS_BITBLOCKS s.fs.nblocks ≤ b) → s'.fs.disk b = s.fs.disk b
  clean : r = none → s'.fs.freemapdirty = false ∧ s'.superdirty = false
  freemap : r = none → (s.fs.freemapdirty = false → MapSynced s.fs) → MapSynced s'.fs
  super : r = none →
    (s.superdirty = false → ∀ x < SFS_BLOCKSIZE, s.fs.disk SFS_SB_LOCATION x = s.super x) →
      ∀ x < SFS_BLOCKSIZE, s'.fs.disk SFS_SB_LOCATION x = s'.super x

theorem rest_of_map {s₂ : State} {n₂ : Nat} (hne : r ≠ none)
    (h : syncFreemap env s n = .ok ((s₂, r), n₂)) : Rest env s n s₂ r := by
  obtain ⟨hpart, hsuper, hdirty, -, hdisk⟩ := syncFreemap_part h
  have hr := hpart.err
  obtain ⟨e, rfl⟩ := ne_none_iff_exists'.mp hne
  refine ⟨?_, hpart.vnodes, fun _ => hdirty, ?_, fun b _ hb => hdisk b hb, nofun, nofun, nofun⟩
  · rw [firstError_add, ← hr]
    rfl
  · intro hnone
    rw [← hr] at hnone
    cases hnone

theorem rest_of_super {s₂ : State} {n₂ : Nat} (h : syncFreemap env s n = .ok ((s₂, none), n₂))
    (h' : syncSuper env s₂ n₂ = .ok ((s', r), n')) : Rest env s n s' r := by
  obtain ⟨hpart, hsuper, hdirty, hmap, hdisk⟩ := syncFreemap_part h
  obtain ⟨hpart', hdirty', hsuper', hstored, hkept, hdisk'⟩ := syncSuper_part h'
  have hnone := hpart.err
  have hcalls : superCalls s₂ = superCalls s := by
    unfold superCalls
    rw [hsuper]
  have hzero : ∀ j, SFS_MAP_LOCATION + j ≠ SFS_SB_LOCATION := fun j => by
    change 2 + j ≠ 0
    omega
  refine ⟨?_, hpart'.vnodes.trans hpart.vnodes, fun hne => absurd hnone.symm hne, ?_, ?_, ?_, ?_, ?_⟩
  · rw [firstError_add, ← hnone, hpart'.err, hcalls, hpart.calls rfl]
    rfl
  · intro _ hne
    rw [hsuper']
    exact isSome_iff_ne_none.mpr hne
  · intro b hne hb
    rw [hdisk' b hne, hdisk b hb]
  · rintro rfl
    exact ⟨hdirty'.trans hdirty, hsuper'⟩
  · rintro rfl hclean j hj x hx
    rw [hpart'.nblocks, hpart.nblocks] at hj
    rw [hdisk' _ (hzero j), hpart'.freemap]
    by_cases hd : s.fs.freemapdirty = true
    · exact hmap hd rfl j (by rw [hpart.nblocks]; exact hj) x hx
    · -- the freemap was clean, so nothing was written
      have hsame : s₂ = s := by
        unfold syncFreemap at h
        rw [if_neg hd] at h
        cases h
        rfl
      rw [hsame]
      exact hclean (Bool.eq_false_iff.mpr hd) j hj x hx
  · rintro rfl hclean x hx
    rw [hpart'.super]
    by_cases hd : s.superdirty = true
    · rw [hstored (hsuper.trans hd) rfl]
    · have hd' := Bool.eq_false_iff.mpr hd
      rw [hkept (hsuper.trans hd'), hdisk _ (.inl (by decide)), hpart.super]
      exact hclean hd' x hx

theorem rest_of_sync (h : sync env s n = .ok ((s', r), n')) : ∃ s₁ n₁,
    syncInodes env (s.vnodes.map Sv.ino) s n = .ok (s₁, n₁) ∧ Rest env s₁ n₁ s' r := by
  obtain ⟨s₁, n₁, s₂, r₂, n₂, hinodes, hmap, ⟨hne, rfl, rfl⟩ | ⟨rfl, hsuper⟩⟩ := sync_parts h
  · exact ⟨s₁, n₁, hinodes, rest_of_map hne hmap⟩
  · exact ⟨s₁, n₁, hinodes, rest_of_super hmap hsuper⟩

end Sync

theorem Tracked.not_inode (ht : Tracked s) {b : Nat} (hb : b = SFS_SB_LOCATION ∨
    SFS_MAP_LOCATION ≤ b ∧ b < SFS_MAP_LOCATION + SFS_BITBLOCKS s.fs.nblocks) :
    b ∉ s.vnodes.map Sv.ino := by
  intro hmem
  obtain ⟨sv, hsv, rfl⟩ := mem_map.mp hmem
  obtain ⟨hzero, hside⟩ := ht.apart sv hsv
  rcases hb with hb | hb
  · exact hzero hb
  · omega

theorem Tracked.stored {s₁ : State} (ht : Tracked s)
    (hflush : Flushes env s.vnodes s n s₁ n') (hrest : Rest env s₁ n' s' none)
    (hok : ∀ i < (dirtyInodes s).length, env.device (n + i) = .ok) : Stored s' := by
  have hl : ∀ sv ∈ s.vnodes, lookup Sv.ino s.vnodes sv.ino = some sv :=
    fun sv hsv => lookup_of_mem ht.vnodes hsv
  have hside := hflush.beside
  refine ⟨?_, ⟨?_, (hrest.clean rfl).1⟩, ?_, (hrest.clean rfl).2⟩
  · intro sv' hsv'
    rw [hrest.vnodes] at hsv'
    have hkey : sv'.ino ∈ s.vnodes.map Sv.ino := by
      rw [← hside.keys]
      exact mem_map_of_mem hsv'
    obtain ⟨sv, hsv, hino⟩ := mem_map.mp hkey
    obtain ⟨hlook, hdisk⟩ := hflush.stored ht.vnodes hl hok hsv
    have hnodup : (s₁.vnodes.map Sv.ino).Nodup := hside.keys ▸ ht.vnodes
    have hself := lookup_of_mem hnodup hsv'
    rw [← hino, hlook] at hself
    obtain rfl := some.inj hself
    obtain ⟨hzero, hmap⟩ := ht.apart sv hsv
    rw [← hside.nblocks] at hmap
    refine ⟨?_, rfl⟩
    rw [hrest.others sv.ino hzero hmap, hdisk]
    split
    · exact ht.fits sv hsv
    · rename_i hd
      exact ht.clean sv hsv (Bool.eq_false_iff.mpr hd)
  · apply hrest.freemap rfl
    intro hclean j hj x hx
    rw [hside.nblocks] at hj
    rw [(hflush.others (ht.not_inode (.inr ⟨Nat.le_add_right .., Nat.add_lt_add_left hj _⟩))).2,
      hside.freemap]
    exact ht.freemap (hside.freemapdirty.symm.trans hclean) j hj x hx
  · apply hrest.super rfl
    intro hclean x hx
    rw [(hflush.others (ht.not_inode (.inl rfl))).2, hside.super]
    exact ht.super (hside.superdirty.symm.trans hclean) x hx

def dirtyState : State where
  fs := { emptyFile.fs with
    disk := Function.update emptyFile.fs.disk SFS_MAP_LOCATION (mapBlock emptyFile.fs.freemap 0) }
  vnodes := [{ emptyFile.sv with dirty := true }]
  super := zeros
  superdirty := false

def firstFails : Env := ⟨fun n => if n = 0 then .fail Kern.Errno.EIO .refused else .ok, fun _ => true⟩

theorem sync_dirtyState : sync firstFails dirtyState 0 = .ok ((dirtyState, none), 1) := rfl

theorem dirtyState_tracked : Tracked dirtyState where
  vnodes := nodup_singleton _
  apart := by
    intro sv hsv
    obtain rfl := mem_singleton.mp hsv
    decide
  fits := by
    intro sv hsv
    obtain rfl := mem_singleton.mp hsv
    exact Inode.decode_encode (by decide) (by decide) (by decide) (by decide) (by decide)
  clean := by
    intro sv hsv hd
    obtain rfl := mem_singleton.mp hsv
    cases hd
  freemap _ j hj x _ := by
    obtain rfl : j = 0 := Nat.lt_one_iff.mp hj
    rfl
  super _ _ _ := rfl

end Os161.Sfs.Faults
