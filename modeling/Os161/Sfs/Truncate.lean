import Os161.Sfs.Bmap

/-! # `sfs_truncate` -/

open Function List

namespace Os161.Sfs

open Lib

variable {own own' own'' : Owner} {f f' : File} {b k blocklen len j : Nat} {idbuf : Nat → Nat}
variable {l : List Nat} {s : Scan}

def Discarded (blocklen k : Nat) : Prop :=
  if k < 15 then blocklen ≤ k else blocklen < 142 ∧ blocklen < k

instance (blocklen k : Nat) : Decidable (Discarded blocklen k) := by
  unfold Discarded
  infer_instance

structure Trimmed (own own' : Owner) (f f' : File) (blocklen : Nat) (l : List (Fin 15)) :
    Prop extends Evolves own own' f f' where
  indirect : f'.sv.inode.indirect = f.sv.inode.indirect
  disk : f'.fs.disk = f.fs.disk
  table : ∀ k, f'.blockAt k = if (∃ i ∈ l, (i : Nat) = k) ∧ blocklen ≤ k then 0 else f.blockAt k

theorem discardDirect_spec (blocklen : Nat) (h : Owns own f) (i : Fin 15) :
    ∃ own' f', discardDirect blocklen f i = .ok f' ∧ Trimmed own own' f f' blocklen [i] := by
  unfold discardDirect
  by_cases hcut : blocklen ≤ i ∧ f.sv.inode.direct i ≠ 0
  · have hne : f.blockAt i ≠ 0 := by
      rw [blockAt_direct]
      exact hcut.2
    have hrole := h.file.data_ne hne
    have htbl : File.blockAt ⟨f.fs.release (f.blockAt i), f.sv.setDirect i 0⟩ =
        update f.blockAt i 0 := blockAt_setDirect i fun _ => rfl
    rw [if_pos hcut, ← blockAt_direct, h.map.bfree hrole]
    refine ⟨_, _, rfl, ⟨⟨h.map.release hrole (by simp), ?_⟩, .release hrole rfl,
      ⟨rfl, rfl, rfl, rfl, .inl rfl⟩⟩, rfl, rfl, ?_⟩
    · rw [htbl]
      exact h.file.clear hne
    · intro k
      rw [htbl]
      by_cases e : k = i
      · subst e
        rw [update_self, if_pos ⟨⟨i, by simp, rfl⟩, hcut.1⟩]
      · rw [update_of_ne e, if_neg]
        rintro ⟨⟨j, hj, rfl⟩, -⟩
        exact e (congrArg Fin.val (mem_singleton.mp hj))
  · rw [if_neg hcut]
    refine ⟨own, f, rfl, .refl h, rfl, rfl, ?_⟩
    intro k
    split
    · rename_i hk
      obtain ⟨⟨j, hj, rfl⟩, hle⟩ := hk
      obtain rfl := mem_singleton.mp hj
      rw [blockAt_direct]
      by_contra hne
      exact hcut ⟨hle, hne⟩
    · rfl

theorem discardDirects_spec (blocklen : Nat) (h : Owns own f) (l : List (Fin 15)) :
    ∃ own' f', l.foldlM (discardDirect blocklen) f = .ok f' ∧ Trimmed own own' f f' blocklen l := by
  induction l generalizing own f with
  | nil => exact ⟨own, f, rfl, .refl h, rfl, rfl, by simp⟩
  | cons i l ih =>
    obtain ⟨own', f', hstep, ht⟩ := discardDirect_spec blocklen h i
    obtain ⟨own'', f'', hrest, ht'⟩ := ih ht.owns
    refine ⟨own'', f'', ?_, ht.toEvolves.trans ht'.toEvolves, ht'.indirect.trans ht.indirect,
      ht'.disk.trans ht.disk, ?_⟩
    · rw [foldlM_cons, hstep, ok_bind, hrest]
    · intro k
      rw [ht'.table, ht.table]
      by_cases hle : blocklen ≤ k
      · simp only [mem_cons, mem_nil_iff, or_false, exists_eq_or_imp, exists_eq_left, hle, and_true]
        by_cases hi : (i : Nat) = k
        · simp [hi]
        · simp [hi]
      · simp [hle]

/-! ## The indirect block -/

def slotTable (f : File) (idbuf : Nat → Nat) (k : Nat) : Nat :=
  if k < 15 then f.blockAt k else if k < 143 then idbuf (k - 15) else 0

structure Scanned (own own' : Owner) (f : File) (blocklen : Nat) (l seen : List Nat) (s : Scan) :
    Prop where
  map : MapOk own' s.fs
  file : FileOk own' f.sv.ino (slotTable f s.idbuf) f.sv.inode.indirect
  frame : Frame (Role.of f.sv.ino) own own' f.fs s.fs
  disk : s.fs.disk = f.fs.disk
  words : ∀ j < 128, s.idbuf j =
    if j ∈ l ∧ blocklen < 15 + j then 0 else wordAt (f.fs.disk f.sv.inode.indirect) j
  nonzero : s.hasnonzero = true ↔ ∃ j ∈ seen, s.idbuf j ≠ 0
  clean : s.iddirty = false → ∀ j < 128, s.idbuf j = wordAt (f.fs.disk f.sv.inode.indirect) j

theorem slotTable_slot (hj : j < 128) : slotTable f idbuf (15 + j) = idbuf j := by
  unfold slotTable
  rw [if_neg (by omega), if_pos (by omega), Nat.add_sub_cancel_left]

theorem slotTable_update (hj : j < 128) :
    slotTable f (update idbuf j b) = update (slotTable f idbuf) (15 + j) b := by
  funext k
  unfold slotTable
  by_cases e : k = 15 + j
  · subst e
    rw [update_self, if_neg (by omega), if_pos (by omega), Nat.add_sub_cancel_left, update_self]
  · rw [update_of_ne e]
    split
    · rfl
    · split
      · rw [update_of_ne (by omega)]
      · rfl

theorem slotTable_blockAt (hi : f.sv.inode.indirect ≠ 0)
    (hbuf : ∀ j < 128, idbuf j = wordAt (f.fs.disk f.sv.inode.indirect) j) :
    slotTable f idbuf = f.blockAt := by
  funext k
  unfold slotTable
  split
  · rfl
  · split
    · rw [hbuf _ (by omega), blockAt_indirect (by omega) (by assumption) hi]
    · rw [blockAt_eq_zero (by omega) (.inl (by omega))]

theorem clearSlot_spec (hj : j < 128)
    (h : Scanned own own' f blocklen l l s) :
    ∃ own'' s', clearSlot blocklen s j = .ok s' ∧ Scanned own own'' f blocklen (j :: l) l s' := by
  unfold clearSlot SFS_NDIRECT
  by_cases hcut : blocklen < 15 + j ∧ s.idbuf j ≠ 0
  · have hslot : slotTable f s.idbuf (15 + j) = s.idbuf j := slotTable_slot hj
    have hne : slotTable f s.idbuf (15 + j) ≠ 0 := hslot ▸ hcut.2
    have hrole : own' (s.idbuf j) = some (.data f.sv.ino (15 + j)) := hslot ▸ h.file.data_ne hne
    have hnew : ∀ m ∈ l, m ≠ j := by
      rintro m hm rfl
      apply hcut.2
      rw [h.words m hj, if_pos ⟨hm, hcut.1⟩]
    rw [if_pos hcut, h.map.bfree hrole]
    refine ⟨update own' (s.idbuf j) none, _, rfl, ?_⟩
    constructor
    case map => exact h.map.release hrole (by simp)
    case file =>
      have hfile := h.file.clear hne
      rw [hslot, ← slotTable_update hj] at hfile
      exact hfile
    case frame => exact h.frame.trans (.release hrole rfl)
    case disk => exact h.disk
    case words =>
      intro m hm
      change update s.idbuf j 0 m = _
      by_cases e : m = j
      · subst e
        rw [update_self, if_pos ⟨mem_cons_self, hcut.1⟩]
      · rw [update_of_ne e, h.words m hm]
        simp [e]
    case nonzero =>
      change s.hasnonzero = true ↔ ∃ m ∈ l, update s.idbuf j 0 m ≠ 0
      rw [h.nonzero]
      apply exists_congr
      intro m
      apply and_congr_right
      intro hm
      rw [update_of_ne (hnew m hm)]
    case clean => rintro ⟨⟩
  · rw [if_neg hcut]
    refine ⟨own', s, rfl, h.map, h.file, h.frame, h.disk, ?_, h.nonzero, h.clean⟩
    intro m hm
    by_cases e : m = j
    · subst e
      by_cases hlt : blocklen < 15 + m
      · rw [if_pos ⟨mem_cons_self, hlt⟩]
        by_contra hne
        exact hcut ⟨hlt, hne⟩
      · rw [h.words m hm, if_neg (fun h => hlt h.2), if_neg (fun h => hlt h.2)]
    · rw [h.words m hm]
      simp [e]

theorem discardSlot_spec (hj : j < 128)
    (h : Scanned own own' f blocklen l l s) :
    ∃ own'' s', discardSlot blocklen s j = .ok s' ∧
      Scanned own own'' f blocklen (j :: l) (j :: l) s' := by
  obtain ⟨own'', s', hcut, hs⟩ := clearSlot_spec hj h
  unfold discardSlot
  rw [hcut, ok_bind]
  refine ⟨own'', _, rfl, ?_⟩
  by_cases hz : s'.idbuf j = 0
  · rw [if_neg (not_not_intro hz)]
    refine ⟨hs.map, hs.file, hs.frame, hs.disk, hs.words, ?_, hs.clean⟩
    rw [hs.nonzero, exists_mem_cons_iff]
    simp [hz]
  · rw [if_pos hz]
    refine ⟨hs.map, hs.file, hs.frame, hs.disk, hs.words, ?_, hs.clean⟩
    exact iff_of_true rfl ⟨j, mem_cons_self, hz⟩

theorem discardSlots_spec {todo : List Nat} (htodo : ∀ j ∈ todo, j < 128)
    (h : Scanned own own' f blocklen l l s) :
    ∃ own'' s', todo.foldlM (discardSlot blocklen) s = .ok s' ∧
      Scanned own own'' f blocklen (todo.reverse ++ l) (todo.reverse ++ l) s' := by
  induction todo generalizing own' l s with
  | nil => exact ⟨own', s, rfl, h⟩
  | cons j todo ih =>
    rw [forall_mem_cons] at htodo
    obtain ⟨own₁, s₁, hstep, h₁⟩ := discardSlot_spec htodo.1 h
    obtain ⟨own₂, s₂, hrest, h₂⟩ := ih htodo.2 h₁
    refine ⟨own₂, s₂, ?_, ?_⟩
    · rw [foldlM_cons, hstep, ok_bind, hrest]
    · rwa [reverse_cons, append_assoc, singleton_append]

theorem Scanned.table (hi : f.sv.inode.indirect ≠ 0) (hlow : blocklen < 142)
    (h : Scanned own own' f blocklen (List.range 128).reverse (List.range 128).reverse s)
    (hk : 15 ≤ k) :
    slotTable f s.idbuf k = if blocklen < 142 ∧ blocklen < k then 0 else f.blockAt k := by
  unfold slotTable
  rw [if_neg (not_lt.mpr hk)]
  by_cases hlt : k < 143
  · have hmem : k - 15 ∈ (List.range 128).reverse := by
      rw [mem_reverse, mem_range]
      omega
    have hpast : blocklen < 15 + (k - 15) ↔ blocklen < 142 ∧ blocklen < k := by omega
    rw [if_pos hlt, h.words _ (by omega), blockAt_indirect hk hlt hi]
    simp [hmem, hpast]
  · rw [if_neg hlt, blockAt_eq_zero hk (.inl (not_lt.mp hlt)), ite_self]

structure Cut (own own' : Owner) (f f' : File) (blocklen : Nat) : Prop
    extends Evolves own own' f f' where
  direct : f'.sv.inode.direct = f.sv.inode.direct
  table : ∀ k, 15 ≤ k → f'.blockAt k = if blocklen < 142 ∧ blocklen < k then 0 else f.blockAt k
  empty : blocklen < 142 → (∀ k, 15 ≤ k → f'.blockAt k = 0) → f'.sv.inode.indirect = 0

theorem blockAt_eq_slotTable
    (hdirect : f'.sv.inode.direct = f.sv.inode.direct)
    (hhigh : ∀ k, 15 ≤ k → k < 143 → f'.blockAt k = idbuf (k - 15)) :
    f'.blockAt = slotTable f idbuf := by
  funext k
  unfold slotTable
  by_cases hk : k < 15
  · have hsame := congrFun hdirect ⟨k, hk⟩
    rw [← blockAt_direct, ← blockAt_direct] at hsame
    rw [if_pos hk]
    exact hsame
  · rw [if_neg hk]
    split
    · rename_i hlt
      exact hhigh k (not_lt.mp hk) hlt
    · rename_i hge
      exact blockAt_eq_zero (not_lt.mp hk) (.inl (not_lt.mp hge))

section Through

variable {s : Scan} (hi : f.sv.inode.indirect ≠ 0) (hlow : blocklen < 142)
  (h : Scanned own own' f blocklen (List.range 128).reverse (List.range 128).reverse s)

include hi hlow h

theorem cut_release (hnz : s.hasnonzero = false) : Cut own (update own' f.sv.inode.indirect none) f
      ⟨s.fs.release f.sv.inode.indirect, f.sv.setIndirect 0⟩ blocklen := by
  have hrole := h.file.ind_ne hi
  have hzero : ∀ j < 128, s.idbuf j = 0 := by
    intro j hj
    by_contra hne
    have htrue := h.nonzero.mpr ⟨j, by rwa [mem_reverse, mem_range], hne⟩
    rw [hnz] at htrue
    cases htrue
  have htbl : File.blockAt ⟨s.fs.release f.sv.inode.indirect, f.sv.setIndirect 0⟩ =
      slotTable f s.idbuf := by
    apply blockAt_eq_slotTable
    · rfl
    · intro k hk hlt
      rw [hzero _ (by omega), blockAt_eq_zero hk (.inr rfl)]
  constructor
  case toEvolves =>
    refine ⟨⟨h.map.release hrole (by simp), ?_⟩, h.frame.trans (.release hrole rfl),
      ⟨rfl, rfl, rfl, rfl, .inl rfl⟩⟩
    rw [htbl]
    exact h.file.clearInd hi
  case direct => rfl
  case table =>
    rw [htbl]
    exact fun _ => h.table hi hlow
  case empty => exact fun _ _ => rfl

theorem cut_keep (hnz : s.hasnonzero = true) (hevolves : Evolves own own' f f')
    (hdirect : f'.sv.inode.direct = f.sv.inode.direct)
    (htbl : f'.blockAt = slotTable f s.idbuf) : Cut own own' f f' blocklen where
  toEvolves := hevolves
  direct := hdirect
  table k hk := by
    rw [htbl]
    exact h.table hi hlow hk
  empty _ hall := by
    obtain ⟨j, hj, hne⟩ := h.nonzero.mp hnz
    have hj128 : j < 128 := mem_range.mp (mem_reverse.mp hj)
    have hzero := hall (15 + j) (by omega)
    rw [htbl, slotTable_slot hj128] at hzero
    exact absurd hzero hne

theorem cut_store (hnz : s.hasnonzero = true) :
    Cut own own' f ⟨s.fs.store f.sv.inode.indirect (ofWords s.idbuf), f.sv⟩ blocklen := by
  have hrole := h.file.ind_ne hi
  have hword : ∀ j < 128, s.idbuf j < 2 ^ 32 := by
    intro j hj
    rw [h.words j hj]
    split
    · decide
    · exact wordAt_lt _ _
  have htbl : File.blockAt ⟨s.fs.store f.sv.inode.indirect (ofWords s.idbuf), f.sv⟩ =
      slotTable f s.idbuf := by
    apply blockAt_eq_slotTable
    · rfl
    · intro k hk hlt
      rw [← wordAt_ofWords (hword (k - 15) (by omega))]
      rw [blockAt_indirect (f := ⟨s.fs.store f.sv.inode.indirect _, f.sv⟩) hk hlt hi]
      exact congrArg (fun d => wordAt d (k - 15)) store_disk_self
  refine cut_keep hi hlow h hnz ?_ ?_ htbl
  case refine_2 => rfl
  refine ⟨⟨h.map.store, ?_⟩, h.frame.trans (.store hrole rfl), .refl _⟩
  rw [htbl]
  exact h.file

theorem cut_clean (hnz : s.hasnonzero = true) (hd : s.iddirty = false) :
    Cut own own' f ⟨s.fs, f.sv⟩ blocklen := by
  have htbl : File.blockAt ⟨s.fs, f.sv⟩ = slotTable f s.idbuf := by
    apply blockAt_eq_slotTable
    · rfl
    · intro k hk hlt
      rw [h.clean hd _ (by omega), ← h.disk]
      exact blockAt_indirect hk hlt hi
  refine cut_keep hi hlow h hnz ?_ ?_ htbl
  case refine_2 => rfl
  refine ⟨⟨h.map, ?_⟩, h.frame, .refl _⟩
  rw [htbl]
  exact h.file

end Through

theorem discardIndirect_spec (blocklen : Nat) (h : Owns own f) :
    ∃ own' f', discardIndirect blocklen f = .ok f' ∧ Cut own own' f f' blocklen := by
  unfold discardIndirect SFS_NDIRECT SFS_DBPERIDB
  by_cases hcut : blocklen < 15 + 128 - 1 ∧ f.sv.inode.indirect ≠ 0
  · obtain ⟨hlow, hi⟩ := hcut
    have hstart : Scanned own own f blocklen [] []
        ⟨f.fs, wordAt (f.fs.disk f.sv.inode.indirect), false, false⟩ := by
      refine ⟨h.map, ?_, .refl .., rfl, fun j _ => by simp, by simp, fun _ _ _ => rfl⟩
      rw [slotTable_blockAt hi fun _ _ => rfl]
      exact h.file
    obtain ⟨own', s, hloop, hs⟩ := discardSlots_spec (fun j hj => mem_range.mp hj) hstart
    have hrole := hs.file.ind_ne hi
    rw [if_pos ⟨hlow, hi⟩, h.map.rblock (h.file.ind_ne hi), ok_bind, hloop, ok_bind]
    cases hnz : s.hasnonzero with
    | false =>
      rw [hs.map.bfree hrole]
      exact ⟨_, _, rfl, cut_release hi hlow hs hnz⟩
    | true =>
      cases hd : s.iddirty with
      | true =>
        rw [hs.map.wblock hrole]
        exact ⟨_, _, rfl, cut_store hi hlow hs hnz⟩
      | false => exact ⟨_, _, rfl, cut_clean hi hlow hs hnz hd⟩
  · rw [if_neg hcut]
    refine ⟨own, f, rfl, .refl h, rfl, ?_, ?_⟩
    · intro k hk
      split
      · rename_i hlt
        apply blockAt_eq_zero hk
        right
        by_contra hi
        exact hcut ⟨hlt.1, hi⟩
      · rfl
    · intro hlt _
      by_contra hi
      exact hcut ⟨hlt, hi⟩

structure Truncated (own own' : Owner) (f f' : File) (len : Nat) : Prop
    extends Evolves own own' f f' where
  size : f'.sv.inode.size = len
  dirty : f'.sv.dirty = true
  table : ∀ k, f'.blockAt k = if Discarded ((len + 511) / 512) k then 0 else f.blockAt k
  empty : (len + 511) / 512 < 142 → (∀ k, 15 ≤ k → f'.blockAt k = 0) → f'.sv.inode.indirect = 0

theorem truncate_spec (h : Owns own f) (len : Nat) :
    ∃ own' f', truncate f len = .ok f' ∧ Truncated own own' f f' len := by
  obtain ⟨own₁, f₁, hdirect, ht⟩ := discardDirects_spec ((len + 511) / 512) h (List.finRange 15)
  obtain ⟨own₂, f₂, hind, hc⟩ := discardIndirect_spec ((len + 511) / 512) ht.owns
  have hevolves := ht.toEvolves.trans hc.toEvolves
  refine ⟨own₂, { f₂ with sv := f₂.sv.setSize len }, ?_, ⟨⟨hevolves.owns.map, hevolves.owns.file⟩,
    hevolves.frame, hevolves.stable.trans ⟨rfl, rfl, rfl, rfl, .inl rfl⟩⟩, rfl, rfl, ?_, hc.empty⟩
  · change (List.foldlM (discardDirect ((len + 511) / 512)) f (List.finRange 15) >>= _) = _
    rw [hdirect, ok_bind]
    change (discardIndirect ((len + 511) / 512) f₁ >>= _) = _
    rw [hind]
    rfl
  · intro k
    change f₂.blockAt k = _
    unfold Discarded
    by_cases hk : k < 15
    · have hsame : f₂.blockAt k = f₁.blockAt k := (blockAt_direct f₂ ⟨k, hk⟩).trans
          ((congrFun hc.direct ⟨k, hk⟩).trans (blockAt_direct f₁ ⟨k, hk⟩).symm)
      have hmem : ∃ i ∈ List.finRange 15, (i : Nat) = k := ⟨⟨k, hk⟩, mem_finRange _, rfl⟩
      rw [hsame, ht.table]
      simp only [hmem, hk, true_and, if_true]
    · have hsame : f₁.blockAt k = f.blockAt k := by
        rw [ht.table, if_neg]
        rintro ⟨⟨i, -, rfl⟩, -⟩
        exact hk i.isLt
      rw [hc.table k (not_lt.mp hk), hsame]
      simp only [hk, if_false]

theorem Truncated.nothing (h : Truncated own own' f f' 0) :
    (∀ k, f'.blockAt k = 0) ∧ f'.sv.inode.indirect = 0 := by
  have hall : ∀ k, f'.blockAt k = 0 := by
    intro k
    rw [h.table, if_pos]
    unfold Discarded
    split <;> omega
  exact ⟨hall, h.empty (by decide) fun k _ => hall k⟩

end Os161.Sfs
