import Os161.Sfs.Owner

/-! # `sfs_bmap` -/

open Function

namespace Os161.Sfs

open Lib

variable {own own' : Owner} {f f' : File} {fs' : Fs} {b k : Nat} {P : Prop}

theorem blockAt_direct (f : File) (i : Fin 15) : f.blockAt i = f.sv.inode.direct i := dif_pos i.isLt

theorem blockAt_indirect (hlow : 15 ≤ k) (hk : k < 143) (hi : f.sv.inode.indirect ≠ 0) :
    f.blockAt k = wordAt (f.fs.disk f.sv.inode.indirect) (k - 15) := by
  unfold File.blockAt
  rw [dif_neg (not_lt.mpr hlow), if_pos ⟨hk, hi⟩]

theorem blockAt_eq_zero (hlow : 15 ≤ k) (h : 143 ≤ k ∨ f.sv.inode.indirect = 0) :
    f.blockAt k = 0 := by
  unfold File.blockAt
  rw [dif_neg (not_lt.mpr hlow), if_neg]
  rintro ⟨hk, hi⟩
  exact h.elim (not_le.mpr hk) hi

theorem blockAt_lt (h : f.blockAt k ≠ 0) : k < 143 := by
  by_contra hge
  exact h (blockAt_eq_zero (by omega) (.inl (not_lt.mp hge)))

theorem blockAt_setDirect (i : Fin 15)
    (hdisk : f.sv.inode.indirect ≠ 0 →
      fs'.disk f.sv.inode.indirect = f.fs.disk f.sv.inode.indirect) :
    File.blockAt ⟨fs', f.sv.setDirect i b⟩ = update f.blockAt i b := by
  funext k
  by_cases hk : k < 15
  · obtain ⟨j, rfl⟩ : ∃ j : Fin 15, k = j := ⟨⟨k, hk⟩, rfl⟩
    rw [blockAt_direct]
    change update f.sv.inode.direct i b j = _
    by_cases e : j = i
    · subst e
      rw [update_self, update_self]
    · rw [update_of_ne e, update_of_ne (fun h => e (Fin.ext h)), blockAt_direct]
  · have hki : k ≠ i := by
      omega
    rw [update_of_ne hki]
    unfold File.blockAt
    rw [dif_neg hk, dif_neg hk]
    change (if k < 143 ∧ f.sv.inode.indirect ≠ 0 then _ else _) = _
    split
    · rename_i hmap
      exact congrArg (fun d => wordAt d (k - 15)) (hdisk hmap.2)
    · rfl

theorem blockAt_congr (hdirect : f'.sv.inode.direct = f.sv.inode.direct)
    (hind : f'.sv.inode.indirect = f.sv.inode.indirect)
    (hdisk : f.sv.inode.indirect ≠ 0 → ∀ j < 128,
      wordAt (f'.fs.disk f.sv.inode.indirect) j = wordAt (f.fs.disk f.sv.inode.indirect) j) :
    f'.blockAt = f.blockAt := by
  funext k
  unfold File.blockAt
  rw [hdirect, hind]
  split
  · rfl
  · split
    · rename_i hmap
      exact hdisk hmap.2 (k - 15) (by omega)
    · rfl

theorem blockAt_setIndirect_fresh (hi : f.sv.inode.indirect = 0) (hb : b ≠ 0)
    (hdisk : fs'.disk b = zeros) :
    File.blockAt ⟨fs', f.sv.setIndirect b⟩ = f.blockAt := by
  funext k
  by_cases hk : k < 15
  · obtain ⟨j, rfl⟩ : ∃ j : Fin 15, k = j := ⟨⟨k, hk⟩, rfl⟩
    rw [blockAt_direct, blockAt_direct]
    rfl
  · rw [blockAt_eq_zero (not_lt.mp hk) (.inr hi)]
    by_cases hlt : k < 143
    · rw [blockAt_indirect (not_lt.mp hk) hlt hb]
      change wordAt (fs'.disk b) (k - 15) = 0
      rw [hdisk]
      exact wordAt_zero
    · exact blockAt_eq_zero (not_lt.mp hk) (.inl (not_lt.mp hlt))

theorem blockAt_slot {idbuf : Nat → Nat} {j : Nat} (hi : f.sv.inode.indirect ≠ 0) (hj : j < 128)
    (hb : b < 2 ^ 32)
    (hbuf : ∀ m < 128, idbuf m = wordAt (f.fs.disk f.sv.inode.indirect) m)
    (hdisk : fs'.disk f.sv.inode.indirect = ofWords (update idbuf j b)) :
    File.blockAt ⟨fs', f.sv⟩ = update f.blockAt (15 + j) b := by
  funext k
  by_cases hk : k < 15
  · obtain ⟨i, rfl⟩ : ∃ i : Fin 15, k = i := ⟨⟨k, hk⟩, rfl⟩
    rw [update_of_ne (by omega), blockAt_direct, blockAt_direct]
  · by_cases hlt : k < 143
    · rw [blockAt_indirect (f := ⟨fs', f.sv⟩) (not_lt.mp hk) hlt hi, hdisk]
      by_cases e : k = 15 + j
      · subst e
        have hself : 15 + j - 15 = j := by omega
        rw [update_self, hself, wordAt_ofWords] <;> rw [update_self]
        exact hb
      · have hne : k - 15 ≠ j := by omega
        rw [update_of_ne e, wordAt_ofWords] <;>
          rw [update_of_ne hne, hbuf _ (by omega)]
        · exact (blockAt_indirect (not_lt.mp hk) hlt hi).symm
        · exact wordAt_lt _ _
    · rw [update_of_ne (by omega)]
      rw [blockAt_eq_zero (not_lt.mp hk) (.inl (not_lt.mp hlt)),
        blockAt_eq_zero (not_lt.mp hk) (.inl (not_lt.mp hlt))]

theorem byteAt_congr (h : ∀ k, (f'.blockAt k = f.blockAt k ∧
      (f.blockAt k ≠ 0 → f'.fs.disk (f.blockAt k) = f.fs.disk (f.blockAt k))) ∨
      f.blockAt k = 0 ∧ f'.fs.disk (f'.blockAt k) = zeros) : f'.byteAt = f.byteAt := by
  funext x
  unfold File.byteAt
  obtain ⟨hsame, hdisk⟩ | ⟨hhole, hfresh⟩ := h (x / 512)
  · rw [hsame]
    split
    · rfl
    · rename_i hne
      rw [hdisk hne]
  · rw [hfresh, if_pos hhole]
    exact ite_self _

@[simp] theorem ok_bind {α β : Type} (a : α) (k : α → K β) : (Except.ok a >>= k) = k a := rfl

theorem bind_eq_ok {α β : Type} {x : K α} {k : α → K β} {b : β} (h : x >>= k = .ok b) :
    ∃ a, x = .ok a ∧ k a = .ok b := by
  cases x with
  | error e => cases h
  | ok a => exact ⟨a, rfl, h⟩

theorem handBack_eq (h : MapOk own f.fs) (hb : b ≠ 0 → ∃ r, own b = some r) :
    handBack f b = .ok (f, .ok b) := by
  unfold handBack
  by_cases hz : b = 0
  · rw [if_pos hz, hz]
    rfl
  · obtain ⟨r, hr⟩ := hb hz
    rw [if_neg hz, h.bused hr]
    rfl

theorem handBack_blockAt (h : Owns own f) : handBack f (f.blockAt k) = .ok (f, .ok (f.blockAt k)) :=
  handBack_eq h.map fun hne => ⟨_, h.file.data_ne hne⟩

theorem bmap_einval (hk : 143 ≤ k) (doalloc : Bool) :
    bmap f k doalloc = .ok (f, .error .EINVAL) := by
  unfold bmap SFS_NDIRECT SFS_DBPERIDB
  rw [dif_neg (by omega), if_pos (by omega)]
  rfl

theorem bmap_indirect (hlow : 15 ≤ k) (hk : k < 143) (doalloc : Bool) : bmap f k doalloc =
      (if f.sv.inode.indirect = 0 ∧ !doalloc then pure (f, .ok 0)
      else if f.sv.inode.indirect = 0 then do
        let (fs, r) ← balloc f.fs
        match r with
        | .error e => pure ({ f with fs }, .error e)
        | .ok idblock =>
          bmapSlot { fs, sv := f.sv.setIndirect idblock } idblock (fun _ => 0) (k - 15) doalloc
      else do
        let buf ← rblock f.fs f.sv.inode.indirect
        bmapSlot f f.sv.inode.indirect (wordAt buf) (k - 15) doalloc) := by
  unfold bmap SFS_NDIRECT SFS_DBPERIDB
  rw [dif_neg (by omega), if_neg (by omega)]
  generalize hj : (k - 15) % 128 = j
  obtain rfl : j = k - 15 := by omega
  rfl

theorem bmap_find (h : Owns own f) (hk : k < 143) : bmap f k false = .ok (f, .ok (f.blockAt k)) := by
  by_cases hlow : k < 15
  · obtain ⟨i, rfl⟩ : ∃ i : Fin 15, k = i := ⟨⟨k, hlow⟩, rfl⟩
    have hback := handBack_blockAt (k := i) h
    unfold bmap bmapDirect
    rw [dif_pos hlow, if_neg (by simp)]
    rwa [blockAt_direct] at hback ⊢
  · rw [bmap_indirect (not_lt.mp hlow) hk]
    by_cases hi : f.sv.inode.indirect = 0
    · rw [if_pos ⟨hi, rfl⟩, blockAt_eq_zero (not_lt.mp hlow) (.inr hi)]
      rfl
    · rw [if_neg (by simp [hi]), if_neg hi, h.map.rblock (h.file.ind_ne hi), ok_bind]
      have hback := handBack_blockAt (k := k) h
      rw [blockAt_indirect (not_lt.mp hlow) hk hi] at hback ⊢
      unfold bmapSlot
      rw [if_neg (by simp)]
      exact hback

/-- It fails only where there is no block yet, with `P` for the volume. -/
def Mapped (P : Prop) (own : Owner) (f : File) (k : Nat) (res : K (File × Except Errno Nat)) : Prop :=
  ∃ own' f', Grows own own' f f' ∧ f'.byteAt = f.byteAt ∧
    ((f.blockAt k = 0 ∧ P) ∧ res = .ok (f', .error .ENOSPC) ∨
      f'.blockAt k ≠ 0 ∧ res = .ok (f', .ok (f'.blockAt k)))

theorem mapped_nospace (h : Owns own f) (hk : f.blockAt k = 0) (hp : P) :
    Mapped P own f k (.ok (f, .error .ENOSPC)) :=
  ⟨own, f, .refl h, rfl, .inl ⟨⟨hk, hp⟩, rfl⟩⟩

theorem mapped_found (h : Owns own f) (hne : f.blockAt k ≠ 0) :
    Mapped P own f k (handBack f (f.blockAt k)) :=
  ⟨own, f, .refl h, rfl, .inr ⟨hne, handBack_blockAt h⟩⟩

theorem grows_fresh (f' : File) (h : Owns own f) (hne : b ≠ 0) (hb : own b = none) (hk : f.blockAt k = 0)
    (hmap : MapOk (update own b (some (.data f.sv.ino k))) f'.fs)
    (hframe : Frame (Role.of f.sv.ino) own (update own b (some (.data f.sv.ino k))) f.fs f'.fs)
    (hstable : Stable f.sv f'.sv) (hsize : f'.sv.inode.size = f.sv.inode.size)
    (hind : f'.sv.inode.indirect = f.sv.inode.indirect)
    (htbl : f'.blockAt = update f.blockAt k b) (hfresh : f'.fs.disk b = zeros)
    (hkeep : ∀ j, f.blockAt j ≠ 0 → f'.fs.disk (f.blockAt j) = f.fs.disk (f.blockAt j)) :
    Mapped P own f k (handBack f' b) := by
  have howns : Owns (update own b (some (.data f.sv.ino k))) f' := by
    refine ⟨hmap, ?_⟩
    rw [hstable.ino, hind, htbl]
    exact h.file.set hb hk
  have hself : f'.blockAt k = b := by rw [htbl, update_self]
  have hother : ∀ j ≠ k, f'.blockAt j = f.blockAt j := by
    intro j hj
    rw [htbl, update_of_ne hj]
  refine ⟨_, f', ⟨⟨howns, hframe, hstable⟩, hsize, ?_⟩, ?_, .inr ⟨hself ▸ hne, ?_⟩⟩
  · intro j hj
    apply hother
    rintro rfl
    exact hj hk
  · apply byteAt_congr
    intro j
    by_cases e : j = k
    · subst e
      exact .inr ⟨hk, hself ▸ hfresh⟩
    · exact .inl ⟨hother j e, hkeep j⟩
  · rw [← hself]
    exact handBack_blockAt howns

theorem bmapDirect_alloc (h : Owns own f) (i : Fin 15) :
    Mapped f.fs.Full own f i (bmapDirect f i true) := by
  unfold bmapDirect
  by_cases hz : f.sv.inode.direct i = 0
  · rw [if_pos ⟨hz, rfl⟩]
    obtain ⟨hfail, hfull⟩ | ⟨b, hlt, hne, hb, halloc⟩ := h.map.balloc
    · rw [hfail]
      exact mapped_nospace h (by rw [blockAt_direct, hz]) hfull
    · rw [halloc]
      have hkeep : ∀ {c r}, own c = some r → (f.fs.take b).disk c = f.fs.disk c :=
        fun hc => take_disk_of_ne (fun e => by rw [e, hb] at hc; cases hc)
      apply grows_fresh ⟨f.fs.take b, f.sv.setDirect i b⟩ h hne hb
      case hk => rw [blockAt_direct, hz]
      case hmap => exact h.map.take hlt hne
      case hframe => exact .take hb rfl
      case hstable => exact ⟨rfl, rfl, rfl, rfl, .inl rfl⟩
      case hsize => rfl
      case hind => rfl
      case htbl => exact blockAt_setDirect i fun hi => hkeep (h.file.ind_ne hi)
      case hfresh => exact take_disk_self
      case hkeep => exact fun j hj => hkeep (h.file.data_ne hj)
  · have hfound := mapped_found (k := i) (P := f.fs.Full) h (by rwa [blockAt_direct])
    rw [if_neg (by simp [hz])]
    rwa [blockAt_direct] at hfound

theorem bmapSlot_alloc {idbuf : Nat → Nat} {j : Nat} (h : Owns own f)
    (hi : f.sv.inode.indirect ≠ 0) (hj : j < 128)
    (hbuf : ∀ m < 128, idbuf m = wordAt (f.fs.disk f.sv.inode.indirect) m) :
    Mapped f.fs.Full own f (15 + j) (bmapSlot f f.sv.inode.indirect idbuf j true) := by
  have hword : f.blockAt (15 + j) = idbuf j := by
    rw [blockAt_indirect (by omega) (by omega) hi, hbuf j hj, Nat.add_sub_cancel_left]
  have hrole := h.file.ind_ne hi
  unfold bmapSlot
  by_cases hz : idbuf j = 0
  · rw [if_pos ⟨hz, rfl⟩]
    obtain ⟨hfail, hfull⟩ | ⟨b, hlt, hne, hb, halloc⟩ := h.map.balloc
    · rw [hfail]
      exact mapped_nospace h (by rw [hword, hz]) hfull
    · have hib : f.sv.inode.indirect ≠ b := fun e => by rw [e, hb] at hrole; cases hrole
      have hmap := h.map.take (r := .data f.sv.ino (15 + j)) hlt hne
      have htake : Frame (Role.of f.sv.ino) own _ f.fs (f.fs.take b) :=
        .take (r := .data f.sv.ino (15 + j)) hb rfl
      have hind : update own b (some (.data f.sv.ino (15 + j))) f.sv.inode.indirect =
          some (.ind f.sv.ino) := by rw [update_of_ne hib, hrole]
      rw [halloc, ok_bind]
      simp only [hmap.wblock hind, ok_bind]
      apply grows_fresh ⟨(f.fs.take b).store f.sv.inode.indirect _, f.sv⟩ h hne hb
      case hk => rw [hword, hz]
      case hmap => exact hmap.store
      case hframe => exact htake.trans (.store hind rfl)
      case hstable => exact .refl _
      case hsize => rfl
      case hind => rfl
      case htbl =>
        exact blockAt_slot hi hj (lt_trans hlt h.map.fits) hbuf store_disk_self
      case hfresh => rw [store_disk_of_ne hib.symm, take_disk_self]
      case hkeep =>
        intro k hk
        have hdata := h.file.data_ne hk
        have hkb : f.blockAt k ≠ b := fun e => by rw [e, hb] at hdata; cases hdata
        have hki : f.blockAt k ≠ f.sv.inode.indirect := fun e => by
          rw [e, hrole] at hdata
          cases hdata
        rw [store_disk_of_ne hki, take_disk_of_ne hkb]
  · rw [if_neg (by simp [hz])]
    have hfound := mapped_found (k := 15 + j) (P := f.fs.Full) h (by rwa [hword])
    rwa [hword] at hfound

theorem grows_indirect (h : Owns own f) (hi : f.sv.inode.indirect = 0) (hlt : b < f.fs.nblocks)
    (hne : b ≠ 0) (hb : own b = none) :
    Grows own (update own b (some (.ind f.sv.ino))) f
        ⟨f.fs.take b, f.sv.setIndirect b⟩ ∧
      File.byteAt ⟨f.fs.take b, f.sv.setIndirect b⟩ = f.byteAt := by
  have htbl : File.blockAt ⟨f.fs.take b, f.sv.setIndirect b⟩ = f.blockAt :=
    blockAt_setIndirect_fresh hi hne take_disk_self
  refine ⟨⟨⟨⟨h.map.take hlt hne, ?_⟩, .take hb rfl, ⟨rfl, rfl, rfl, rfl, .inl rfl⟩⟩, rfl, ?_⟩, ?_⟩
  · rw [htbl]
    exact (hi ▸ h.file).setInd hb
  · intro k _
    rw [htbl]
  · apply byteAt_congr
    intro k
    refine .inl ⟨by rw [htbl], fun hk => take_disk_of_ne fun e => ?_⟩
    have hdata := h.file.data_ne hk
    rw [e, hb] at hdata
    cases hdata

/-- Two blocks are free, which is what a file needs at most to get one more. -/
def Fs.Roomy (fs : Fs) : Prop :=
  ∃ b < fs.nblocks, ∃ c < b, fs.freemap.has b = false ∧ fs.freemap.has c = false

theorem Fs.Full.not_roomy {fs : Fs} (h : (fs.take b).Full) : ¬ fs.Roomy := by
  have hself : ∀ c < fs.nblocks, fs.freemap.has c = false → c = b := by
    intro c hlt hfree
    have hset : (fs.freemap.setBit b).has c = true := h c hlt
    by_contra hne
    rw [Bitmap.has_setBit, if_neg hne, hfree] at hset
    cases hset
  rintro ⟨b', hlt, c, hc, hb', hfree⟩
  have hb := hself b' hlt hb'
  have hcb := hself c (by omega) hfree
  omega

theorem Mapped.after {Q : Prop} {res : K (File × Except Errno Nat)} (h : Grows own own' f f')
    (hbytes : f'.byteAt = f.byteAt) (himp : P → Q) (hmap : Mapped P own' f' k res) :
    Mapped Q own f k res := by
  obtain ⟨own'', f'', hgrows, hbytes', hres⟩ := hmap
  refine ⟨own'', f'', h.trans hgrows, hbytes'.trans hbytes, hres.imp_left ?_⟩
  rintro ⟨⟨hz, hp⟩, hfail⟩
  refine ⟨⟨?_, himp hp⟩, hfail⟩
  by_contra hne
  exact hne ((h.keeps k hne).symm.trans hz)

theorem bmap_alloc (h : Owns own f) (hk : k < 143) :
    Mapped (¬ f.fs.Roomy) own f k (bmap f k true) := by
  have hroomy : f.fs.Full → ¬ f.fs.Roomy := fun hfull ⟨b, hlt, _, _, hfree, _⟩ =>
    absurd ((hfull b hlt).symm.trans hfree) (by decide)
  by_cases hlow : k < 15
  · unfold bmap
    rw [dif_pos hlow]
    exact (bmapDirect_alloc h ⟨k, hlow⟩).after (.refl h) rfl hroomy
  · obtain ⟨j, rfl⟩ : ∃ j, k = 15 + j := ⟨k - 15, by omega⟩
    rw [bmap_indirect (by omega) hk, Nat.add_sub_cancel_left, if_neg (by simp)]
    by_cases hi : f.sv.inode.indirect = 0
    · rw [if_pos hi]
      obtain ⟨hfail, hfull⟩ | ⟨b, hlt, hne, hb, halloc⟩ := h.map.balloc
      · rw [hfail]
        exact mapped_nospace h (blockAt_eq_zero (by omega) (.inr hi)) (hroomy hfull)
      · obtain ⟨hgrows, hbytes⟩ := grows_indirect h hi hlt hne hb
        rw [halloc, ok_bind]
        apply Mapped.after hgrows hbytes Fs.Full.not_roomy
        apply bmapSlot_alloc hgrows.owns hne (by omega)
        intro m _
        change 0 = wordAt ((f.fs.take b).disk b) m
        rw [take_disk_self]
        exact wordAt_zero.symm
    · rw [if_neg hi, h.map.rblock (h.file.ind_ne hi), ok_bind]
      exact (bmapSlot_alloc h hi (by omega) fun _ _ => rfl).after (.refl h) rfl hroomy

end Os161.Sfs
