import Os161.Sfs.Mount

/-!
# A volume over whole runs

From an image that `mksfs` wrote, after any operations.
-/

open List Option

namespace Os161.Sfs

open Lib

variable {size : Nat} {own : Owner} {s s' : State} {volname : List UInt8} {old img : Nat → Block}

theorem run_ensures {P : State → Prop} (hP : ∀ {own s}, Inv size own 0 s → P s)
    (h : mksfs size volname old = some img) : ∃ s₀, domount size img = .ok (.ok s₀) ∧
      ∀ ops, run s₀ ops = .error .notFile ∨ ∃ s, run s₀ ops = .ok s ∧ P s := by
  obtain ⟨s₀, hmount, hrun⟩ := run_mksfs h
  refine ⟨s₀, hmount, ?_⟩
  intro ops
  obtain hpanic | ⟨own, s, hops, hinv⟩ := hrun ops
  · exact .inl hpanic
  · exact .inr ⟨s, hops, hP hinv⟩

def HasRole (s : State) (b : Nat) : Role → Prop
  | .super => b = SFS_SB_LOCATION
  | .map => SFS_MAP_LOCATION ≤ b ∧ b < SFS_MAP_LOCATION + SFS_BITBLOCKS s.fs.nblocks
  | .inode ino => b = ino ∧ InUse s ino
  | .ind ino => InUse s ino ∧ b ≠ 0 ∧ (s.sv ino).inode.indirect = b
  | .data ino k => InUse s ino ∧ b ≠ 0 ∧ (s.file ino).blockAt k = b

/-- The freemap marks just the blocks that have a purpose, and none has two. -/
structure BlocksOwned (s : State) : Prop where
  used : ∀ b < s.fs.nblocks, s.fs.freemap.has b = true ↔ ∃ r, HasRole s b r
  unique : ∀ b r r', HasRole s b r → HasRole s b r' → r = r'
  range : ∀ b r, HasRole s b r → b < s.fs.nblocks

theorem hasRole_iff (h : Inv size own 0 s) (b : Nat) (r : Role) :
    HasRole s b r ↔ own b = some r := by
  have hne : ∀ r, r ≠ .super → own b = some r → b ≠ 0 := by
    rintro r hr hb rfl
    exact hr (some.inj (hb.symm.trans h.map.super))
  cases r with
  | super => exact (h.supers b).symm
  | map => exact (h.maps b).symm
  | inode ino => exact (h.inodes b ino).symm
  | ind ino =>
    constructor
    · rintro ⟨hu, hz, hind⟩
      exact ((h.good ino hu).blocks.ind b hz).mp hind
    · intro hb
      have hu := h.owned b ino _ hb rfl
      have hz := hne (.ind ino) nofun hb
      exact ⟨hu, hz, ((h.good ino hu).blocks.ind b hz).mpr hb⟩
  | data ino k =>
    constructor
    · rintro ⟨hu, hz, hk⟩
      exact ((h.good ino hu).blocks.data k b hz).mp hk
    · intro hb
      have hu := h.owned b ino _ hb rfl
      have hz := hne (.data ino k) nofun hb
      exact ⟨hu, hz, ((h.good ino hu).blocks.data k b hz).mpr hb⟩

theorem Inv.blocksOwned (h : Inv size own 0 s) : BlocksOwned s where
  used b hb := by
    rw [h.map.used b hb, isSome_iff_exists]
    exact exists_congr fun r => (hasRole_iff h b r).symm
  unique b r r' hr hr' := by
    rw [hasRole_iff h] at hr hr'
    exact some.inj (hr.symm.trans hr')
  range b r hr := h.map.lt ((hasRole_iff h b r).mp hr)

/-- The only assert that can fail keeps `sfs_rename` from the root directory. -/
theorem blocks_owned (h : mksfs size volname old = some img) :
    ∃ s₀, domount size img = .ok (.ok s₀) ∧
      ∀ ops, run s₀ ops = .error .notFile ∨ ∃ s, run s₀ ops = .ok s ∧ BlocksOwned s :=
  run_ensures Inv.blocksOwned h

theorem mksfs_4096 : (mksfs 4096 [] fun _ => zeros).isSome = true := by decide

theorem blocks_owned_4096 : ∃ img s₀, mksfs 4096 [] (fun _ => zeros) = some img ∧
    domount 4096 img = .ok (.ok s₀) ∧
    ∀ ops, run s₀ ops = .error .notFile ∨ ∃ s, run s₀ ops = .ok s ∧ BlocksOwned s := by
  obtain ⟨img, h⟩ := isSome_iff_exists.mp mksfs_4096
  obtain ⟨s₀, hmount, hrun⟩ := blocks_owned h
  exact ⟨img, s₀, h, hmount, hrun⟩

structure LinksAgree (s : State) : Prop where
  aligned : (s.sv SFS_ROOT_LOCATION).inode.size % DIRENT_SIZE = 0
  names : DistinctNames s.entries
  allocated : ∀ d ∈ s.entries, d.ino ≠ SFS_NOINO →
    d.ino < s.fs.nblocks ∧ s.fs.freemap.has d.ino = true
  counts : ∀ ino, InUse s ino → (s.sv ino).inode.linkcount =
    links s.entries ino + if ino = SFS_ROOT_LOCATION then 1 else 0
  small : ∀ ino, InUse s ino → (s.sv ino).inode.linkcount < 2 ^ 16

theorem Inv.linksAgree (h : Inv size own 0 s) : LinksAgree s where
  aligned := h.dir.aligned
  names := h.dir.names
  allocated d hd hz := by
    have hpos : 0 < links s.entries d.ino := countP_pos_iff.mpr ⟨d, hd, by simp⟩
    have hrole := h.inode (.inr (.inl ⟨hz, hpos⟩))
    exact ⟨h.map.lt hrole, h.map.has hrole⟩
  counts ino hu := by
    have hcount := h.counts ino hu
    rw [Pi.zero_apply] at hcount
    by_cases hroot : ino = SFS_ROOT_LOCATION
    · rw [if_pos hroot] at hcount ⊢
      omega
    · rw [if_neg hroot] at hcount ⊢
      omega
  small ino hu := by
    have hlt := h.linkcount_lt hu Int.one_nonneg
    omega

/-- The panics of `sfs_dir_findname` and `sfs_lookonce` are not among the outcomes. -/
theorem links_agree (h : mksfs size volname old = some img) :
    ∃ s₀, domount size img = .ok (.ok s₀) ∧
      ∀ ops, run s₀ ops = .error .notFile ∨ ∃ s, run s₀ ops = .ok s ∧ LinksAgree s :=
  run_ensures Inv.linksAgree h

theorem links_agree_4096 : ∃ img s₀, mksfs 4096 [] (fun _ => zeros) = some img ∧
    domount 4096 img = .ok (.ok s₀) ∧
    ∀ ops, run s₀ ops = .error .notFile ∨ ∃ s, run s₀ ops = .ok s ∧ LinksAgree s := by
  obtain ⟨img, h⟩ := isSome_iff_exists.mp mksfs_4096
  obtain ⟨s₀, hmount, hrun⟩ := links_agree h
  exact ⟨img, s₀, h, hmount, hrun⟩

/-- Every lookup ends in `sfs_loadvnode`. -/
structure OneVnode (s : State) : Prop where
  unique : (s.vnodes.map Sv.ino).Nodup
  held : ∀ sv ∈ s.vnodes, 0 < sv.refcount
  allocated : ∀ sv ∈ s.vnodes, sv.ino < s.fs.nblocks ∧ s.fs.freemap.has sv.ino = true
  again : ∀ ino, Loaded s ino → loadvnode s ino SFS_TYPE_INVAL =
    .ok (s.set ⟨s.fs, { s.sv ino with refcount := (s.sv ino).refcount + 1 }⟩)
  stays : ∀ op s', Callable s op → step s op = .ok s' → Keeps s s' op

theorem Inv.oneVnode (h : Inv size own 0 s) : OneVnode s where
  unique := h.vnodes
  held sv hsv := by
    have hloaded : Loaded s sv.ino := mem_map_of_mem hsv
    have hheld := (h.good sv.ino hloaded.inUse).held hloaded
    have hlookup := hloaded.lookup
    rw [lookup_of_mem h.vnodes hsv] at hlookup
    rwa [← some.inj hlookup] at hheld
  allocated sv hsv := by
    have hloaded : Loaded s sv.ino := mem_map_of_mem hsv
    have hrole := h.inode hloaded.inUse
    exact ⟨h.map.lt hrole, h.map.has hrole⟩
  again ino hi := by
    unfold loadvnode incref
    rw [h.findVnode, ok_bind, if_pos (decide_eq_true hi), if_neg (fun hne => hne rfl), hi.getVnode]
    rfl
  stays op s' hcall hstep := by
    obtain hpanic | ⟨own', s'', hop, -, hkeeps⟩ := step_spec h op hcall
    · cases hpanic.symm.trans hstep
    · exact Except.ok.inj (hop.symm.trans hstep) ▸ hkeeps

/-- The asserts of `sfs_loadvnode` are not among the outcomes. -/
theorem one_vnode (h : mksfs size volname old = some img) : ∃ s₀, domount size img = .ok (.ok s₀) ∧
      ∀ ops, run s₀ ops = .error .notFile ∨ ∃ s, run s₀ ops = .ok s ∧ OneVnode s :=
  run_ensures Inv.oneVnode h

theorem one_vnode_4096 : ∃ img s₀, mksfs 4096 [] (fun _ => zeros) = some img ∧
    domount 4096 img = .ok (.ok s₀) ∧
    ∀ ops, run s₀ ops = .error .notFile ∨ ∃ s, run s₀ ops = .ok s ∧ OneVnode s := by
  obtain ⟨img, h⟩ := isSome_iff_exists.mp mksfs_4096
  obtain ⟨s₀, hmount, hrun⟩ := one_vnode h
  exact ⟨img, s₀, h, hmount, hrun⟩

structure SameVolume (s s' : State) : Prop where
  entries : s'.entries = s.entries
  inode : ∀ ino, InUse s ino → (s'.sv ino).inode = (s.sv ino).inode
  contents : ∀ ino, InUse s ino → (s'.file ino).byteAt = (s.file ino).byteAt
  nbits : s'.fs.freemap.nbits = s.fs.freemap.nbits
  freemap : ∀ b < s.fs.freemap.nbits, s'.fs.freemap.has b = s.fs.freemap.has b

theorem remount (h : Inv size own 0 s) (hclean : s.fs.freemapdirty = false) (hnone : s.vnodes = []) :
    ∃ s', domount size s.fs.disk = .ok (.ok s') ∧ SameVolume s s' := by
  have hpos : 0 < size := by
    rw [← h.size]
    exact h.map.lt h.map.super
  have hroom : ∀ j < SFS_BITBLOCKS size, SFS_MAP_LOCATION + j < size := by
    intro j hj
    rw [← h.size] at hj ⊢
    exact h.map.lt ((h.maps _).mpr ⟨Nat.le_add_right .., Nat.add_lt_add_left hj _⟩)
  obtain ⟨s', hmount, hm⟩ := domount_spec hpos h.super.magic (h.super.nblocks.trans h.size) hroom
  have huntouched : ∀ ino, Untouched ino own own s s' := by
    intro ino
    refine ⟨fun _ _ _ => Iff.rfl, fun b _ _ _ => congrFun hm.blocks b, ?_⟩
    rw [hm.vnodes, hnone]
  refine ⟨s', hmount, (huntouched _).entries h, ?_, ?_, ?_, ?_⟩
  · intro ino hu
    rw [(huntouched ino).sv h hu]
  · exact fun ino hu => ((huntouched ino).file h hu).2
  · rw [hm.nbits, h.nbits, h.size]
  · intro b hb
    rw [h.nbits, bitmapsize_eq, h.size] at hb
    apply has_congr _ hb
    intro j hj x hx
    rw [hm.map j hj x hx]
    exact h.synced hclean j (h.size.symm ▸ hj) x hx

theorem Inv.vfsUnmount (h : Inv size own 0 s) (hnone : s.vnodes = []) :
    ∃ disk s', vfsUnmount s = .ok (.ok disk) ∧ domount size disk = .ok (.ok s') ∧
      SameVolume s s' := by
  obtain ⟨s₁, hmap, hinv, hclean, hfreemap, hvnodes, huntouched⟩ := syncFreemap_spec h
  have hnone₁ : s₁.vnodes = [] := hvnodes.trans hnone
  have hentries := (huntouched SFS_ROOT_LOCATION).entries h
  obtain ⟨s', hmount, hsame⟩ := remount hinv hclean hnone₁
  have huse : ∀ ino, InUse s ino → InUse s₁ ino := by
    intro ino hu
    unfold InUse Linked
    rw [hentries, (huntouched ino).loaded]
    exact hu
  refine ⟨s₁.fs.disk, s', ?_, hmount, hsame.entries.trans hentries, ?_, ?_, ?_, ?_⟩
  · unfold Sfs.vfsUnmount sync
    rw [hnone, map_nil, foldlM_nil]
    change ((syncFreemap s >>= syncSuper) >>= unmount) = _
    rw [hmap, ok_bind, syncSuper_eq hinv, ok_bind]
    unfold unmount
    rw [if_neg (not_not_intro hnone₁), hinv.superclean, hclean]
    rfl
  · intro ino hu
    rw [hsame.inode ino (huse ino hu), (huntouched ino).sv h hu]
  · intro ino hu
    rw [hsame.contents ino (huse ino hu), ((huntouched ino).file h hu).2]
  · rw [hsame.nbits, hfreemap]
  · rw [← hfreemap]
    exact hsame.freemap

theorem Inv.vfsUnmount_busy (h : Inv size own 0 s) (hsome : s.vnodes ≠ []) :
    Sfs.vfsUnmount s = .ok (.error .EBUSY) := by
  obtain ⟨s₁, hsync, -, -, hall⟩ := sync_spec h
  have hsome₁ : s₁.vnodes ≠ [] := by
    intro hnone
    obtain ⟨sv, vnodes, hcons⟩ := exists_cons_of_ne_nil hsome
    have hloaded : Loaded s sv.ino := by
      unfold Loaded
      rw [hcons]
      exact mem_cons_self
    have hnot := (hall sv.ino).mpr hloaded
    unfold Loaded at hnot
    rw [hnone] at hnot
    cases hnot
  unfold Sfs.vfsUnmount unmount
  rw [hsync, ok_bind, if_pos hsome₁]
  rfl

/-- `sfs_unmount` returns 0 just if nothing is loaded. -/
theorem remount_loses_nothing (h : mksfs size volname old = some img) :
    ∃ s₀, domount size img = .ok (.ok s₀) ∧ ∀ ops s, run s₀ ops = .ok s →
      (s.vnodes ≠ [] → vfsUnmount s = .ok (.error .EBUSY)) ∧
      (s.vnodes = [] → ∃ disk s', vfsUnmount s = .ok (.ok disk) ∧
        domount size disk = .ok (.ok s') ∧ SameVolume s s') := by
  obtain ⟨s₀, hmount, hrun⟩ := run_mksfs h
  refine ⟨s₀, hmount, ?_⟩
  intro ops s hops
  obtain hpanic | ⟨own, s', hops', hinv⟩ := hrun ops
  · rw [hpanic] at hops
    cases hops
  · obtain rfl : s' = s := Except.ok.inj (hops'.symm.trans hops)
    exact ⟨hinv.vfsUnmount_busy, hinv.vfsUnmount⟩

theorem remount_loses_nothing_4096 : ∃ img s₀, mksfs 4096 [] (fun _ => zeros) = some img ∧
    domount 4096 img = .ok (.ok s₀) ∧ ∀ ops s, run s₀ ops = .ok s →
      (s.vnodes ≠ [] → vfsUnmount s = .ok (.error .EBUSY)) ∧
      (s.vnodes = [] → ∃ disk s', vfsUnmount s = .ok (.ok disk) ∧
        domount 4096 disk = .ok (.ok s') ∧ SameVolume s s') := by
  obtain ⟨img, h⟩ := isSome_iff_exists.mp mksfs_4096
  obtain ⟨s₀, hmount, hrun⟩ := remount_loses_nothing h
  exact ⟨img, s₀, h, hmount, hrun⟩

end Os161.Sfs
