import Os161.Lib.Count
import Os161.Lib.Run
import Os161.Vm.Fault

/-!
# Executables that stay open

Pages are loaded on demand, so the executable has to stay open. The reference is taken and dropped in
`runprogram`, `execv`, `fork` and `_exit`, one step each.
-/

open Os161.Lib Function Option

namespace Os161.Vm.Executable

/-- `vmspace` is none before a process is made, after `_exit`, and where `t_vmspace` is NULL.
`opens` counts the references taken with `vfs_open` and not dropped with `vfs_close`, and `rwLock`
says whether the field `rw_lock` of a vnode points to a lock. -/
structure State where
  fresh : Nat
  vmspace : Nat → Option Addrspace
  opens : Nat → Nat
  rwLock : Nat → Bool

/-- Every open gives the vnode a new `rw_lock`, or NULL. -/
def vfsOpen (s : State) (v : Nat) (lock : Bool) : State := { s with
    opens := update s.opens v (s.opens v + 1)
    rwLock := update s.rwLock v lock }

/-- `none` where the vnode has no `rw_lock` to destroy or is not open, or there is no such vnode. -/
def vfsClose (s : State) (v : Nat) : Option State :=
  if s.rwLock v = true ∧ s.opens v ≠ 0 then some { s with
    opens := update s.opens v (s.opens v - 1)
    rwLock := update s.rwLock v false }
  else none

def setSpace (s : State) (i : Nat) (as : Option Addrspace) : State :=
  { s with vmspace := update s.vmspace i as }

def newProcess (s : State) (as : Addrspace) : State :=
  { setSpace s s.fresh (some as) with fresh := s.fresh + 1 }

/-- The headers of both passes. One that cannot be read is of a type that it does not know. -/
structure Elf where
  first : List Phdr
  second : List Phdr
  junk : Nat → Nat

def readElf (as : Addrspace) (v : Nat) (elf : Elf) : Addrspace × Option Errno :=
  match defineRegions elf.junk elf.first as with
  | (as, some e) => (as, some e)
  | (as, none) => setOffsets 0 elf.second { as with v := v }

/-- What `as_create` and `as_define_stack` find in memory; `space` is none without any. `lock` is
whether `lock_create` finds some. -/
structure Load where
  v : Nat
  lock : Bool
  space : Option Addrspace
  elf : Elf
  stack : Nat → Nat

/-- `load` is none where `vfs_open` fails, or the call does not come to it. -/
inductive Label
  /-- `started`: there is room for the process and for its file table. -/
  | runprogram (load : Option Load) (started : Bool)
  | execv (i : Nat) (load : Option Load)
  /-- `copy` is none where `fork` fails, and else what `as_copy` finds in its memory. -/
  | fork (i : Nat) (copy : Option (Addrspace × (Segment → Nat → Nat)))
  | exit (i : Nat)
  | fault (i : Nat) (ty : FaultType) (va : Nat) (g : Globals) (frame : Nat)

/-- Where `runprogram` returns, the thread exits, which destroys the address space. -/
def runprogram (s : State) (l : Load) (started : Bool) : Option State :=
  let s := vfsOpen s l.v l.lock
  match l.space with
  | none => vfsClose s l.v
  | some junk =>
    match readElf (asCreate junk) l.v l.elf with
    | (_, some _) => vfsClose s l.v
    | (as, none) => some (if started then newProcess s (asDefineStack as l.stack) else s)

/-- `as_destroy` of the old address space closes nothing. -/
def execv (s : State) (i : Nat) (l : Load) : Option State :=
  let s := setSpace (vfsOpen s l.v l.lock) i none
  match l.space with
  | none => vfsClose s l.v
  | some junk =>
    match readElf (asCreate junk) l.v l.elf with
    | (as, some _) => vfsClose (setSpace s i (some as)) l.v
    | (as, none) => vfsClose (setSpace s i (some (asDefineStack as l.stack))) l.v

def exit (s : State) (i : Nat) (as : Addrspace) : Option State :=
  (vfsClose s as.v).map (setSpace · i none)

def step (s : State) : Label → Option State
  | .runprogram none _ => some s
  | .runprogram (some l) started => runprogram s l started
  | .execv i load => (s.vmspace i).bind fun _ => load.elim (some s) (execv s i)
  | .fork i copy => (s.vmspace i).map fun as =>
    copy.elim s fun (junk, junkPaddr) => newProcess s (asCopy as junk junkPaddr)
  | .exit i => (s.vmspace i).bind (exit s i)
  | .fault i ty va g frame => (s.vmspace i).bind fun as =>
    (faultPage as g ty va frame).map fun r => setSpace s i (some r.1)

def start : State := ⟨0, fun _ => none, fun _ => 0, fun _ => false⟩

def FileBacked (as : Addrspace) : Bool :=
  (as.r1.filesz ≠ 0 && as.r1.npages ≠ 0) || (as.r2.filesz ≠ 0 && as.r2.npages ≠ 0)

def holders (s : State) (x : Nat) : Nat :=
  tally s.fresh fun i => (s.vmspace i).any fun as => as.v = x

def fileHolders (s : State) (x : Nat) : Nat :=
  tally s.fresh fun i => (s.vmspace i).any fun as => as.v = x && FileBacked as

/-- Each address space with file pages has an open reference of its own, and there are no others. -/
structure KeptOpen (s : State) : Prop where
  owned : ∀ x, fileHolders s x ≤ s.opens x
  dropped : ∀ x, s.opens x ≤ holders s x
  read : ∀ i as g ty va frame as' g' f l, s.vmspace i = some as →
    faultPage as g ty va frame = some (as', g', .load f l) → 0 < s.opens as.v

def execLeaves (l : Load) : Option Nat :=
  l.space.map fun junk => (readElf (asCreate junk) l.v l.elf).1.v

/-- The call is not stopped by a panic of `vfs_close`. -/
def Returns (s : State) : Label → Prop
  | .runprogram (some l) started => (runprogram s l started).isSome
  | .execv i (some l) => ∀ _ ∈ s.vmspace i, (execv s i l).isSome
  | .exit i => ∀ as ∈ s.vmspace i, (exit s i as).isSome
  | _ => True

/-- A loaded program gets its process, `execv` is for the program that runs, `fork` fails, and an
executable that is to be closed has its lock. -/
def NoHandover (s : State) : Label → Prop
  | .runprogram (some l) started => l.lock = true ∧
    (started = true ∨ ∀ junk ∈ l.space, (readElf (asCreate junk) l.v l.elf).2 ≠ none)
  | .execv i (some l) => l.lock = true ∧ ∀ as ∈ s.vmspace i, execLeaves l = some as.v
  | .fork i (some _) => s.vmspace i = none
  | .exit i => ∀ as ∈ s.vmspace i, s.rwLock as.v = true
  | _ => True

variable {s s' : State} {as : Addrspace} {i : Nat}

theorem setOffsets_v (n : Nat) (phs : List Phdr) (as : Addrspace) :
    (setOffsets n phs as).1.v = as.v := by
  induction phs generalizing n as with
  | nil => rfl
  | cons ph phs ih =>
    unfold setOffsets
    split
    · rw [ih]
      split_ifs <;> rfl
    · rfl
    · exact ih ..

theorem readElf_v {v : Nat} {elf : Elf} {as' : Addrspace} (h : readElf as v elf = (as', none)) :
    as'.v = v := by
  unfold readElf at h
  split at h
  · cases h
  · have hv := setOffsets_v 0 elf.second { (‹Addrspace› : Addrspace) with v := v }
    rw [h] at hv
    exact hv

theorem faultPage_v {g : Globals} {ty : FaultType} {va frame : Nat}
    {r : Addrspace × Globals × Outcome} (h : faultPage as g ty va frame = some r) :
    r.1.v = as.v := by
  refine faultPage_keeps h fun seg n pg => ?_
  cases seg <;> rfl

def unlock (s : State) (v : Nat) : State := { s with rwLock := update s.rwLock v false }

theorem vfsClose_vfsOpen (s : State) (v : Nat) :
    vfsClose (vfsOpen s v true) v = some (unlock s v) := by
  simp [vfsClose, vfsOpen, unlock]

theorem vfsClose_setSpace (s : State) (v : Nat) (o : Option Addrspace) :
    vfsClose (setSpace s i o) v = (vfsClose s v).map (setSpace · i o) := by
  unfold vfsClose setSpace
  split <;> rfl

theorem vfsClose_vmspace {v : Nat} (h : vfsClose s v = some s') : s'.vmspace = s.vmspace := by
  unfold vfsClose at h
  split_ifs at h
  cases h
  rfl

theorem execv_eq (s : State) (i : Nat) {l : Load} (hlock : l.lock = true) :
    ∃ o, execv s i l = some (setSpace (unlock s l.v) i o) ∧ o.map Addrspace.v = execLeaves l := by
  have hset : ∀ o o' : Option Addrspace,
      setSpace (setSpace (unlock s l.v) i o) i o' = setSpace (unlock s l.v) i o' := by simp [setSpace]
  unfold execv execLeaves
  rw [hlock]
  split
  · case h_1 hl => exact ⟨none, by simp [vfsClose_setSpace, vfsClose_vfsOpen], by simp [hl]⟩
  · case h_2 junk hl =>
    split
    · case h_1 as e hr =>
      exact ⟨some as, by simp [vfsClose_setSpace, vfsClose_vfsOpen, hset], by simp [hl, hr]⟩
    · case h_2 as hr =>
      exact ⟨some (asDefineStack as l.stack), by simp [vfsClose_setSpace, vfsClose_vfsOpen, hset],
        by simp [hl, hr, asDefineStack]⟩

theorem runprogram_cases (s : State) {l : Load} (hlock : l.lock = true) (started : Bool) :
    runprogram s l started = some (unlock s l.v) ∨
    ∃ as, as.v = l.v ∧ (∃ junk ∈ l.space, (readElf (asCreate junk) l.v l.elf).2 = none) ∧
      runprogram s l started =
        some (if started then newProcess (vfsOpen s l.v true) as else vfsOpen s l.v true) := by
  unfold runprogram
  rw [hlock]
  split
  · exact .inl (vfsClose_vfsOpen ..)
  · case h_2 junk hl =>
    split
    · exact .inl (vfsClose_vfsOpen ..)
    · case h_2 as hr =>
      exact .inr ⟨asDefineStack as l.stack, show as.v = l.v from readElf_v hr, ⟨junk, hl, by rw [hr]⟩, rfl⟩

theorem holders_setSpace (hi : i < s.fresh) (o : Option Addrspace) (x : Nat) :
    holders (setSpace s i o) x + ((s.vmspace i).any fun as => as.v = x).toNat =
      holders s x + (o.any fun as => as.v = x).toNat := by
  have h := tally_change (n := s.fresh) (i := i)
    (p := fun j => (s.vmspace j).any fun as => as.v = x)
    (q := fun j => ((setSpace s i o).vmspace j).any fun as => as.v = x) hi fun j hj => by
      simp [setSpace, update_of_ne hj]
  simpa [holders, setSpace] using h

theorem holders_newProcess (s : State) (as : Addrspace) (x : Nat) :
    holders (newProcess s as) x = holders s x + (decide (as.v = x)).toNat := by
  have hsame : ∀ j < s.fresh, (((newProcess s as).vmspace j).any fun as => as.v = x) =
      (s.vmspace j).any fun as => as.v = x := by
    intro j hj
    simp [newProcess, setSpace, update_of_ne (ne_of_lt hj)]
  unfold holders
  rw [show (newProcess s as).fresh = s.fresh + 1 from rfl, tally_succ, tally_congr hsame]
  simp [newProcess, setSpace]

/-! ## One reference for each address space -/

structure Accounted (s : State) : Prop where
  opens : ∀ x, s.opens x = holders s x
  unused : ∀ i, s.fresh ≤ i → s.vmspace i = none

section

variable (h : Accounted s)
include h

theorem Accounted.lt (hi : s.vmspace i = some as) : i < s.fresh := by
  apply Nat.lt_of_not_le
  intro hle
  rw [h.unused i hle] at hi
  cases hi

theorem Accounted.keptOpen : KeptOpen s where
  owned x := by
    rw [h.opens]
    refine tally_mono fun i _ hp => ?_
    obtain ⟨as, has, hv⟩ := (any_eq_true ..).mp hp
    simp only [Bool.and_eq_true] at hv
    exact (any_eq_true ..).mpr ⟨as, has, hv.1⟩
  dropped x := (h.opens x).le
  read i as _ _ _ _ _ _ _ _ hi _ := by
    rw [h.opens]
    exact tally_pos (h.lt hi) (by simp [hi])

theorem Accounted.unused_setSpace (hlt : i < s.fresh) (o : Option Addrspace) :
    ∀ j, s.fresh ≤ j → (setSpace s i o).vmspace j = none := by
  intro j hj
  have hne : j ≠ i := by omega
  simp only [setSpace, update_of_ne hne]
  exact h.unused j hj

theorem Accounted.replace {as' : Addrspace} (hi : s.vmspace i = some as)
    (hv : as'.v = as.v) : Accounted (setSpace s i (some as')) := by
  refine ⟨fun x => ?_, h.unused_setSpace (h.lt hi) _⟩
  have hh := holders_setSpace (h.lt hi) (some as') x
  simp only [hi, any_some, hv] at hh
  have ho : (setSpace s i (some as')).opens x = holders s x := h.opens x
  omega

theorem Accounted.unlock (v : Nat) : Accounted (unlock s v) := ⟨h.opens, h.unused⟩

theorem Accounted.start : Accounted (newProcess (vfsOpen s as.v true) as) := by
  refine ⟨fun x => ?_, fun j hj => ?_⟩
  · have ho := h.opens x
    rw [holders_newProcess, show holders (vfsOpen s as.v true) x = holders s x from rfl]
    simp only [newProcess, setSpace, vfsOpen, update_apply]
    split_ifs with hx
    · subst hx
      simp [ho]
    · simp [ho, Ne.symm hx]
  · have hlt : s.fresh + 1 ≤ j := hj
    have hne : j ≠ s.fresh := by omega
    simp only [newProcess, setSpace, vfsOpen, update_of_ne hne]
    exact h.unused j (by omega)

theorem Accounted.exit (hi : s.vmspace i = some as)
    (hs : exit s i as = some s') : Accounted s' := by
  obtain ⟨t, ht, rfl⟩ := map_eq_some_iff.mp hs
  unfold vfsClose at ht
  split_ifs at ht with hz
  cases ht
  refine ⟨fun x => ?_, h.unused_setSpace (h.lt hi) none⟩
  have hh := holders_setSpace (h.lt hi) none x
  have ho := h.opens x
  simp only [hi, any_some, any_none, Bool.toNat_false, add_zero] at hh
  change update s.opens as.v (s.opens as.v - 1) x = holders (setSpace s i none) x
  simp only [update_apply]
  split_ifs with hx
  · subst hx
    simp at hh
    omega
  · simp [Ne.symm hx] at hh
    omega

theorem Accounted.step {l : Label} (hc : NoHandover s l)
    (hs : Executable.step s l = some s') : Accounted s' := by
  cases l with
  | runprogram load started =>
    cases load with
    | none =>
      cases hs
      exact h
    | some l =>
      change runprogram s l started = some s' at hs
      rcases runprogram_cases s hc.1 started with heq | ⟨as, hv, ⟨junk, hj, hok⟩, heq⟩
      · rw [heq] at hs
        cases hs
        exact h.unlock _
      · have hstarted : started = true := hc.2.resolve_right fun hn => hn junk hj hok
        rw [heq, hstarted, if_pos rfl, ← hv] at hs
        cases hs
        exact h.start
  | execv i load =>
    obtain ⟨as, hi, hs⟩ := bind_eq_some_iff.mp hs
    cases load with
    | none =>
      cases hs
      exact h
    | some l =>
      obtain ⟨o, heq, ho⟩ := execv_eq s i hc.1
      change execv s i l = some s' at hs
      rw [heq] at hs
      cases hs
      rw [hc.2 as hi] at ho
      obtain ⟨as', rfl, hv⟩ := map_eq_some_iff.mp ho
      exact (h.unlock _).replace hi hv
  | fork i copy =>
    obtain ⟨as, hi, rfl⟩ := map_eq_some_iff.mp hs
    cases copy with
    | none => exact h
    | some c =>
      have hnone : s.vmspace i = none := hc
      rw [hnone] at hi
      cases hi
  | exit i =>
    obtain ⟨as, hi, hs⟩ := bind_eq_some_iff.mp hs
    exact h.exit hi hs
  | fault i ty va g frame =>
    obtain ⟨as, hi, hs⟩ := bind_eq_some_iff.mp hs
    obtain ⟨r, hr, rfl⟩ := map_eq_some_iff.mp hs
    exact h.replace hi (faultPage_v hr)

theorem Accounted.returns {l : Label} (hc : NoHandover s l) : Returns s l := by
  cases l with
  | runprogram load started =>
    cases load with
    | none => trivial
    | some l =>
      rcases runprogram_cases s hc.1 started with heq | ⟨_, _, _, heq⟩
      · exact isSome_iff_exists.mpr ⟨_, heq⟩
      · exact isSome_iff_exists.mpr ⟨_, heq⟩
  | execv i load =>
    cases load with
    | none => trivial
    | some l =>
      obtain ⟨o, heq, -⟩ := execv_eq s i hc.1
      exact fun _ _ => isSome_iff_exists.mpr ⟨_, heq⟩
  | exit i =>
    intro as hi
    have hpos : s.opens as.v ≠ 0 := by
      rw [h.opens]
      exact (tally_pos (h.lt hi) (by simp [show s.vmspace i = some as from hi])).ne'
    have hclose : s.rwLock as.v = true ∧ s.opens as.v ≠ 0 := ⟨hc as hi, hpos⟩
    simp [Executable.exit, vfsClose, hclose]
  | fork | fault => trivial

end

theorem accounted_start : Accounted start := ⟨fun _ => rfl, fun _ _ => rfl⟩

theorem executable_kept_open {ls : List Label} (hc : Meets step NoHandover start ls) :
    Always step KeptOpen start ls ∧ Meets step Returns start ls :=
  ⟨always_of_meets (I := Accounted) (fun _ _ _ h hc hs => h.step hc hs) (fun _ h => h.keptOpen)
      accounted_start hc,
    hc.imp (I := Accounted) (fun _ _ h hc => ⟨h.returns hc, fun _ hs => h.step hc hs⟩)
      accounted_start⟩

def onePage (v : Nat) : Load where
  v := v
  lock := true
  space := some ⟨⟨0, 0, 0, 0, 0, []⟩, ⟨0, 0, 0, 0, 0, []⟩, [], 0⟩
  elf := let ph : Phdr := ⟨.load, 0, 0x400000, 100, 4096, 5⟩
    ⟨[ph], [ph], fun _ => 0⟩
  stack := fun _ => 0

theorem executable_kept_open_one_program :
    let ls : List Label := [.runprogram (some (onePage 7)) true,
      .fault 0 .read 0x400000 ⟨0, false, false, false, false⟩ 0x2000, .exit 0]
    (∃ s ∈ run step start ls, s.opens 7 = 0) ∧ Always step KeptOpen start ls ∧
      Meets step Returns start ls := by
  refine ⟨⟨_, rfl, rfl⟩, executable_kept_open ⟨⟨rfl, .inl rfl⟩, ?_⟩⟩
  rintro _ ⟨⟩
  refine ⟨trivial, ?_⟩
  rintro _ ⟨⟩
  refine ⟨?_, fun _ _ => trivial⟩
  rintro _ ⟨⟩
  rfl

theorem execv_closes_executable :
    ∃ s, run step start [.runprogram (some (onePage 7)) true, .execv 0 (some (onePage 8))] = some s ∧
      (∃ as, s.vmspace 0 = some as ∧ as.v = 8 ∧ FileBacked as = true) ∧
      s.opens 8 = 0 ∧ s.opens 7 = 1 ∧ ¬ KeptOpen s := by
  refine ⟨_, rfl, ⟨_, rfl, rfl, rfl⟩, rfl, rfl, fun h => ?_⟩
  have howned := h.owned 8
  revert howned
  decide

end Os161.Vm.Executable
