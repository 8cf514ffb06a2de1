import Mathlib.Data.List.Perm.Basic
import Mathlib.Data.List.Pairwise
import Os161.Kern.Errno
import Os161.Lib.Run

/-!
# Names of devices and volumes

The table of devices in `kern/fs/vfs/vfslist.c`. All operations run under `knowndevs_lock`. A name
is a list of characters, and a null pointer is `none`.
-/

open Os161.Lib List Option

namespace Os161.Vfs.Names

open Kern (Errno)

abbrev Name := List Char

/-- A file system, with the answer of `FSOP_GETVOLNAME`. -/
structure Fs where
  id : Nat
  volname : Option Name
  deriving DecidableEq

structure Knowndev where
  name : Name
  rawname : Option Name
  device : Option Nat
  vnode : Nat
  fs : Option Fs
  deriving DecidableEq

inductive Answer where
  | root (fs : Fs)
  | vnode (v : Nat)
  | err (e : Errno)
  | panic
  deriving DecidableEq

def Knowndev.itself (kd : Knowndev) : Answer := if kd.device.isSome then .vnode kd.vnode else .panic

def getrootOf (kd : Knowndev) (devname : Name) : Option Answer := match kd.fs with
  | some fs =>
    if kd.name = devname ∨ fs.volname = some devname then some (.root fs)
    else if kd.rawname = some devname then some kd.itself
    else none
  | none =>
    if kd.rawname.isSome ∧ kd.name = devname then some (.err Errno.ENXIO)
    else if kd.name = devname then some kd.itself
    else if kd.rawname = some devname then some kd.itself
    else none

def vfsGetroot : List Knowndev → Name → Answer
  | [], _ => .err .ENODEV
  | kd :: kds, devname => (getrootOf kd devname).getD (vfsGetroot kds devname)

def mkrawname (name : Name) : Name := name ++ ['r', 'a', 'w']

def samestring : Option Name → Option Name → Bool
  | some a, some b => a = b
  | _, _ => false

def samestring3 (a b c d : Option Name) : Bool := samestring a b || samestring a c || samestring a d

def badnames (table : List Knowndev) (n1 n2 n3 : Option Name) : Bool := table.any fun kd =>
    (match kd.fs with
      | some fs => samestring3 fs.volname n1 n2 n3
      | none => false) ||
    (samestring3 kd.rawname n1 n2 n3 || samestring3 (some kd.name) n1 n2 n3)

structure Add where
  memory : Bool
  vnode : Nat
  room : Bool

def vfsDoadd (table : List Knowndev) (dname : Name) (mountable : Bool) (dev : Option Nat)
    (fs : Option Fs) (c : Add) : List Knowndev × Option Errno :=
  let rawname := if mountable then some (mkrawname dname) else none
  if !c.memory then (table, some .ENOMEM)
  else if badnames table (some dname) rawname (fs.bind Fs.volname) then (table, some .EEXIST)
  else if c.room then (table ++ [⟨dname, rawname, dev, c.vnode, fs⟩], none)
  else (table, some .ENOMEM)

def vfsAdddev (table : List Knowndev) (devname : Name) (dev : Nat) (mountable : Bool) (c : Add) :
    List Knowndev × Option Errno :=
  vfsDoadd table devname mountable (some dev) none c

def vfsAddfs (table : List Knowndev) (devname : Name) (fs : Fs) (c : Add) :
    List Knowndev × Option Errno :=
  vfsDoadd table devname false none (some fs) c

def findmount (table : List Knowndev) (devname : Name) : Option Nat :=
  table.findIdx? fun kd => kd.rawname.isSome && kd.name = devname

def setFs (fs : Option Fs) (kd : Knowndev) : Knowndev := { kd with fs := fs }

/-- `mount` is what the mount function answers. -/
def vfsMount (table : List Knowndev) (devname : Name) (mount : Except Errno Fs) :
    List Knowndev × Option Errno :=
  match findmount table devname with
  | none => (table, some .ENODEV)
  | some i =>
    if (table[i]?.bind Knowndev.fs).isSome then (table, some .EBUSY)
    else
      match mount with
      | .error e => (table, some e)
      | .ok fs => (table.modify i (setFs (some fs)), none)

/-- `sync` and `unmount` are the answers of `FSOP_SYNC` and `FSOP_UNMOUNT`. -/
def vfsUnmount (table : List Knowndev) (devname : Name) (sync unmount : Option Errno) :
    List Knowndev × Option Errno :=
  match findmount table devname with
  | none => (table, some .ENODEV)
  | some i =>
    if (table[i]?.bind Knowndev.fs).isNone then (table, some .EINVAL)
    else if sync.isSome then (table, sync)
    else if unmount.isSome then (table, unmount)
    else (table.modify i (setFs none), none)

inductive Label where
  | adddev (devname : Name) (dev : Nat) (mountable : Bool) (c : Add)
  | addfs (devname : Name) (fs : Fs) (c : Add)
  | mount (devname : Name) (mount : Except Errno Fs)
  | unmount (devname : Name) (sync unmount : Option Errno)

def step (table : List Knowndev) : Label → Option (List Knowndev)
  | .adddev devname dev mountable c => some (vfsAdddev table devname dev mountable c).1
  | .addfs devname fs c => some (vfsAddfs table devname fs c).1
  | .mount devname mount => some (vfsMount table devname mount).1
  | .unmount devname sync unmount => some (vfsUnmount table devname sync unmount).1

/-- The names under which an entry can be referenced. -/
def Knowndev.names (kd : Knowndev) : List Name :=
  kd.name :: (kd.rawname.toList ++ (kd.fs.bind Fs.volname).toList)

def Apart (a b : Knowndev) : Prop := ∀ n ∈ a.names, n ∉ b.names

structure Unambiguous (table : List Knowndev) : Prop where
  apart : table.Pairwise Apart
  order : ∀ table', table'.Perm table → ∀ devname,
    vfsGetroot table' devname = vfsGetroot table devname

def NewVolume (table : List Knowndev) : Label → Prop
  | .mount devname (.ok fs) =>
    ∀ i ∈ findmount table devname, table[i]?.bind Knowndev.fs = none →
      ∀ v ∈ fs.volname, ∀ j < table.length, j ≠ i → ∀ kd ∈ table[j]?, v ∉ kd.names
  | _ => True

instance (table : List Knowndev) : ∀ a, Decidable (NewVolume table a)
  | .mount devname (.ok _) => inferInstanceAs (Decidable (∀ i ∈ findmount table devname, _))
  | .mount _ (.error _) | .adddev .. | .addfs .. | .unmount .. => inferInstanceAs (Decidable True)

theorem Apart.symm {a b : Knowndev} (h : Apart a b) : Apart b a := fun n hb ha => h n ha hb

theorem mem_names {kd : Knowndev} {n : Name} :
    n ∈ kd.names ↔ n = kd.name ∨ kd.rawname = some n ∨ kd.fs.bind Fs.volname = some n := by
  simp [Knowndev.names]

theorem getrootOf_names {kd : Knowndev} {n : Name} (h : n ∉ kd.names) : getrootOf kd n = none := by
  rw [mem_names, not_or, not_or] at h
  obtain ⟨hname, hraw, hvol⟩ := h
  cases hfs : kd.fs with
  | none => simp [getrootOf, hfs, Ne.symm hname, hraw]
  | some fs =>
    rw [hfs, bind_some] at hvol
    simp [getrootOf, hfs, Ne.symm hname, hraw, hvol]

theorem vfsGetroot_swap {a b : Knowndev} (h : Apart a b) (table : List Knowndev) (n : Name) :
    vfsGetroot (a :: b :: table) n = vfsGetroot (b :: a :: table) n := by
  by_cases ha : n ∈ a.names
  · simp [vfsGetroot, getrootOf_names (h n ha)]
  · simp [vfsGetroot, getrootOf_names ha]

theorem vfsGetroot_perm {table table' : List Knowndev} (hperm : table'.Perm table)
    (h : table.Pairwise Apart) (n : Name) : vfsGetroot table' n = vfsGetroot table n := by
  induction hperm with
  | nil => rfl
  | cons kd hperm ih => rw [vfsGetroot, vfsGetroot, ih (pairwise_cons.mp h).2]
  | swap a b table =>
    refine vfsGetroot_swap ?_ table n
    exact Apart.symm ((pairwise_cons.mp h).1 b mem_cons_self)
  | trans hperm₁ hperm₂ ih₁ ih₂ =>
    rw [ih₁ ((hperm₂.pairwise_iff Apart.symm).mpr h), ih₂ h]

theorem unambiguous_of_apart {table : List Knowndev} (h : table.Pairwise Apart) :
    Unambiguous table :=
  ⟨h, fun _ hperm n => vfsGetroot_perm hperm h n⟩

/-! ## Which operations keep the names apart -/

variable {table table' : List Knowndev}

theorem pairwise_apart_iff : table.Pairwise Apart ↔
    ∀ (i j : Nat) (a b : Knowndev), table[i]? = some a → table[j]? = some b → i ≠ j →
      Apart a b := by
  rw [pairwise_iff_getElem]
  constructor
  · intro h i j a b ha hb hne
    obtain ⟨hi, rfl⟩ := List.getElem?_eq_some_iff.mp ha
    obtain ⟨hj, rfl⟩ := List.getElem?_eq_some_iff.mp hb
    rcases Nat.lt_or_gt_of_ne hne with hlt | hlt
    · exact h i j hi hj hlt
    · exact (h j i hj hi hlt).symm
  · intro h i j hi hj hlt
    exact h i j _ _ (List.getElem?_eq_getElem hi) (List.getElem?_eq_getElem hj) (Nat.ne_of_lt hlt)

theorem samestring_iff {a b : Option Name} : samestring a b = true ↔ ∃ n, a = some n ∧ b = some n := by
  cases a <;> cases b <;> simp [samestring, eq_comm]

theorem badnames_eq_false (kd : Knowndev)
    (h : badnames table (some kd.name) kd.rawname (kd.fs.bind Fs.volname) = false) :
    ∀ a ∈ table, Apart a kd := by
  intro a ha n hn hkd
  have hbad := any_eq_false.mp h a ha
  refine hbad ?_
  have hsame : ∀ o : Option Name, o = some n →
      samestring3 o (some kd.name) kd.rawname (kd.fs.bind Fs.volname) = true := by
    rintro o rfl
    rw [mem_names] at hkd
    simp only [samestring3, Bool.or_eq_true, samestring_iff]
    rcases hkd with rfl | h | h
    · exact Or.inl (Or.inl ⟨_, rfl, rfl⟩)
    · exact Or.inl (Or.inr ⟨_, rfl, h⟩)
    · exact Or.inr ⟨_, rfl, h⟩
  rcases mem_names.mp hn with h | h | h
  · simp [hsame (some a.name) (by rw [h])]
  · simp [hsame a.rawname h]
  · cases hfs : a.fs with
    | none => simp [hfs] at h
    | some fs =>
      rw [hfs, bind_some] at h
      simp [hsame fs.volname h]

theorem vfsDoadd_apart {dname : Name} {mountable : Bool} {dev : Option Nat} {fs : Option Fs}
    {c : Add} (h : table.Pairwise Apart) :
    (vfsDoadd table dname mountable dev fs c).1.Pairwise Apart := by
  unfold vfsDoadd
  dsimp only
  generalize (if mountable then some (mkrawname dname) else none) = rawname
  split
  · exact h
  split
  · exact h
  · rename_i hbad
    rw [Bool.not_eq_true] at hbad
    split
    · refine pairwise_append.mpr ⟨h, pairwise_singleton .., fun a ha b hb => ?_⟩
      obtain rfl := mem_singleton.mp hb
      exact badnames_eq_false ⟨dname, rawname, dev, c.vnode, fs⟩ hbad a ha
    · exact h

theorem setFs_apart {i : Nat} {fs : Option Fs} (h : table.Pairwise Apart)
    (hnew : ∀ v, fs.bind Fs.volname = some v → ∀ j kd, table[j]? = some kd → j ≠ i → v ∉ kd.names) :
    (table.modify i (setFs fs)).Pairwise Apart := by
  rw [pairwise_apart_iff] at h ⊢
  -- Only the volume name of entry `i` is new.
  have hone : ∀ (j : Nat) (a b : Knowndev), (table.modify i (setFs fs))[i]? = some a →
      table[j]? = some b → i ≠ j → Apart a b := by
    intro j a b ha hb hne n hn
    rw [List.getElem?_modify_eq] at ha
    obtain ⟨kd, hkd, rfl⟩ := map_eq_some_iff.mp ha
    rcases mem_names.mp hn with hn | hn | hn
    · exact h i j kd b hkd hb hne n (mem_names.mpr (Or.inl hn))
    · exact h i j kd b hkd hb hne n (mem_names.mpr (Or.inr (Or.inl hn)))
    · exact hnew n hn j b hb hne.symm
  intro j k a b ha hb hne
  by_cases hj : i = j
  · subst hj
    rw [List.getElem?_modify_ne _ _ hne] at hb
    exact hone k a b ha hb hne
  rw [List.getElem?_modify_ne _ _ hj] at ha
  by_cases hk : i = k
  · subst hk
    exact (hone j b a hb ha hj).symm
  · rw [List.getElem?_modify_ne _ _ hk] at hb
    exact h j k a b ha hb hne

theorem step_apart (a : Label) (h : table.Pairwise Apart) (ha : NewVolume table a)
    (hstep : step table a = some table') : table'.Pairwise Apart := by
  cases a with
  | adddev devname dev mountable c =>
    cases hstep
    exact vfsDoadd_apart h
  | addfs devname fs c =>
    cases hstep
    exact vfsDoadd_apart h
  | mount devname mount =>
    cases hstep
    unfold vfsMount
    split
    · exact h
    rename_i i hi
    split
    · exact h
    rename_i hfree
    cases mount with
    | error e => exact h
    | ok fs =>
      refine setFs_apart h fun v hv j kd hkd hne => ?_
      exact ha i hi (by simpa using hfree) v hv j (List.getElem?_eq_some_iff.mp hkd).1 hne kd hkd
  | unmount devname sync unmount =>
    cases hstep
    unfold vfsUnmount
    split
    · exact h
    split
    · exact h
    split
    · exact h
    split
    · exact h
    · exact setFs_apart h fun v hv => by cases hv

theorem not_unambiguous (a : Label) (ha : ¬ NewVolume table a) (hstep : step table a = some table') :
    ¬ Unambiguous table' := by
  intro h
  cases a with
  | adddev devname dev mountable c => exact ha trivial
  | addfs devname fs c => exact ha trivial
  | unmount devname sync unmount => exact ha trivial
  | mount devname mount =>
    cases mount with
    | error e => exact ha trivial
    | ok fs =>
      refine ha fun i hi hfree v hv j _ hne kd hkd hmem => ?_
      rw [mem_def] at hi
      simp only [step, vfsMount, hi, hfree, isSome_none, Bool.false_eq_true, if_false,
        some.injEq] at hstep
      subst hstep
      obtain ⟨hlt, -⟩ := List.findIdx?_eq_some_iff_getElem.mp hi
      refine pairwise_apart_iff.mp h.apart i j (setFs (some fs) table[i]) kd ?_ ?_ hne.symm v ?_ hmem
      · rw [List.getElem?_modify_eq, List.getElem?_eq_getElem hlt]
        rfl
      · rw [List.getElem?_modify_ne _ _ hne.symm]
        exact hkd
      · exact mem_names.mpr (Or.inr (Or.inr hv))

/-- No mounted file system has a volume name of another entry. -/
theorem names_unambiguous_iff {as : List Label} (hrun : run step [] as = some table') :
    Always step Unambiguous [] as ↔ Meets step NewVolume [] as := by
  constructor
  · exact meets_of_always (I := fun table => table.Pairwise Apart)
      (fun _ a _ h ha hs => step_apart a h ha hs) (fun _ a _ _ ha hs => not_unambiguous a ha hs)
      List.Pairwise.nil hrun
  · exact always_of_meets (I := fun table => table.Pairwise Apart)
      (fun _ a _ h ha hs => step_apart a h ha hs) (fun _ h => unambiguous_of_apart h)
      List.Pairwise.nil

def lhd (n : Char) : Name := ['l', 'h', 'd', n]

def mounted (volname : Option Name) : List Label :=
  [.adddev (lhd '0') 0 true ⟨true, 0, true⟩, .adddev (lhd '1') 1 true ⟨true, 1, true⟩,
    .mount (lhd '0') (.ok ⟨0, volname⟩)]

theorem volume_named_lhd1 : ∃ table, run step [] (mounted (some (lhd '1'))) = some table ∧
      vfsGetroot table (lhd '1') = .root ⟨0, some (lhd '1')⟩ ∧
      vfsGetroot table.reverse (lhd '1') = .err Errno.ENXIO ∧
      ¬ Always step Unambiguous [] (mounted (some (lhd '1'))) := by
  have hrun : ∃ table ∈ run step [] (mounted (some (lhd '1'))),
      vfsGetroot table (lhd '1') = .root ⟨0, some (lhd '1')⟩ ∧
      vfsGetroot table.reverse (lhd '1') = .err Errno.ENXIO := by decide
  obtain ⟨table, htable, hroot, hrev⟩ := hrun
  refine ⟨table, htable, hroot, hrev, fun h => ?_⟩
  have horder := (h.last htable).order table.reverse (reverse_perm table) (lhd '1')
  rw [hroot, hrev] at horder
  cases horder

theorem names_unambiguous_iff_two_disks :
    (run step [] (mounted (some ['v']))).isSome ∧ Always step Unambiguous [] (mounted (some ['v'])) := by
  have hrun : (run step [] (mounted (some ['v']))).isSome := by decide
  obtain ⟨table, htable⟩ := isSome_iff_exists.mp hrun
  exact ⟨hrun, (names_unambiguous_iff htable).mpr (by decide)⟩

section Devices

variable {table table' : List Knowndev} {kd : Knowndev} {devname : Name}

def HasDevice (kd : Knowndev) : Prop := kd.device.isSome ∨ kd.rawname = none ∧ kd.fs.isSome

theorem getrootOf_ne_panic (h : HasDevice kd) (devname : Name) :
    getrootOf kd devname ≠ some .panic := by
  unfold getrootOf Knowndev.itself
  rcases h with hdev | ⟨hraw, hfs⟩
  · repeat' split
    all_goals nofun
  · obtain ⟨fs, hfs⟩ := isSome_iff_exists.mp hfs
    simp only [hfs, hraw, reduceCtorEq, if_false]
    split <;> nofun

section

variable (h : ∀ kd ∈ table, HasDevice kd)
include h

theorem vfsGetroot_hasDevice : vfsGetroot table devname ≠ .panic := by
  induction table with
  | nil => nofun
  | cons kd kds ih =>
    unfold vfsGetroot
    have hkd := getrootOf_ne_panic (h kd mem_cons_self) devname
    cases hof : getrootOf kd devname with
    | none => exact ih fun kd hkd => h kd (mem_cons_of_mem _ hkd)
    | some answer =>
      rw [hof] at hkd
      exact fun heq => hkd (congrArg some heq)

theorem hasDevice_doadd {mountable : Bool} {dev : Option Nat} {fs : Option Fs} {c : Add}
    (hnew : dev.isSome ∨ mountable = false ∧ fs.isSome) :
    ∀ kd ∈ (vfsDoadd table devname mountable dev fs c).1, HasDevice kd := by
  have hraw : mountable = false → (if mountable then some (mkrawname devname) else none) = none := by
    rintro rfl
    rfl
  unfold vfsDoadd
  dsimp only
  generalize (if mountable then some (mkrawname devname) else none) = rawname at hraw ⊢
  split_ifs
  · exact h
  · exact h
  · intro kd hkd
    rcases mem_append.mp hkd with hkd | hkd
    · exact h kd hkd
    · obtain rfl := mem_singleton.mp hkd
      exact hnew.imp_right fun ⟨hm, hfs⟩ => ⟨hraw hm, hfs⟩
  · exact h

theorem hasDevice_setFs {i : Nat} {fs : Option Fs}
    (hi : findmount table devname = some i) :
    ∀ kd ∈ table.modify i (setFs fs), HasDevice kd := by
  intro kd hkd
  obtain ⟨j, hj⟩ := mem_iff_getElem?.mp hkd
  rw [List.getElem?_modify] at hj
  obtain ⟨kd', hget, rfl⟩ := map_eq_some_iff.mp hj
  have hkd' := h kd' (mem_of_getElem? hget)
  split
  · rename_i hij
    subst hij
    obtain ⟨hlt, hfound, -⟩ := List.findIdx?_eq_some_iff_getElem.mp hi
    rw [List.getElem?_eq_getElem hlt] at hget
    cases hget
    rcases hkd' with hdev | ⟨hraw, -⟩
    · exact .inl hdev
    · simp [hraw] at hfound
  · exact hkd'

theorem hasDevice_step {a : Label}
    (hstep : step table a = some table') : ∀ kd ∈ table', HasDevice kd := by
  cases a with
  | adddev devname dev mountable c =>
    cases hstep
    exact hasDevice_doadd h (.inl rfl)
  | addfs devname fs c =>
    cases hstep
    exact hasDevice_doadd h (.inr ⟨rfl, rfl⟩)
  | mount devname mount =>
    cases hstep
    unfold vfsMount
    split
    · exact h
    rename_i i hi
    split
    · exact h
    cases mount with
    | error e => exact h
    | ok fs => exact hasDevice_setFs h hi
  | unmount devname sync unmount =>
    cases hstep
    unfold vfsUnmount
    split
    · exact h
    rename_i i hi
    split_ifs
    · exact h
    · exact h
    · exact h
    · exact hasDevice_setFs h hi

end

theorem vfsGetroot_ne_panic {as : List Label} (hrun : run step [] as = some table) (devname : Name) :
    vfsGetroot table devname ≠ .panic := by
  apply vfsGetroot_hasDevice
  exact run_inv (I := fun table => ∀ kd ∈ table, HasDevice kd)
    (fun _ _ _ hi hs => hasDevice_step hi hs) (fun _ hkd => absurd hkd not_mem_nil) hrun

end Devices

end Os161.Vfs.Names
