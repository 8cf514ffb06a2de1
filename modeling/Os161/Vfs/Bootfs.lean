import Mathlib.Data.List.TakeWhile
import Os161.Vfs.Paths

/-!
# The boot file system

`vfs_setbootfs` of `kern/fs/vfs/vfslookup.c`. What `strchr` finds begins with the colon, so its
length is never 0, and a colon at the end is refused like any other.
-/

open Os161.Lib Os161.Kern

namespace Os161.Vfs.Bootfs

open Paths

abbrev NAME_MAX : Nat := 255

def changeBootfs (k : Kernel) (newguy : Option Nat) : Act Kernel := do
  match k.bootfsVnode with
  | none => pure ()
  | some oldguy => decref k oldguy
  pure { k with bootfsVnode := newguy }

def vfsSetbootfs (k : Kernel) (fsname : Path) : Act (Except Errno Unit × Kernel) := do
  let tmp := fsname.take (NAME_MAX - 1)
  let s := tmp.dropWhile (· ≠ ':')
  if ':' ∈ tmp ∧ 0 < s.length then pure (.error .EINVAL, k)
  else
    match ← vfsChdir k (if ':' ∈ tmp then tmp else tmp ++ [':']) with
    | .error e => pure (.error e, k)
    | .ok _ =>
      match ← vfsGetcurdir with
      | .error e => pure (.error e, k)
      | .ok newguy => do
        let k ← changeBootfs k (some newguy)
        pure (.ok (), k)

def outcome (k : Kernel) (st : State) (name : Path) :
    Option (Except Errno Unit × Option Nat × Option Nat) :=
  (vfsSetbootfs k name st).map fun (r, st) => (r.1, r.2.bootfsVnode, st.cwd)

def Refused (k : Kernel) (st : State) (name : Path) : Prop :=
  outcome k st name = some (.error .EINVAL, k.bootfsVnode, st.cwd)

def Inner (name : Path) : Prop := ∃ dev path, name = dev ++ ':' :: path ∧ path ≠ []

structure ColonOptional (k : Kernel) (st : State) (name : Path) : Prop where
  same : ':' ∉ name → name.length ≤ 253 → outcome k st (name ++ [':']) = outcome k st name
  inner : Inner name → Refused k st name

/-- `tmp` has a colon, or the name is longer than `tmp` and nothing is asked of it. -/
def Marked (name : Path) : Prop := ':' ∈ name.take 254 ∨ 253 < name.length ∧ ¬ Inner name

structure Kernel.NoEinval (k : Kernel) : Prop where
  lookup : ∀ n vn path, k.lookup n vn path ≠ .error .EINVAL
  gettype : ∀ n vn, k.gettype n vn ≠ .error .EINVAL

variable {k : Kernel} {st : State} {name path : Path} {α : Type}

/-! ## Who answers `EINVAL` -/

/-- The call may stop, but has another answer than `EINVAL`. -/
def NotEinval (f : Act (Except Errno α)) : Prop :=
  Triple False (fun _ => True) f fun r _ => r ≠ .error .EINVAL

namespace NotEinval

variable {β γ : Type}

theorem ret {r : Except Errno α} (h : r ≠ .error .EINVAL) : NotEinval (pure r : Act _) :=
  Triple.ret fun _ _ => h

theorem error {e : Errno} (h : (.error e : Except Errno β) ≠ .error .EINVAL) :
    NotEinval (pure (.error e) : Act (Except Errno α)) :=
  ret fun heq => h (by cases heq; rfl)

theorem after {f : Act β} {g : β → Act (Except Errno α)} (h : ∀ b, NotEinval (g b)) :
    NotEinval (f >>= g) :=
  Triple.any.bind h

theorem bind {f : Act (Except Errno β)} {g : Except Errno β → Act (Except Errno α)}
    (hf : NotEinval f) (hg : ∀ r, r ≠ .error .EINVAL → NotEinval (g r)) : NotEinval (f >>= g) :=
  Triple.bind hf fun r s h => hg r h s trivial

theorem vop {vn : Nat} {f : Nat → Except Errno α} (h : ∀ n, f n ≠ .error .EINVAL) :
    NotEinval (vop vn f) :=
  after fun _ => Triple.of_some fun s _ => ⟨_, _, rfl, h s.calls⟩

theorem vfsGetcurdir : NotEinval vfsGetcurdir := by
  refine Triple.get fun s _ => ?_
  cases s.cwd with
  | none => exact .ret nofun
  | some vn => exact .of_some fun _ _ => ⟨_, _, rfl, nofun⟩

end NotEinval

theorem namesGetroot_ne (kds : List Names.Knowndev) (devname : Names.Name) :
    Names.vfsGetroot kds devname ≠ .err .EINVAL := by
  have hitself : ∀ kd : Names.Knowndev, kd.itself ≠ .err .EINVAL := fun kd => by
    unfold Names.Knowndev.itself
    split <;> nofun
  induction kds with
  | nil => nofun
  | cons kd kds ih =>
    unfold Names.vfsGetroot Names.getrootOf
    cases kd.fs with
    | none => dsimp only; split_ifs <;> simp [ih, hitself]
    | some fs => dsimp only; split_ifs <;> simp [ih, hitself]

theorem getstart_notEinval (start : Start) : NotEinval (getstart k start) := by
  cases start with
  | curdir => exact .vfsGetcurdir
  | device devname =>
    change NotEinval (vfsGetroot k devname)
    unfold vfsGetroot
    cases hroot : Names.vfsGetroot k.knowndevs devname with
    | root fs => exact .after fun _ => .ret nofun
    | vnode vn => exact .after fun _ => .ret nofun
    | err e =>
      refine .ret fun heq => namesGetroot_ne _ _ (hroot.trans ?_)
      cases e <;> cases heq
      rfl
    | panic => exact fun _ _ => .inl ⟨rfl, id⟩
  | bootfs =>
    unfold getstart
    cases k.bootfsVnode with
    | none => exact .ret nofun
    | some vn => exact .after fun _ => .ret nofun
  | curfs =>
    refine .bind .vfsGetcurdir fun r hr => ?_
    cases r with
    | error e => exact .error hr
    | ok vn =>
      dsimp only
      cases k.vnFs vn with
      | none => exact fun _ _ => .inl ⟨rfl, id⟩
      | some fs => exact .after fun _ => .after fun _ => .ret nofun

theorem vfsLookup_notEinval (hk : Kernel.NoEinval k) : NotEinval (vfsLookup k path) := by
  refine .bind (.bind (getstart_notEinval _) fun r hr => ?_) fun r hr => ?_
  · cases r with
    | error e => exact .error hr
    | ok startvn => exact .ret nofun
  · cases r with
    | error e => exact .error hr
    | ok start =>
      dsimp only
      split
      · exact .ret nofun
      · refine .bind (.bind (.vop fun n => hk.lookup n _ _) fun r hr => ?_) fun r hr =>
          .after fun _ => .ret hr
        cases r with
        | error e => exact .error hr
        | ok vn => exact .after fun _ => .ret nofun

theorem vfsChdir_notEinval (hk : Kernel.NoEinval k) : NotEinval (vfsChdir k path) := by
  refine .bind (vfsLookup_notEinval hk) fun r hr => ?_
  cases r with
  | error e => exact .error hr
  | ok vn =>
    refine .bind (.bind (.vop fun n => hk.gettype n vn) fun r hr => ?_) fun r hr =>
      .after fun _ => .ret hr
    cases r with
    | error e => exact .error hr
    | ok isdir =>
      dsimp only
      split
      · exact .after fun _ => .after fun _ => .ret nofun
      · exact .ret nofun

theorem not_refused (hk : Kernel.NoEinval k) (h : ':' ∉ name.take 254) : ¬ Refused k st name := by
  have hspec : Triple False (fun _ => True) (vfsSetbootfs k name) fun r _ => r.1 ≠ .error .EINVAL := by
    unfold vfsSetbootfs
    simp only [NAME_MAX, Nat.add_one_sub_one, h, false_and, if_false]
    refine Triple.bind (vfsChdir_notEinval hk) fun r => ?_
    cases r with
    | error e => exact .ret fun _ hr heq => hr (by cases heq; rfl)
    | ok u =>
      refine Triple.bind (Triple.pre NotEinval.vfsGetcurdir fun _ _ => trivial) fun r => ?_
      cases r with
      | error e => exact .ret fun _ hr heq => hr (by cases heq; rfl)
      | ok newguy => exact Triple.any.bind fun k' => .ret fun _ _ => nofun
  intro hout
  obtain ⟨⟨⟨r, k'⟩, st'⟩, hrun, heq⟩ := Option.map_eq_some_iff.mp hout
  cases hspec.spec trivial hrun (congrArg Prod.fst heq)

theorem refused_of_mem (h : ':' ∈ name.take 254) : Refused k st name := by
  have hpos : 0 < ((name.take 254).dropWhile (· ≠ ':')).length := by
    apply List.length_pos_of_ne_nil
    intro hnil
    rw [List.dropWhile_eq_nil_iff] at hnil
    simpa using hnil ':' h
  unfold Refused outcome vfsSetbootfs
  simp only [NAME_MAX, Nat.add_one_sub_one, h, hpos, and_self, if_true]
  rfl

theorem colonOptional_iff (k : Kernel) (st : State) (name : Path) (hk : Kernel.NoEinval k) :
    ColonOptional k st name ↔ Marked name := by
  have hcolon : name.length ≤ 253 → Refused k st (name ++ [':']) := by
    intro hlen
    apply refused_of_mem
    rw [List.take_of_length_le (by simp; omega)]
    simp
  constructor
  · intro h
    refine or_iff_not_imp_left.mpr fun hno => ⟨?_, fun hinner => ?_⟩
    · by_contra hlen
      have hout := h.same (fun hmem => hno ?_) (by omega)
      · exact not_refused hk hno (hout.symm.trans (hcolon (by omega)))
      · rwa [List.take_of_length_le (by omega)]
    · exact not_refused hk hno (h.inner hinner)
  · rintro (hmem | ⟨hlen, hinner⟩)
    · exact ⟨fun hno => absurd (List.mem_of_mem_take hmem) hno, fun _ => refused_of_mem hmem⟩
    · exact ⟨fun _ hle => absurd hlen (by omega), fun h => absurd h hinner⟩

def lhd0 : Path := ['l', 'h', 'd', '0']

def lhd0Kernel : Kernel where
  knowndevs := [⟨lhd0, some (Names.mkrawname lhd0), some 0, 5, some ⟨0, none⟩⟩]
  vnFs := fun _ => some ⟨0, none⟩
  bootfsVnode := none
  getroot := fun _ _ => 7
  lookup := fun _ _ _ => .error .ENOENT
  lookparent := fun _ _ _ => .error .ENOENT
  creat := fun _ _ _ _ => .error .ENOENT
  gettype := fun _ _ => .ok true
  answer := fun _ _ => none

def booting : State := ⟨fun _ => 0, fun _ => 0, none, 0, fun _ => 0⟩

theorem colonOptional_iff_inner : ColonOptional lhd0Kernel booting (lhd0 ++ [':', 'x']) ∧
    ¬ ColonOptional lhd0Kernel booting lhd0 := by
  have hk : Kernel.NoEinval lhd0Kernel := ⟨nofun, nofun⟩
  refine ⟨(colonOptional_iff _ _ _ hk).mpr (.inl (by decide)), fun h => ?_⟩
  rcases (colonOptional_iff _ _ _ hk).mp h with hmem | hlong
  · exact absurd hmem (by decide)
  · exact absurd hlong.1 (by decide)

/-- The name with the colon is refused. -/
theorem colon_refused : outcome lhd0Kernel booting lhd0 = some (.ok (), some 7, some 7) ∧
    outcome lhd0Kernel booting (lhd0 ++ [':']) = some (.error .EINVAL, none, none) := ⟨rfl, rfl⟩

end Os161.Vfs.Bootfs
