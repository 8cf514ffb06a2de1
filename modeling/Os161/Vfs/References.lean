import Os161.Vfs.Paths
import Mathlib.Algebra.Group.Basic
import Mathlib.Algebra.Group.Pi.Basic

/-! # The references of the VFS layer balance -/

open Os161.Lib Os161.Kern Function

namespace Os161.Vfs.Paths

open Names (Name Fs Knowndev)

def one (o : Option Nat) : Nat → Int := fun v => if o = some v then 1 else 0

def handed {α : Type} (vnode : α → Nat) : Except Errno α → Nat → Int
  | .ok a => one (some (vnode a))
  | .error _ => one none

def Kernel.Reclaims (k : Kernel) : Prop := ∀ n vn, k.answer n (.reclaim vn) = none

structure Rest where
  opens : Nat → Nat
  cwd : Option Nat
  stuck : Nat → Nat

structure At (k : Kernel) (refs : Nat → Int) (c : Rest) (s : State) : Prop where
  refs : ∀ v, (s.refcount v : Int) - s.stuck v = refs v
  opens : s.opencount = c.opens
  cwd : s.cwd = c.cwd
  stuck : k.Reclaims → s.stuck = c.stuck

structure Sound (k : Kernel) (cwd : Option Nat) : Prop where
  curdir : ∀ vn, cwd = some vn → ∃ fs, k.vnFs vn = some fs ∧ (fsName k fs).isSome
  devices : ∀ devname, Names.vfsGetroot k.knowndevs devname ≠ .panic

section counts

variable {refs : Nat → Int} {v : Nat}

theorem one_nonneg (o : Option Nat) (v : Nat) : 0 ≤ one o v := by
  unfold one
  split <;> decide

theorem add_one_nonneg (h : ∀ v, 0 ≤ refs v) (o : Option Nat) : ∀ v, 0 ≤ (refs + one o) v :=
  fun v => Int.add_nonneg (h v) (one_nonneg o v)

theorem handed_nonneg {α : Type} (h : ∀ v, 0 ≤ refs v) (vnode : α → Nat) (r : Except Errno α) :
    ∀ v, 0 ≤ (refs + handed vnode r) v := by
  cases r with
  | error e => exact add_one_nonneg h _
  | ok a => exact add_one_nonneg h _

@[simp] theorem add_one_none (refs : Nat → Int) : refs + one none = refs :=
  funext fun v => Int.add_zero (refs v)

@[simp] theorem one_self (v : Nat) : one (some v) v = 1 := if_pos rfl

theorem one_of_ne {u : Nat} (h : u ≠ v) : one (some v) u = 0 := if_neg fun he => h (Option.some.inj he).symm

theorem add_one_pos (h : ∀ v, 0 ≤ refs v) (v : Nat) : 0 < (refs + one (some v)) v := by
  have := h v
  simp only [Pi.add_apply, one_self]
  omega

end counts

section triples

variable {k : Kernel} {T : Prop} {refs : Nat → Int} {c : Rest} {α : Type} {vn : Nat} {s : State}

theorem At.refcount_pos (h : At k refs c s) (hpos : 0 < refs vn) :
    s.refcount vn ≠ 0 := by
  have := h.refs vn
  omega

theorem held_change {s' : State} {refs' : Nat → Int}
    (h : ∀ v, (s.refcount v : Int) - s.stuck v = refs v)
    (hcount : ∀ v, v ≠ vn → s'.refcount v = s.refcount v ∧ s'.stuck v = s.stuck v)
    (hrefs : ∀ v, v ≠ vn → refs' v = refs v)
    (hvn : (s'.refcount vn : Int) - s'.stuck vn = refs' vn) :
    ∀ v, (s'.refcount v : Int) - s'.stuck v = refs' v := by
  intro v
  by_cases hv : v = vn
  · subst hv
    exact hvn
  · rw [(hcount v hv).1, (hcount v hv).2, hrefs v hv]
    exact h v

theorem add_one_of_ne {v : Nat} (h : v ≠ vn) : (refs + one (some vn)) v = refs v := by
  simp [one_of_ne h]

theorem incref_spec : Triple T (At k refs c) (incref vn) fun _ =>
    At k (refs + one (some vn)) c := by
  refine .of_some fun s h => ⟨_, _, rfl, ?_, h.opens, h.cwd, h.stuck⟩
  apply held_change h.refs
  · intro v hv
    exact ⟨update_of_ne hv .., rfl⟩
  · intro v hv
    exact add_one_of_ne hv
  · have hvn := h.refs vn
    simp only [update_self, Pi.add_apply, one_self]
    omega

theorem decref_spec (hrefs : ∀ v, 0 ≤ refs v) :
    Triple T (At k (refs + one (some vn)) c) (decref k vn) fun _ => At k refs c := by
  refine .of_some fun s h => ?_
  have hvn := h.refs vn
  simp only [Pi.add_apply, one_self] at hvn
  have hpos := hrefs vn
  have hother : ∀ v, v ≠ vn → refs v = (refs + one (some vn)) v := fun v hv => (add_one_of_ne hv).symm
  unfold decref
  rw [if_neg (h.refcount_pos (add_one_pos hrefs vn))]
  split_ifs with hmore hreclaim
  · refine ⟨_, _, rfl, held_change h.refs ?_ hother ?_, h.opens, h.cwd, h.stuck⟩
    · exact fun v hv => ⟨update_of_ne hv .., rfl⟩
    · simp only [update_self]
      omega
  · refine ⟨_, _, rfl, held_change h.refs ?_ hother ?_, h.opens, h.cwd, h.stuck⟩
    · exact fun v hv => ⟨update_of_ne hv .., rfl⟩
    · simp only [update_self]
      omega
  · refine ⟨_, _, rfl, held_change h.refs ?_ hother ?_, h.opens, h.cwd, fun hk => ?_⟩
    · exact fun v hv => ⟨rfl, update_of_ne hv ..⟩
    · simp only [update_self]
      omega
    · simp [hk s.calls vn] at hreclaim

theorem ask_spec (f : Nat → α) : Triple T (At k refs c) (ask f) fun _ => At k refs c :=
  .of_some fun _ h => ⟨_, _, rfl, h.refs, h.opens, h.cwd, h.stuck⟩

theorem vop_spec (hpos : 0 < refs vn) (f : Nat → α) :
    Triple T (At k refs c) (vop vn f) fun _ => At k refs c := by
  apply Triple.bind (Q := fun _ => At k refs c)
  · exact .of_some fun s h => ⟨(), s, if_neg (h.refcount_pos hpos), h⟩
  · intro _
    exact ask_spec f

def Rest.opened (c : Rest) (vn : Nat) : Rest :=
  { c with opens := update c.opens vn (c.opens vn + 1) }

theorem incopen_spec : Triple T (At k refs c) (incopen vn) fun _ => At k refs (c.opened vn) :=
  .of_some fun s h => ⟨_, _, rfl, h.refs, by simp [Rest.opened, h.opens], h.cwd, h.stuck⟩

theorem decopen_spec (hpos : 0 < refs vn) :
    Triple T (At k refs (c.opened vn)) (decopen k vn) fun _ => At k refs c := by
  refine .of_some fun s h => ?_
  have hopened : s.opencount = update c.opens vn (c.opens vn + 1) := h.opens
  have hvn : s.opencount vn = c.opens vn + 1 := by rw [hopened, update_self]
  have hopens : update s.opencount vn (s.opencount vn - 1) = c.opens := by
    rw [hvn, hopened, update_idem, Nat.add_sub_cancel, update_eq_self]
  have hs : At k refs c
      { s with opencount := update s.opencount vn (s.opencount vn - 1) } :=
    ⟨h.refs, hopens, h.cwd, h.stuck⟩
  unfold decopen
  rw [if_neg (by omega)]
  dsimp only
  split
  · exact ⟨_, _, rfl, hs⟩
  · obtain ⟨a, s', hsome⟩ := (vop_spec hpos fun n => k.answer n (.close vn)).ends trivial hs
    rw [hsome]
    exact ⟨_, _, rfl, (vop_spec (T := True) hpos _).spec hs hsome⟩

theorem handBack_spec (vnode : α → Nat) (result : Except Errno α) :
    Triple T (At k refs c) (handBack vnode result) fun r => At k (refs + handed vnode r) c := by
  cases result with
  | error e => exact .ret fun s h => by simpa [handed] using h
  | ok a => exact .bind incref_spec fun _ => .ret fun s h => h

theorem vop_handBack_spec (hpos : 0 < refs vn) (vnode : α → Nat) (f : Nat → Except Errno α) :
    Triple T (At k refs c) (vop vn f >>= handBack vnode) fun r => At k (refs + handed vnode r) c :=
  .bind (vop_spec hpos f) fun r => handBack_spec vnode r

theorem release_spec {vnode : α → Nat} (hrefs : ∀ v, 0 ≤ refs v) (r : Except Errno α) :
    Triple T (At k (refs + one (some vn) + handed vnode r) c)
      (decref k vn >>= fun _ => pure r) fun r => At k (refs + handed vnode r) c := by
  refine .bind ?_ fun _ => .ret fun _ h => h
  apply (decref_spec (handed_nonneg hrefs vnode r)).pre
  intro s h
  rw [add_right_comm]
  exact h

theorem fsopGetroot_spec (fs : Fs) : Triple T (At k refs c) (fsopGetroot k fs) fun vn =>
    At k (refs + one (some vn)) c :=
  .bind (ask_spec _) fun _ => .bind incref_spec fun _ => .ret fun _ h => h

theorem vfsGetcurdir_spec : Triple T (At k refs c) vfsGetcurdir fun r s =>
    (∀ vn, r = .ok vn → c.cwd = some vn) ∧ At k (refs + handed id r) c s := by
  apply Triple.get
  intro s h
  have hcwd := h.cwd
  cases hc : s.cwd with
  | none =>
    refine .ret ?_
    rintro _ rfl
    exact ⟨nofun, by simpa [handed] using h⟩
  | some vn =>
    refine .bind (incref_spec.pre fun t ht => ht ▸ h) fun _ => .ret fun t ht => ⟨?_, ht⟩
    intro v hv
    cases hv
    rw [← hcwd, hc]

theorem vfsGetroot_spec (hT : T → Sound k c.cwd) (devname : Name) :
    Triple T (At k refs c) (vfsGetroot k devname) fun r => At k (refs + handed id r) c := by
  unfold vfsGetroot
  cases h : Names.vfsGetroot k.knowndevs devname with
  | root fs => exact .bind (fsopGetroot_spec fs) fun _ => .ret fun _ h => h
  | vnode vn => exact .bind incref_spec fun _ => .ret fun _ h => h
  | err e => exact .ret fun _ h => by simpa [handed] using h
  | panic => exact fun s _ => .inl ⟨rfl, fun ht => (hT ht).devices devname h⟩

section

variable (hT : T → Sound k c.cwd) (hrefs : ∀ v, 0 ≤ refs v)
include hT hrefs

theorem getcurfs_spec : Triple T (At k refs c) (getcurfs k) fun r =>
      At k (refs + handed id r) c := by
  refine .bind vfsGetcurdir_spec fun r => .lift fun hcwd => ?_
  cases r with
  | error e => exact .ret fun _ h => h
  | ok vn =>
    dsimp only
    cases hfs : k.vnFs vn with
    | none =>
      refine fun s _ => .inl ⟨rfl, fun ht => ?_⟩
      obtain ⟨fs, hsome, -⟩ := (hT ht).curdir vn (hcwd vn rfl)
      rw [hfs] at hsome
      cases hsome
    | some fs =>
      refine .bind (fsopGetroot_spec fs) fun startvn => ?_
      refine .bind (Q := fun _ => At k (refs + one (some startvn)) c) ?_
        fun _ => .ret fun _ h => h
      -- the root comes before the current directory goes
      apply (decref_spec (add_one_nonneg hrefs (some startvn))).pre
      intro s h
      rw [add_right_comm]
      exact h

theorem getstart_spec (start : Start) :
    Triple T (At k refs c) (getstart k start) fun r => At k (refs + handed id r) c := by
  cases start with
  | curdir => exact vfsGetcurdir_spec.post fun _ _ h => h.2
  | device devname => exact vfsGetroot_spec hT devname
  | bootfs =>
    unfold getstart
    cases k.bootfsVnode with
    | none => exact .ret fun _ h => by simpa [handed] using h
    | some vn => exact .bind incref_spec fun _ => .ret fun _ h => h
  | curfs => exact getcurfs_spec hT hrefs

theorem getdevice_spec (path : Path) :
    Triple T (At k refs c) (getdevice k path) fun r => At k (refs + handed Prod.fst r) c := by
  refine .bind (getstart_spec hT hrefs _) fun r => ?_
  cases r with
  | error e => exact .ret fun _ h => h
  | ok startvn => exact .ret fun _ h => h

theorem vfsLookparent_spec (path : Path) :
    Triple T (At k refs c) (vfsLookparent k path) fun r => At k (refs + handed Prod.fst r) c := by
  refine .bind (getdevice_spec hT hrefs path) fun r => ?_
  cases r with
  | error e => exact .ret fun _ h => h
  | ok start =>
    obtain ⟨startvn, sub⟩ := start
    refine .bind (Q := fun r => At k (refs + one (some startvn) + handed Prod.fst r) c)
      ?_ fun r => ?_
    · split
      · exact .ret fun _ h => by simpa [handed] using h
      · exact vop_handBack_spec (add_one_pos hrefs startvn) _ _
    · exact release_spec hrefs _

theorem vfsLookup_spec (path : Path) :
    Triple T (At k refs c) (vfsLookup k path) fun r => At k (refs + handed id r) c := by
  refine .bind (getdevice_spec hT hrefs path) fun r => ?_
  cases r with
  | error e => exact .ret fun _ h => h
  | ok start =>
    obtain ⟨startvn, sub⟩ := start
    dsimp only
    split
    · exact .ret fun _ h => h
    · exact .bind (vop_handBack_spec (add_one_pos hrefs startvn) _ _) fun r => release_spec hrefs _

end

/-! ## The operations -/

theorem openCreate_spec (hT : T → Sound k c.cwd) (hrefs : ∀ v, 0 ≤ refs v) (path : Path) (excl : Bool) :
    Triple T (At k refs c) (openCreate k path excl) fun r => At k (refs + handed id r) c := by
  refine .bind (vfsLookparent_spec hT hrefs path) fun r => ?_
  cases r with
  | error e => exact .ret fun _ h => h
  | ok parent =>
    obtain ⟨dir, name⟩ := parent
    exact .bind (vop_handBack_spec (add_one_pos hrefs dir) _ _) fun r => release_spec hrefs _

theorem openTruncate_spec (hpos : 0 < refs vn) (flags : OpenFlags) :
    Triple T (At k refs c) (openTruncate k vn flags) fun _ => At k refs c := by
  unfold openTruncate
  split_ifs
  · exact vop_spec hpos _
  · exact .ret fun _ h => h
  · exact .ret fun _ h => h

def openedBy (c : Rest) : Except Errno Nat → Rest
  | .ok vn => c.opened vn
  | .error _ => c

theorem openVnode_spec (hrefs : ∀ v, 0 ≤ refs v) (flags : OpenFlags) :
    Triple T (At k (refs + one (some vn)) c) (openVnode k vn flags) fun r =>
      At k (refs + handed id r) (openedBy c r) := by
  have hpos := add_one_pos hrefs vn
  have hfail : ∀ e : Errno, Triple T (At k (refs + one (some vn)) c)
      (decref k vn >>= fun _ => pure (.error e)) fun r =>
        At k (refs + handed id r) (openedBy c r) := by
    intro e
    exact .bind (decref_spec hrefs) fun _ => .ret fun _ h => by simpa [handed, openedBy] using h
  refine .bind (vop_spec hpos _) fun r => ?_
  cases r with
  | some e => exact hfail e
  | none =>
    refine .bind incopen_spec fun _ => .bind (openTruncate_spec hpos flags) fun r => ?_
    cases r with
    | some e => exact .bind (decopen_spec hpos) fun _ => hfail e
    | none => exact .ret fun _ h => h

theorem vfsOpen_spec (hT : T → Sound k c.cwd) (hrefs : ∀ v, 0 ≤ refs v) (path : Path)
    (flags : OpenFlags) :
    Triple T (At k refs c) (vfsOpen k path flags) fun r =>
      At k (refs + handed id r) (openedBy c r) := by
  unfold vfsOpen
  split
  · exact .ret fun _ h => by simpa [handed, openedBy] using h
  · refine .bind (Q := fun r => At k (refs + handed id r) c) ?_ fun r => ?_
    · split
      · exact openCreate_spec hT hrefs path _
      · exact vfsLookup_spec hT hrefs path
    · cases r with
      | error e => exact .ret fun _ h => h
      | ok vn => exact openVnode_spec hrefs flags

theorem inParent_spec (hT : T → Sound k c.cwd) (hrefs : ∀ v, 0 ≤ refs v) (path : Path)
    (op : Nat → Name → Op) :
    Triple T (At k refs c) (inParent k path op) fun _ => At k refs c := by
  refine .bind (vfsLookparent_spec hT hrefs path) fun r => ?_
  cases r with
  | error e => exact .ret fun _ h => by simpa [handed] using h
  | ok parent =>
    obtain ⟨dir, name⟩ := parent
    exact .bind (vop_spec (add_one_pos hrefs dir) _) fun _ =>
      .bind (decref_spec hrefs) fun _ => .ret fun _ h => h

theorem onSameFs_spec {dir self : Nat} (hrefs : ∀ v, 0 ≤ refs v) (hself : self = vn ∨ self = dir)
    (op : Op) :
    Triple T (At k (refs + one (some vn) + one (some dir)) c)
      (onSameFs k vn dir self op) fun _ => At k refs c := by
  have hpos : 0 < (refs + one (some vn) + one (some dir)) self := by
    rcases hself with rfl | rfl
    · rw [add_right_comm]
      exact add_one_pos (add_one_nonneg hrefs _) _
    · exact add_one_pos (add_one_nonneg hrefs _) _
  refine .bind (Q := fun _ => At k (refs + one (some vn) + one (some dir)) c) ?_
    fun _ => ?_
  · split
    · exact vop_spec hpos _
    · exact .ret fun _ h => h
  · exact .bind (decref_spec (add_one_nonneg hrefs _)) fun _ =>
      .bind (decref_spec hrefs) fun _ => .ret fun _ h => h

section

variable (hT : T → Sound k c.cwd) (hrefs : ∀ v, 0 ≤ refs v)
include hT hrefs

theorem vfsRename_spec (oldpath newpath : Path) :
    Triple T (At k refs c) (vfsRename k oldpath newpath) fun _ => At k refs c := by
  refine .bind (vfsLookparent_spec hT hrefs oldpath) fun r => ?_
  cases r with
  | error e => exact .ret fun _ h => by simpa [handed] using h
  | ok parent =>
    refine .bind (vfsLookparent_spec hT (add_one_nonneg hrefs _) newpath) fun r => ?_
    cases r with
    | error e =>
      exact .bind ((decref_spec hrefs).pre fun _ h => by simpa [handed] using h) fun _ =>
        .ret fun _ h => h
    | ok parent =>
      exact onSameFs_spec hrefs (.inl rfl) _

theorem vfsLink_spec (oldpath newpath : Path) :
    Triple T (At k refs c) (vfsLink k oldpath newpath) fun _ => At k refs c := by
  refine .bind (vfsLookup_spec hT hrefs oldpath) fun r => ?_
  cases r with
  | error e => exact .ret fun _ h => by simpa [handed] using h
  | ok oldfile =>
    refine .bind (vfsLookparent_spec hT (add_one_nonneg hrefs _) newpath) fun r => ?_
    cases r with
    | error e =>
      exact .bind ((decref_spec hrefs).pre fun _ h => by simpa [handed] using h) fun _ =>
        .ret fun _ h => h
    | ok parent =>
      exact onSameFs_spec hrefs (.inr rfl) _

theorem vfsReadlink_spec (path : Path) :
    Triple T (At k refs c) (vfsReadlink k path) fun _ => At k refs c := by
  refine .bind (vfsLookup_spec hT hrefs path) fun r => ?_
  cases r with
  | error e => exact .ret fun _ h => by simpa [handed] using h
  | ok vn =>
    exact .bind (vop_spec (add_one_pos hrefs vn) _) fun _ =>
      .bind (decref_spec hrefs) fun _ => .ret fun _ h => h

end

theorem vfsGetcwd_spec {read : Bool} (hT : T → Sound k c.cwd ∧ read = true) (hrefs : ∀ v, 0 ≤ refs v) :
    Triple T (At k refs c) (vfsGetcwd k read) fun _ => At k refs c := by
  refine .bind (.assert fun ht => (hT ht).2) fun _ => .lift fun _ => ?_
  refine .bind vfsGetcurdir_spec fun r => .lift fun hcwd => ?_
  cases r with
  | error e => exact .ret fun _ h => by simpa [handed] using h
  | ok vn =>
    dsimp only
    have hpos := add_one_pos hrefs vn
    cases hname : (k.vnFs vn).bind (fsName k) with
    | none =>
      refine fun s _ => .inl ⟨rfl, fun ht => ?_⟩
      obtain ⟨fs, hfs, hsome⟩ := (hT ht).1.curdir vn (hcwd vn rfl)
      simp [hfs, Option.isSome_iff_ne_none.mp hsome] at hname
    | some name =>
      refine .bind (Q := fun _ => At k (refs + one (some vn)) c) ?_ fun _ =>
        .bind (decref_spec hrefs) fun _ => .ret fun _ h => h
      refine .bind (ask_spec _) fun r => ?_
      cases r with
      | some e => exact .ret fun _ h => h
      | none =>
        refine .bind (ask_spec _) fun r => ?_
        cases r with
        | some e => exact .ret fun _ h => h
        | none => exact vop_spec hpos _

theorem exchange_spec (hrefs : ∀ v, 0 ≤ refs v) (dir : Nat) :
    Triple T (At k (refs + one c.cwd) c) (exchange k dir) fun _ =>
      At k refs { c with cwd := some dir } := by
  apply Triple.get
  intro s h
  refine .bind (Q := fun _ => At k (refs + one c.cwd) { c with cwd := some dir }) ?_ fun _ => ?_
  · apply Triple.modify
    rintro _ rfl
    exact ⟨h.refs, h.opens, rfl, h.stuck⟩
  · rw [h.cwd]
    cases hold : c.cwd with
    | none => exact .ret fun _ h => by simpa using h
    | some old => exact decref_spec hrefs

theorem vfsSetcurdir_spec (hrefs : ∀ v, 0 ≤ refs v) (dir : Nat) :
    Triple T (At k (refs + one c.cwd + one (some dir)) c) (vfsSetcurdir k dir) fun r s =>
      ∃ cwd, (cwd = c.cwd ∨ r = .ok ()) ∧
        At k (refs + one cwd + one (some dir)) { c with cwd } s := by
  refine .bind (vop_spec (add_one_pos (add_one_nonneg hrefs _) dir) _) fun r => ?_
  cases r with
  | error e => exact .ret fun _ h => ⟨c.cwd, .inl rfl, h⟩
  | ok isdir =>
    dsimp only
    split
    · have hex : Triple T (At k (refs + one (some dir) + one (some dir) + one c.cwd) c)
          (exchange k dir) fun _ =>
            At k (refs + one (some dir) + one (some dir)) { c with cwd := some dir } :=
        exchange_spec (add_one_nonneg (add_one_nonneg hrefs _) _) dir
      refine .bind incref_spec fun _ => .bind (hex.pre fun s h => ?_) fun _ =>
        .ret fun _ h => ⟨some dir, .inr rfl, h⟩
      rw [add_right_comm _ _ (one c.cwd), add_right_comm _ _ (one c.cwd)]
      exact h
    · exact .ret fun _ h => ⟨c.cwd, .inl rfl, h⟩

theorem vfsChdir_spec (hT : T → Sound k c.cwd) (hrefs : ∀ v, 0 ≤ refs v) (path : Path) :
    Triple T (At k (refs + one c.cwd) c) (vfsChdir k path) fun r s =>
      ∃ cwd, (cwd = c.cwd ∨ r = .ok ()) ∧ At k (refs + one cwd) { c with cwd } s := by
  refine .bind (vfsLookup_spec hT (add_one_nonneg hrefs _) path) fun r => ?_
  cases r with
  | error e => exact .ret fun _ h => ⟨c.cwd, .inl rfl, by simpa [handed] using h⟩
  | ok vn =>
    refine .bind (vfsSetcurdir_spec hrefs vn) fun r => ?_
    intro s ⟨cwd, hcwd, h⟩
    exact (Triple.bind (decref_spec (add_one_nonneg hrefs cwd)) fun _ =>
      .ret fun _ h => ⟨cwd, hcwd, h⟩) s h

end triples

/-! ## Every call -/

def State.Held (s : State) : Prop := ∀ v, (s.stuck v : Int) + one s.cwd v ≤ s.refcount v

def handedBack : Except Errno (Option Nat) → Nat → Int
  | .ok o => one o
  | .error _ => one none

def Call.opens (opens : Nat → Nat) : Call → Except Errno (Option Nat) → Nat → Nat
  | .open _ _, .ok (some vn) => update opens vn (opens vn + 1)
  | _, _ => opens

/-- With the reference handed back, the current directory's, and those that got stuck. -/
structure Balanced (call : Call) (s : State) (r : Except Errno (Option Nat)) (s' : State) : Prop where
  refs : ∀ v, (s'.refcount v : Int) = s.refcount v + handedBack r v +
    (one s'.cwd v - one s.cwd v) + ((s'.stuck v : Int) - s.stuck v)
  opens : s'.opencount = call.opens s.opencount r
  cwd : s'.cwd = s.cwd ∨ ∃ path, call = .chdir path ∧ r = .ok none

def Call.Reads (call : Call) : Prop := call ≠ .getcwd false

section calls

variable {k : Kernel} {T : Prop} {refs : Nat → Int} {c : Rest}

def After (k : Kernel) (refs : Nat → Int) (c : Rest) (call : Call) (r : Except Errno (Option Nat))
    (s : State) : Prop :=
  ∃ cwd, (cwd = c.cwd ∨ ∃ path, call = .chdir path ∧ r = .ok none) ∧
    At k (refs + one cwd + handedBack r) ⟨call.opens c.opens r, cwd, c.stuck⟩ s

theorem unit_spec {f : Act (Except Errno Unit)} {call : Call}
    (h : Triple T (At k (refs + one c.cwd) c) f fun _ =>
      At k (refs + one c.cwd) c) (hcall : ∀ o, call.opens c.opens o = c.opens) :
    Triple T (At k (refs + one c.cwd) c) (f >>= fun r => pure (r.map fun _ => none))
      (After k refs c call) := by
  refine .bind h fun r => .ret fun s hs => ⟨c.cwd, .inl rfl, ?_⟩
  rw [hcall]
  cases r with
  | error e => simpa [handedBack, Except.map] using hs
  | ok _ => simpa [handedBack, Except.map] using hs

theorem vnode_spec {α : Type} {vnode : α → Nat} {f : Act (Except Errno α)} {call : Call}
    (h : Triple T (At k (refs + one c.cwd) c) f fun r =>
      At k (refs + one c.cwd + handed vnode r) c)
    (hcall : ∀ o, call.opens c.opens o = c.opens) :
    Triple T (At k (refs + one c.cwd) c)
      (f >>= fun r => pure (r.map fun a => some (vnode a))) (After k refs c call) := by
  refine .bind h fun r => .ret fun s hs => ⟨c.cwd, .inl rfl, ?_⟩
  rw [hcall]
  cases r with
  | error e => exact hs
  | ok a => exact hs

theorem exec_spec (hrefs : ∀ v, 0 ≤ refs v) (call : Call) (hT : T → Sound k c.cwd ∧ call.Reads) :
    Triple T (At k (refs + one c.cwd) c) (call.exec k)
      (After k refs c call) := by
  have hsound : T → Sound k c.cwd := fun ht => (hT ht).1
  have hheld := add_one_nonneg hrefs c.cwd
  cases call with
  | «open» path flags =>
    refine .bind (vfsOpen_spec hsound hheld path flags) fun r => .ret fun s h => ⟨c.cwd, .inl rfl, ?_⟩
    cases r with
    | error e => exact h
    | ok vn => exact h
  | lookup path => exact vnode_spec (vfsLookup_spec hsound hheld path) fun _ => rfl
  | lookparent path => exact vnode_spec (vfsLookparent_spec hsound hheld path) fun _ => rfl
  | remove path => exact unit_spec (inParent_spec hsound hheld path _) fun _ => rfl
  | rename oldpath newpath => exact unit_spec (vfsRename_spec hsound hheld _ _) fun _ => rfl
  | link oldpath newpath => exact unit_spec (vfsLink_spec hsound hheld _ _) fun _ => rfl
  | symlink contents path => exact unit_spec (inParent_spec hsound hheld path _) fun _ => rfl
  | readlink path => exact unit_spec (vfsReadlink_spec hsound hheld path) fun _ => rfl
  | mkdir path => exact unit_spec (inParent_spec hsound hheld path _) fun _ => rfl
  | rmdir path => exact unit_spec (inParent_spec hsound hheld path _) fun _ => rfl
  | chdir path =>
    refine .bind (vfsChdir_spec hsound hrefs path) fun r => .ret fun s ⟨cwd, hcwd, h⟩ => ?_
    refine ⟨cwd, hcwd.imp_right fun hr => ⟨path, rfl, by rw [hr]; rfl⟩, ?_⟩
    cases r with
    | error e => simpa [handedBack, Except.map, Call.opens] using h
    | ok _ => simpa [handedBack, Except.map, Call.opens] using h
  | getcwd read =>
    refine unit_spec (vfsGetcwd_spec (fun ht => ⟨hsound ht, ?_⟩) hheld) fun _ => rfl
    have hreads := (hT ht).2
    cases read with
    | true => rfl
    | false => exact absurd rfl hreads

theorem handedBack_nonneg (r : Except Errno (Option Nat)) (v : Nat) : 0 ≤ handedBack r v := by
  cases r with
  | error e => exact one_nonneg none v
  | ok o => exact one_nonneg o v

end calls

def State.others (s : State) : Nat → Int := fun v => s.refcount v - s.stuck v - one s.cwd v

def State.rest (s : State) : Rest := ⟨s.opencount, s.cwd, s.stuck⟩

theorem State.at_self (k : Kernel) (s : State) : At k (s.others + one s.cwd) s.rest s where
  refs v := by
    simp only [others, Pi.add_apply]
    omega
  opens := rfl
  cwd := rfl
  stuck _ := rfl

variable {k : Kernel}

theorem After.balanced {s s' : State} {call : Call} {r : Except Errno (Option Nat)}
    (h : After k s.others s.rest call r s') : Balanced call s r s' := by
  obtain ⟨cwd', hcwd, hat⟩ := h
  obtain rfl : s'.cwd = cwd' := hat.cwd
  refine ⟨fun v => ?_, hat.opens, hcwd⟩
  have hv := hat.refs v
  simp only [State.others, Pi.add_apply] at hv
  omega

theorem After.held {s s' : State} {call : Call} {r : Except Errno (Option Nat)}
    (h : After k s.others s.rest call r s') (hothers : ∀ v, 0 ≤ s.others v) :
    s'.Held := by
  obtain ⟨cwd', -, hat⟩ := h
  obtain rfl : s'.cwd = cwd' := hat.cwd
  intro v
  have hv := hat.refs v
  have hothers := hothers v
  have hback := handedBack_nonneg r v
  simp only [Pi.add_apply] at hv
  omega

/-- Except those that `VOP_RECLAIM` would not take. -/
theorem vfs_balances (k : Kernel) (s : State) (hheld : s.Held) (call : Call) :
    (Sound k s.cwd → call.Reads → ∃ r s', call.exec k s = some (r, s')) ∧
      ∀ r s', call.exec k s = some (r, s') →
        s'.Held ∧ Balanced call s r s' ∧ (k.Reclaims → s'.stuck = s.stuck) := by
  have hothers : ∀ v, 0 ≤ s.others v := by
    intro v
    have hv := hheld v
    simp only [State.others]
    omega
  have hspec : Triple (Sound k s.cwd ∧ call.Reads)
      (At k (s.others + one s.cwd) s.rest) (call.exec k)
      (After k s.others s.rest call) :=
    exec_spec (c := s.rest) hothers call id
  constructor
  · intro hsound hreads
    exact hspec.ends ⟨hsound, hreads⟩ (s.at_self k)
  · intro r s' hexec
    have hafter := hspec.spec (s.at_self k) hexec
    refine ⟨hafter.held hothers, hafter.balanced, ?_⟩
    obtain ⟨_, _, hat⟩ := hafter
    exact hat.stuck

theorem Sound.of_run {cwd : Option Nat} (as : List Names.Label)
    (hrun : run Names.step [] as = some k.knowndevs)
    (hcwd : ∀ vn, cwd = some vn → ∃ fs, k.vnFs vn = some fs ∧ (fsName k fs).isSome) :
    Sound k cwd := by
  exact ⟨hcwd, fun devname => Names.vfsGetroot_ne_panic hrun devname⟩

def disk (reclaim : Option Errno) : Kernel where
  knowndevs := []
  vnFs := fun _ => some ⟨0, some ['v', 'o', 'l']⟩
  bootfsVnode := some 1
  getroot := fun _ _ => 1
  lookup := fun _ _ _ => .ok 2
  lookparent := fun _ _ _ => .ok (1, ['a'])
  creat := fun _ _ _ _ => .ok 2
  gettype := fun _ _ => .ok true
  answer := fun _ op =>
    match op with
    | .reclaim _ => reclaim
    | _ => none

def below : State := ⟨fun _ => 1, fun _ => 0, some 0, 0, fun _ => 0⟩

theorem chdir_keeps_reference :
    ∃ s', (Call.chdir ['/']).exec (disk (some Errno.EIO)) below = some (.ok none, s') ∧
      s'.cwd = some 1 ∧ s'.refcount 0 = 1 ∧
      (below.refcount 0 : Int) + (one s'.cwd 0 - one below.cwd 0) = 0 :=
  ⟨_, rfl, rfl, rfl, rfl⟩

theorem vfs_balances_open : below.Held ∧ Sound (disk none) below.cwd ∧ ∃ r s',
      (Call.open ['/', 'a'] ⟨.rdwr, true, false, true⟩).exec (disk none) below = some (r, s') ∧
        Balanced (.open ['/', 'a'] ⟨.rdwr, true, false, true⟩) below r s' := by
  have hheld : below.Held := by
    intro v
    change ((0 : Nat) : Int) + one (some 0) v ≤ ((1 : Nat) : Int)
    unfold one
    split <;> decide
  have hsound : Sound (disk none) below.cwd := .of_run [] rfl fun _ _ => ⟨_, rfl, rfl⟩
  obtain ⟨hends, hbalanced⟩ := vfs_balances (disk none) below hheld
    (.open ['/', 'a'] ⟨.rdwr, true, false, true⟩)
  obtain ⟨r, s', hexec⟩ := hends hsound nofun
  exact ⟨hheld, hsound, r, s', hexec, (hbalanced r s' hexec).2.1⟩

end Os161.Vfs.Paths
