import Os161.Lib.Run

/-!
# The lock of an open vnode

`vfs_open` and `vfs_close` of `kern/fs/vfs/vfspath.c` create and destroy `rw_lock` of the vnode.
Locks are numbered in the order in which they are created.
-/

open Os161.Lib Function Option

namespace Os161.Vfs.OpenClose

inductive AccMode where
  | rdonly | wronly | rdwr | other
  deriving DecidableEq

/-- With the answers of the functions it calls. -/
structure Open where
  how : AccMode
  trunc : Bool
  found : Bool
  opened : Bool
  truncated : Bool
  memory : Bool
  deriving DecidableEq

def Open.canwrite (o : Open) : Bool := o.how = .wronly || o.how = .rdwr

/-- `destroyed` counts the calls of `lock_destroy` that free each lock. -/
structure State (V : Type) where
  opencount : V → Nat
  rwLock : V → Option Nat
  created : Nat
  destroyed : Nat → Nat
  panicked : Bool

inductive Label (V : Type) where
  | vfsOpen (v : V) (o : Open)
  | vfsClose (v : V)

section Machine

variable {V : Type} [DecidableEq V]

def incopen (s : State V) (v : V) : State V :=
  { s with opencount := update s.opencount v (s.opencount v + 1) }

def decopen (s : State V) (v : V) : State V :=
  { s with opencount := update s.opencount v (s.opencount v - 1) }

/-- `vn->rw_lock = lock_create(...)`, which is NULL when there is no memory. -/
def setLock (s : State V) (v : V) (memory : Bool) : State V := if memory then
    { s with rwLock := update s.rwLock v (some s.created), created := s.created + 1 }
  else { s with rwLock := update s.rwLock v none }

def vfsOpen (s : State V) (v : V) (o : Open) : State V := if o.how = .other then s
  else if !o.found then s
  else if !o.opened then s
  else
    let s' := incopen s v
    if o.trunc && !(o.canwrite && o.truncated) then decopen s' v
    else setLock s' v o.memory

/-- `lock_destroy` stops the machine when the lock is NULL, and when it is freed already: what
`kfree` leaves in `myOwner` is not NULL. -/
def vfsClose (s : State V) (v : V) : State V := match s.rwLock v with
  | none => { s with panicked := true }
  | some l =>
    if s.destroyed l = 0 then decopen { s with destroyed := update s.destroyed l 1 } v
    else { s with panicked := true }

/-- Each close matches an earlier open. -/
def step (s : State V) (a : Label V) : Option (State V) := if s.panicked then none
  else
    match a with
    | .vfsOpen v o => some (vfsOpen s v o)
    | .vfsClose v => if 0 < s.opencount v then some (vfsClose s v) else none

def start (junk : V → Option Nat) : State V := ⟨fun _ => 0, junk, 0, fun _ => 0, false⟩

end Machine

/-! ## Locks that live as long as they should -/

structure LocksLive {V : Type} (s : State V) : Prop where
  live : ∀ v, 0 < s.opencount v → ∃ l, s.rwLock v = some l ∧ l < s.created ∧ s.destroyed l = 0
  once : ∀ l < s.created, s.destroyed l = 1 ∨
    s.destroyed l = 0 ∧ ∃ v, 0 < s.opencount v ∧ s.rwLock v = some l
  asserts : s.panicked = false

def Open.succeeds (o : Open) : Prop := o.how ≠ .other ∧ o.found = true ∧ o.opened = true ∧
    (o.trunc = true → o.canwrite = true ∧ o.truncated = true)

/-- A vnode is opened only while it is not open, and there is memory for its lock. -/
def Alone {V : Type} (s : State V) : Label V → Prop
  | .vfsOpen v o => o.succeeds → s.opencount v = 0 ∧ o.memory = true
  | .vfsClose _ => True

instance (o : Open) : Decidable o.succeeds := inferInstanceAs (Decidable (_ ∧ _))

instance {V : Type} (s : State V) : ∀ a, Decidable (Alone s a)
  | .vfsOpen _ _ => inferInstanceAs (Decidable (_ → _))
  | .vfsClose _ => inferInstanceAs (Decidable True)

/-! ## When they do -/

structure Inv {V : Type} (s : State V) : Prop where
  locks : LocksLive s
  single : ∀ v, s.opencount v ≤ 1
  own : ∀ v w, 0 < s.opencount v → 0 < s.opencount w → s.rwLock v = s.rwLock w → v = w
  fresh : ∀ l, s.created ≤ l → s.destroyed l = 0

variable {V : Type} [DecidableEq V] {s s' : State V} {v : V} {o : Open}

theorem decopen_incopen (s : State V) (v : V) : decopen (incopen s v) v = s := by
  simp [decopen, incopen]

theorem vfsOpen_eq (s : State V) (v : V) (o : Open) :
    vfsOpen s v o = if o.succeeds then setLock (incopen s v) v o.memory else s := by
  unfold vfsOpen Open.succeeds
  split
  · simp [*]
  split
  · simp_all
  split
  · simp_all
  · dsimp only
    rw [decopen_incopen]
    by_cases ht : o.trunc = true <;> simp_all
    by_cases hw : o.canwrite = true <;> cases o.truncated <;> simp_all

section SetLock

@[simp] theorem setLock_opencount (b : Bool) :
    (setLock (incopen s v) v b).opencount = update s.opencount v (s.opencount v + 1) := by
  cases b <;> rfl

@[simp] theorem setLock_destroyed (b : Bool) :
    (setLock (incopen s v) v b).destroyed = s.destroyed := by
  cases b <;> rfl

@[simp] theorem setLock_rwLock :
    (setLock (incopen s v) v true).rwLock = update s.rwLock v (some s.created) := rfl

@[simp] theorem setLock_created : (setLock (incopen s v) v true).created = s.created + 1 := rfl

end SetLock

omit [DecidableEq V] in
theorem Inv.lt (h : Inv s) {l : Nat} (hv : 0 < s.opencount v) (hl : s.rwLock v = some l) :
    l < s.created := by
  obtain ⟨m, hm, hlt, -⟩ := h.locks.live v hv
  rw [hl] at hm
  cases hm
  exact hlt

theorem Inv.first (h : Inv s) (hv : s.opencount v = 0) : Inv (setLock (incopen s v) v true) := by
  have hne : ∀ w, 0 < s.opencount w → s.rwLock w ≠ some s.created := fun w hw heq =>
    Nat.lt_irrefl _ (h.lt hw heq)
  refine ⟨⟨fun w hw => ?_, fun l hl => ?_, h.locks.asserts⟩, fun w => ?_, fun w x hw hx heq => ?_,
    fun l hl => ?_⟩
  · by_cases hwv : w = v
    · subst hwv
      exact ⟨s.created, by simp, by simp, by simpa using h.fresh _ (Nat.le_refl _)⟩
    · obtain ⟨l, hl, hlt, hd⟩ := h.locks.live w (by simpa [hwv] using hw)
      exact ⟨l, by simpa [hwv] using hl, by simp; omega, by simpa using hd⟩
  · rw [setLock_created] at hl
    rcases Nat.lt_succ_iff_lt_or_eq.mp hl with hl | rfl
    · refine (h.locks.once l hl).imp (by simpa using ·) fun ⟨hd, w, hw, hlw⟩ => ?_
      have hwv : w ≠ v := by
        rintro rfl
        omega
      exact ⟨by simpa using hd, w, by simpa [hwv] using hw, by simpa [hwv] using hlw⟩
    · exact Or.inr ⟨by simpa using h.fresh _ (Nat.le_refl _), v, by simp, by simp⟩
  · by_cases hwv : w = v
    · simp [hwv, hv]
    · simpa [hwv] using h.single w
  · by_cases hwv : w = v <;> by_cases hxv : x = v
    · rw [hwv, hxv]
    · subst hwv
      simp only [setLock_rwLock, setLock_opencount, update_self, update_of_ne hxv] at heq hx
      exact absurd heq.symm (hne x hx)
    · subst hxv
      simp only [setLock_rwLock, setLock_opencount, update_self, update_of_ne hwv] at heq hw
      exact absurd heq (hne w hw)
    · simp only [setLock_rwLock, setLock_opencount, update_of_ne hwv, update_of_ne hxv] at heq hw hx
      exact h.own w x hw hx heq
  · simp only [setLock_created, setLock_destroyed] at hl ⊢
    exact h.fresh l (by omega)

theorem Inv.close (h : Inv s) (hv : 0 < s.opencount v) : Inv (vfsClose s v) := by
  obtain ⟨l, hl, hlt, hd⟩ := h.locks.live v hv
  have hone : s.opencount v = 1 := Nat.le_antisymm (h.single v) hv
  have hopen : ∀ w, 0 < (vfsClose s v).opencount w → w ≠ v ∧ 0 < s.opencount w := fun w hw => by
    by_cases hwv : w = v
    · subst hwv
      simp [vfsClose, hl, hd, decopen, hone] at hw
    · exact ⟨hwv, by simpa [vfsClose, hl, hd, decopen, hwv] using hw⟩
  have hrw : (vfsClose s v).rwLock = s.rwLock := by simp [vfsClose, hl, hd, decopen]
  have hcr : (vfsClose s v).created = s.created := by simp [vfsClose, hl, hd, decopen]
  have hdes : (vfsClose s v).destroyed = update s.destroyed l 1 := by
    simp [vfsClose, hl, hd, decopen]
  refine ⟨⟨fun w hw => ?_, fun m hm => ?_, ?_⟩, fun w => ?_, fun w x hw hx heq => ?_,
    fun m hm => ?_⟩
  · obtain ⟨hwv, hw⟩ := hopen w hw
    obtain ⟨m, hm, hmlt, hmd⟩ := h.locks.live w hw
    have hml : m ≠ l := by
      rintro rfl
      exact hwv (h.own w v hw hv (hm.trans hl.symm))
    exact ⟨m, by rw [hrw, hm], by rw [hcr]; exact hmlt, by rw [hdes, update_of_ne hml, hmd]⟩
  · rw [hcr] at hm
    rw [hdes, hrw]
    by_cases hml : m = l
    · exact Or.inl (by rw [hml, update_self])
    · rw [update_of_ne hml]
      refine (h.locks.once m hm).imp_right fun ⟨hmd, w, hw, hlw⟩ => ⟨hmd, w, ?_, hlw⟩
      have hwv : w ≠ v := by
        rintro rfl
        exact hml (some.inj (hlw.symm.trans hl))
      simpa [vfsClose, hl, hd, decopen, hwv] using hw
  · simpa [vfsClose, hl, hd, decopen] using h.locks.asserts
  · have hle : (vfsClose s v).opencount w ≤ s.opencount w := by
      by_cases hwv : w = v
      · simp [vfsClose, hl, hd, decopen, hwv]
      · simp [vfsClose, hl, hd, decopen, hwv]
    exact Nat.le_trans hle (h.single w)
  · rw [hrw] at heq
    exact h.own w x (hopen w hw).2 (hopen x hx).2 heq
  · rw [hcr] at hm
    have hml : m ≠ l := by omega
    rw [hdes, update_of_ne hml]
    exact h.fresh m hm

theorem step_inv (a : Label V) (h : Inv s) (ha : Alone s a) (hstep : step s a = some s') :
    Inv s' := by
  unfold step at hstep
  rw [if_neg (by simp [h.locks.asserts])] at hstep
  cases a with
  | vfsOpen v o =>
    simp only [vfsOpen_eq, some.injEq] at hstep
    subst hstep
    split
    · rename_i hs
      obtain ⟨hv, hm⟩ := ha hs
      rw [hm]
      exact h.first hv
    · exact h
  | vfsClose v =>
    obtain ⟨hv, rfl⟩ := Option.ite_some_none_eq_some.mp hstep
    exact h.close hv

theorem not_locksLive (a : Label V) (h : Inv s) (ha : ¬ Alone s a) (hstep : step s a = some s') :
    ¬ LocksLive s' := by
  unfold step at hstep
  rw [if_neg (by simp [h.locks.asserts])] at hstep
  cases a with
  | vfsClose v => exact absurd trivial ha
  | vfsOpen v o =>
    simp only [Alone, Classical.not_imp] at ha
    obtain ⟨hs, ha⟩ := ha
    simp only [vfsOpen_eq, hs, if_true, some.injEq] at hstep
    subst hstep
    intro hlive
    cases hm : o.memory with
    | false =>
      obtain ⟨l, hl, -⟩ := hlive.live v (by simp)
      simp [hm, setLock] at hl
    | true =>
      have hv : 0 < s.opencount v := Nat.pos_of_ne_zero fun hv => ha ⟨hv, hm⟩
      obtain ⟨l, hl, hlt, hd⟩ := h.locks.live v hv
      rw [hm] at hlive
      -- The old lock is neither destroyed nor anybody's lock.
      rcases hlive.once l (by simp; omega) with hd' | ⟨-, w, hw, hlw⟩
      · simp [hd] at hd'
      · by_cases hwv : w = v
        · subst hwv
          simp only [setLock_rwLock, update_self, some.injEq] at hlw
          omega
        · simp only [setLock_rwLock, setLock_opencount, update_of_ne hwv] at hw hlw
          exact hwv (h.own w v hw hv (hlw.trans hl.symm))

omit [DecidableEq V] in
theorem inv_start (junk : V → Option Nat) : Inv (start junk) := by
  refine ⟨⟨fun v hv => ?_, fun l hl => ?_, rfl⟩, fun v => Nat.zero_le _, fun v w hv => ?_,
    fun l _ => rfl⟩
  · cases hv
  · cases hl
  · cases hv

/-- No vnode is opened while it is open, and there is memory for the lock. -/
theorem rwLocks_live_iff (junk : V → Option Nat) {as : List (Label V)} {s' : State V}
    (hrun : run step (start junk) as = some s') :
    Always step LocksLive (start junk) as ↔ Meets step Alone (start junk) as := by
  constructor
  · exact meets_of_always (I := Inv) (fun s a s' h ha hs => step_inv a h ha hs)
      (fun s a s' h ha hs => not_locksLive a h ha hs) (inv_start junk) hrun
  · exact always_of_meets (I := Inv) (fun s a s' h ha hs => step_inv a h ha hs)
      (fun s h => h.locks) (inv_start junk)

def plain : Open := ⟨.rdonly, false, true, true, false, true⟩

theorem rwLocks_live_iff_two_vnodes :
    let as : List (Label Bool) := [.vfsOpen false plain, .vfsOpen true plain, .vfsClose false,
      .vfsOpen false plain, .vfsClose true, .vfsClose false]
    (run step (start fun _ => none) as).isSome ∧ Always step LocksLive (start fun _ => none) as := by
  intro as
  have hrun : (run step (start fun _ => none) as).isSome := by decide
  obtain ⟨s, hs⟩ := Option.isSome_iff_exists.mp hrun
  exact ⟨hrun, (rwLocks_live_iff _ hs).mpr (by decide)⟩

/-- Two locks of the console are never destroyed, and the third one while two descriptors are
open; the next close of the console stops the machine. -/
theorem console_lock_destroyed :
    let as : List (Label Unit) := [.vfsOpen () plain, .vfsOpen () { plain with how := .wronly },
      .vfsOpen () { plain with how := .wronly }, .vfsClose ()]
    ∃ s, run step (start fun _ => none) as = some s ∧ s.opencount () = 2 ∧ s.rwLock () = some 2 ∧
      s.destroyed 2 = 1 ∧ s.destroyed 0 = 0 ∧ (vfsClose s ()).panicked = true ∧
        ¬ Always step LocksLive (start fun _ => none) as := by
  intro as
  have hrun : ∃ s ∈ run step (start fun _ => none) as, s.opencount () = 2 ∧
      s.rwLock () = some 2 ∧ s.destroyed 2 = 1 ∧ s.destroyed 0 = 0 ∧
        (vfsClose s ()).panicked = true := by decide
  obtain ⟨s, hs, hopen, hlock, honce, hnever, hnext⟩ := hrun
  refine ⟨s, hs, hopen, hlock, honce, hnever, hnext, fun h => ?_⟩
  obtain ⟨l, hl, -, hd⟩ := (h.last hs).live () (by omega)
  rw [hlock] at hl
  cases hl
  omega

end Os161.Vfs.OpenClose
