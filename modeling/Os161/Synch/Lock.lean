import Os161.Synch.Spec
import Os161.Thread.Proofs

/-!
# Threads that run code with one lock

The lists of threads and the owner follow from where each thread is. `P` are the places.
-/

open Os161.Thread Function

namespace Os161.Synch

/-- Whether the thread exists there, what it sleeps on, and whether it holds the lock. -/
structure Code (P A : Type) where
  alive : P → Prop
  sleepsOn : P → Option A
  holds : P → Prop

structure LockOk {T A P : Type} (code : Code P A) (k : Kern T A) (pc : T → P) : Prop where
  placed : Placed k.sys (fun t => code.alive (pc t)) fun t => code.sleepsOn (pc t)
  owner : ∀ t, k.myOwner = some t ↔ code.holds (pc t)

variable {T A P : Type} {code : Code P A} {k k' : Kern T A} {pc : T → P} {c t : T} {p : P} {addr : A}

theorem LockOk.unique (h : LockOk code k pc) (hc : code.holds (pc c)) (ht : code.holds (pc t)) :
    c = t :=
  Option.some.inj (((h.owner c).mpr hc).symm.trans ((h.owner t).mpr ht))

theorem LockOk.wake [DecidableEq A] (stop : Nat → Bool) (addr : A) (h : LockOk code k pc) :
    LockOk code { k with sys := wakeWith stop addr k.sys } pc :=
  ⟨h.placed.wake, h.owner⟩

variable [DecidableEq T]

theorem LockOk.yield (h : LockOk code k pc) (hcur : k.sys.curthread = some c) :
    LockOk code { k with sys := threadYield k.sys } pc :=
  ⟨h.placed.yield hcur, h.owner⟩

theorem LockOk.dispatch (h : LockOk code k pc) (hcur : k.sys.curthread = none) :
    LockOk code { k with sys := scheduler k.sys } pc :=
  ⟨h.placed.dispatch hcur, h.owner⟩

theorem LockOk.woken (h : LockOk code k pc) (hcur : k.sys.curthread = some c) :
    LockOk code { k with sys := threadResume k.sys } pc :=
  ⟨h.placed.resume hcur, h.owner⟩

section Move

variable (code) in
theorem alive_update (hal : code.alive (pc c) ↔ code.alive p) :
    (fun t => code.alive (update pc c p t)) = fun t => code.alive (pc t) := by
  funext t
  by_cases h : t = c
  · subst h
    simp [hal]
  · rw [update_of_ne h]

variable (code) in
theorem holds_update (hh : code.holds (pc c) ↔ code.holds p) (t : T) :
    code.holds (update pc c p t) ↔ code.holds (pc t) := by
  by_cases h : t = c
  · subst h
    rw [update_self, hh]
  · rw [update_of_ne h]

theorem sleepsOn_update (h : t ≠ c) : code.sleepsOn (update pc c p t) = code.sleepsOn (pc t) := by
  rw [update_of_ne h]

variable (h : LockOk code k pc) (hcur : k.sys.curthread = some c)
  (hal : code.alive (pc c) ↔ code.alive p)
include h hcur hal

section

variable (hh : code.holds (pc c) ↔ code.holds p)
include hh

theorem LockOk.stay : LockOk code k (update pc c p) where
  placed := by
    rw [alive_update code hal]
    exact h.placed.move hcur fun t ht => sleepsOn_update ht
  owner := fun t => (h.owner t).trans (holds_update code hh t).symm

theorem LockOk.sleep (haddr : code.sleepsOn p = some addr) :
    LockOk code { k with sys := threadSleep addr k.sys } (update pc c p) where
  placed := by
    rw [alive_update code hal]
    refine h.placed.sleep hcur ?_ fun t ht => sleepsOn_update ht
    rw [update_self, haddr]
  owner := fun t => (h.owner t).trans (holds_update code hh t).symm

theorem LockOk.resume : LockOk code { k with sys := threadResume k.sys } (update pc c p) :=
  (h.woken hcur).stay (by simpa using hcur) hal hh

end

theorem LockOk.take (hfree : k.myOwner = none) (hp : code.holds p) :
    LockOk code { k with myOwner := k.sys.curthread } (update pc c p) where
  placed := by
    rw [alive_update code hal]
    exact h.placed.move hcur fun t ht => sleepsOn_update ht
  owner := fun t => by
    have hno : ¬ code.holds (pc t) := fun ht => by
      have := (h.owner t).mpr ht
      rw [hfree] at this
      cases this
    simp only [hcur, Option.some.injEq]
    by_cases ht : t = c
    · subst ht
      simp [hp]
    · rw [update_of_ne ht]
      exact ⟨fun h => absurd h.symm ht, fun h => absurd h hno⟩

theorem LockOk.release [DecidableEq A] (hc : code.holds (pc c)) (hp : ¬ code.holds p)
    (hk : lockRelease addr k = some k') : LockOk code k' (update pc c p) := by
  obtain ⟨-, rfl⟩ := Option.ite_some_none_eq_some.mp hk
  refine ⟨?_, fun t => ?_⟩
  · rw [alive_update code hal]
    exact h.placed.wake.move hcur fun t ht => sleepsOn_update ht
  · simp only [reduceCtorEq, false_iff]
    by_cases ht : t = c
    · subst ht
      simpa using hp
    · rw [update_of_ne ht]
      exact fun hh => ht (h.unique hh hc)

end Move

theorem LockOk.acquire {held asleep : P} (h : LockOk code k pc) (hcur : k.sys.curthread = some c)
    (hheld : code.alive (pc c) ↔ code.alive held) (hasleep : code.alive (pc c) ↔ code.alive asleep)
    (hc : ¬ code.holds (pc c)) (hh : code.holds held) (ha : ¬ code.holds asleep)
    (haddr : code.sleepsOn asleep = some addr) :
    LockOk code (lockTry addr k)
      (update pc c (if k.myOwner = none then held else asleep)) := by
  cases hown : k.myOwner with
  | none =>
    simp only [lockTry, hown, if_true]
    exact h.take hcur hheld hown hh
  | some o =>
    simp only [lockTry, hown, reduceCtorEq, if_false]
    have := h.sleep hcur hasleep (iff_of_false hc ha) haddr
    rwa [hown] at this

theorem LockOk.fork (h : LockOk code k pc) (ht : ¬ code.alive (pc t)) (hp : code.alive p)
    (hon : code.sleepsOn p = none) (hon' : code.sleepsOn (pc t) = none)
    (hh : code.holds (pc t) ↔ code.holds p) :
    LockOk code { k with sys := threadFork t k.sys } (update pc t p) where
  placed := by
    have hsleep : (fun u => code.sleepsOn (update pc t p u)) = fun u => code.sleepsOn (pc u) := by
      funext u
      by_cases hu : u = t
      · subst hu
        rw [update_self, hon, hon']
      · rw [update_of_ne hu]
    rw [hsleep]
    refine h.placed.fork ht fun u => ?_
    by_cases hu : u = t
    · subst hu
      simp [hp]
    · simp [hu]
  owner := fun u => (h.owner u).trans (holds_update code hh u).symm

theorem LockOk.exit (h : LockOk code k pc) (hcur : k.sys.curthread = some c) (hp : ¬ code.alive p)
    (hh : code.holds (pc c) ↔ code.holds p) :
    LockOk code { k with sys := threadExit k.sys } (update pc c p) where
  placed := by
    refine h.placed.exit hcur (fun t => ?_) fun t ht => sleepsOn_update ht
    by_cases ht : t = c
    · subst ht
      simp [hp]
    · simp [ht]
  owner := fun t => (h.owner t).trans (holds_update code hh t).symm

end Os161.Synch
