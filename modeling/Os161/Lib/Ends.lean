import Mathlib.Logic.Basic

/-!
# Programs that end or stop

A program takes a state to a result and a new state, or stops with an exception.
-/

namespace Os161.Lib

variable {ε σ α β : Type} {m : StateT σ (Except ε) α} {k : α → StateT σ (Except ε) β} {s s' : σ} {a : α}

theorem toOption_eq_ok {x : Except ε α} (h : x.toOption = some a) : x = .ok a := by
  cases x with
  | error e => cases h
  | ok b => exact congrArg Except.ok (Option.some.inj h)

theorem stateT_bind_of_ok (h : m s = .ok (a, s')) : (m >>= k) s = k a s' := by
  change Except.bind (m s) (fun x => k x.1 x.2) = _
  rw [h]
  rfl

theorem stateT_bind_of_error {e : ε} (h : m s = .error e) : (m >>= k) s = .error e := by
  change Except.bind (m s) (fun x => k x.1 x.2) = _
  rw [h]
  rfl

theorem stateT_bind_eq_ok {r : β × σ} (h : (m >>= k) s = .ok r) :
    ∃ a s', m s = .ok (a, s') ∧ k a s' = .ok r := by
  cases hm : m s with
  | error e =>
    rw [stateT_bind_of_error hm] at h
    cases h
  | ok x =>
    rw [stateT_bind_of_ok hm] at h
    exact ⟨x.1, x.2, rfl, h⟩

theorem stateT_lift_of_ok {x : Except ε α} (h : x = .ok a) :
    (liftM x : StateT σ (Except ε) α) s = .ok (a, s) := by
  rw [h]
  rfl

theorem stateT_lift_eq_ok {x : Except ε α} (h : (liftM x : StateT σ (Except ε) α) s = .ok (a, s')) :
    x = .ok a ∧ s' = s := by
  cases x with
  | error e => cases h
  | ok a =>
    cases h
    exact ⟨rfl, rfl⟩

end Os161.Lib
