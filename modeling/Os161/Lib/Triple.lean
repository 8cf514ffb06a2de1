import Mathlib.Logic.Basic

/-!
# Programs with asserts

A program takes a state to a result and a new state, or stops at an assert (`none`). A triple says
what holds at its end, and when it may stop.
-/

namespace Os161.Lib

variable {σ α β : Type}

def assert (p : Prop) [Decidable p] : StateT σ Option Unit := fun s => if p then some ((), s) else none

/-- From `P`, the program ends in `Q` or stops, and it stops only if `T` fails. -/
def Triple (T : Prop) (P : σ → Prop) (f : StateT σ Option α) (Q : α → σ → Prop) : Prop :=
  ∀ s, P s → (f s = none ∧ ¬ T) ∨ ∃ a s', f s = some (a, s') ∧ Q a s'

namespace Triple

variable {T : Prop} {P P' : σ → Prop} {Q Q' : α → σ → Prop} {R : β → σ → Prop}
  {f : StateT σ Option α} {g : α → StateT σ Option β}

theorem of_some (h : ∀ s, P s → ∃ a s', f s = some (a, s') ∧ Q a s') : Triple T P f Q :=
  fun s hp => .inr (h s hp)

theorem ret {a : α} (h : ∀ s, P s → Q a s) : Triple T P (pure a) Q :=
  of_some fun s hp => ⟨a, s, rfl, h s hp⟩

theorem any : Triple False P f fun _ _ => True := by
  intro s _
  cases f s with
  | none => exact .inl ⟨rfl, not_false⟩
  | some r => exact .inr ⟨r.1, r.2, rfl, trivial⟩

theorem bind (hf : Triple T P f Q) (hg : ∀ a, Triple T (Q a) (g a) R) : Triple T P (f >>= g) R := by
  intro s hp
  change (Option.bind (f s) (fun x => g x.1 x.2) = none ∧ _) ∨
    ∃ b s', Option.bind (f s) (fun x => g x.1 x.2) = some (b, s') ∧ R b s'
  rcases hf s hp with ⟨hnone, ht⟩ | ⟨a, s', hsome, hq⟩
  · rw [hnone]
    exact .inl ⟨rfl, ht⟩
  · rw [hsome]
    exact hg a s' hq

theorem post (hf : Triple T P f Q) (h : ∀ a s, Q a s → Q' a s) : Triple T P f Q' := by
  intro s hp
  rcases hf s hp with hnone | ⟨a, s', hsome, hq⟩
  · exact .inl hnone
  · exact .inr ⟨a, s', hsome, h a s' hq⟩

theorem pre (hf : Triple T P f Q) (h : ∀ s, P' s → P s) : Triple T P' f Q :=
  fun s hp => hf s (h s hp)

theorem get {g : σ → StateT σ Option β} (h : ∀ s, P s → Triple T (· = s) (g s) R) :
    Triple T P (get >>= g) R :=
  fun s hp => h s hp s rfl

theorem modify {f : σ → σ} {Q : Unit → σ → Prop} (h : ∀ s, P s → Q () (f s)) :
    Triple T P (modify f) Q :=
  of_some fun s hp => ⟨(), f s, rfl, h s hp⟩

theorem assert {p : Prop} [Decidable p] (h : T → p) : Triple T P (assert p) fun _ s => p ∧ P s := by
  intro s hp
  by_cases hc : p
  · exact .inr ⟨(), s, if_pos hc, hc, hp⟩
  · exact .inl ⟨if_neg hc, fun ht => hc (h ht)⟩

theorem lift {p : Prop} (h : p → Triple T P f Q) : Triple T (fun s => p ∧ P s) f Q :=
  fun s hp => h hp.1 s hp.2

theorem ends (h : Triple T P f Q) (ht : T) {s : σ} (hp : P s) : ∃ a s', f s = some (a, s') := by
  rcases h s hp with ⟨-, hn⟩ | ⟨a, s', hsome, -⟩
  · exact absurd ht hn
  · exact ⟨a, s', hsome⟩

theorem spec (h : Triple T P f Q) {s s' : σ} {a : α} (hp : P s) (hf : f s = some (a, s')) :
    Q a s' := by
  rcases h s hp with ⟨hnone, -⟩ | ⟨b, t, hsome, hq⟩
  · rw [hnone] at hf
    cases hf
  · rw [hsome] at hf
    cases hf
    exact hq

end Triple

end Os161.Lib
