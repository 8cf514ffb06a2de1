import Os161.Synch.Spec
import Os161.Thread.Proofs

/-!
# How many threads a signal wakes

The index at which `thread_wakeup_n` stops counts threads on other addresses, too.
-/

open Os161.Thread List

namespace Os161.Synch.Signal

variable {T A : Type} [DecidableEq A] {addr : A} {sleepaddr : T → Option A}

def asleep (addr : A) (sleepaddr : T → Option A) (t : T) : Bool := sleepaddr t = some addr

def leave (p : T → Bool) : Nat → List T → List T
  | 0, l => l
  | _ + 1, [] => []
  | n + 1, t :: l => if p t then leave p n l else t :: leave p (n + 1) l

structure WakesExactly (addr : A) (n : Nat) (s s' : Sys T A) : Prop where
  woken : s'.runqueue = s.runqueue ++ (s.sleepers.filter (asleep addr s.sleepaddr)).take n
  left : s'.sleepers = leave (asleep addr s.sleepaddr) n s.sleepers

def waiting (addr : A) (sleepaddr : T → Option A) (l : List T) : Nat :=
  l.countP (asleep addr sleepaddr)

def unrelated (addr : A) (sleepaddr : T → Option A) (l : List T) : Nat :=
  l.countP fun t => !asleep addr sleepaddr t

/-- Only the last sleeper may have `n` others before it. If there are more, the `n`-th has just `n`
before it, the last of them at its side. -/
def Positioned (addr : A) (n : Nat) (s : Sys T A) : Prop :=
  (waiting addr s.sleepaddr s.sleepers ≤ n ∧ ∀ pre t post, s.sleepers = pre ++ t :: post →
    asleep addr s.sleepaddr t → unrelated addr s.sleepaddr pre = n →
      waiting addr s.sleepaddr post = 0) ∨
  (n < waiting addr s.sleepaddr s.sleepers ∧ ∃ pre u t post, s.sleepers = pre ++ u :: t :: post ∧
    asleep addr s.sleepaddr u = false ∧ asleep addr s.sleepaddr t ∧
    unrelated addr s.sleepaddr pre + 1 = n ∧ waiting addr s.sleepaddr pre + 1 = n)

variable {stop : Nat → Bool} {kept rest pre post : List T} {t u : T} {n : Nat}

theorem wakeLoop_asleep (ht : asleep addr sleepaddr t = true) :
    wakeLoop stop addr sleepaddr kept (t :: rest) = if stop kept.length then (kept ++ rest, [t])
      else ((wakeLoop stop addr sleepaddr kept rest).1,
        t :: (wakeLoop stop addr sleepaddr kept rest).2) := by
  rw [wakeLoop, if_pos (of_decide_eq_true ht)]

theorem wakeLoop_unrelated (ht : asleep addr sleepaddr t = false) :
    wakeLoop stop addr sleepaddr kept (t :: rest) =
      wakeLoop stop addr sleepaddr (kept ++ [t]) rest := by
  rw [wakeLoop, if_neg (of_decide_eq_false ht)]

omit [DecidableEq A] in
theorem leave_of_not {p : T → Bool} (ht : p t = false) : leave p n (t :: rest) = t :: leave p n rest := by
  cases n with
  | zero => simp [leave]
  | succ n => simp [leave, ht]

theorem wakeLoop_eq : wakeLoop stop addr sleepaddr kept rest =
    (kept ++ leave (asleep addr sleepaddr) (wakeLoop stop addr sleepaddr kept rest).2.length rest,
      (rest.filter (asleep addr sleepaddr)).take (wakeLoop stop addr sleepaddr kept rest).2.length) := by
  induction rest generalizing kept with
  | nil => simp [wakeLoop, leave]
  | cons t rest ih =>
    cases ht : asleep addr sleepaddr t with
    | false =>
      rw [wakeLoop_unrelated ht, leave_of_not ht, filter_cons_of_neg (by simp [ht])]
      conv_lhs => rw [ih]
      rw [append_assoc, singleton_append]
    | true =>
      rw [wakeLoop_asleep ht, filter_cons_of_pos ht]
      split_ifs
      · simp [leave, ht]
      · rw [length_cons, take_succ_cons, leave, if_pos ht, ← (Prod.mk.inj ih).1,
          ← (Prod.mk.inj ih).2]

def count (addr : A) (sleepaddr : T → Option A) (n : Nat) : Nat → List T → Nat
  | _, [] => 0
  | c, t :: rest =>
    if asleep addr sleepaddr t then
      if c = n then 1 else count addr sleepaddr n c rest + 1
    else count addr sleepaddr n (c + 1) rest

theorem length_wakeLoop (hstop : ∀ i, stop i = decide (i = n)) :
    (wakeLoop stop addr sleepaddr kept rest).2.length = count addr sleepaddr n kept.length rest := by
  induction rest generalizing kept with
  | nil => rfl
  | cons t rest ih =>
    cases ht : asleep addr sleepaddr t with
    | false => rw [wakeLoop_unrelated ht, ih, count, if_neg (by simp [ht]), length_append]; rfl
    | true =>
      rw [wakeLoop_asleep ht, count, if_pos ht, hstop]
      by_cases hc : kept.length = n
      · simp [hc]
      · simp [hc, ih]

section Count

variable {c : Nat}

theorem waiting_asleep (ht : asleep addr sleepaddr t = true) :
    waiting addr sleepaddr (t :: rest) = waiting addr sleepaddr rest + 1 :=
  countP_cons_of_pos ht

theorem waiting_unrelated (ht : asleep addr sleepaddr t = false) :
    waiting addr sleepaddr (t :: rest) = waiting addr sleepaddr rest :=
  countP_cons_of_neg (by simp [ht])

theorem unrelated_asleep (ht : asleep addr sleepaddr t = true) :
    unrelated addr sleepaddr (t :: rest) = unrelated addr sleepaddr rest :=
  countP_cons_of_neg (by simp [ht])

theorem unrelated_unrelated (ht : asleep addr sleepaddr t = false) :
    unrelated addr sleepaddr (t :: rest) = unrelated addr sleepaddr rest + 1 :=
  countP_cons_of_pos (by simp [ht])

theorem count_asleep (ht : asleep addr sleepaddr t = true) : count addr sleepaddr n c (t :: rest) =
      if c = n then 1 else count addr sleepaddr n c rest + 1 := by
  rw [count, if_pos ht]

theorem count_unrelated (ht : asleep addr sleepaddr t = false) :
    count addr sleepaddr n c (t :: rest) = count addr sleepaddr n (c + 1) rest := by
  rw [count, ht]
  rfl

theorem count_le : count addr sleepaddr n c rest ≤ waiting addr sleepaddr rest := by
  induction rest generalizing c with
  | nil => exact Nat.le_refl 0
  | cons t rest ih =>
    cases ht : asleep addr sleepaddr t with
    | false =>
      rw [count_unrelated ht, waiting_unrelated ht]
      exact ih
    | true =>
      rw [count_asleep ht, waiting_asleep ht]
      split_ifs
      · exact Nat.le_add_left 1 _
      · exact Nat.succ_le_succ ih

theorem count_le_stop (ht : asleep addr sleepaddr t = true)
    (hn : c + unrelated addr sleepaddr pre = n) :
    count addr sleepaddr n c (pre ++ t :: post) ≤ waiting addr sleepaddr pre + 1 := by
  induction pre generalizing c with
  | nil =>
    change c = n at hn
    rw [nil_append, count_asleep ht, if_pos hn]
    exact Nat.le_add_left 1 _
  | cons x pre ih =>
    rw [cons_append]
    cases hx : asleep addr sleepaddr x with
    | false =>
      rw [unrelated_unrelated hx] at hn
      rw [count_unrelated hx, waiting_unrelated hx]
      exact ih (by omega)
    | true =>
      rw [unrelated_asleep hx] at hn
      rw [count_asleep hx, waiting_asleep hx]
      split_ifs
      · omega
      · exact Nat.succ_le_succ (ih hn)

theorem count_eq_stop (hu : asleep addr sleepaddr u = false) (ht : asleep addr sleepaddr t = true)
    (hn : c + unrelated addr sleepaddr pre + 1 = n) :
    count addr sleepaddr n c (pre ++ u :: t :: post) = waiting addr sleepaddr pre + 1 := by
  induction pre generalizing c with
  | nil =>
    change c + 1 = n at hn
    rw [nil_append, count_unrelated hu, count_asleep ht, if_pos hn]
    rfl
  | cons x pre ih =>
    rw [cons_append]
    cases hx : asleep addr sleepaddr x with
    | false =>
      rw [unrelated_unrelated hx] at hn
      rw [count_unrelated hx, waiting_unrelated hx, ih (by omega)]
    | true =>
      rw [unrelated_asleep hx] at hn
      rw [count_asleep hx, waiting_asleep hx, if_neg (by omega), ih hn]

theorem exists_stop (hlt : count addr sleepaddr n c rest < waiting addr sleepaddr rest) :
    ∃ pre t post, rest = pre ++ t :: post ∧ asleep addr sleepaddr t = true ∧
      c + unrelated addr sleepaddr pre = n ∧
      count addr sleepaddr n c rest = waiting addr sleepaddr pre + 1 ∧
      (pre = [] ∨ ∃ pre' u, pre = pre' ++ [u] ∧ asleep addr sleepaddr u = false) := by
  induction rest generalizing c with
  | nil => exact absurd hlt (Nat.not_lt_zero _)
  | cons x rest ih =>
    cases hx : asleep addr sleepaddr x with
    | false =>
      rw [count_unrelated hx, waiting_unrelated hx] at hlt
      obtain ⟨pre, t, post, rfl, ht, hn, hcount, hlast⟩ := ih hlt
      refine ⟨x :: pre, t, post, rfl, ht, ?_, ?_, .inr ?_⟩
      · rw [unrelated_unrelated hx]
        omega
      · rw [count_unrelated hx, waiting_unrelated hx, hcount]
      · obtain rfl | ⟨pre', u, rfl, hu⟩ := hlast
        · exact ⟨[], x, rfl, hx⟩
        · exact ⟨x :: pre', u, rfl, hu⟩
    | true =>
      rw [count_asleep hx] at hlt ⊢
      by_cases hc : c = n
      · exact ⟨[], x, rest, rfl, hx, hc, by rw [if_pos hc]; rfl, .inl rfl⟩
      · rw [if_neg hc, waiting_asleep hx] at hlt
        obtain ⟨pre, t, post, rfl, ht, hn, hcount, hlast⟩ := ih (Nat.lt_of_succ_lt_succ hlt)
        refine ⟨x :: pre, t, post, rfl, ht, ?_, ?_, .inr ?_⟩
        · rwa [unrelated_asleep hx]
        · rw [if_neg hc, waiting_asleep hx, hcount]
        · obtain rfl | ⟨pre', u, rfl, hu⟩ := hlast
          · exact absurd hn hc
          · exact ⟨x :: pre', u, rfl, hu⟩

end Count

theorem leave_min : leave (asleep addr sleepaddr) (min n (waiting addr sleepaddr rest)) rest =
    leave (asleep addr sleepaddr) n rest := by
  induction rest generalizing n with
  | nil => cases n <;> simp [leave, waiting]
  | cons t rest ih =>
    cases ht : asleep addr sleepaddr t with
    | false => rw [leave_of_not ht, leave_of_not ht, waiting_unrelated ht, ih]
    | true =>
      cases n with
      | zero => rw [Nat.zero_min]
      | succ n =>
        rw [waiting_asleep ht, Nat.succ_min_succ, leave, leave, if_pos ht, if_pos ht]
        exact ih

theorem threadWakeupN_eq (s : Sys T A) : threadWakeupN addr n s = { s with
      sleepers := leave (asleep addr s.sleepaddr) (count addr s.sleepaddr n 0 s.sleepers) s.sleepers
      runqueue := s.runqueue ++ (s.sleepers.filter (asleep addr s.sleepaddr)).take
        (count addr s.sleepaddr n 0 s.sleepers) } := by
  have hstop : ∀ i : Nat, decide ((n : Int) - 1 = (i : Int) - 1) = decide (i = n) := by
    intro i
    apply decide_eq_decide.mpr
    omega
  have hlength : (wakeLoop _ addr s.sleepaddr [] s.sleepers).2.length =
    count addr s.sleepaddr n 0 s.sleepers := length_wakeLoop hstop
  unfold threadWakeupN wakeWith
  rw [wakeLoop_eq, hlength]
  rfl

theorem wakesExactly_count (s : Sys T A) : WakesExactly addr n s (threadWakeupN addr n s) ↔
    count addr s.sleepaddr n 0 s.sleepers = min n (waiting addr s.sleepaddr s.sleepers) := by
  have hwaiting : (s.sleepers.filter (asleep addr s.sleepaddr)).length =
      waiting addr s.sleepaddr s.sleepers := countP_eq_length_filter.symm
  have hle : count addr s.sleepaddr n 0 s.sleepers ≤ waiting addr s.sleepaddr s.sleepers := count_le
  rw [threadWakeupN_eq]
  constructor
  · intro h
    have hlength := congrArg List.length (append_cancel_left h.woken)
    rw [length_take, length_take, hwaiting] at hlength
    omega
  · intro h
    rw [h]
    refine ⟨?_, leave_min⟩
    rw [← hwaiting, ← take_eq_take_min]

theorem waiting_append : waiting addr sleepaddr (pre ++ rest) =
    waiting addr sleepaddr pre + waiting addr sleepaddr rest := countP_append

theorem unrelated_append : unrelated addr sleepaddr (pre ++ rest) =
    unrelated addr sleepaddr pre + unrelated addr sleepaddr rest := countP_append

theorem count_iff (s : Sys T A) (hn : 1 ≤ n) :
    count addr s.sleepaddr n 0 s.sleepers = min n (waiting addr s.sleepaddr s.sleepers) ↔
      Positioned addr n s := by
  have hle : count addr s.sleepaddr n 0 s.sleepers ≤ waiting addr s.sleepaddr s.sleepers := count_le
  constructor
  · intro hcount
    by_cases hfew : waiting addr s.sleepaddr s.sleepers ≤ n
    · refine .inl ⟨hfew, fun pre t post hsleepers ht hpre => ?_⟩
      rw [hsleepers] at hcount hfew
      have hstop : count addr s.sleepaddr n 0 (pre ++ t :: post) ≤ waiting addr s.sleepaddr pre + 1 :=
        count_le_stop ht (by omega)
      rw [waiting_append, waiting_asleep ht] at hcount hfew
      omega
    · have hlt : count addr s.sleepaddr n 0 s.sleepers < waiting addr s.sleepaddr s.sleepers := by omega
      obtain ⟨pre, t, post, hsleepers, ht, hpre, hstop, hlast⟩ := exists_stop hlt
      refine .inr ⟨by omega, ?_⟩
      obtain rfl | ⟨pre, u, rfl, hu⟩ := hlast
      · change 0 + 0 = n at hpre
        omega
      · rw [unrelated_append, unrelated_unrelated hu] at hpre
        rw [waiting_append, waiting_unrelated hu] at hstop
        change 0 + (unrelated addr s.sleepaddr pre + (0 + 1)) = n at hpre
        change _ = waiting addr s.sleepaddr pre + 0 + 1 at hstop
        refine ⟨pre, u, t, post, ?_, hu, ht, by omega, by omega⟩
        rw [hsleepers, append_assoc]
        rfl
  · rintro (⟨hfew, hpos⟩ | ⟨hmany, pre, u, t, post, hsleepers, hu, ht, hpre, hwait⟩)
    · rw [min_eq_right hfew]
      apply le_antisymm hle
      apply Nat.le_of_not_lt
      intro hlt
      obtain ⟨pre, t, post, hsleepers, ht, hpre, hstop, -⟩ := exists_stop hlt
      have hpost := hpos pre t post hsleepers ht (by omega)
      rw [hstop, hsleepers, waiting_append, waiting_asleep ht, hpost] at hlt
      omega
    · have hstop : count addr s.sleepaddr n 0 (pre ++ u :: t :: post) = waiting addr s.sleepaddr pre + 1 :=
        count_eq_stop hu ht (by omega)
      rw [← hsleepers] at hstop
      omega

/-- They have to be where the index of `thread_wakeup_n` expects them. -/
theorem wakesExactly_iff [DecidableEq T] (s : Sys T A) (addr : A) (n : Nat) (hn : 1 ≤ n) :
    (WakesExactly addr n s (threadWakeupN addr n s) ↔ Positioned addr n s) ∧
    ∀ owner, lockDoIHold ⟨s, owner⟩ = true → ∃ s', cvSignal addr ⟨s, owner⟩ = some ⟨s', owner⟩ ∧
      (WakesExactly addr 1 s s' ↔ Positioned addr 1 s) := by
  refine ⟨(wakesExactly_count s).trans (count_iff s hn), fun owner hlock => ?_⟩
  exact ⟨threadWakeupN addr 1 s, by rw [cvSignal, if_pos hlock],
    (wakesExactly_count s).trans (count_iff s (Nat.le_refl 1))⟩

def twoWaiters : Sys Nat Nat where
  curthread := some 0
  runqueue := []
  sleepers := [1, 2]
  zombies := []
  sleepaddr := fun t => if t = 0 then none else some 7
  started := fun _ => true

theorem signal_wakes_two : lockDoIHold ⟨twoWaiters, some 0⟩ = true ∧
    (threadWakeupN 7 1 twoWaiters).runqueue = [1, 2] ∧
    ¬ WakesExactly 7 1 twoWaiters (threadWakeupN 7 1 twoWaiters) := by
  refine ⟨rfl, rfl, fun h => ?_⟩
  exact absurd h.woken (by decide)

theorem wakesExactly_behind : WakesExactly 7 1
    { twoWaiters with sleepers := [3, 1, 2], sleepaddr := fun t => some (if t = 3 then 8 else 7) }
    (threadWakeupN 7 1
      { twoWaiters with sleepers := [3, 1, 2], sleepaddr := fun t => some (if t = 3 then 8 else 7) }) :=
  (wakesExactly_iff _ 7 1 (Nat.le_refl 1)).1.mpr
    (.inr ⟨by decide, [], 3, 1, [2], rfl, rfl, rfl, rfl, rfl⟩)

end Os161.Synch.Signal
