import Os161.Thread.Kernel
import Os161.Thread.Proofs

/-!
# The threads a wakeup takes

`thread_wakeup` takes threads out of the array it walks over, and `make_runnable` may not fail.
-/

open List Option

namespace Os161.Thread

variable {T A : Type} {q : Queue T} {l : List T}

/-- `make_runnable` of one thread after the other, up to the first that finds no room. -/
def readyAll : List Bool → List T → Queue T → Option (Queue T)
  | _, [], q => some q
  | mem, t :: ts, q =>
    match q.addtail (mem.headD false) t with
    | some (q, true) => readyAll mem.tail ts q
    | _ => none

theorem readyAll_cases (h : q.Holds l) (mem : List Bool) (ts : List T) :
    (readyAll mem ts q = none ∧ q.size ≤ l.length + ts.length) ∨
      ∃ q', readyAll mem ts q = some q' ∧ q'.Holds (l ++ ts) ∧
        (l.length + ts.length < q.size → q'.size = q.size) := by
  induction ts generalizing q l mem with
  | nil => exact .inr ⟨q, rfl, (append_nil l).symm ▸ h, fun _ => rfl⟩
  | cons t ts ih =>
    unfold readyAll
    rw [length_cons]
    rcases h.addtail_cases (mem.headD false) t with ⟨hfull, hadd⟩ | ⟨q₁, hadd, hq₁, hsize₁⟩
    · rw [hadd]
      exact .inl ⟨rfl, by omega⟩
    · rw [hadd]
      have hlen : (l ++ [t]).length = l.length + 1 := length_append
      rcases ih hq₁ mem.tail with ⟨hnone, hle⟩ | ⟨q₂, hsome, hq₂, hsize₂⟩
      · exact .inl ⟨hnone, by omega⟩
      · rw [append_assoc] at hq₂
        exact .inr ⟨q₂, hsome, hq₂, by omega⟩

section Loop

variable [DecidableEq A] {k : Threads T A} {stop : Nat → Bool} {addr : A}

/-- The threads before index `i` are `kept`, the others are `rest`. -/
theorem wakeFrom_cases {kept rest : List T} (h : k.sleepers.Holds (kept ++ rest)) {fuel : Nat}
    (hfuel : rest.length ≤ fuel) (mem : List Bool) :
    (Threads.wakeFrom stop addr fuel kept.length mem k = none ∧
        readyAll mem (wakeLoop stop addr k.sleepaddr kept rest).2 k.runqueue = none) ∨
      ∃ sleepers runqueue,
        Threads.wakeFrom stop addr fuel kept.length mem k = some { k with sleepers, runqueue } ∧
        readyAll mem (wakeLoop stop addr k.sleepaddr kept rest).2 k.runqueue = some runqueue ∧
        sleepers.Holds (wakeLoop stop addr k.sleepaddr kept rest).1 ∧
        sleepers.max = k.sleepers.max := by
  induction rest generalizing fuel kept k mem with
  | nil =>
    rw [append_nil] at h
    have hend : ¬ kept.length < k.sleepers.num := by
      rw [h.num]
      exact lt_irrefl _
    refine .inr ⟨k.sleepers, k.runqueue, ?_, rfl, h, rfl⟩
    cases fuel with
    | zero => rfl
    | succ fuel => exact if_neg hend
  | cons t rest ih =>
    obtain ⟨fuel, rfl⟩ : ∃ n, fuel = n + 1 := ⟨fuel - 1, by rw [length_cons] at hfuel; omega⟩
    rw [length_cons, Nat.add_le_add_iff_right] at hfuel
    have hidx : kept.length < (kept ++ t :: rest).length := by
      rw [length_append, length_cons]
      omega
    have hget : k.sleepers.getguy kept.length = some t := by
      rw [h.getguy hidx]
      simp
    unfold Threads.wakeFrom wakeLoop
    rw [if_pos (h.num ▸ hidx), hget, bind_eq_bind, bind_some]
    by_cases hwake : k.sleepaddr t = some addr
    · obtain ⟨sleepers, hremove, hholds, hmax⟩ := h.remove hidx
      rw [eraseIdx_append_of_length_le (le_rfl), Nat.sub_self] at hholds
      rw [if_pos hwake, if_pos hwake, hremove, bind_eq_bind, bind_some]
      unfold Threads.makeRunnable
      by_cases hstop : stop kept.length = true
      · rw [if_pos hstop]
        unfold readyAll
        rcases k.runqueue.addtail (mem.headD false) t with _ | ⟨q, _ | _⟩
        · exact .inl ⟨rfl, rfl⟩
        · exact .inl ⟨rfl, rfl⟩
        · exact .inr ⟨sleepers, q, if_pos hstop, rfl, hholds, hmax⟩
      · rw [if_neg hstop]
        unfold readyAll
        rcases k.runqueue.addtail (mem.headD false) t with _ | ⟨q, _ | _⟩
        · exact .inl ⟨rfl, rfl⟩
        · exact .inl ⟨rfl, rfl⟩
        · rw [← hmax]
          dsimp only [Option.map]
          rw [if_neg hstop]
          exact @ih { k with sleepers, runqueue := q } kept hholds fuel hfuel mem.tail
    · have hnext := @ih k (kept ++ [t]) (by simpa using h) fuel hfuel mem
      rw [length_append, length_singleton] at hnext
      rw [if_neg hwake, if_neg hwake]
      exact hnext

/-- All asleep on the address, in order, and only those. -/
theorem threadWakeup_iff {c : List T} (hc : k.sleepers.Holds c) (hl : k.runqueue.Holds l)
    (mem : List Bool) (addr : A) :
    (∃ sleepers runqueue, k.threadWakeup mem addr = some { k with sleepers, runqueue } ∧
      sleepers.Holds (c.filter (k.sleepaddr · ≠ some addr)) ∧
      runqueue.Holds (l ++ c.filter (k.sleepaddr · = some addr))) ↔
    (readyAll mem (c.filter (k.sleepaddr · = some addr)) k.runqueue).isSome := by
  have hnum := le_of_eq hc.num.symm
  have hloop := @wakeFrom_cases _ _ _ k (fun _ => false) addr [] c hc _ hnum mem
  rw [wakeLoop_all] at hloop
  constructor
  · rintro ⟨sleepers, runqueue, hsome, -⟩
    rcases hloop with ⟨hnone, -⟩ | ⟨_, _, -, hready, -⟩
    · cases hnone.symm.trans hsome
    · exact isSome_of_eq_some hready
  · intro hready
    rcases hloop with ⟨-, hnone⟩ | ⟨sleepers, runqueue, hsome, hready, hholds, -⟩
    · rw [hnone] at hready
      cases hready
    · refine ⟨sleepers, runqueue, hsome, hholds, ?_⟩
      rcases readyAll_cases hl mem (c.filter (k.sleepaddr · = some addr)) with
        ⟨hnone, -⟩ | ⟨q, hq, hholds, -⟩
      · cases hnone.symm.trans hready
      · exact some.inj (hq.symm.trans hready) ▸ hholds

end Loop

/-- Every thread sleeps on one address, as an interrupt finds them while no thread runs. -/
def allAsleep : Threads Nat Unit := { (boot 0 : Threads Nat Unit) with
    curthread := none
    sleepers := ⟨32, 32, (List.range 32).map some⟩
    numthreads := 32
    sleepaddr := fun _ => some () }

theorem allAsleep_holds : allAsleep.sleepers.Holds (List.range 32) ∧ allAsleep.runqueue.Holds [] :=
  ⟨⟨rfl, le_rfl, rfl, rfl⟩, Queue.Holds.create (by decide)⟩

theorem threadWakeup_iff_asleep : (∃ sleepers runqueue,
      allAsleep.threadWakeup [true] () = some { allAsleep with sleepers, runqueue } ∧
      sleepers.Holds ((List.range 32).filter (allAsleep.sleepaddr · ≠ some ())) ∧
      runqueue.Holds ([] ++ (List.range 32).filter (allAsleep.sleepaddr · = some ()))) ↔
    (readyAll [true] ((List.range 32).filter (allAsleep.sleepaddr · = some ()))
      allAsleep.runqueue).isSome :=
  threadWakeup_iff allAsleep_holds.1 allAsleep_holds.2 [true] ()

/-- The ring of 32 slots has room for 31. -/
theorem wakeup_without_room : allAsleep.sleepers.Holds (List.range 32) ∧
    allAsleep.runqueue.Holds [] ∧ allAsleep.threadWakeup [] () = none :=
  ⟨allAsleep_holds.1, allAsleep_holds.2, by decide⟩

end Os161.Thread
