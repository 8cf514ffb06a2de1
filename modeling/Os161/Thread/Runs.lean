import Mathlib.Data.List.Nodup
import Os161.Thread.Refine

/-!
# Every run of the thread system

A thread is in one place, whatever the calls and their allocations do. `Frugal` says which calls keep
room for all.
-/

open List Option

namespace Os161.Thread

open Lib

variable {T A : Type} {k k' : Threads T A} {s s' : Sys T A} {t c : T}

/-! ## One call -/

/-- With nothing else on the run queue a thread that yields runs `again`. -/
def Threads.reaps (k : Threads T A) (again : Bool) : Bool := match k.runqueue.toList with
  | [] => again
  | next :: _ => decide (k.resume next ≠ .threadstart)

/-- A `thread_fork` leaves a spare slot in the ring, and slots in `zombies` for all. Zombies must
not be reaped from more than 16 slots, which are freed then. -/
def Frugal : Option (Threads T A) → Call T A → Prop
  | some k, .fork _ mem => k.forkSucceeds mem = true →
    k.numthreads + 1 < k.runqueue.sizeFor (k.numthreads + 1) ∧
      k.zombies.num + (k.numthreads + 1) ≤ k.zombies.newmax (k.numthreads + 1)
  | some k, .yield _ => k.reaps true = true → k.zombies.max ≤ 16
  | some k, .sleep _ _ => k.reaps false = true → k.zombies.max ≤ 16
  | some k, .exit _ => k.reaps false = true → k.zombies.max ≤ 16
  | some k, .idle => k.reaps false = true → k.zombies.max ≤ 16
  | _, _ => True

instance : ∀ (k : Option (Threads T A)) (call : Call T A), Decidable (Frugal k call)
  | some _, .fork _ _ => inferInstanceAs (Decidable (_ → _))
  | some _, .yield _ => inferInstanceAs (Decidable (_ → _))
  | some _, .sleep _ _ => inferInstanceAs (Decidable (_ → _))
  | some _, .exit _ => inferInstanceAs (Decidable (_ → _))
  | some _, .idle => inferInstanceAs (Decidable (_ → _))
  | some _, .wakeup _ _ => inferInstanceAs (Decidable True)
  | some _, .wakeupN _ _ _ => inferInstanceAs (Decidable True)
  | none, _ => inferInstanceAs (Decidable True)

theorem reaps_eq (h : Models k s) (hqueue : s'.runqueue = s.runqueue)
    (hstarted : s'.started = s.started) : k.reaps false = s'.returns := by
  unfold Threads.reaps Sys.returns
  rw [h.runqueue.toList, hqueue, hstarted]
  have hold := h.started
  cases hrun : s.runqueue with
  | nil => rfl
  | cons next rest =>
    rw [hrun] at hold
    rw [Bool.eq_iff_iff, decide_eq_true_iff]
    exact (hold next mem_cons_self).symm

theorem reaps_yield_eq (h : Models k s) (hcur : s.curthread = some c)
    (hqueue : s'.runqueue = s.runqueue ++ [c]) (hstarted : s'.started = s.started) :
    k.reaps true = s'.returns := by
  unfold Threads.reaps Sys.returns
  rw [h.runqueue.toList, hqueue, hstarted]
  have hold := h.started
  cases hrun : s.runqueue with
  | nil => exact (h.running c hcur).symm
  | cons next rest =>
    rw [hrun] at hold
    rw [Bool.eq_iff_iff, decide_eq_true_iff]
    exact (hold next mem_cons_self).symm

variable [DecidableEq T]

/-- The machine has stopped for want of room, or `k'` has room if the call was frugal. -/
def Outcome (k : Threads T A) (frugal : Prop) (r : Option (Threads T A)) : Prop :=
  (r = none ∧ ¬ Room k) ∨
    ∃ k' s', r = some k' ∧ Models k' s' ∧ Tracked k' s' ∧ (Room k → (Room k' ↔ frugal))

theorem Stashed.outcome {k₁ : Threads T A} {back : Bool} (h : Stashed k k₁ s)
    (hback : back = s.returns) : Outcome k (back = true → k.zombies.max ≤ 16) k₁.schedule := by
  obtain ⟨k', hgo, hmodels, htracked, hroom⟩ := h.schedule
  rw [hgo, hback]
  exact .inr ⟨k', _, rfl, hmodels, htracked, hroom⟩

theorem fork_outcome (h : Models k s) (ht : Tracked k s) (hcur : s.curthread = some c)
    (hnew : k.destroys t = k.forks t) (mem : Threads.ForkMem) :
    Outcome k (Frugal (some k) (.fork t mem)) ((k.threadFork mem t).map Prod.fst) := by
  obtain ⟨k', hfork, hfail, hok⟩ := fork_spec h ht hcur hnew mem
  rw [hfork]
  right
  by_cases hmem : k.forkSucceeds mem = true
  · obtain ⟨hmodels, htracked, hroom⟩ := hok hmem
    refine ⟨k', _, rfl, hmodels, htracked, fun _ => hroom.trans ?_⟩
    exact ⟨fun hcap _ => hcap, fun hfrugal => hfrugal hmem⟩
  · obtain ⟨hmodels, htracked, hroom⟩ := hfail (Bool.not_eq_true _ ▸ hmem)
    exact ⟨k', s, rfl, hmodels, htracked, fun hr => iff_of_true (hroom hr) fun h => absurd h hmem⟩

section Step

variable [DecidableEq A]

theorem wake_outcome (h : Models k s) (ht : Tracked k s) (stop : Nat → Bool) (addr : A)
    (mem : List Bool) : Outcome k True (Threads.wakeFrom stop addr k.sleepers.num 0 mem k) := by
  rcases wake_cases h ht stop addr mem with hnone | ⟨k', hsome, hmodels, htracked, hroom⟩
  · exact .inl hnone
  · exact .inr ⟨k', _, hsome, hmodels, htracked, fun hr => iff_of_true (hroom hr) trivial⟩

theorem callStep_running (h : k.curthread = some c) (call : Call T A) :
    callStep (some k) call = match call with
      | .fork newguy mem =>
        if k.destroys newguy = k.forks newguy then some ((k.threadFork mem newguy).map Prod.fst)
        else none
      | .yield mem => some (k.threadYield mem)
      | .sleep addr mem => some (k.threadSleep mem addr c)
      | .exit mem => some (k.threadExit mem c)
      | .wakeup addr mem => some (k.threadWakeup mem addr)
      | .wakeupN addr n mem => some (k.threadWakeupN mem addr n)
      | .idle => none := by
  unfold callStep
  dsimp only
  rw [h]
  cases call <;> rfl

theorem callStep_idle (h : k.curthread = none) (call : Call T A) :
    callStep (some k) call = match call with
      | .wakeup addr mem => some (k.threadWakeup mem addr)
      | .wakeupN addr n mem => some (k.threadWakeupN mem addr n)
      | .idle => some k.schedule
      | _ => none := by
  unfold callStep
  dsimp only
  rw [h]
  cases call <;> rfl

theorem callStep_outcome {call : Call T A} {r : Option (Threads T A)} (h : Models k s)
    (ht : Tracked k s) (hstep : callStep (some k) call = some r) :
    Outcome k (Frugal (some k) call) r := by
  cases hcur : s.curthread with
  | none =>
    rw [callStep_idle (h.curthread.trans hcur)] at hstep
    cases call with
    | fork | yield | sleep | exit => cases hstep
    | wakeup addr mem =>
      obtain rfl := some.inj hstep
      exact wake_outcome h ht _ addr mem
    | wakeupN addr n mem =>
      obtain rfl := some.inj hstep
      exact wake_outcome h ht _ addr mem
    | idle =>
      obtain rfl := some.inj hstep
      have hstash : Stashed k k s := ⟨h, ht, hcur, fun hr => ⟨hr, rfl⟩⟩
      exact hstash.outcome (reaps_eq h rfl rfl)
  | some c =>
    rw [callStep_running (h.curthread.trans hcur)] at hstep
    cases call with
    | fork newguy mem =>
      dsimp only at hstep
      split at hstep
      · rename_i hnew
        obtain rfl := some.inj hstep
        exact fork_outcome h ht hcur hnew mem
      · cases hstep
    | yield mem =>
      obtain rfl := some.inj hstep
      rcases yield_cases h ht hcur mem with hnone | ⟨k₁, hgo, hstash⟩
      · exact .inl hnone
      · rw [hgo]
        exact hstash.outcome (reaps_yield_eq h hcur rfl rfl)
    | sleep addr mem =>
      obtain rfl := some.inj hstep
      rcases sleep_cases h ht hcur mem addr with hnone | ⟨k₁, hgo, hstash⟩
      · exact .inl hnone
      · rw [hgo]
        exact hstash.outcome (reaps_eq h rfl rfl)
    | exit mem =>
      obtain rfl := some.inj hstep
      rcases exit_cases h ht hcur mem with hnone | ⟨k₁, hgo, hstash⟩
      · exact .inl hnone
      · rw [hgo]
        exact hstash.outcome (reaps_eq h rfl rfl)
    | wakeup addr mem =>
      obtain rfl := some.inj hstep
      exact wake_outcome h ht _ addr mem
    | wakeupN addr n mem =>
      obtain rfl := some.inj hstep
      exact wake_outcome h ht _ addr mem
    | idle => cases hstep

end Step

def Sound : Option (Threads T A) → Prop
  | none => True
  | some k => ∃ s, Models k s ∧ Tracked k s

theorem boot_sound (me : T) : Sound (some (boot me : Threads T A)) := by
  refine ⟨⟨some me, [], [], [], fun _ => none, fun _ => true⟩, ?_, ?_⟩
  · exact ⟨rfl, .create (by decide), Arr.holds_create, Arr.holds_create, nofun, nofun,
      fun _ _ => rfl⟩
  · refine ⟨nodup_singleton me, ?_, fun _ => rfl, rfl, nofun⟩
    intro t
    unfold boot bump Sys.threads
    by_cases heq : t = me
    · subst heq
      simp
    · simp [Function.update_of_ne heq, Ne.symm heq]

theorem callStep_sound [DecidableEq A] (r : Option (Threads T A)) (call : Call T A)
    (r' : Option (Threads T A)) (h : Sound r) (hstep : callStep r call = some r') : Sound r' := by
  cases r with
  | none => cases hstep
  | some k =>
    obtain ⟨s, hmodels, htracked⟩ := h
    rcases callStep_outcome hmodels htracked hstep with
      ⟨rfl, -⟩ | ⟨k', s', rfl, hmodels', htracked', -⟩
    · trivial
    · exact ⟨s', hmodels', htracked'⟩

def Threads.places (k : Threads T A) (t : T) : Nat :=
  k.curthread.toList.count t + k.runqueue.toList.count t + k.sleepers.toList.count t +
    k.zombies.toList.count t

/-- A thread exists from its `thread_fork` to its `thread_destroy`. -/
structure Partition (k : Threads T A) : Prop where
  once : ∀ t, k.destroys t < k.forks t → k.places t = 1
  gone : ∀ t, ¬ k.destroys t < k.forks t → k.places t = 0
  asleep : ∀ t ∈ k.sleepers.toList, k.sleepaddr t ≠ none
  numthreads : k.numthreads = 1 + k.runqueue.toList.length + k.sleepers.toList.length
  alive : ∀ t, k.curthread = some t → t ∉ k.zombies.toList
  destroyed : ∀ t, k.exits t = k.destroys t + k.zombies.toList.count t

theorem Tracked.partition (ht : Tracked k s) (h : Models k s) (hcur : s.curthread = some c) :
    Partition k := by
  have hqueue := h.runqueue.toList
  have hsleepers := h.sleepers.toList
  have hzombies := h.zombies.toList
  have hplaces : ∀ t, k.places t = (s.threads ++ s.zombies).count t := by
    intro t
    unfold Threads.places Sys.threads
    rw [h.curthread, hqueue, hsleepers, hzombies]
    simp only [count_append]
  have hle : ∀ t, (s.threads ++ s.zombies).count t ≤ 1 := nodup_iff_count_le_one.mp ht.nodup
  constructor
  · intro t hlive
    have hforks := ht.forks t
    have hone := hle t
    rw [hplaces]
    omega
  · intro t hdead
    have hforks := ht.forks t
    rw [hplaces]
    omega
  · intro t hmem hnone
    rw [hsleepers] at hmem
    have hsome := ht.asleep t hmem
    rw [← h.sleepaddr t hmem, hnone] at hsome
    cases hsome
  · have hlen := ht.length
    rw [hcur] at hlen
    rw [hqueue, hsleepers]
    exact hlen
  · intro t hk
    rw [hzombies]
    exact (ht.cur_not_mem (h.curthread.symm.trans hk)).2
  · intro t
    rw [hzombies]
    exact ht.exits t

def Partitioned : Option (Threads T A) → Prop
  | none => True
  | some k => k.curthread ≠ none → Partition k

theorem each_thread_in_one_place [DecidableEq A] (me : T) (calls : List (Call T A)) :
    Always callStep Partitioned (some (boot me)) calls := by
  apply always_of_inv callStep_sound _ (boot_sound me)
  intro r hr
  cases r with
  | none => trivial
  | some k =>
    obtain ⟨s, hmodels, htracked⟩ := hr
    intro hk
    obtain ⟨c, hc⟩ := Option.ne_none_iff_exists'.mp hk
    exact htracked.partition hmodels (hmodels.curthread.symm.trans hc)

def HasRoom : Option (Threads T A) → Prop
  | none => False
  | some k => Room k

theorem room_iff_frugal [DecidableEq A] {me : T} {before calls : List (Call T A)}
    {mem : Threads.ForkMem} {r : Option (Threads T A)}
    (hbefore : run callStep (some (boot me)) before = some (some k)) (hcur : k.curthread = some c)
    (hnew : k.destroys t = k.forks t) (hfork : k.threadFork mem t = some (k', true))
    (hrun : run callStep (some k') calls = some r) :
    Always callStep HasRoom (some k') calls ↔
      Frugal (some k) (.fork t mem) ∧ Meets callStep Frugal (some k') calls := by
  obtain ⟨s, hmodels, htracked⟩ : Sound (some k) := run_inv callStep_sound (boot_sound me) hbefore
  obtain ⟨k₁, hfork', -, hok⟩ :=
    fork_spec hmodels htracked (hmodels.curthread.symm.trans hcur) hnew mem
  obtain ⟨rfl, hmem⟩ : k₁ = k' ∧ k.forkSucceeds mem = true := by
    have hpair := some.inj (hfork'.symm.trans hfork)
    exact ⟨congrArg Prod.fst hpair, congrArg Prod.snd hpair⟩
  obtain ⟨hmodels', htracked', hroom⟩ := hok hmem
  have hsound' : Sound (some k₁) := ⟨_, hmodels', htracked'⟩
  have hfirst : Room k₁ ↔ Frugal (some k) (.fork t mem) :=
    hroom.trans ⟨fun h _ => h, fun h => h hmem⟩
  have hstep : ∀ r (call : Call T A) r', Sound r ∧ HasRoom r → callStep r call = some r' →
      Sound r' ∧ (HasRoom r' ↔ Frugal r call) := by
    rintro r call r' ⟨hsound, hr⟩ hgo
    refine ⟨callStep_sound r call r' hsound hgo, ?_⟩
    cases r with
    | none => exact absurd hr id
    | some k =>
      obtain ⟨s, hmodels, htracked⟩ := hsound
      rcases callStep_outcome hmodels htracked hgo with ⟨-, hfull⟩ | ⟨k', s', rfl, -, -, hiff⟩
      · exact absurd hr hfull
      · exact hiff hr
  constructor
  · intro halways
    have hhead : Room k₁ := halways.head
    refine ⟨hfirst.mp hhead, ?_⟩
    apply meets_of_always (I := fun r => Sound r ∧ HasRoom r) _ _ ⟨hsound', hhead⟩ hrun halways
    · intro r call r' hr hc hgo
      obtain ⟨hsound, hiff⟩ := hstep r call r' hr hgo
      exact ⟨hsound, hiff.mpr hc⟩
    · intro r call r' hr hc hgo hroom'
      exact hc ((hstep r call r' hr hgo).2.mp hroom')
  · rintro ⟨hfrugal, hmeets⟩
    apply always_of_meets (I := fun r => Sound r ∧ HasRoom r) _ (fun r hr => hr.2)
      ⟨hsound', hfirst.mpr hfrugal⟩ hmeets
    intro r call r' hr hc hgo
    obtain ⟨hsound, hiff⟩ := hstep r call r' hr hgo
    exact ⟨hsound, hiff.mpr hc⟩

def plenty (t : Nat) : Call Nat Unit := .fork t ⟨true, true, true, true, true, true⟩

theorem room_iff_frugal_two_threads :
    ∃ k', (boot 0 : Threads Nat Unit).threadFork ⟨true, true, true, true, true, true⟩ 1 =
        some (k', true) ∧
      Always callStep HasRoom (some k') [.yield false, .sleep () false, .exit false] := by
  have hboot : run callStep (some (boot 0 : Threads Nat Unit)) [] = some (some (boot 0)) := rfl
  refine ⟨_, rfl, ?_⟩
  have hfork : (boot 0 : Threads Nat Unit).threadFork ⟨true, true, true, true, true, true⟩ 1 =
    some (_, true) := rfl
  exact (room_iff_frugal hboot rfl rfl hfork rfl).mpr (by decide +kernel)

/-- The zombies were reaped from 30 slots, 32 threads are all ready, or exits go to new threads
only. -/
theorem switch_without_room : run callStep (some (boot 0))
        (plenty 1 :: .yield false :: .yield false :: (List.range' 2 13).map plenty ++
          [.yield false, .exit false]) = some none ∧
      run callStep (some (boot 0)) ((List.range' 1 31).map plenty ++ [.yield false]) = some none ∧
      run callStep (some (boot 0))
        [plenty 1, .exit false, plenty 2, .exit false, plenty 3, .exit false] = some none :=
  ⟨rfl, rfl, rfl⟩

end Os161.Thread
