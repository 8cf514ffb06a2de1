import Os161.Thread.Wakeup

/-!
# The thread system of the code refines the one on lists

Each function of `Kernel` that does not fail does to the lists what its namesake in `Spec` does.
-/

open Function List Option

namespace Os161.Thread

variable {T A : Type} {k k' : Threads T A} {s s' : Sys T A} {t c next : T} {rest z : List T}
variable {runqueue : Queue T} {zombies : Arr T}

structure Models (k : Threads T A) (s : Sys T A) : Prop where
  curthread : k.curthread = s.curthread
  runqueue : k.runqueue.Holds s.runqueue
  sleepers : k.sleepers.Holds s.sleepers
  zombies : k.zombies.Holds s.zombies
  sleepaddr : ∀ t ∈ s.sleepers, k.sleepaddr t = s.sleepaddr t
  started : ∀ t ∈ s.runqueue ++ s.sleepers, s.started t = true ↔ k.resume t ≠ .threadstart
  running : ∀ c, s.curthread = some c → s.started c = true

structure Tracked [DecidableEq T] (k : Threads T A) (s : Sys T A) : Prop where
  nodup : (s.threads ++ s.zombies).Nodup
  forks : ∀ t, k.forks t = k.destroys t + (s.threads ++ s.zombies).count t
  exits : ∀ t, k.exits t = k.destroys t + s.zombies.count t
  numthreads : k.numthreads = s.threads.length
  asleep : ∀ t ∈ s.sleepers, (s.sleepaddr t).isSome

def Sys.returns (s : Sys T A) : Bool := match s.runqueue with
  | [] => false
  | next :: _ => s.started next

theorem returns_cons (h : s.runqueue = next :: rest) : s.returns = s.started next := by
  unfold Sys.returns
  rw [h]

theorem not_mem_of_nodup {l : List T} (h : (t :: l ++ z).Nodup) : t ∉ l ∧ t ∉ z := by
  rw [← not_or, ← mem_append]
  exact (nodup_cons.mp h).1

theorem next_not_mem (h : s.runqueue = next :: rest)
    (hcur : s.curthread = none) (hnd : (s.threads ++ s.zombies).Nodup) :
    next ∉ rest ++ s.sleepers ∧ next ∉ s.zombies := by
  unfold Sys.threads at hnd
  rw [hcur, h] at hnd
  exact not_mem_of_nodup hnd

variable [DecidableEq T]

theorem bump_eq_count (f : T → Nat) (u : T) : bump f t u = f u + [t].count u := by
  unfold bump
  by_cases heq : u = t
  · rw [heq, update_self, count_singleton_self]
  · rw [update_of_ne heq, count_eq_zero.mpr (by simpa using heq), add_zero]

theorem destroyAll_spec (hz : k.zombies.Holds z) (hcur : ∀ t ∈ z, k.curthread ≠ some t)
    {l : List Nat} (hl : ∀ i ∈ l, i < z.length) :
    l.foldlM (fun (k : Threads T A) i => do k.threadDestroy (← k.zombies.getguy i)) k =
      some { k with destroys := fun t => k.destroys t + (l.filterMap (z[·]?)).count t } := by
  induction l generalizing k with
  | nil => rfl
  | cons i l ih =>
    have hi := hl i mem_cons_self
    have hne := hcur z[i] (getElem_mem hi)
    have hdestroy : (do k.threadDestroy (← k.zombies.getguy i)) =
        some { k with destroys := bump k.destroys z[i] } := by
      rw [hz.getguy hi]
      exact if_neg hne
    have hrest := @ih { k with destroys := bump k.destroys z[i] } hz hcur
      fun j hj => hl j (mem_cons_of_mem _ hj)
    rw [foldlM_cons, hdestroy]
    refine hrest.trans (congrArg some ?_)
    congr 1
    funext t
    dsimp only
    rw [bump_eq_count, filterMap_cons, List.getElem?_eq_getElem hi, add_assoc, ← count_append]
    rfl

theorem exorcise_spec (hz : k.zombies.Holds z)
    (hcur : ∀ t ∈ z, k.curthread ≠ some t) :
    ∃ zombies, k.exorcise = some { k with zombies, destroys := fun t => k.destroys t + z.count t } ∧
      zombies.Holds [] ∧ zombies.max = if 16 < k.zombies.max then 0 else k.zombies.max := by
  obtain ⟨zombies, hclear, hempty, hmax⟩ := hz.clear false
  have hall := destroyAll_spec hz hcur (l := List.range k.zombies.num)
    fun i hi => hz.num ▸ mem_range.mp hi
  have hrange : (List.range k.zombies.num).filterMap (z[·]?) = z := by
    rw [hz.num]
    exact Queue.filterMap_range fun _ _ => rfl
  rw [hrange] at hall
  refine ⟨zombies, ?_, hempty, hmax⟩
  unfold Threads.exorcise
  rw [hall, bind_eq_bind, bind_some]
  rw [hclear]

structure Dispatched (k k' : Threads T A) (s : Sys T A) : Prop where
  models : Models k' (scheduler s)
  numthreads : k'.numthreads = k.numthreads
  forks : k'.forks = k.forks
  exits : k'.exits = k.exits
  destroys : ∀ t, k'.destroys t + (scheduler s).zombies.count t = k.destroys t + s.zombies.count t
  size : k'.runqueue.size = k.runqueue.size
  sleepersMax : k'.sleepers.max = k.sleepers.max
  zombiesMax : k'.zombies.max = if s.returns ∧ 16 < k.zombies.max then 0 else k.zombies.max

theorem scheduler_cons (h : s.runqueue = next :: rest) : scheduler s = { s with
      curthread := some next
      runqueue := rest
      zombies := if s.started next then [] else s.zombies
      started := update s.started next true } := by
  unfold scheduler
  rw [h]

theorem Models.dispatch
    {sleepaddr : T → Option A} {destroys : T → Nat} (h : Models k s)
    (hrun : s.runqueue = next :: rest) (hnext : next ∉ rest ++ s.sleepers)
    (hqueue : runqueue.Holds rest)
    (hzombies : zombies.Holds (if s.started next then [] else s.zombies))
    (haddr : ∀ t ∈ s.sleepers, sleepaddr t = s.sleepaddr t) :
    Models { k with runqueue, curthread := some next, zombies, sleepaddr, destroys }
      (scheduler s) := by
  rw [scheduler_cons hrun]
  refine ⟨rfl, hqueue, h.sleepers, hzombies, haddr, ?_, ?_⟩
  · intro t ht
    have hne : t ≠ next := fun heq => hnext (heq ▸ ht)
    dsimp only
    rw [update_of_ne hne]
    apply h.started
    rw [hrun]
    exact mem_cons_of_mem _ ht
  · rintro c ⟨⟩
    exact update_self ..

theorem schedule_remhead {queue : Queue T} (hne : k.runqueue.empty = false)
    (hrem : k.runqueue.remhead = some (queue, next)) :
    (k.resume next = .threadstart →
      k.schedule = some { k with runqueue := queue, curthread := some next }) ∧
    (k.resume next = .yield →
      k.schedule = Threads.exorcise { k with runqueue := queue, curthread := some next }) ∧
    (k.resume next = .sleep →
      k.schedule = (Threads.exorcise { k with runqueue := queue, curthread := some next }).bind
        fun k => some { k with sleepaddr := update k.sleepaddr next none }) := by
  unfold Threads.schedule
  rw [hne, if_neg Bool.false_ne_true, hrem, bind_eq_bind, bind_some]
  refine ⟨?_, ?_, ?_⟩
  · intro hresume
    simp [hresume]
  · intro hresume
    simp [hresume]
  · intro hresume
    simp only [hresume]
    rfl

theorem schedule_spec (h : Models k s) (hcur : s.curthread = none)
    (hnd : (s.threads ++ s.zombies).Nodup) : ∃ k', k.schedule = some k' ∧ Dispatched k k' s := by
  have hisEmpty := h.runqueue.empty
  cases hrun : s.runqueue with
  | nil =>
    rw [hrun] at hisEmpty
    have hidle : k.schedule = some k := if_pos hisEmpty
    have hsame : scheduler s = s := by
      unfold scheduler
      rw [hrun]
    have hreturns : s.returns = false := by
      unfold Sys.returns
      rw [hrun]
    refine ⟨k, hidle, ?_, rfl, rfl, rfl, ?_, rfl, rfl, ?_⟩
    · rw [hsame]
      exact h
    · rw [hsame]
      exact fun _ => rfl
    · rw [hreturns]
      simp
  | cons next rest =>
    have hholds := h.runqueue
    rw [hrun] at hholds
    obtain ⟨queue, hremhead, hqueue, hsize⟩ := hholds.remhead
    obtain ⟨hnext, hzombie⟩ := next_not_mem hrun hcur hnd
    have hstarted := h.started next (by rw [hrun]; simp)
    have halive : ∀ t ∈ s.zombies, some next ≠ some t := by
      rintro t ht ⟨⟩
      exact hzombie ht
    obtain ⟨zombies, hexorcise, hempty, hmax⟩ :=
      exorcise_spec (k := { k with runqueue := queue, curthread := some next }) h.zombies halive
    rw [hrun] at hisEmpty
    obtain ⟨hstart, hyield, hsleep⟩ := schedule_remhead hisEmpty hremhead
    by_cases hnew : k.resume next = .threadstart
    · have hfalse : s.started next = false := by
        rw [← Bool.not_eq_true, hstarted]
        exact not_not_intro hnew
      refine ⟨_, hstart hnew, h.dispatch hrun hnext hqueue ?_ h.sleepaddr, rfl, rfl, rfl, ?_, hsize, rfl, ?_⟩
      · rw [hfalse]
        exact h.zombies
      · intro t
        rw [scheduler_cons hrun, hfalse]
        rfl
      · rw [returns_cons hrun, hfalse]
        simp
    · have htrue : s.started next = true := hstarted.mpr hnew
      -- it resumes in `mi_switch`, and then in `thread_sleep` if it slept
      obtain ⟨sleepaddr, hgo, haddr⟩ : ∃ sleepaddr, k.schedule = some { k with
            runqueue := queue, curthread := some next, zombies, sleepaddr
            destroys := fun t => k.destroys t + s.zombies.count t } ∧
          ∀ t ∈ s.sleepers, sleepaddr t = s.sleepaddr t := by
        rw [hexorcise] at hyield hsleep
        cases hresume : k.resume next with
        | threadstart => exact absurd hresume hnew
        | yield => exact ⟨k.sleepaddr, hyield hresume, h.sleepaddr⟩
        | sleep =>
          refine ⟨update k.sleepaddr next none, hsleep hresume, ?_⟩
          intro t ht
          have hne : t ≠ next := fun heq => hnext (heq ▸ mem_append_right _ ht)
          rw [update_of_ne hne]
          exact h.sleepaddr t ht
      refine ⟨_, hgo, h.dispatch hrun hnext hqueue ?_ haddr, rfl, rfl, rfl, ?_, hsize, rfl, ?_⟩
      · rw [htrue]
        exact hempty
      · intro t
        rw [scheduler_cons hrun, htrue]
        rfl
      · rw [returns_cons hrun, htrue]
        simpa using hmax

theorem scheduler_zombies_sublist : (scheduler s).zombies.Sublist s.zombies := by
  unfold scheduler
  split
  · exact List.Sublist.refl _
  · split
    · exact nil_sublist _
    · exact List.Sublist.refl _

theorem Tracked.dispatch (h : Tracked k s) (hd : Dispatched k k' s) (hcur : s.curthread = none) :
    Tracked k' (scheduler s) := by
  have hthreads := scheduler_threads hcur
  constructor
  · rw [hthreads]
    exact h.nodup.sublist (scheduler_zombies_sublist.append_left _)
  · intro t
    have hold := h.forks t
    have hcount := hd.destroys t
    rw [hd.forks, hthreads]
    rw [count_append] at hold ⊢
    omega
  · intro t
    have hold := h.exits t
    have hcount := hd.destroys t
    rw [hd.exits]
    omega
  · rw [hd.numthreads, hthreads]
    exact h.numthreads
  · rw [scheduler_sleepers, scheduler_sleepaddr]
    exact h.asleep

/-! ## Giving up the processor -/

/-- Every thread that has not exited fits into each of the containers as it is. -/
structure Room (k : Threads T A) : Prop where
  sleepers : k.numthreads ≤ k.sleepers.max
  zombies : k.zombies.num + k.numthreads ≤ k.zombies.max
  runqueue : k.numthreads < k.runqueue.size

structure Stashed (k k' : Threads T A) (s : Sys T A) : Prop where
  models : Models k' s
  tracked : Tracked k' s
  none : s.curthread = none
  room : Room k → Room k' ∧ k'.zombies.max = k.zombies.max

theorem Tracked.cur_not_mem (h : Tracked k s) (hcur : s.curthread = some c) :
    c ∉ s.runqueue ++ s.sleepers ∧ c ∉ s.zombies := by
  have hnd := h.nodup
  unfold Sys.threads at hnd
  rw [hcur] at hnd
  exact not_mem_of_nodup hnd

theorem Tracked.length (h : Tracked k s) :
    k.numthreads = s.curthread.toList.length + s.runqueue.length + s.sleepers.length := by
  rw [h.numthreads]
  unfold Sys.threads
  rw [length_append, length_append]

theorem Tracked.length_of_cur (h : Tracked k s) (hcur : s.curthread = some c) :
    k.numthreads = 1 + s.runqueue.length + s.sleepers.length := by
  rw [h.length, hcur]
  rfl

theorem Tracked.move (h : Tracked k s) (hthreads : s'.threads.Perm s.threads)
    (hzombies : s'.zombies = s.zombies) (hforks : k'.forks = k.forks) (hexits : k'.exits = k.exits)
    (hdestroys : k'.destroys = k.destroys) (hnum : k'.numthreads = k.numthreads)
    (hasleep : ∀ t ∈ s'.sleepers, (s'.sleepaddr t).isSome) : Tracked k' s' := by
  have hall : (s'.threads ++ s'.zombies).Perm (s.threads ++ s.zombies) := by
    rw [hzombies]
    exact hthreads.append_right _
  refine ⟨hall.nodup_iff.mpr h.nodup, ?_, ?_, ?_, hasleep⟩
  · intro t
    rw [hforks, hdestroys, hall.count_eq]
    exact h.forks t
  · intro t
    rw [hexits, hdestroys, hzombies]
    exact h.exits t
  · rw [hnum, hthreads.length_eq]
    exact h.numthreads

theorem miSwitch_eq (mem : Bool) (state : ThreadState) (h : k.curthread = some c) :
    k.miSwitch mem state = match Threads.stash mem c { k with curthread := none } state with
      | some (k, true) => k.schedule
      | _ => none := by
  cases k
  cases h
  rfl

theorem Models.started_update (h : Models k s) (hcur : s.curthread = some c) {r : Resume}
    (hr : r ≠ .threadstart) (hmem : t ≠ c → t ∈ s.runqueue ++ s.sleepers) :
    s.started t = true ↔ update k.resume c r t ≠ .threadstart := by
  by_cases heq : t = c
  · subst heq
    simp [h.running t hcur, hr]
  · rw [update_of_ne heq]
    exact h.started t (hmem heq)

theorem yield_cases (h : Models k s) (ht : Tracked k s) (hcur : s.curthread = some c) (mem : Bool) :
    (k.threadYield mem = none ∧ ¬ Room k) ∨ ∃ k₁, k.threadYield mem = k₁.schedule ∧
      Stashed k k₁ { s with curthread := none, runqueue := s.runqueue ++ [c] } := by
  have hlen := ht.length_of_cur hcur
  unfold Threads.threadYield
  rw [miSwitch_eq mem .ready (h.curthread.trans hcur)]
  unfold Threads.stash Threads.makeRunnable
  rcases h.runqueue.addtail_cases mem c with ⟨hfull, hadd⟩ | ⟨queue, hadd, hqueue, hsize⟩
  · left
    rw [hadd]
    refine ⟨rfl, ?_⟩
    intro hroom
    have hroom := hroom.runqueue
    omega
  · right
    rw [hadd]
    refine ⟨_, rfl, ?_, ?_, rfl, ?_⟩
    · refine ⟨rfl, hqueue, h.sleepers, h.zombies, h.sleepaddr, fun t hmem => ?_, nofun⟩
      exact h.started_update hcur nofun fun hne => by simpa [hne] using hmem
    · refine ht.move ?_ rfl rfl rfl rfl rfl ht.asleep
      have hthreads := threadYield_threads hcur
      rwa [threadYield_eq hcur, scheduler_threads rfl] at hthreads
    · intro hroom
      have hq := hroom.runqueue
      have hsame := hsize (by omega)
      exact ⟨⟨hroom.sleepers, hroom.zombies, hsame ▸ hq⟩, rfl⟩

theorem sleep_cases (h : Models k s) (ht : Tracked k s) (hcur : s.curthread = some c) (mem : Bool)
    (addr : A) :
    (k.threadSleep mem addr c = none ∧ ¬ Room k) ∨ ∃ k₁, k.threadSleep mem addr c = k₁.schedule ∧
      Stashed k k₁ { s with
        curthread := none
        sleepers := s.sleepers ++ [c]
        sleepaddr := update s.sleepaddr c (some addr) } := by
  have hlen := ht.length_of_cur hcur
  unfold Threads.threadSleep
  have hk : { k with sleepaddr := update k.sleepaddr c (some addr) }.curthread = some c :=
    h.curthread.trans hcur
  rw [miSwitch_eq mem .sleep hk]
  unfold Threads.stash
  rcases h.sleepers.add_cases mem c with ⟨hfull, hadd⟩ | ⟨sleepers, hadd, hsleepers, hmax⟩
  · left
    rw [hadd]
    refine ⟨rfl, ?_⟩
    intro hroom
    have hroom := hroom.sleepers
    omega
  · right
    rw [hadd]
    refine ⟨_, rfl, ?_, ?_, rfl, ?_⟩
    · refine ⟨rfl, h.runqueue, hsleepers, h.zombies, ?_, ?_, nofun⟩
      · intro t hmem
        by_cases heq : t = c
        · subst heq
          simp
        · simp only [update_of_ne heq]
          apply h.sleepaddr
          simpa [heq] using hmem
      · exact fun t hmem =>
          h.started_update hcur nofun fun hne => by simpa [hne] using hmem
    · refine ht.move ?_ rfl rfl rfl rfl rfl ?_
      · have hthreads := @threadSleep_threads _ _ s c _ addr hcur
        rwa [threadSleep_eq hcur, scheduler_threads rfl] at hthreads
      · intro t hmem
        by_cases heq : t = c
        · subst heq
          simp
        · simp only [update_of_ne heq]
          apply ht.asleep
          simpa [heq] using hmem
    · intro hroom
      have hs := hroom.sleepers
      have hsame := hmax (by omega)
      exact ⟨⟨hsame ▸ hs, hroom.zombies, hroom.runqueue⟩, rfl⟩

theorem Tracked.exit (h : Tracked k s)
    (hthreads : c :: s'.threads = s.threads) (hzombies : s'.zombies = s.zombies ++ [c])
    (hforks : k'.forks = k.forks) (hexits : k'.exits = bump k.exits c)
    (hdestroys : k'.destroys = k.destroys) (hnum : k'.numthreads = k.numthreads - 1)
    (hasleep : ∀ t ∈ s'.sleepers, (s'.sleepaddr t).isSome) : Tracked k' s' := by
  have hall : (s'.threads ++ s'.zombies).Perm (s.threads ++ s.zombies) := by
    rw [hzombies, ← hthreads, ← append_assoc, cons_append]
    exact perm_append_comm
  refine ⟨hall.nodup_iff.mpr h.nodup, ?_, ?_, ?_, hasleep⟩
  · intro t
    rw [hforks, hdestroys, hall.count_eq]
    exact h.forks t
  · intro t
    have hold := h.exits t
    rw [hexits, hdestroys, hzombies, count_append, bump_eq_count]
    omega
  · rw [hnum, h.numthreads, ← hthreads]
    rfl

theorem exit_cases (h : Models k s) (ht : Tracked k s) (hcur : s.curthread = some c) (mem : Bool) :
    (k.threadExit mem c = none ∧ ¬ Room k) ∨ ∃ k₁, k.threadExit mem c = k₁.schedule ∧
      Stashed k k₁ { s with curthread := none, zombies := s.zombies ++ [c] } := by
  have hlen := ht.length_of_cur hcur
  have hnum := h.zombies.num
  unfold Threads.threadExit
  rw [if_pos (by omega)]
  have hk : { k with numthreads := k.numthreads - 1, exits := bump k.exits c }.curthread = some c :=
    h.curthread.trans hcur
  rw [miSwitch_eq mem .zomb hk]
  unfold Threads.stash
  rcases h.zombies.add_cases mem c with ⟨hfull, hadd⟩ | ⟨zombies, hadd, hzombies, hmax⟩
  · left
    rw [hadd]
    refine ⟨rfl, ?_⟩
    intro hroom
    have hroom := hroom.zombies
    omega
  · right
    rw [hadd]
    refine ⟨_, rfl, ?_, ?_, rfl, ?_⟩
    · exact ⟨rfl, h.runqueue, h.sleepers, hzombies, h.sleepaddr, h.started, nofun⟩
    · refine ht.exit ?_ rfl rfl rfl rfl rfl ht.asleep
      have hthreads := threadExit_threads hcur
      rwa [threadExit_eq hcur, scheduler_threads rfl] at hthreads
    · intro hroom
      have hs := hroom.sleepers
      have hz := hroom.zombies
      have hq := hroom.runqueue
      have hsame := hmax (by omega)
      have hmore := hzombies.num
      rw [length_append, length_singleton] at hmore
      refine ⟨⟨?_, ?_, ?_⟩, hsame⟩
      · dsimp only
        omega
      · dsimp only
        omega
      · dsimp only
        omega

theorem Stashed.schedule {k₁ : Threads T A} (h : Stashed k k₁ s) :
    ∃ k', k₁.schedule = some k' ∧ Models k' (scheduler s) ∧ Tracked k' (scheduler s) ∧
      (Room k → (Room k' ↔ (s.returns = true → k.zombies.max ≤ 16))) := by
  obtain ⟨k', hgo, hd⟩ := schedule_spec h.models h.none h.tracked.nodup
  have htracked := h.tracked.dispatch hd h.none
  refine ⟨k', hgo, hd.models, htracked, ?_⟩
  intro hroom
  obtain ⟨⟨hsleepers, hzombies, hqueue⟩, hsame⟩ := h.room hroom
  have hnum := hd.models.zombies.num
  have hold := h.models.zombies.num
  have hmax := hd.zombiesMax
  have hrest : k'.numthreads ≤ k'.sleepers.max ∧ k'.numthreads < k'.runqueue.size := by
    rw [hd.numthreads, hd.sleepersMax, hd.size]
    exact ⟨hsleepers, hqueue⟩
  cases hback : s.returns with
  | false =>
    rw [hback, if_neg (by simp)] at hmax
    refine ⟨fun _ => nofun, fun _ => ⟨hrest.1, ?_, hrest.2⟩⟩
    have hzomb := (scheduler_zombies_sublist (s := s)).length_le
    rw [hd.numthreads]
    omega
  | true =>
    -- a thread is current again, and the zombies are gone
    obtain ⟨next, rest, hrun, hstarted⟩ : ∃ next rest, s.runqueue = next :: rest ∧
        s.started next = true := by
      unfold Sys.returns at hback
      split at hback
      · exact absurd hback Bool.false_ne_true
      · rename_i next rest hrun
        exact ⟨next, rest, hrun, hback⟩
    have hempty : k'.zombies.num = 0 := by
      rw [hnum, scheduler_cons hrun, hstarted]
      rfl
    have hpos : 0 < k'.numthreads := by
      have hlen := htracked.length_of_cur (by rw [scheduler_cons hrun])
      omega
    rw [hback] at hmax
    constructor
    · rintro ⟨-, hz, -⟩ -
      by_contra hbig
      rw [if_pos ⟨rfl, by omega⟩] at hmax
      omega
    · intro hsmall
      have hsmall := hsmall rfl
      rw [if_neg (by omega)] at hmax
      have hn := hd.numthreads
      exact ⟨hrest.1, by omega, hrest.2⟩

section Wakeup

variable [DecidableEq A] {stop : Nat → Bool} {addr : A}

omit [DecidableEq T] in
theorem wakeLoop_congr {f g : T → Option A} (h : ∀ t ∈ rest, f t = g t)
    (kept : List T) : wakeLoop stop addr f kept rest = wakeLoop stop addr g kept rest := by
  induction rest generalizing kept with
  | nil => rfl
  | cons t rest ih =>
    rw [forall_mem_cons] at h
    unfold wakeLoop
    rw [h.1, ih h.2, ih h.2]

theorem wake_cases (h : Models k s) (ht : Tracked k s) (stop : Nat → Bool) (addr : A)
    (mem : List Bool) :
    (Threads.wakeFrom stop addr k.sleepers.num 0 mem k = none ∧ ¬ Room k) ∨
      ∃ k', Threads.wakeFrom stop addr k.sleepers.num 0 mem k = some k' ∧
        Models k' (wakeWith stop addr s) ∧ Tracked k' (wakeWith stop addr s) ∧
        (Room k → Room k') := by
  have hlen := ht.length
  have hperm := wakeLoop_perm stop addr s.sleepaddr [] s.sleepers
  have hcount := hperm.length_eq
  rw [length_append, nil_append] at hcount
  have hnum := le_of_eq h.sleepers.num.symm
  have hloop := @wakeFrom_cases _ _ _ _ stop addr [] _ h.sleepers _ hnum mem
  rw [wakeLoop_congr h.sleepaddr] at hloop
  have hready := readyAll_cases h.runqueue mem (wakeLoop stop addr s.sleepaddr [] s.sleepers).2
  rcases hloop with ⟨hnone, hfull⟩ | ⟨sleepers, runqueue, hsome, hready₁, hholds, hmax⟩
  · rcases hready with ⟨-, hle⟩ | ⟨q, hsome, -⟩
    · refine .inl ⟨hnone, fun hroom => ?_⟩
      have hroom := hroom.runqueue
      omega
    · cases hfull.symm.trans hsome
  · rcases hready with ⟨hnone, -⟩ | ⟨q, hq, hqueue, hsize⟩
    · cases hnone.symm.trans hready₁
    · obtain rfl : q = runqueue := some.inj (hq.symm.trans hready₁)
      refine .inr ⟨_, hsome, ?_, ?_, ?_⟩
      · refine ⟨h.curthread, hqueue, hholds, h.zombies,
          fun u hu => h.sleepaddr u (wakeWith_sleepers hu), ?_, h.running⟩
        intro u hu
        apply h.started
        have hmem : u ∈ s.sleepers ↔ _ := hperm.symm.mem_iff
        rw [mem_append, hmem]
        simp only [wakeWith, mem_append] at hu ⊢
        tauto
      · exact ht.move wakeWith_threads rfl rfl rfl rfl rfl
          fun u hu => ht.asleep u (wakeWith_sleepers hu)
      · intro hroom
        have hq := hroom.runqueue
        have hsame := hsize (by omega)
        exact ⟨hmax ▸ hroom.sleepers, hroom.zombies, hsame ▸ hq⟩

end Wakeup

/-- With a slot for every thread the run queue needs no memory. -/
def Threads.forkSucceeds (k : Threads T A) (mem : Threads.ForkMem) : Bool :=
  mem.create && mem.stack && mem.sleepers && mem.zombies &&
    (mem.runqueue || decide (k.numthreads + 1 ≤ k.runqueue.size))

theorem Tracked.fork (h : Tracked k s) (hnew : k.destroys t = k.forks t)
    (hforks : k'.forks = bump k.forks t) (hexits : k'.exits = k.exits)
    (hdestroys : k'.destroys = k.destroys) (hnum : k'.numthreads = k.numthreads + 1) :
    Tracked k' (threadFork t s) := by
  have hzero : (s.threads ++ s.zombies).count t = 0 := by
    have hold := h.forks t
    omega
  have hall : ((threadFork t s).threads ++ (threadFork t s).zombies).Perm
      (t :: (s.threads ++ s.zombies)) := threadFork_threads.append_right _
  refine ⟨?_, ?_, ?_, ?_, h.asleep⟩
  · rw [hall.nodup_iff, nodup_cons]
    exact ⟨count_eq_zero.mp hzero, h.nodup⟩
  · intro u
    have hold := h.forks u
    rw [hforks, hdestroys, hall.count_eq, bump_eq_count, count_singleton, count_cons]
    omega
  · intro u
    rw [hexits, hdestroys]
    exact h.exits u
  · rw [hnum, h.numthreads, threadFork_threads.length_eq, length_cons]

section

variable (h : Models k s) (ht : Tracked k s)
include h ht

theorem grown {sleepers : Arr T}
    (hsleepers : sleepers.Holds s.sleepers) (hzombies : zombies.Holds s.zombies)
    (hqueue : runqueue.Holds s.runqueue) (hs : k.sleepers.max ≤ sleepers.max)
    (hz : k.zombies.max ≤ zombies.max) (hq : k.runqueue.size ≤ runqueue.size) :
    Models { k with sleepers, zombies, runqueue } s ∧
      Tracked { k with sleepers, zombies, runqueue } s ∧
      (Room k → Room { k with sleepers, zombies, runqueue }) := by
  refine ⟨⟨h.curthread, hqueue, hsleepers, hzombies, h.sleepaddr, h.started, h.running⟩,
    ⟨ht.nodup, ht.forks, ht.exits, ht.numthreads, ht.asleep⟩, ?_⟩
  rintro ⟨hs', hz', hq'⟩
  have hnum := hzombies.num.trans h.zombies.num.symm
  refine ⟨le_trans hs' hs, ?_, lt_of_lt_of_le hq' hq⟩
  dsimp only
  omega

theorem forkTail_spec {sleepers : Arr T}
    (hcur : s.curthread = some c) (hnew : k.destroys t = k.forks t)
    (hsleepers : sleepers.Holds s.sleepers) (hzombies : zombies.Holds s.zombies)
    (hqueue : runqueue.Holds s.runqueue) (hs : k.numthreads + 1 ≤ sleepers.max)
    (hq : k.numthreads + 1 ≤ runqueue.size) (mem : Bool) :
    ∃ queue, Threads.makeRunnable mem t { k with sleepers, zombies, runqueue } =
        some ({ k with sleepers, zombies, runqueue := queue }, true) ∧
      let k' : Threads T A := { k with
        sleepers, zombies
        runqueue := queue
        numthreads := k.numthreads + 1
        sleepaddr := update k.sleepaddr t none
        resume := update k.resume t .threadstart
        forks := bump k.forks t }
      Models k' (threadFork t s) ∧ Tracked k' (threadFork t s) ∧
        (Room k' ↔ k.numthreads + 1 < runqueue.size ∧
          k.zombies.num + (k.numthreads + 1) ≤ zombies.max) := by
  have hlen := ht.length_of_cur hcur
  have hnum := hzombies.num.trans h.zombies.num.symm
  have habsent : t ∉ s.runqueue ++ s.sleepers ∧ s.curthread ≠ some t := by
    have hzero : (s.threads ++ s.zombies).count t = 0 := by
      have hold := ht.forks t
      omega
    have hmem := count_eq_zero.mp hzero
    unfold Sys.threads at hmem
    simp only [mem_append, not_or, mem_toList] at hmem ⊢
    tauto
  obtain ⟨queue, hadd, hholds, hsize⟩ := hqueue.addtail (by omega) mem t
  refine ⟨queue, ?_, ⟨?_, ?_, ?_⟩⟩
  · unfold Threads.makeRunnable
    rw [hadd]
    rfl
  · refine ⟨h.curthread, hholds, hsleepers, hzombies, ?_, ?_, ?_⟩
    · intro u hu
      have hne : u ≠ t := fun heq => habsent.1 (mem_append_right _ (heq ▸ hu))
      dsimp only
      rw [update_of_ne hne]
      exact h.sleepaddr u hu
    · intro u hu
      unfold threadFork makeRunnable at hu ⊢
      dsimp only at hu ⊢
      by_cases heq : u = t
      · subst heq
        simp
      · rw [update_of_ne heq, update_of_ne heq]
        apply h.started
        simpa [heq] using hu
    · intro u hu
      have hne : u ≠ t := fun heq => habsent.2 (heq ▸ hu)
      unfold threadFork makeRunnable
      dsimp only
      rw [update_of_ne hne]
      exact h.running u hu
  · exact ht.fork hnew rfl rfl rfl rfl
  · constructor
    · rintro ⟨-, hz, hq⟩
      dsimp only at hz hq
      omega
    · rintro ⟨hq, hz⟩
      refine ⟨hs, ?_, ?_⟩
      · dsimp only
        omega
      · dsimp only
        omega

theorem fork_spec (hcur : s.curthread = some c)
    (hnew : k.destroys t = k.forks t) (mem : Threads.ForkMem) :
    ∃ k', k.threadFork mem t = some (k', k.forkSucceeds mem) ∧
      (k.forkSucceeds mem = false → Models k' s ∧ Tracked k' s ∧ (Room k → Room k')) ∧
      (k.forkSucceeds mem = true → Models k' (threadFork t s) ∧ Tracked k' (threadFork t s) ∧
        (Room k' ↔ k.numthreads + 1 < k.runqueue.sizeFor (k.numthreads + 1) ∧
          k.zombies.num + (k.numthreads + 1) ≤ k.zombies.newmax (k.numthreads + 1))) := by
  obtain ⟨create, stack, memSleepers, memZombies, memQueue, tail⟩ := mem
  obtain ⟨sleepers, hsleepers, hsHolds, hsLe, hsMax⟩ :=
    h.sleepers.preallocate_cases memSleepers (k.numthreads + 1)
  obtain ⟨zombies, hzombies, hzHolds, hzLe, hzMax⟩ :=
    h.zombies.preallocate_cases memZombies (k.numthreads + 1)
  obtain ⟨runqueue, hqueue, hqHolds, hqLe, hqSize⟩ :=
    h.runqueue.preallocate_cases memQueue (k.numthreads + 1)
  unfold Threads.threadFork Threads.forkSucceeds
  cases hfirst : create && stack with
  | false => exact ⟨k, rfl, fun _ => ⟨h, ht, id⟩, nofun⟩
  | true =>
    unfold Threads.forkAtomic
    dsimp only
    rw [hsleepers, bind_eq_bind, bind_some]
    cases memSleepers with
    | false =>
      exact ⟨_, rfl, fun _ => grown h ht hsHolds h.zombies h.runqueue hsLe (le_rfl)
        (le_rfl), nofun⟩
    | true =>
      rw [Bool.not_true, if_neg Bool.false_ne_true, hzombies, bind_eq_bind, bind_some]
      cases memZombies with
      | false =>
        exact ⟨_, rfl, fun _ => grown h ht hsHolds hzHolds h.runqueue hsLe hzLe (le_rfl), nofun⟩
      | true =>
        rw [Bool.not_true, if_neg Bool.false_ne_true, hqueue, bind_eq_bind, bind_some]
        cases hring : memQueue || decide (k.numthreads + 1 ≤ k.runqueue.size) with
        | false => exact ⟨_, rfl, fun _ => grown h ht hsHolds hzHolds hqHolds hsLe hzLe hqLe, nofun⟩
        | true =>
          have hroomS : k.numthreads + 1 ≤ sleepers.max := by
            rw [hsMax rfl]
            exact Arr.le_newmax k.sleepers _
          have hroomQ : k.numthreads + 1 ≤ runqueue.size := by
            rw [hqSize hring]
            exact Queue.le_sizeFor (Nat.zero_lt_of_lt h.runqueue.lt) _
          obtain ⟨queue, hmake, hmodels, htracked, hroom⟩ :=
            forkTail_spec h ht hcur hnew hsHolds hzHolds hqHolds hroomS hroomQ tail
          rw [hqSize hring, hzMax rfl] at hroom
          rw [Bool.not_true, if_neg Bool.false_ne_true, hmake, bind_some]
          exact ⟨_, rfl, nofun, fun _ => ⟨hmodels, htracked, hroom⟩⟩

end

end Os161.Thread
