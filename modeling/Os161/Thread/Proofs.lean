import Os161.Thread.Spec

/-!
# What the thread functions do to the lists

Each function moves threads from one list to another, and none is lost or doubled.
-/

open List Option

namespace Os161.Thread

variable {T A : Type} {s : Sys T A} {t c : T}

section WakeLoop

variable [DecidableEq A] {stop : Nat → Bool} {addr : A} {sleepaddr : T → Option A}

theorem wakeLoop_perm (stop : Nat → Bool) (addr : A) (sleepaddr : T → Option A)
    (kept rest : List T) :
    ((wakeLoop stop addr sleepaddr kept rest).1 ++ (wakeLoop stop addr sleepaddr kept rest).2).Perm
      (kept ++ rest) := by
  induction rest generalizing kept with
  | nil => exact List.Perm.refl _
  | cons t rest ih =>
    unfold wakeLoop
    split
    · split
      · -- The loop stops here, with `t` taken out.
        simp only [append_assoc]
        exact List.Perm.append_left kept perm_append_comm
      · exact perm_middle.trans ((List.Perm.cons t (ih kept)).trans perm_middle.symm)
    · simpa using ih (kept ++ [t])

theorem wakeLoop_woken {kept rest : List T} (h : t ∈ (wakeLoop stop addr sleepaddr kept rest).2) :
    t ∈ rest ∧ sleepaddr t = some addr := by
  induction rest generalizing kept with
  | nil => simp [wakeLoop] at h
  | cons u rest ih =>
    unfold wakeLoop at h
    split at h
    · rename_i hu
      split at h
      · obtain rfl : t = u := by simpa using h
        exact ⟨mem_cons_self, hu⟩
      · rcases mem_cons.mp h with rfl | h
        · exact ⟨mem_cons_self, hu⟩
        · exact ⟨mem_cons_of_mem u (ih h).1, (ih h).2⟩
    · exact ⟨mem_cons_of_mem u (ih h).1, (ih h).2⟩

theorem wakeLoop_first (stop : Nat → Bool) (kept : List T) {rest : List T} (ht : t ∈ rest)
    (haddr : sleepaddr t = some addr) :
    ∃ u, u ∈ (wakeLoop stop addr sleepaddr kept rest).2 := by
  induction rest generalizing kept with
  | nil => simp at ht
  | cons u rest ih =>
    unfold wakeLoop
    split
    · split <;> exact ⟨u, mem_cons_self⟩
    · rename_i hu
      rcases mem_cons.mp ht with rfl | ht
      · exact absurd haddr hu
      · exact ih (kept ++ [u]) ht

theorem wakeLoop_all (kept rest : List T) : wakeLoop (fun _ => false) addr sleepaddr kept rest =
    (kept ++ rest.filter (sleepaddr · ≠ some addr), rest.filter (sleepaddr · = some addr)) := by
  induction rest generalizing kept with
  | nil => simp [wakeLoop]
  | cons u rest ih =>
    unfold wakeLoop
    by_cases hu : sleepaddr u = some addr
    · simp [hu, ih]
    · simp [hu, ih]

end WakeLoop

section Wakeup

variable [DecidableEq A] {stop : Nat → Bool} {addr : A}

theorem wakeWith_threads : (wakeWith stop addr s).threads.Perm s.threads := by
  have h : ((wakeLoop stop addr s.sleepaddr [] s.sleepers).1 ++
      (wakeLoop stop addr s.sleepaddr [] s.sleepers).2).Perm s.sleepers := by
    simpa using wakeLoop_perm stop addr s.sleepaddr [] s.sleepers
  simp only [Sys.threads, wakeWith, append_assoc]
  exact List.Perm.append_left _ (List.Perm.append_left _ (perm_append_comm.trans h))

theorem wakeWith_sleepers (h : t ∈ (wakeWith stop addr s).sleepers) : t ∈ s.sleepers := by
  have hperm := wakeLoop_perm stop addr s.sleepaddr [] s.sleepers
  simpa using hperm.subset (mem_append_left _ h)

theorem wakeWith_cases (stop : Nat → Bool) (addr : A) (h : t ∈ s.sleepers) :
    t ∈ (wakeWith stop addr s).sleepers ∨ Runnable (wakeWith stop addr s) t := by
  have hperm := wakeLoop_perm stop addr s.sleepaddr [] s.sleepers
  rcases mem_append.mp (hperm.symm.subset (by simpa using h)) with h | h
  · exact Or.inl h
  · exact Or.inr (Or.inr (mem_append_right _ h))

theorem Runnable.wakeWith (h : Runnable s t) : Runnable (wakeWith stop addr s) t :=
  h.imp_right fun h => mem_append_left _ h

theorem wakeWith_only (ht : t ∈ s.sleepers) (haddr : s.sleepaddr t = some addr)
    (honly : ∀ u ∈ s.sleepers, s.sleepaddr u = some addr → u = t) :
    Runnable (Thread.wakeWith stop addr s) t := by
  obtain ⟨u, hu⟩ := wakeLoop_first stop [] ht haddr
  obtain ⟨hmem, ha⟩ := wakeLoop_woken hu
  rw [honly u hmem ha] at hu
  exact Or.inr (mem_append_right _ hu)

theorem threadWakeup_sleepers (h : t ∈ (threadWakeup addr s).sleepers) :
    t ∈ s.sleepers ∧ s.sleepaddr t ≠ some addr := by
  unfold threadWakeup wakeWith at h
  rw [wakeLoop_all] at h
  simpa using h

theorem threadWakeup_runnable (ht : t ∈ s.sleepers) (haddr : s.sleepaddr t = some addr) :
    Runnable (threadWakeup addr s) t := by
  rcases wakeWith_cases (fun _ => false) addr ht with h | h
  · exact absurd haddr (threadWakeup_sleepers h).2
  · exact h

end Wakeup

section Switch

variable [DecidableEq T]

@[simp] theorem scheduler_sleepers : (scheduler s).sleepers = s.sleepers := by
  unfold scheduler; split <;> rfl

@[simp] theorem scheduler_sleepaddr : (scheduler s).sleepaddr = s.sleepaddr := by
  unfold scheduler; split <;> rfl

theorem scheduler_threads (h : s.curthread = none) : (scheduler s).threads = s.threads := by
  unfold scheduler
  split
  · rfl
  · rename_i hq
    simp [Sys.threads, h, hq]

theorem scheduler_runnable (h : s.curthread = none) : Runnable (scheduler s) t ↔ Runnable s t := by
  unfold scheduler
  split
  · rfl
  · rename_i hq
    simp [Runnable, h, hq, eq_comm]

theorem threadYield_eq (h : s.curthread = some c) :
    threadYield s = scheduler { s with curthread := none, runqueue := s.runqueue ++ [c] } := by
  rw [threadYield, miSwitch, h]; rfl

variable {addr : A}

theorem threadSleep_eq (h : s.curthread = some c) : threadSleep addr s = scheduler { s with
      curthread := none
      sleepers := s.sleepers ++ [c]
      sleepaddr := Function.update s.sleepaddr c (some addr) } := by
  simp [threadSleep, h, miSwitch, setSleepaddr, stash]

theorem threadExit_eq (h : s.curthread = some c) :
    threadExit s = scheduler { s with curthread := none, zombies := s.zombies ++ [c] } := by
  rw [threadExit, miSwitch, h]; rfl

theorem threadResume_eq (h : s.curthread = some c) :
    threadResume s = { s with sleepaddr := Function.update s.sleepaddr c none } := by
  simp [threadResume, h, setSleepaddr]

@[simp] theorem threadResume_curthread : (threadResume s).curthread = s.curthread := by
  unfold threadResume; split <;> rfl

section

variable (h : s.curthread = some c)
include h

theorem threadYield_threads : (threadYield s).threads.Perm s.threads := by
  rw [threadYield_eq h, scheduler_threads rfl]
  simp only [Sys.threads, h, toList_none, toList_some, nil_append]
  exact List.Perm.append_right _ perm_append_comm

theorem threadSleep_threads : (threadSleep addr s).threads.Perm s.threads := by
  rw [threadSleep_eq h, scheduler_threads rfl]
  simp only [Sys.threads, h, toList_none, toList_some, nil_append, cons_append]
  rw [← append_assoc]
  exact perm_append_comm

end

@[simp] theorem threadResume_sleepers : (threadResume s).sleepers = s.sleepers := by
  unfold threadResume; split <;> rfl

theorem threadExit_threads (h : s.curthread = some c) :
    (c :: (threadExit s).threads) = s.threads := by
  rw [threadExit_eq h, scheduler_threads rfl]
  simp [Sys.threads, h]

theorem threadFork_threads : (threadFork t s).threads.Perm (t :: s.threads) := by
  simp only [Sys.threads, threadFork, makeRunnable, append_assoc, singleton_append]
  exact (List.Perm.append_left _ perm_middle).trans perm_middle

theorem threadYield_runnable (h : s.curthread = some c) :
    Runnable (threadYield s) t ↔ Runnable s t := by
  rw [threadYield_eq h, scheduler_runnable rfl]
  simp [Runnable, h, or_comm, eq_comm]

theorem threadSleep_runnable (h : s.curthread = some c) (hne : t ≠ c) :
    Runnable (threadSleep addr s) t ↔ Runnable s t := by
  rw [threadSleep_eq h, scheduler_runnable rfl]
  simp [Runnable, h, hne.symm]

theorem threadExit_runnable (h : s.curthread = some c) (hne : t ≠ c) :
    Runnable (threadExit s) t ↔ Runnable s t := by
  rw [threadExit_eq h, scheduler_runnable rfl]
  simp [Runnable, h, hne.symm]

end Switch

theorem mem_of_runnable (h : Runnable s t) : t ∈ s.curthread.toList ++ s.runqueue := by
  rcases h with h | h
  · simp [h]
  · exact mem_append_right _ h

theorem Runnable.not_sleeper (hnd : s.threads.Nodup) (h : Runnable s t) : t ∉ s.sleepers :=
  fun hs => (nodup_append.mp hnd).2.2 t (mem_of_runnable h) t hs rfl

/-- `alive` are the threads that exist, and `on` is the address a thread sleeps on. -/
structure Placed (s : Sys T A) (alive : T → Prop) (on : T → Option A) : Prop where
  nodup : s.threads.Nodup
  mem : ∀ t, t ∈ s.threads ↔ alive t
  sleeper : ∀ t ∈ s.sleepers, ∃ a, s.sleepaddr t = some a ∧ on t = some a

section Placed

variable {alive : T → Prop} {on on' : T → Option A} {addr : A}

section

variable (h : Placed s alive on)
include h

theorem Placed.cur_alive (hc : s.curthread = some c) : alive c :=
  (h.mem c).mp (mem_append_left _ (mem_of_runnable (Or.inl hc)))

theorem Placed.move (hc : s.curthread = some c)
    (hon : ∀ t, t ≠ c → on' t = on t) : Placed s alive on' where
  nodup := h.nodup
  mem := h.mem
  sleeper := fun t ht => by
    have hne : t ≠ c := by
      rintro rfl
      exact Runnable.not_sleeper h.nodup (Or.inl hc) ht
    rw [hon t hne]
    exact h.sleeper t ht

theorem Placed.wake [DecidableEq A] {stop : Nat → Bool} :
    Placed (wakeWith stop addr s) alive on where
  nodup := wakeWith_threads.nodup_iff.mpr h.nodup
  mem := fun t => wakeWith_threads.mem_iff.trans (h.mem t)
  sleeper := fun t ht => h.sleeper t (wakeWith_sleepers ht)

theorem Placed.fork [DecidableEq T] {alive' : T → Prop} (ht : ¬ alive t)
    (hal : ∀ u, alive' u ↔ u = t ∨ alive u) : Placed (threadFork t s) alive' on where
  nodup := threadFork_threads.nodup_iff.mpr (nodup_cons.mpr ⟨mt (h.mem t).mp ht, h.nodup⟩)
  mem := fun u => by
    rw [threadFork_threads.mem_iff, mem_cons, h.mem, hal]
  sleeper := h.sleeper

end

variable [DecidableEq T]

theorem Placed.dispatch (h : Placed s alive on) (hc : s.curthread = none) :
    Placed (scheduler s) alive on where
  nodup := by rw [scheduler_threads hc]; exact h.nodup
  mem := by rw [scheduler_threads hc]; exact h.mem
  sleeper := by simpa using h.sleeper

section

variable (h : Placed s alive on) (hc : s.curthread = some c)
include h hc

theorem Placed.yield : Placed (threadYield s) alive on where
  nodup := (threadYield_threads hc).nodup_iff.mpr h.nodup
  mem := fun t => (threadYield_threads hc).mem_iff.trans (h.mem t)
  sleeper := by
    rw [threadYield_eq hc]
    simpa using h.sleeper

theorem Placed.sleep (haddr : on' c = some addr)
    (hon : ∀ t, t ≠ c → on' t = on t) : Placed (threadSleep addr s) alive on' where
  nodup := (threadSleep_threads hc).nodup_iff.mpr h.nodup
  mem := fun t => (threadSleep_threads hc).mem_iff.trans (h.mem t)
  sleeper := fun t ht => by
    rw [threadSleep_eq hc] at ht ⊢
    simp only [scheduler_sleepers, scheduler_sleepaddr] at ht ⊢
    by_cases heq : t = c
    · subst heq
      exact ⟨addr, Function.update_self .., haddr⟩
    · have ht : t ∈ s.sleepers := by simpa [heq] using ht
      rw [Function.update_of_ne heq, hon t heq]
      exact h.sleeper t ht

theorem Placed.resume : Placed (threadResume s) alive on := by
  rw [threadResume_eq hc]
  refine ⟨h.nodup, h.mem, fun t ht => ?_⟩
  have hne : t ≠ c := by
    rintro rfl
    exact Runnable.not_sleeper h.nodup (Or.inl hc) ht
  dsimp only
  rw [Function.update_of_ne hne]
  exact h.sleeper t ht

theorem Placed.exit {alive' : T → Prop}
    (hal : ∀ u, alive' u ↔ alive u ∧ u ≠ c) (hon : ∀ t, t ≠ c → on' t = on t) :
    Placed (threadExit s) alive' on' := by
  have hthreads := threadExit_threads hc
  have hnd : (c :: (threadExit s).threads).Nodup := hthreads ▸ h.nodup
  refine ⟨(nodup_cons.mp hnd).2, fun t => ?_, fun t ht => ?_⟩
  · rw [hal, ← h.mem, ← hthreads, mem_cons]
    constructor
    · intro ht
      exact ⟨Or.inr ht, fun heq => (nodup_cons.mp hnd).1 (heq ▸ ht)⟩
    · rintro ⟨heq | ht, hne⟩
      · exact absurd heq hne
      · exact ht
  · rw [threadExit_eq hc] at ht ⊢
    simp only [scheduler_sleepers, scheduler_sleepaddr] at ht ⊢
    exact (h.move hc hon).sleeper t ht

end

end Placed

end Os161.Thread
