import Os161.Files.Spec
import Os161.Process.Waitpid

/-!
# `fork`

`sys_fork` and `md_forkentry` of `kern/syscalls/process_syscall.c`. The child leaves its pid or an
error in `child_pid`, and the parent waits for it at a semaphore.
-/

open Os161.Lib Os161.Kern Os161.Files Option

namespace Os161.Process.Fork

/-- The caller, and what it and the child get from `sem_create`, `thread_fork`, `as_copy`, `kmalloc`
and `vfs_open`. -/
structure Call where
  me : Nat
  (sem thread copied memory : Bool)
  (p cv : Nat)
  consoles : Fin 3 → Outcome
  errnos : ∀ i e, (consoles i).vfs = .error e → 0 < e

structure Kernel where
  tab : Tab
  files : Files.State
  childPid : Int

def Call.fdTableCreate (c : Call) (fs : Files.State) : Option (Files.State × Except Int Unit) :=
  Files.fdTableCreate (fs.addProcess c.p) c.p c.memory c.consoles

/-- With whether the child goes on to user mode after `V`, or exits. -/
def mdForkentry (c : Call) (k : Kernel) : Option (Kernel × Bool) :=
  if !c.copied then some ({ k with childPid := Errno.ENOMEM.code }, false)
  else if findSlot k.tab = none then some ({ k with childPid := Errno.EAGAIN.code }, false)
  else (addProcess k.tab (some c.me) c.p c.cv).bind fun tab =>
    let pid := (tab.heap c.p).pid
    (c.fdTableCreate k.files).bind fun
      | (fs, .error e) => (removeProcess tab pid).map fun tab =>
        (⟨tab, { fs with procs := fs.procs.erase c.p }, e⟩, false)
      | (fs, .ok _) => (fs.table c.me).map fun t => (⟨tab, copyTable fs t c.p, pid⟩, true)

inductive Parent where
  | enter | waits
  | back (err retval : Int)

inductive Child where
  | unborn | entry
  | done (user : Bool)

structure State where
  kern : Kernel
  sem : Nat
  parent : Parent
  child : Child

def refused : Parent := .back Errno.ENOMEM.code (-1)

def sysFork (c : Call) (s : State) : Option State :=
  match s.parent with
  | .enter => some (if c.sem && c.thread then { s with parent := .waits, child := .entry }
      else { s with parent := refused })
  | .waits => if 0 < s.sem then some { s with
        sem := s.sem - 1
        parent := if s.kern.childPid ≤ 0 then refused else .back 0 s.kern.childPid }
      else none
  | .back .. => none

inductive Label where
  | parent | child

/-- The child is one step up to its `V`: until then the parent touches nothing that it uses. -/
def step (c : Call) (s : State) : Label → Option State
  | .parent => sysFork c s
  | .child =>
    match s.child with
    | .entry => (mdForkentry c s.kern).map fun (k, user) =>
      { s with kern := k, sem := s.sem + 1, child := .done user }
    | .unborn | .done _ => none

/-! ## What the caller should learn -/

def ChildFails (c : Call) (k : Kernel) : Prop := c.copied = false ∨ findSlot k.tab = none ∨
  ∃ fs e, c.fdTableCreate k.files = some (fs, .error e)

/-- The process with this pid is a new one of the caller, and goes on to user mode. -/
structure Born (c : Call) (k : Kernel) (s : State) (pid : Int) : Prop where
  user : s.child = .done true
  slot : s.kern.tab.proctable pid = some c.p
  pid : (s.kern.tab.heap c.p).pid = pid
  parent : (s.kern.tab.heap c.p).parent = some c.me
  new : (s.kern.tab.heap c.p).uid = k.tab.nextUid

/-- Nothing is left of the child. -/
structure Gone (k k' : Kernel) : Prop where
  entry : ∀ i q, k'.tab.proctable i = some q → k.tab.proctable i = some q
  table : ∀ q, (k'.files.table q).isSome → (k.files.table q).isSome
  live : k'.files.live ⊆ k.files.live

structure Honest (c : Call) (k : Kernel) (s : State) (err retval : Int) : Prop where
  success : ∀ pid, err = 0 ∧ retval = pid ↔ Born c k s pid
  failure : c.sem = false ∨ c.thread = false ∨ ChildFails c k → err ≠ 0 ∧ Gone k s.kern

/-- Until the call returns somebody can go on, and then it tells what happened but for a failure in
the child. -/
def Right (c : Call) (k : Kernel) (s : State) : Prop :=
  match s.parent with
  | .back err retval => Honest c k s err retval ↔ (c.sem && c.thread) = true → ¬ ChildFails c k
  | _ => (mdForkentry c k).isSome → ∃ l, (step c s l).isSome

variable {c : Call} {k : Kernel} {s s' : State} {l : Label} {r : Kernel × Bool}
variable {fs fs' : Files.State} {e : Int}

theorem openConsoles_pos {p : Nat} {os : List (Int × Outcome)}
    (hvfs : ∀ o ∈ os, ∀ e, o.2.vfs = .error e → 0 < e)
    (h : openConsoles fs p os = some (fs', .error e)) : 0 < e := by
  induction os generalizing fs with
  | nil => cases h
  | cons o os ih =>
    obtain ⟨⟨mid, r⟩, hopen, h⟩ := bind_eq_some_iff.mp h
    cases r with
    | ok => exact ih (fun o ho => hvfs o (List.mem_cons_of_mem _ ho)) h
    | error =>
      cases h
      obtain ⟨t, -, hopen⟩ := bind_eq_some_iff.mp hopen
      have hvfs := hvfs o List.mem_cons_self
      split at hopen <;> grind [EMFILE, ENOMEM]

theorem fdTableCreate_pos (h : c.fdTableCreate fs = some (fs', .error e)) : 0 < e := by
  unfold Call.fdTableCreate Files.fdTableCreate at h
  split at h
  · refine openConsoles_pos (fun o ho e he => ?_) h
    obtain ⟨i, hi⟩ := List.mem_ofFn.mp (List.of_mem_zip ho).2
    exact c.errnos i e (hi ▸ he)
  · cases h; decide

/-- An error in `child_pid` is positive as well. -/
theorem mdForkentry_spec (h : mdForkentry c k = some r) : 0 < r.1.childPid ∧
    (¬ ChildFails c k → ∀ pid b, r.1.childPid = pid ↔ Born c k ⟨r.1, 0, b, .done r.2⟩ pid) := by
  unfold mdForkentry at h
  split_ifs at h with hcopied hslot
  · cases h
    exact ⟨Int.natCast_succ_pos _, fun hn => absurd (.inl (by simpa using hcopied)) hn⟩
  · cases h
    exact ⟨Int.natCast_succ_pos _, fun hn => absurd (.inr (.inl hslot)) hn⟩
  obtain ⟨tab, hadd, h⟩ := bind_eq_some_iff.mp h
  obtain ⟨⟨fs, made⟩, hcreate, h⟩ := bind_eq_some_iff.mp h
  cases made with
  | error e =>
    obtain ⟨tab', -, rfl⟩ := map_eq_some_iff.mp h
    exact ⟨fdTableCreate_pos hcreate, fun hn => absurd (.inr (.inr ⟨fs, e, hcreate⟩)) hn⟩
  | ok =>
    obtain ⟨t, -, rfl⟩ := map_eq_some_iff.mp h
    obtain ⟨i, hfind, hadd⟩ := bind_eq_some_iff.mp hadd
    obtain ⟨mid, hclear, hadd⟩ := bind_eq_some_iff.mp hadd
    obtain ⟨-, rfl⟩ := ite_some_none_eq_some.mp hadd
    have huid : mid.nextUid = k.tab.nextUid := by
      unfold clearSlot at hclear
      split at hclear
      · cases hclear; rfl
      · obtain ⟨q, -, rfl⟩ := map_eq_some_iff.mp hclear
        rfl
    have hpos : 0 < i := (Waitpid.slots_bounds (List.mem_of_find?_eq_some hfind)).1
    refine ⟨by simpa [newProcess] using hpos, fun _ pid b => ⟨?_, Born.pid⟩⟩
    rintro rfl
    exact ⟨rfl, by simp [newProcess], rfl, by simp [newProcess], by simp [newProcess, huid]⟩

/-- The two threads take turns. -/
inductive Inv (c : Call) (k : Kernel) : State → Prop
  | enter : Inv c k ⟨k, 0, .enter, .unborn⟩
  | refused (h : (c.sem && c.thread) = false) : Inv c k ⟨k, 0, refused, .unborn⟩
  | entry (h : (c.sem && c.thread) = true) : Inv c k ⟨k, 0, .waits, .entry⟩
  | ready (h : (c.sem && c.thread) = true) (r : Kernel × Bool) (hr : mdForkentry c k = some r) :
    Inv c k ⟨r.1, 1, .waits, .done r.2⟩
  | back (h : (c.sem && c.thread) = true) (r : Kernel × Bool) (hr : mdForkentry c k = some r) :
    Inv c k ⟨r.1, 0, .back 0 r.1.childPid, .done r.2⟩

theorem Inv.step (h : Inv c k s) (hs : Fork.step c s l = some s') : Inv c k s' := by
  cases h with
  | enter =>
    cases l <;> cases hs
    cases h : c.sem && c.thread with
    | true => exact .entry h
    | false => exact .refused h
  | entry h =>
    cases l with
    | parent => cases hs
    | child =>
      obtain ⟨r, hr, rfl⟩ := map_eq_some_iff.mp hs
      exact .ready h r hr
  | ready h r hr =>
    cases l <;> cases hs
    rw [if_neg (not_le.mpr (mdForkentry_spec hr).1)]
    exact .back h r hr
  | refused | back => cases l <;> cases hs

theorem Inv.right (h : Inv c k s) : Right c k s := by
  cases h with
  | enter => exact fun _ => ⟨.parent, rfl⟩
  | entry => exact fun hr => ⟨.child, by simpa [Fork.step] using hr⟩
  | ready => exact fun _ => ⟨.parent, rfl⟩
  | refused h =>
    refine ⟨fun _ ht => by simp [h] at ht, fun _ => ⟨fun pid => ?_, fun _ => ⟨by decide, ?_⟩⟩⟩
    · exact ⟨fun ⟨h0, _⟩ => absurd h0 (by decide), nofun⟩
    · exact ⟨fun _ _ h => h, fun _ h => h, subset_rfl⟩
  | back h r hr =>
    obtain ⟨hsem, hthread⟩ := Bool.and_eq_true_iff.mp h
    refine ⟨fun hh _ hfails => absurd rfl (hh.failure (.inr (.inr hfails))).1, fun hn => ?_⟩
    refine ⟨fun pid => ?_, fun h' => ?_⟩
    · rw [← (mdForkentry_spec hr).2 (hn h) pid _]
      exact and_iff_right rfl
    · simp [hsem, hthread, hn h] at h'

theorem fork_right (c : Call) (k : Kernel) (ls : List Label) :
    Always (step c) (Right c k) ⟨k, 0, .enter, .unborn⟩ ls :=
  always_of_inv (I := Inv c k) (fun _ _ _ h hs => h.step hs) (fun _ h => h.right) .enter ls

def menuProcess : Kernel :=
  ⟨newProcess (proctableInit zeroed) 1 none 0 0, Files.init fun _ => ⟨0, 0, 0, 0⟩, 0⟩

def noCopy : Call := ⟨0, true, true, false, true, 1, 1, fun _ => ⟨none, .ok 0, true⟩, nofun⟩

theorem error_as_pid : ∃ s,
    run (step noCopy) ⟨menuProcess, 0, .enter, .unborn⟩ [.parent, .child, .parent] = some s ∧
      s.parent = .back 0 4 ∧ s.child = .done false ∧ s.kern.tab.proctable 4 = none ∧
        ¬ Honest noCopy menuProcess s 0 4 :=
  ⟨_, rfl, rfl, rfl, rfl, fun h => absurd rfl (h.failure (.inr (.inr (.inl rfl)))).1⟩

end Os161.Process.Fork
