import Os161.Kern.Errno
import Os161.Process.Race

/-!
# `waitpid`, one access at a time

`waitpid` looks the process up before it takes `proc_lock`, and `md_forkentry` never takes it. This
adds the places inside `waitpid` to `Process.Race`. A sleeper may wake up at any time.
-/

open Function Option

namespace Os161.Process.Waitpid

open Lib Kern

structure Ret where
  value : Int
  errno : Option Errno
  status : Option Int
  deriving DecidableEq

inductive Place where
  | got (pid : Int) (kid : Option Nat)             -- after `process_get`
  | held (pid : Int) (kid : Option Nat)            -- after `lock_acquire`
  | asleep (pid : Int) (kid : Nat)                 -- in `cv_wait`
  | loop (pid : Int) (kid : Nat)                   -- back at the test of the loop
  | reap (pid : Int) (kid : Nat)                   -- stores the status
  | remove (pid : Int) (kid : Nat) (status : Int)  -- calls `remove_process`
  | unlock (r : Ret)                               -- calls `lock_release`
  | back (r : Ret)
  deriving DecidableEq

structure State (T : Type) where
  race : Race.State T
  lock : Option T
  place : T → Option Place

/-- `beyond` is what the memory holds behind the table. -/
inductive Label (T : Type) where
  | other (l : Race.Label T)
  | call (t : T) (pid options : Int) (beyond : Option Nat)
  | next (t : T)

def check (tab : Tab) (me : Nat) (pid : Int) : Option Nat → Place
  | none => .unlock ⟨-1, some .EAGAIN, some (-1)⟩
  | some kid =>
    if (tab.heap kid).parent ≠ some me then .unlock ⟨-1, some .ENOMEM, none⟩
    else if (tab.heap kid).exit then .reap pid kid
    else .asleep pid kid

@[simp] def Label.caller {T : Type} : Label T → Option T
  | .other l => l.caller
  | .call t _ _ _ | .next t => some t

def Place.sleeps : Place → Bool
  | .asleep _ _ => true
  | _ => false

section Machine

variable {T : Type} [DecidableEq T]

def State.goto (s : State T) (t : T) (a : Option Place) : State T :=
  { s with place := Function.update s.place t a }

def State.acquire (s : State T) (t : T) (a : Place) : Option (State T) :=
  if s.lock = none then some { s.goto t (some a) with lock := some t } else none

def State.proceed (s : State T) (t : T) (a : Place) : State T :=
  { s.goto t (some a) with lock := if a.sleeps then none else s.lock }

def next (s : State T) (t : T) (me : Nat) : Place → Option (State T)
  | .got pid kid => s.acquire t (.held pid kid)
  | .held pid kid => some (s.proceed t (check s.race.tab me pid kid))
  | .asleep pid kid => s.acquire t (.loop pid kid)
  | .loop pid kid =>
    some (s.proceed t (if (s.race.tab.heap kid).exit then .reap pid kid else .asleep pid kid))
  | .reap pid kid => some (s.goto t (some (.remove pid kid (s.race.tab.heap kid).exitCode)))
  | .remove pid kid status =>
    (removeProcess s.race.tab (s.race.tab.heap kid).pid).map fun tab =>
      { s.goto t (some (.unlock ⟨pid, none, some status⟩)) with race := { s.race with tab } }
  | .unlock r => some { s.goto t (some (.back r)) with lock := none }
  | .back _ => some (s.goto t none)

/-- Those that need `proc_lock` find it free, and a thread that waits is busy. -/
def Ready (s : State T) : Race.Label T → Prop
  | .runprogram _ _ _ => s.lock = none
  | .fork me _ => s.place me = none
  | .next _ _ _ => True
  | .waitpid _ _ => False
  | .exit me _ => s.place me = none ∧ s.lock = none

instance (s : State T) : ∀ l, Decidable (Ready s l)
  | .runprogram _ _ _ => inferInstanceAs (Decidable (s.lock = none))
  | .fork me _ => inferInstanceAs (Decidable (s.place me = none))
  | .next _ _ _ => inferInstanceAs (Decidable True)
  | .waitpid _ _ => inferInstanceAs (Decidable False)
  | .exit me _ => inferInstanceAs (Decidable (s.place me = none ∧ s.lock = none))

def step (s : State T) : Label T → Option (State T)
  | .other l => if Ready s l then (Race.step s.race l).map fun race => { s with race } else none
  | .call t pid options beyond =>
    match s.race.pc t, s.place t with
    | .user _, none =>
      if options ≠ 0 then some (s.goto t (some (.back ⟨-1, some .EINVAL, none⟩)))
      else some (s.goto t (some (.got pid (processGet s.race.tab pid beyond))))
    | _, _ => none
  | .next t =>
    match s.race.pc t, s.place t with
    | .user me, some a => next s t me a
    | _, _ => none

end Machine

variable {T : Type}

def start (junk : Nat → Proc) : State T := ⟨Race.start junk, none, fun _ => none⟩

/-! ## What `waitpid` should do -/

def reads (pid options : Int) : Option Int :=
  if options = 0 ∧ minProcess ≤ pid ∧ pid ≤ maxProcess then some pid else none

/-- The table is as before, and if the result is known now it is -1 and an error. -/
structure Harmless (s s' : State T) (t : T) : Prop where
  tab : s'.race.tab = s.race.tab
  result : ∀ r, s'.place t = some (.unlock r) ∨ s.place t = none ∧ s'.place t = some (.back r) →
    r.value = -1 ∧ r.errno ≠ none

/-- The entry of `pid`, a child that has exited, is removed. -/
structure Reaps (s s' : State T) (t : T) (pid : Int) (kid : Nat) : Prop where
  entry : s.race.tab.proctable pid = some kid
  child : ∃ me, s.race.pc t = .user me ∧ (s.race.tab.heap kid).parent = some me
  exit : (s.race.tab.heap kid).exit = true
  removed : removeProcess s.race.tab pid = some s'.race.tab
  result : s'.place t = some (.unlock ⟨pid, none, some (s.race.tab.heap kid).exitCode⟩)

def State.pid (s : State T) (t : T) : Option Int := (s.place t).bind fun
    | .got pid _ | .held pid _ | .asleep pid _ | .loop pid _ | .reap pid _ | .remove pid _ _ =>
      some pid
    | .unlock _ | .back _ => none

variable [DecidableEq T]

def Proper (s : State T) : Label T → Prop
  | .other _ => True
  | .call t pid options beyond => (∀ i ∈ reads pid options, i ∈ slots) ∧
    ∀ s', step s (.call t pid options beyond) = some s' → Harmless s s' t
  | .next t => ∀ s', step s (.next t) = some s' →
    Harmless s s' t ∨ ∃ pid kid, s.pid t = some pid ∧ Reaps s s' t pid kid

/-- No call reads behind the table or looks at a slot that another thread has picked. -/
def Orderly (s : State T) : Label T → Prop
  | .other l => Race.Apart s.race l
  | .call _ pid options _ => options ≠ 0 ∨ pid ≠ maxProcess
  | .next _ => True

instance [Fintype T] (s : State T) : ∀ l, Decidable (Orderly s l)
  | .other l => inferInstanceAs (Decidable (Race.Apart s.race l))
  | .call _ _ _ _ => inferInstanceAs (Decidable (_ ∨ _))
  | .next _ => inferInstanceAs (Decidable True)

structure Child (tab : Tab) (me : Option Nat) (pid : Int) (k : Nat) : Prop where
  some : me ≠ none
  allocated : tab.allocated k = true
  parent : (tab.heap k).parent = me
  pid : (tab.heap k).pid = pid

theorem Child.keeps {tab tab' : Tab} {me : Option Nat} {pid : Int} {k : Nat}
    (h : Child tab me pid k) (hk : Keeps tab tab' me) : Child tab' me pid k := by
  obtain ⟨ha, hp, hpid, -⟩ := hk.kid k h.allocated h.parent h.some
  exact ⟨h.some, ha, hp, hpid.trans h.pid⟩

theorem processGet_child {tab : Tab} (hok : tab.Ok) {me beyond : Option Nat} {pid : Int} {k : Nat}
    (hpid : pid ≠ maxProcess) (hne : me ≠ none) (hk : processGet tab pid beyond = some k)
    (hp : (tab.heap k).parent = me) : Child tab me pid k := by
  unfold processGet at hk
  rw [if_neg hpid] at hk
  obtain ⟨-, hk⟩ := ite_none_right_eq_some.mp hk
  obtain ⟨-, ha, hpid'⟩ := hok.slot pid k hk
  exact ⟨hne, ha, hp, hpid'⟩

def Knows (tab : Tab) (me : Nat) : Place → Prop
  | .got pid kid | .held pid kid =>
    ∀ k, kid = some k → (tab.heap k).parent = some me → Child tab (some me) pid k
  | .asleep pid k | .loop pid k => Child tab (some me) pid k
  | .reap pid k => Child tab (some me) pid k ∧ (tab.heap k).exit = true
  | .remove pid k status =>
    Child tab (some me) pid k ∧ (tab.heap k).exit = true ∧ (tab.heap k).exitCode = status
  | .unlock _ | .back _ => True

structure Inv (s : State T) : Prop where
  race : Race.Inv s.race
  place : ∀ t a, s.place t = some a → ∃ me, s.race.pc t = .user me ∧ Knows s.race.tab me a

omit [DecidableEq T] in
theorem inv_start (junk : Nat → Proc) : Inv (start junk : State T) := ⟨Race.inv_start junk, nofun⟩

theorem Knows.keeps {tab tab' : Tab} {me : Nat} {a : Place} (h : Knows tab me a)
    (hk : Keeps tab tab' (some me)) : Knows tab' me a := by
  cases a with
  | got pid kid | held pid kid =>
    intro k hkid hparent
    exact (h k hkid (hk.stale k hparent nofun)).keeps hk
  | asleep pid k | loop pid k => exact Child.keeps h hk
  | reap pid k =>
    obtain ⟨hchild, hexit⟩ := h
    obtain ⟨-, -, -, -, -, hkeep⟩ := hk.kid k hchild.allocated hchild.parent hchild.some
    exact ⟨hchild.keeps hk, (hkeep hexit).1⟩
  | remove pid k status =>
    obtain ⟨hchild, hexit, hstatus⟩ := h
    obtain ⟨-, -, -, -, -, hkeep⟩ := hk.kid k hchild.allocated hchild.parent hchild.some
    exact ⟨hchild.keeps hk, (hkeep hexit).1, (hkeep hexit).2.trans hstatus⟩
  | unlock r | back r => trivial

section Others

variable {s' : Race.State T} {u : T} {me : Nat}

theorem keeps_leave {tab tab' : Tab} {p : Nat} {code : Int} (hok : tab.Ok)
    (hp : tab.allocated p = true) (hexit : (tab.heap p).exit = false) (hne : me ≠ p)
    (h : leave tab p code = some tab') : Keeps tab tab' (some me) := by
  have hme : some me ≠ some p := fun heq => hne (some.inj heq)
  have hpass := keeps_pass hok hp code hme
  unfold leave at h
  dsimp only at h
  split at h
  · cases h
    exact hpass
  · next hroot =>
    obtain ⟨heap, hgo, hx⟩ := exitProcess_spec (hok.pass hp code hexit) hp hroot code
    rw [hgo, map_some] at h
    cases h
    have hkeep := hpass.trans (keeps_exit hx hexit hme)
    exact ⟨hkeep.own, hkeep.kid, hkeep.stale, hkeep.done⟩

omit [DecidableEq T] in
theorem ready_caller {l : Race.Label T} {s : State T} {a : Place} (hready : Ready s l)
    (hu : s.place u = some a) : l.caller ≠ some u := by
  intro hcaller
  cases l with
  | runprogram | next => cases hcaller
  | fork parent t =>
    cases hcaller
    rw [show s.place u = none from hready] at hu
    cases hu
  | waitpid t pid => exact hready
  | exit t code =>
    cases hcaller
    rw [hready.1] at hu
    cases hu

theorem keeps_of_step {l : Race.Label T} {s : State T} (h : Race.Inv s.race) (hready : Ready s l)
    (hu : s.race.pc u = .user me) (hcaller : l.caller ≠ some u)
    (hstep : Race.step s.race l = some s') :
    s'.pc u = .user me ∧ Keeps s.race.tab s'.tab (some me) := by
  have hproc : ∀ {v : T} {q : Nat}, u ≠ v → (s.race.pc v).process = some q → q ≠ me := by
    rintro v q huv hv rfl
    refine huv (h.inj u v q ?_ hv)
    rw [hu]
    rfl
  cases l with
  | runprogram t p cv =>
    obtain ⟨ht, hstep⟩ := ite_none_right_eq_some.mp hstep
    split at hstep
    · cases hstep
      exact ⟨hu, .refl ..⟩
    · obtain ⟨tab', hadd, rfl⟩ := map_eq_some_iff.mp hstep
      have hut : u ≠ t := by
        rintro rfl
        rw [hu] at ht
        cases ht
      have hc : Created s.race.tab tab' none p := addProcess_spec h.ok nofun hadd
      exact ⟨(update_of_ne hut ..).trans hu, hc.keeps _ (.inl nofun)⟩
  | fork parent t =>
    unfold Race.step at hstep
    dsimp only at hstep
    split at hstep
    · next p hparent =>
      obtain ⟨ht, hstep⟩ := ite_none_right_eq_some.mp hstep
      cases hstep
      have hut : u ≠ t := by
        rintro rfl
        rw [hu] at ht
        cases ht
      have hup : u ≠ parent := fun heq => hcaller (congrArg some heq.symm)
      refine ⟨?_, .refl ..⟩
      exact (update_of_ne hut ..).trans ((update_of_ne hup ..).trans hu)
    · cases hstep
  | next t p cv =>
    obtain ⟨hpc, htab⟩ := Race.next_cases h hstep
    refine ⟨hpc u me hu, ?_⟩
    rcases htab with heq | ⟨x, hx, hexit, horphan, heq⟩ | ⟨parent, i, q, hparent, hfree, -, heq⟩ <;>
      rw [heq]
    · exact .refl ..
    · refine keeps_remove h.ok hx hexit (.inl ?_)
      rw [horphan]
      exact nofun
    · refine keeps_create hfree h.ok (.inl fun hq => ?_)
      refine hproc ?_ (by rw [hparent]; rfl) (some.inj hq)
      rintro rfl
      rw [hu] at hparent
      cases hparent
  | waitpid t pid => exact hready.elim
  | exit t code =>
    unfold Race.step at hstep
    dsimp only at hstep
    split at hstep
    · next p ht =>
      obtain ⟨tab', hleave, rfl⟩ := map_eq_some_iff.mp hstep
      have hut : u ≠ t := fun heq => hcaller (congrArg some heq.symm)
      obtain ⟨hrun, hexit⟩ := h.user ht
      refine ⟨(update_of_ne hut ..).trans hu, keeps_leave h.ok hrun hexit ?_ hleave⟩
      exact (hproc hut (by rw [ht]; rfl)).symm
    · cases hstep

end Others

/-! ## The steps of `waitpid` -/

theorem slots_bounds {i : Int} (h : i ∈ slots) : minProcess ≤ i ∧ i < maxProcess := by
  unfold slots at h
  rw [List.mem_map] at h
  obtain ⟨n, hn, rfl⟩ := h
  rw [List.mem_range'_1] at hn
  change (1 : Int) ≤ (n : Int) ∧ (n : Int) < 100
  omega

theorem processGet_slot {tab : Tab} {pid : Int} {beyond : Option Nat} (h : pid ∈ slots) :
    processGet tab pid beyond = tab.proctable pid := by
  obtain ⟨hmin, hmax⟩ := slots_bounds h
  unfold processGet
  rw [if_pos ⟨hmin, Int.le_of_lt hmax⟩, if_neg (Int.ne_of_lt hmax)]

section Waits

variable {s s' : State T} {t : T} {me : Nat} {a b : Place}

omit [DecidableEq T] in
theorem Inv.place_of (h : Inv s) (hpc : s.race.pc t = .user me) (hplace : s.place t = some a) :
    Knows s.race.tab me a := by
  obtain ⟨me', hpc', hknows⟩ := h.place t a hplace
  rw [hpc] at hpc'
  cases hpc'
  exact hknows

theorem Inv.goto (h : Inv s) (hpc : s.race.pc t = .user me) {o : Option Place}
    (hknows : ∀ a, o = some a → Knows s.race.tab me a) (lock : Option T) :
    Inv { s.goto t o with lock } := by
  refine ⟨h.race, fun u a hu => ?_⟩
  change update s.place t o u = some a at hu
  by_cases hut : u = t
  · subst hut
    rw [update_self] at hu
    exact ⟨me, hpc, hknows a hu⟩
  · rw [update_of_ne hut] at hu
    exact h.place u a hu

theorem knows_check {pid : Int} {kid : Option Nat} {tab : Tab} (h : Knows tab me (.held pid kid)) :
    Knows tab me (check tab me pid kid) := by
  unfold check
  split
  · trivial
  · next kid =>
    split
    · trivial
    · next hparent =>
      have hchild := h kid rfl (not_not.mp hparent)
      split
      · next hexit => exact ⟨hchild, hexit⟩
      · exact hchild

theorem check_harmless {pid : Int} {kid : Option Nat} {tab : Tab} {r : Ret}
    (h : check tab me pid kid = .unlock r) : r.value = -1 ∧ r.errno ≠ none := by
  unfold check at h
  split at h
  · cases h
    exact ⟨rfl, nofun⟩
  · split at h
    · cases h
      exact ⟨rfl, nofun⟩
    · split at h <;> cases h

theorem harmless_goto {lock : Option T} (hplace : s.place t = some b)
    (hresult : ∀ r, a = .unlock r → r.value = -1 ∧ r.errno ≠ none) :
    Harmless s { s.goto t (some a) with lock } t := by
  refine ⟨rfl, ?_⟩
  rintro r (hr | ⟨hnone, -⟩)
  · change update s.place t (some a) t = _ at hr
    rw [update_self] at hr
    exact hresult r (some.inj hr)
  · rw [hplace] at hnone
    cases hnone

section

variable (h : Inv s) (hpc : s.race.pc t = .user me)
include h hpc

theorem Inv.acquire (hplace : s.place t = some b)
    (hknows : Knows s.race.tab me a) (hresult : ∀ r, a ≠ .unlock r)
    (hstep : s.acquire t a = some s') : Inv s' ∧ Harmless s s' t := by
  obtain ⟨-, rfl⟩ := ite_some_none_eq_some.mp hstep
  refine ⟨h.goto hpc ?_ _, harmless_goto hplace fun r hr => absurd hr (hresult r)⟩
  rintro c ⟨⟩
  exact hknows

theorem Inv.proceed (hplace : s.place t = some b)
    (hknows : Knows s.race.tab me a)
    (hresult : ∀ r, a = .unlock r → r.value = -1 ∧ r.errno ≠ none) :
    Inv (s.proceed t a) ∧ Harmless s (s.proceed t a) t := by
  refine ⟨h.goto hpc ?_ _, harmless_goto hplace hresult⟩
  rintro c ⟨⟩
  exact hknows

theorem Inv.remove {pid status : Int} {kid : Nat}
    (hplace : s.place t = some (.remove pid kid status))
    (hstep : next s t me (.remove pid kid status) = some s') :
    Inv s' ∧ Reaps s s' t pid kid := by
  obtain ⟨hchild, hexit, hstatus⟩ := h.place_of hpc hplace
  have hok := h.race.ok
  have hremove := removeProcess_eq hok hchild.allocated
  have hentry : s.race.tab.proctable pid = some kid := by
    rw [← hchild.pid]
    exact hok.home kid hchild.allocated
  simp only [next, hremove, map_some, some.injEq] at hstep
  subst hstep
  have hreap : reap s.race.tab me pid = some (s.race.tab.without kid) := by
    have hget : processGet s.race.tab pid none = some kid := by
      rw [processGet_slot (hok.slot pid kid hentry).1, hentry]
    unfold reap
    simp only [hget, hchild.parent, hexit, and_self, if_true]
    exact hremove
  refine ⟨⟨h.race.waitpid hreap, fun u a hu => ?_⟩, hentry, ⟨me, hpc, hchild.parent⟩, hexit, ?_, ?_⟩
  · change update s.place t _ u = some a at hu
    by_cases hut : u = t
    · subst hut
      rw [update_self] at hu
      cases hu
      exact ⟨me, hpc, trivial⟩
    · rw [update_of_ne hut] at hu
      obtain ⟨me', hpc', hknows⟩ := h.place u a hu
      refine ⟨me', hpc', hknows.keeps (keeps_remove hok hchild.allocated hexit (.inl ?_))⟩
      rw [hchild.parent]
      rintro ⟨⟩
      apply hut
      apply h.race.inj u t me
      · rw [hpc']
        rfl
      · rw [hpc]
        rfl
  · rw [← hchild.pid]
    exact hremove
  · rw [hstatus]
    exact update_self ..

theorem Inv.next (hplace : s.place t = some a)
    (hstep : next s t me a = some s') :
    Inv s' ∧ (Harmless s s' t ∨ ∃ pid kid, s.pid t = some pid ∧ Reaps s s' t pid kid) := by
  have hknows := h.place_of hpc hplace
  cases a with
  | got pid kid =>
    exact (h.acquire hpc hplace (a := .held pid kid) hknows nofun hstep).imp_right .inl
  | held pid kid =>
    cases hstep
    exact (h.proceed hpc hplace (knows_check hknows) fun r => check_harmless).imp_right .inl
  | asleep pid kid =>
    exact (h.acquire hpc hplace (a := .loop pid kid) hknows nofun hstep).imp_right .inl
  | loop pid kid =>
    cases hstep
    refine (h.proceed hpc hplace ?_ fun r hr => ?_).imp_right .inl
    · split
      · next hexit => exact ⟨hknows, hexit⟩
      · exact hknows
    · split at hr <;> cases hr
  | reap pid kid =>
    cases hstep
    refine ⟨h.goto hpc ?_ _, .inl (harmless_goto hplace nofun)⟩
    rintro b ⟨⟩
    exact ⟨hknows.1, hknows.2, rfl⟩
  | remove pid kid status =>
    obtain ⟨hinv, hreaps⟩ := h.remove hpc hplace hstep
    refine ⟨hinv, .inr ⟨pid, kid, ?_, hreaps⟩⟩
    unfold State.pid
    rw [hplace]
    rfl
  | unlock r =>
    cases hstep
    refine ⟨h.goto hpc ?_ _, .inl (harmless_goto hplace nofun)⟩
    rintro b ⟨⟩
    trivial
  | back r =>
    cases hstep
    refine ⟨h.goto hpc (o := none) (fun b hb => by cases hb) _, .inl ⟨rfl, ?_⟩⟩
    rintro r (hr | ⟨hnone, -⟩)
    · change update s.place t none t = _ at hr
      rw [update_self] at hr
      cases hr
    · rw [hplace] at hnone
      cases hnone

end

end Waits

theorem Inv.call {s s' : State T} {t : T} {pid options : Int} {beyond : Option Nat} (h : Inv s)
    (horderly : options ≠ 0 ∨ pid ≠ maxProcess)
    (hstep : step s (.call t pid options beyond) = some s') : Inv s' ∧ Harmless s s' t := by
  unfold step at hstep
  dsimp only at hstep
  split at hstep
  · next me hpc hplace =>
    split at hstep
    · cases hstep
      refine ⟨h.goto hpc ?_ _, rfl, ?_⟩
      · rintro a ⟨⟩
        trivial
      · rintro r (hr | ⟨-, hr⟩) <;> change update s.place t _ t = _ at hr <;>
          rw [update_self] at hr <;> cases hr
        exact ⟨rfl, nofun⟩
    · next hoptions =>
      have hpid := horderly.resolve_left hoptions
      cases hstep
      refine ⟨h.goto hpc ?_ _, rfl, ?_⟩
      · rintro a ⟨⟩ k hk hparent
        exact processGet_child h.race.ok hpid nofun hk hparent
      · rintro r (hr | ⟨-, hr⟩) <;> change update s.place t _ t = _ at hr <;>
          rw [update_self] at hr <;> cases hr
  · cases hstep

theorem reads_slots {pid options : Int} (h : options ≠ 0 ∨ pid ≠ maxProcess) :
    ∀ i ∈ reads pid options, i ∈ slots := by
  intro i hi
  obtain ⟨⟨hoptions, hmin, hmax⟩, rfl⟩ := ite_some_none_eq_some.mp hi
  have hpid := h.resolve_left (not_not_intro hoptions)
  exact Race.mem_slots hmin (lt_of_le_of_ne hmax hpid)

theorem step_proper {s : State T} {l : Label T} (h : Inv s) (horderly : Orderly s l) :
    Proper s l ∧ ∀ s', step s l = some s' → Inv s' := by
  cases l with
  | other l =>
    refine ⟨trivial, fun s' hstep => ?_⟩
    obtain ⟨hready, hstep⟩ := ite_none_right_eq_some.mp hstep
    obtain ⟨race, hrace, rfl⟩ := map_eq_some_iff.mp hstep
    refine ⟨Race.step_inv h.race horderly hrace, fun u a hu => ?_⟩
    obtain ⟨me, hpc, hknows⟩ := h.place u a hu
    obtain ⟨hpc', hkeeps⟩ := keeps_of_step h.race hready hpc (ready_caller hready hu) hrace
    exact ⟨me, hpc', hknows.keeps hkeeps⟩
  | call t pid options beyond =>
    refine ⟨⟨reads_slots horderly, fun s' hstep => ?_⟩, fun s' hstep => ?_⟩
    · exact (h.call horderly hstep).2
    · exact (h.call horderly hstep).1
  | next t =>
    have hboth : ∀ s', step s (.next t) = some s' → Inv s' ∧
        (Harmless s s' t ∨ ∃ pid kid, s.pid t = some pid ∧ Reaps s s' t pid kid) := by
      intro s' hstep
      unfold step at hstep
      dsimp only at hstep
      split at hstep
      · next me a hpc hplace => exact h.next hpc hplace hstep
      · cases hstep
    exact ⟨fun s' hstep => (hboth s' hstep).2, fun s' hstep => (hboth s' hstep).1⟩

/-- In orderly runs `waitpid` takes only children of the caller out of the table. -/
theorem reaps_own_children (junk : Nat → Proc) (ls : List (Label T))
    (h : Meets step Orderly (start junk) ls) : Meets step Proper (start junk) ls :=
  Meets.imp (fun _ _ hinv horderly => step_proper hinv horderly) (inv_start junk) h

def bothPick : List (Race.Label Nat) :=
  [.runprogram 0 0 0, .runprogram 1 1 1, .fork 0 2, .fork 1 3] ++
    List.replicate 3 (.next 3 3 3) ++ List.replicate 4 (.next 2 2 2)

def strangerRun : List (Label Nat) :=
  bothPick.map .other ++ [.call 0 3 0 none, .next 0, .next 0, .other (.exit 2 5), .next 0, .next 0,
    .next 0, .other (.next 3 3 3)]

/-- A child of another process is removed. With `pid` 100 it reads behind the table. -/
theorem reaps_stranger : (∃ s ∈ run step (start zeroed) strangerRun, ∃ s' ∈ step s (.next 0),
      s.race.pc 0 = .user 0 ∧ s.race.tab.proctable 3 = some 3 ∧
        (s.race.tab.heap 3).parent = some 1 ∧ s'.race.tab.proctable 3 = none ∧
          ¬ Proper s (.next 0)) ∧
    100 ∈ reads 100 0 ∧ 100 ∉ slots := by
  refine ⟨?_, by decide, by decide⟩
  have hrun : ∃ s ∈ run step (start zeroed) strangerRun, ∃ s' ∈ step s (.next 0),
      s.race.pc 0 = .user 0 ∧ s.race.tab.proctable 3 = some 3 ∧
        (s.race.tab.heap 3).parent = some 1 ∧ s'.race.tab.proctable 3 = none ∧
          s.pid 0 = some 3 := by decide +kernel
  obtain ⟨s, hs, s', hs', hpc, hentry, hparent, hgone, hpid⟩ := hrun
  refine ⟨s, hs, s', hs', hpc, hentry, hparent, hgone, fun hproper => ?_⟩
  obtain hharmless | ⟨pid, kid, hpid', hreaps⟩ := hproper s' hs'
  · rw [hharmless.tab, hentry] at hgone
    cases hgone
  · rw [hpid] at hpid'
    cases hpid'
    have hkid := hreaps.entry
    rw [hentry] at hkid
    cases hkid
    obtain ⟨me, hme, hchild⟩ := hreaps.child
    rw [hpc] at hme
    cases hme
    rw [hparent] at hchild
    cases hchild

theorem reaps_own_children_fork :
    let ls : List (Label (Fin 4)) := [.other (.runprogram 0 0 0), .other (.fork 0 2)] ++
      List.replicate 3 (.other (.next 2 2 2)) ++
      [.call 0 2 0 none, .next 0, .next 0, .other (.exit 2 5)] ++ List.replicate 5 (.next 0)
    (∃ s ∈ run step (start zeroed) ls, s.place 0 = some (.back ⟨2, none, some 5⟩) ∧
      s.race.tab.proctable 2 = none) ∧
    Meets step Proper (start zeroed) ls := by
  intro ls
  exact ⟨by decide +kernel, reaps_own_children zeroed ls (by decide +kernel)⟩

end Os161.Process.Waitpid
