import Os161.Process.Ops

/-!
# Processes that are created at the same time

`md_forkentry` calls `add_process_child` without `proc_lock`: another thread may run in between.
`runprogram`, `waitpid` and `_exit` are one step each.
-/

open Function Option

namespace Os161.Process.Race

open Lib

/-- Where a thread is. `md_forkentry` knows the thread that called `fork`. -/
inductive Pc (T : Type) where
  | gone
  | user (p : Nat)
  | forking (p : Nat)                              -- in `P(child_sem)`
  -- `md_forkentry`, in the loop of `add_process_child`
  | scan (parent : T) (i : Int)
  | take (parent : T) (i : Int)                    -- calls `remove_process`
  | store (parent : T) (i : Int)                   -- makes the process for slot `i`
  deriving DecidableEq

structure State (T : Type) where
  tab : Tab
  pc : T → Pc T

/-- `md_forkentry` is given memory at `p` and `cv` if it asks for it. -/
inductive Label (T : Type) where
  | runprogram (t : T) (p cv : Nat)
  | fork (me t : T)
  | next (t : T) (p cv : Nat)
  | waitpid (me : T) (pid : Int)
  | exit (me : T) (code : Int)

@[simp] def Label.caller {T : Type} : Label T → Option T
  | .fork me _ | .waitpid me _ | .exit me _ => some me
  | .runprogram _ _ _ | .next _ _ _ => none

section Machine

variable {T : Type} [DecidableEq T]

def scanSlot (tab : Tab) (parent : T) (i : Int) : Pc T := match tab.proctable i with
  | none => .store parent i
  | some x => if reusable tab x then .take parent i else .scan parent (i + 1)

def finish (s : State T) (tab : Tab) (t parent : T) (q : Nat) (pc : Pc T) : State T :=
  ⟨tab, update (update s.pc parent (.user q)) t pc⟩

def next (s : State T) (t : T) (p cv : Nat) : Option (State T) := match s.pc t with
  | .scan parent i =>
    if i < maxProcess then some ⟨s.tab, update s.pc t (scanSlot s.tab parent i)⟩
    else
      match s.pc parent with
      | .forking q => some (finish s s.tab t parent q .gone)
      | _ => none
  | .take parent i =>
    (s.tab.proctable i).bind fun x => (removeProcess s.tab (s.tab.heap x).pid).map fun tab =>
      ⟨tab, update s.pc t (.store parent i)⟩
  | .store parent i =>
    match s.pc parent with
    | .forking q =>
      if s.tab.allocated p = false ∧ s.tab.cvs cv = none then
        some (finish s (newProcess s.tab i (some q) p cv) t parent q (.user p))
      else none
    | _ => none
  | _ => none

def step (s : State T) : Label T → Option (State T)
  | .runprogram t p cv =>
    if s.pc t = .gone then
      if findSlot s.tab = none then some s
      else (addProcess s.tab none p cv).map fun tab => ⟨tab, update s.pc t (.user p)⟩
    else none
  | .fork me t =>
    match s.pc me with
    | .user p =>
      if s.pc t = .gone then
        some ⟨s.tab, update (update s.pc me (.forking p)) t (.scan me 1)⟩
      else none
    | _ => none
  | .next t p cv => next s t p cv
  | .waitpid me pid =>
    match s.pc me with
    | .user p => (reap s.tab p pid).map fun tab => ⟨tab, s.pc⟩
    | _ => none
  | .exit me code =>
    match s.pc me with
    | .user p => (leave s.tab p code).map fun tab => ⟨tab, update s.pc me .gone⟩
    | _ => none

end Machine

variable {T : Type} {tab tab' : Tab} {pc : Pc T} {s s' : State T} {p k cv : Nat} {i : Int}
variable {t u parent : T}

def start (junk : Nat → Proc) : State T := ⟨proctableInit junk, fun _ => .gone⟩

@[simp] def Pc.process : Pc T → Option Nat
  | .user p | .forking p => some p
  | _ => none

@[simp] def Pc.slot : Pc T → Option Int
  | .take _ i | .store _ i => some i
  | _ => none

structure Unique (s : State T) : Prop where
  pid : ∀ t u p q, (s.pc t).process = some p → (s.pc u).process = some q →
    (s.tab.heap p).pid = (s.tab.heap q).pid → t = u
  slot : ∀ t p, (s.pc t).process = some p → s.tab.proctable (s.tab.heap p).pid = some p

@[simp] def Pc.scans : Pc T → Option Int
  | .scan _ i => some i
  | _ => none

@[simp] def looksAt (s : State T) : Label T → Option Int
  | .runprogram _ _ _ => findSlot s.tab
  | .next t _ _ => (s.pc t).scans
  | _ => none

/-- Nobody looks at a slot that another thread has picked. -/
def Apart (s : State T) (l : Label T) : Prop :=
  ∀ u, looksAt s l = none ∨ (s.pc u).slot ≠ looksAt s l

instance [Fintype T] (s : State T) (l : Label T) : Decidable (Apart s l) :=
  inferInstanceAs (Decidable (∀ _, _ ∨ _))

theorem Apart.slot_ne {l : Label T} (h : Apart s l)
    (hi : looksAt s l = some i) (u : T) : (s.pc u).slot ≠ some i := by
  rcases h u with hnone | hne
  · rw [hi] at hnone
    cases hnone
  · rwa [hi] at hne

def At (tab : Tab) : Pc T → Prop
  | .gone => True
  | .user p | .forking p => tab.allocated p = true ∧ (tab.heap p).exit = false
  | .scan _ i => 1 ≤ i
  | .take _ i => ∃ x, tab.proctable i = some x ∧ (tab.heap x).exit = true ∧
      (tab.heap x).parent = none
  | .store _ i => i ∈ slots ∧ tab.proctable i = none

theorem At.process (h : At tab pc) (hp : pc.process = some p) :
    tab.allocated p = true ∧ (tab.heap p).exit = false := by
  cases pc with
  | user q | forking q =>
    obtain rfl : q = p := some.inj hp
    exact h
  | gone | scan | take | store => cases hp

theorem At.leave (h : At tab pc) (hl : Left tab tab' p) (hpc : pc.process ≠ some p)
    (hp : (tab.heap p).exit = false) : At tab' pc := by
  cases pc with
  | gone => trivial
  | user q | forking q =>
    have hne : q ≠ p := fun heq => hpc (congrArg some heq)
    refine ⟨?_, (hl.exit q hne).trans h.2⟩
    rw [hl.allocated]
    exact h.1
  | scan parent i => exact h
  | take parent i =>
    obtain ⟨x, hx, hexit, horphan⟩ := h
    have hne : x ≠ p := by
      rintro rfl
      rw [hp] at hexit
      cases hexit
    refine ⟨x, ?_, ?_, hl.orphan x horphan⟩
    · rw [hl.proctable]
      exact hx
    · rw [hl.exit x hne]
      exact hexit
  | store parent i =>
    refine ⟨h.1, ?_⟩
    rw [hl.proctable]
    exact h.2

theorem At.without (h : At tab pc) (hok : tab.Ok) (hk : tab.allocated k = true)
    (hexit : (tab.heap k).exit = true) (hslot : ∀ i, pc.slot = some i → tab.proctable i ≠ some k) :
    At (tab.without k) pc := by
  cases pc with
  | gone => trivial
  | user q | forking q =>
    refine ⟨without_allocated.mpr ⟨h.1, ?_⟩, h.2⟩
    rintro rfl
    have hrunning := h.2
    rw [hexit] at hrunning
    cases hrunning
  | scan parent i => exact h
  | take parent i =>
    obtain ⟨x, hx, hrest⟩ := h
    have hne : i ≠ (tab.heap k).pid := by
      intro heq
      exact hslot i rfl (heq ▸ hok.home k hk)
    refine ⟨x, ?_, hrest⟩
    exact (update_of_ne hne ..).trans hx
  | store parent i =>
    refine ⟨h.1, ?_⟩
    by_cases heq : i = (tab.heap k).pid
    · rw [heq]
      exact update_self ..
    · exact (update_of_ne heq ..).trans h.2

theorem At.create {parent : Option Nat} (h : At tab pc) (hok : tab.Ok)
    (hfree : tab.allocated p = false) (hslot : pc.slot ≠ some i) :
    At (newProcess tab i parent p cv) pc := by
  cases pc with
  | gone => trivial
  | user q | forking q =>
    refine ⟨newProcess_allocated.mpr (.inr h.1), ?_⟩
    rw [newProcess_kept hfree h.1]
    exact h.2
  | scan parent j => exact h
  | take parent j =>
    obtain ⟨x, hx, hrest⟩ := h
    have hji : j ≠ i := fun heq => hslot (congrArg some heq)
    refine ⟨x, (update_of_ne hji ..).trans hx, ?_⟩
    rw [newProcess_kept hfree (hok.slot j x hx).2.1]
    exact hrest
  | store parent j =>
    have hji : j ≠ i := fun heq => hslot (congrArg some heq)
    exact ⟨h.1, (update_of_ne hji ..).trans h.2⟩

structure Inv (s : State T) : Prop where
  ok : s.tab.Ok
  place : ∀ t, At s.tab (s.pc t)
  inj : ∀ t u p, (s.pc t).process = some p → (s.pc u).process = some p → t = u
  alone : ∀ t u i, (s.pc t).slot = some i → (s.pc u).slot = some i → t = u

theorem Inv.unique (h : Inv s) : Unique s := by
  have hhome : ∀ t p, (s.pc t).process = some p → s.tab.proctable (s.tab.heap p).pid = some p :=
    fun t p hp => h.ok.home p ((h.place t).process hp).1
  refine ⟨?_, hhome⟩
  intro t u p q hp hq hpid
  have hsame := hhome t p hp
  rw [hpid, hhome u q hq] at hsame
  obtain rfl := some.inj hsame
  exact h.inj t u q hp hq

theorem inv_start (junk : Nat → Proc) : Inv (start junk : State T) :=
  ⟨(Process.inv_start junk).ok, fun _ => trivial, nofun, nofun⟩

theorem Inv.waitpid {me : Nat} {pid : Int} (h : Inv s) (hreap : reap s.tab me pid = some tab') :
    Inv ⟨tab', s.pc⟩ := by
  rcases reap_cases h.ok me pid with hsame | ⟨kid, hgone, hkid, hparent, hexit⟩
  · obtain rfl := some.inj (hsame.symm.trans hreap)
    exact h
  · obtain rfl := some.inj (hgone.symm.trans hreap)
    refine ⟨h.ok.remove hkid hexit, ?_, h.inj, h.alone⟩
    intro u
    apply (h.place u).without h.ok hkid hexit
    intro i hi hslot
    -- a slot that is picked is empty or holds an orphan
    have hat := h.place u
    cases hpc : s.pc u with
    | take parent j =>
      rw [hpc] at hat hi
      obtain ⟨x, hx, -, horphan⟩ := hat
      obtain rfl : j = i := some.inj hi
      obtain rfl : x = kid := some.inj (hx.symm.trans hslot)
      rw [horphan] at hparent
      cases hparent
    | store parent j =>
      rw [hpc] at hat hi
      obtain rfl : j = i := some.inj hi
      rw [hat.2] at hslot
      cases hslot
    | gone | user | forking | scan =>
      rw [hpc] at hi
      cases hi

variable [DecidableEq T]

/-- No two threads have the same, and `t` gets something that nobody else has. -/
theorem inj_update {α : Type} {f : Pc T → Option α} {pcs : T → Pc T}
    (hold : ∀ u v x, f (pcs u) = some x → f (pcs v) = some x → u = v)
    (hnew : ∀ u x, u ≠ t → f pc = some x → f (pcs u) ≠ some x) (u v : T) (x : α)
    (hu : f (update pcs t pc u) = some x) (hv : f (update pcs t pc v) = some x) : u = v := by
  by_cases hut : u = t <;> by_cases hvt : v = t
  · rw [hut, hvt]
  · rw [hut, update_self] at hu
    rw [update_of_ne hvt] at hv
    exact absurd hv (hnew v x hvt hu)
  · rw [hvt, update_self] at hv
    rw [update_of_ne hut] at hu
    exact absurd hu (hnew u x hut hv)
  · rw [update_of_ne hut] at hu
    rw [update_of_ne hvt] at hv
    exact hold u v x hu hv

theorem Inv.move (h : Inv s) (hok : tab'.Ok) (hother : ∀ u, u ≠ t → At tab' (s.pc u))
    (hat : At tab' pc) (hinj : ∀ u p, u ≠ t → pc.process = some p → (s.pc u).process ≠ some p)
    (halone : ∀ u i, u ≠ t → pc.slot = some i → (s.pc u).slot ≠ some i) :
    Inv ⟨tab', update s.pc t pc⟩ := by
  refine ⟨hok, ?_, ?_, ?_⟩
  · intro u
    by_cases hu : u = t
    · subst hu
      dsimp only
      rw [update_self]
      exact hat
    · dsimp only
      rw [update_of_ne hu]
      exact hother u hu
  · exact inj_update h.inj hinj
  · exact inj_update h.alone halone

theorem Inv.goto (h : Inv s) (hat : At s.tab pc) (hproc : ∀ p, pc.process = some p →
    (s.pc t).process = some p) (hslot : pc.slot = none) :
    Inv ⟨s.tab, update s.pc t pc⟩ := by
  apply h.move h.ok (fun u _ => h.place u) hat
  · intro u p hu hp hq
    exact hu (h.inj u t p hq (hproc p hp))
  · intro u i _ hi
    rw [hslot] at hi
    cases hi

/-! ## Steps -/

theorem mem_slots (h : 1 ≤ i) (hlt : i < maxProcess) : i ∈ slots := by
  unfold maxProcess at hlt
  unfold slots
  rw [List.mem_map]
  refine ⟨i.toNat, ?_, ?_⟩
  · rw [List.mem_range'_1]
    omega
  · change (i.toNat : Int) = i
    omega

section

variable (h : Inv s)
include h

theorem Inv.scan (hpc : s.pc t = .scan parent i) (hi : i < maxProcess)
    (hfree : ∀ u, (s.pc u).slot ≠ some i) :
    Inv ⟨s.tab, update s.pc t (scanSlot s.tab parent i)⟩ := by
  have hone : 1 ≤ i := by
    have hat := h.place t
    rw [hpc] at hat
    exact hat
  unfold scanSlot
  cases hslot : s.tab.proctable i with
  | none =>
    refine h.move h.ok (fun u _ => h.place u) ⟨mem_slots hone hi, hslot⟩ nofun ?_
    rintro u j - ⟨⟩
    exact hfree u
  | some x =>
    dsimp only
    by_cases hreuse : reusable s.tab x = true
    · rw [if_pos hreuse]
      have horphan := reusable_orphan h.ok (h.ok.slot i x hslot).2.1 hreuse
      refine h.move h.ok (fun u _ => h.place u) ⟨x, hslot, horphan⟩ nofun ?_
      rintro u j - ⟨⟩
      exact hfree u
    · rw [if_neg hreuse]
      refine h.goto ?_ nofun rfl
      change 1 ≤ i + 1
      omega

theorem Inv.take (hpc : s.pc t = .take parent i)
    (hnext : next s t p k = some s') : Inv s' := by
  have hat := h.place t
  rw [hpc] at hat
  obtain ⟨x, hx, hexit, horphan⟩ := hat
  obtain ⟨hi, hxa, hpid⟩ := h.ok.slot i x hx
  unfold next at hnext
  rw [hpc] at hnext
  dsimp only at hnext
  rw [hx, bind_some, removeProcess_eq h.ok hxa] at hnext
  obtain rfl := some.inj hnext
  apply h.move (h.ok.remove hxa hexit)
  · intro u hu
    apply (h.place u).without h.ok hxa hexit
    intro j hj hjx
    -- the slot of `x` is picked by this thread only
    have hji : i = j := hpid.symm.trans (h.ok.slot j x hjx).2.2
    subst hji
    exact hu (h.alone u t i hj (by rw [hpc]; rfl))
  · refine ⟨hi, ?_⟩
    rw [← hpid]
    exact update_self ..
  · nofun
  · rintro u j hu ⟨⟩ hj
    exact hu (h.alone u t i hj (by rw [hpc]; rfl))

theorem Inv.finish {q : Nat} (hparent : s.pc parent = .forking q) :
    Inv ⟨s.tab, update s.pc parent (.user q)⟩ := by
  have hat := h.place parent
  rw [hparent] at hat
  refine h.goto hat ?_ rfl
  rintro p ⟨⟩
  rw [hparent]
  rfl

theorem Inv.store (hpc : s.pc t = .store parent i)
    (hnext : next s t p cv = some s') : Inv s' := by
  have hat := h.place t
  rw [hpc] at hat
  obtain ⟨hi, hslot⟩ := hat
  unfold next at hnext
  rw [hpc] at hnext
  dsimp only at hnext
  split at hnext
  · rename_i q hparent
    obtain ⟨⟨hfree, hcv⟩, rfl⟩ := ite_some_none_eq_some.mp hnext
    have hq := (h.place parent).process (by rw [hparent]; rfl : (s.pc parent).process = some q)
    have hback := h.finish hparent
    have hok : (newProcess s.tab i (some q) p cv).Ok := by
      apply h.ok.create hfree hi hslot hcv
      rintro r ⟨⟩
      exact hq
    apply hback.move hok
    · intro u hu
      apply (hback.place u).create h.ok hfree
      intro hpick
      by_cases hup : u = parent
      · rw [hup] at hpick
        dsimp only at hpick
        rw [update_self] at hpick
        cases hpick
      · dsimp only at hpick
        rw [update_of_ne hup] at hpick
        exact hu (h.alone u t i hpick (by rw [hpc]; rfl))
    · exact ⟨newProcess_allocated.mpr (.inl rfl), by simp [newProcess]⟩
    · rintro u r - ⟨⟩ hr
      -- the memory was free, so no other process is there
      have hra := ((hback.place u).process hr).1
      rw [hfree] at hra
      cases hra
    · rintro u j - ⟨⟩
  · cases hnext

theorem next_inv (hapart : Apart s (.next t p cv))
    (hnext : next s t p cv = some s') : Inv s' := by
  cases hpc : s.pc t with
  | scan parent i =>
    unfold next at hnext
    rw [hpc] at hnext
    dsimp only at hnext
    split at hnext
    · rename_i hi
      obtain rfl := some.inj hnext
      apply h.scan hpc hi
      apply hapart.slot_ne
      simp [hpc]
    · split at hnext
      · rename_i q hparent
        obtain rfl := some.inj hnext
        exact (h.finish hparent).goto trivial nofun rfl
      · cases hnext
  | take parent i => exact h.take hpc hnext
  | store parent i => exact h.store hpc hnext
  | gone | user | forking =>
    unfold next at hnext
    rw [hpc] at hnext
    cases hnext

/-- `md_forkentry` empties the slot of an orphan or fills a slot. -/
theorem next_cases (hnext : next s t p cv = some s') :
    (∀ u k, s.pc u = .user k → s'.pc u = .user k) ∧
    (s'.tab = s.tab ∨
      (∃ x, s.tab.allocated x = true ∧ (s.tab.heap x).exit = true ∧ (s.tab.heap x).parent = none ∧
        s'.tab = s.tab.without x) ∨
      ∃ parent i q, s.pc parent = .forking q ∧ s.tab.allocated p = false ∧ s.tab.cvs cv = none ∧
        s'.tab = newProcess s.tab i (some q) p cv) := by
  have hkeep : ∀ {v : T} {pc pc' : Pc T} {u k}, s.pc v = pc → (∀ k, pc ≠ .user k) →
      s.pc u = .user k → update s.pc v pc' u = .user k := by
    rintro v pc pc' u k hv hpc hu
    rw [update_of_ne, hu]
    rintro rfl
    exact hpc k (hv.symm.trans hu)
  unfold next at hnext
  split at hnext
  · next parent i hpc =>
    split at hnext
    · cases hnext
      exact ⟨fun u k hu => hkeep hpc nofun hu, .inl rfl⟩
    · split at hnext
      · next q hparent =>
        cases hnext
        refine ⟨fun u k hu => ?_, .inl rfl⟩
        have hut : u ≠ t := by
          rintro rfl
          rw [hpc] at hu
          cases hu
        exact (update_of_ne hut ..).trans (hkeep hparent nofun hu)
      · cases hnext
  · next parent i hpc =>
    have hat := h.place t
    rw [hpc] at hat
    obtain ⟨x, hx, hexit, horphan⟩ := hat
    obtain ⟨-, hxa, -⟩ := h.ok.slot i x hx
    rw [hx, bind_some, removeProcess_eq h.ok hxa] at hnext
    cases hnext
    exact ⟨fun u k hu => hkeep hpc nofun hu, .inr (.inl ⟨x, hxa, hexit, horphan, rfl⟩)⟩
  · next parent i hpc =>
    split at hnext
    · next q hparent =>
      obtain ⟨⟨hfree, hcv⟩, rfl⟩ := ite_some_none_eq_some.mp hnext
      refine ⟨fun u k hu => ?_, .inr (.inr ⟨parent, i, q, hparent, hfree, hcv, rfl⟩)⟩
      have hut : u ≠ t := by
        rintro rfl
        rw [hpc] at hu
        cases hu
      exact (update_of_ne hut ..).trans (hkeep hparent nofun hu)
    · cases hnext
  · cases hnext

theorem Inv.runprogram (hapart : Apart s (.runprogram t p cv))
    (hadd : addProcess s.tab none p cv = some tab') :
    Inv ⟨tab', update s.pc t (.user p)⟩ := by
  have hc : Created s.tab tab' none p := addProcess_spec h.ok nofun hadd
  obtain ⟨i, mid, hfind, hi, hclear, hfree, -, rfl⟩ := addProcess_cases h.ok hadd
  have hfar := hapart.slot_ne hfind
  -- the slot is empty already, or an orphan is removed from it first
  have hmid : mid.Ok ∧ ∀ u, At mid (s.pc u) := by
    rcases hclear with ⟨-, rfl⟩ | ⟨x, hx, hxa, hpid, hexit, -, rfl⟩
    · exact ⟨h.ok, h.place⟩
    · refine ⟨h.ok.remove hxa hexit, fun u => (h.place u).without h.ok hxa hexit ?_⟩
      intro j hj hjx
      have hji : i = j := hpid.symm.trans (h.ok.slot j x hjx).2.2
      subst hji
      exact hfar u hj
  refine h.move hc.ok (fun u _ => (hmid.2 u).create hmid.1 hfree (hfar u)) hc.self ?_ nofun
  rintro u q - ⟨⟩ hq
  have hqa := ((hmid.2 u).process hq).1
  rw [hfree] at hqa
  cases hqa

omit [DecidableEq T] in
theorem Inv.user (hpc : s.pc t = .user p) :
    s.tab.allocated p = true ∧ (s.tab.heap p).exit = false := by
  apply (h.place t).process
  rw [hpc]
  rfl

theorem Inv.exit (hpc : s.pc t = .user p) (hl : Left s.tab tab' p) :
    Inv ⟨tab', update s.pc t .gone⟩ := by
  refine h.move hl.ok ?_ trivial nofun nofun
  intro u hu
  apply (h.place u).leave hl _ (h.user hpc).2
  intro hp
  exact hu (h.inj u t p hp (by rw [hpc]; rfl))

theorem step_inv {l : Label T} (hapart : Apart s l) (hstep : step s l = some s') : Inv s' := by
  cases l with
  | runprogram t p cv =>
    obtain ⟨-, hstep⟩ := ite_none_right_eq_some.mp hstep
    split at hstep
    · obtain rfl := some.inj hstep
      exact h
    · obtain ⟨tab', hadd, rfl⟩ := map_eq_some_iff.mp hstep
      exact h.runprogram hapart hadd
  | fork me t =>
    unfold step at hstep
    dsimp only at hstep
    split at hstep
    · rename_i p hme
      obtain ⟨ht, hstep⟩ := ite_none_right_eq_some.mp hstep
      obtain rfl := some.inj hstep
      have hforking : Inv ⟨s.tab, update s.pc me (.forking p)⟩ := by
        have hat := h.place me
        rw [hme] at hat
        refine h.goto hat ?_ rfl
        rintro q ⟨⟩
        rw [hme]
        rfl
      exact hforking.goto (Int.le_refl 1) nofun rfl
    · cases hstep
  | next t p cv => exact next_inv h hapart hstep
  | waitpid me pid =>
    unfold step at hstep
    dsimp only at hstep
    split at hstep
    · obtain ⟨tab', hreap, rfl⟩ := map_eq_some_iff.mp hstep
      exact h.waitpid hreap
    · cases hstep
  | exit me code =>
    unfold step at hstep
    dsimp only at hstep
    split at hstep
    · rename_i p hme
      obtain ⟨tab', hleave, rfl⟩ := map_eq_some_iff.mp hstep
      obtain ⟨tab'', hgo, hl⟩ := leave_spec h.ok (h.user hme).1 (h.user hme).2 code
      obtain rfl := some.inj (hgo.symm.trans hleave)
      exact h.exit hme hl
    · cases hstep

end

theorem pids_unique_of_apart (junk : Nat → Proc) (ls : List (Label T))
    (hapart : Meets step Apart (start junk) ls) : Always step Unique (start junk) ls :=
  always_of_meets (fun _ _ _ h hc hstep => step_inv h hc hstep) (fun _ h => h.unique)
    (inv_start junk) hapart

def twoForks : List (Label (Fin 4)) := [.runprogram 0 0 0, .runprogram 1 1 1, .fork 0 2, .fork 1 3]

theorem pids_unique_of_apart_two_forks :
    let ls := twoForks ++ List.replicate 4 (.next 2 2 2) ++ List.replicate 5 (.next 3 3 3)
    (∃ s ∈ run step (start zeroed) ls, s.pc 2 = .user 2 ∧ s.pc 3 = .user 3) ∧
      Always step Unique (start zeroed) ls := by
  intro ls
  exact ⟨by decide +kernel, pids_unique_of_apart zeroed ls (by decide +kernel)⟩

/-- Both children pick slot 3 before either of them fills it. -/
theorem same_pid_twice :
    (∃ s ∈ run step (start zeroed) (twoForks ++ List.replicate 3 (.next 2 2 2) ++
        List.replicate 3 (.next 3 3 3) ++ [.next 2 2 2, .next 3 3 3]),
      s.pc 2 = .user 2 ∧ s.pc 3 = .user 3 ∧ (s.tab.heap 2).pid = 3 ∧ (s.tab.heap 3).pid = 3 ∧
        s.tab.proctable 3 = some 3) ∧
    ∃ s ∈ run step (start zeroed) ([.runprogram 0 0 0, .fork 0 2] ++
        List.replicate 2 (.next 2 2 2) ++ [.runprogram (1 : Fin 4) 1 1, .next 2 2 2]),
      s.pc 1 = .user 1 ∧ s.pc 2 = .user 2 ∧ (s.tab.heap 1).pid = 2 ∧ (s.tab.heap 2).pid = 2 ∧
        s.tab.proctable 2 = some 2 := by
  decide +kernel

end Os161.Process.Race
