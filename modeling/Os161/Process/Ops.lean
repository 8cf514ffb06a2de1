import Os161.Lib.Run
import Os161.Process.Table

/-!
# The process table, one operation at a time

Program starts, `fork`, `waitpid` and `_exit` as single steps.
-/

open Function List Option

namespace Os161.Process

open Lib

structure Procs where
  tab : Tab
  running : List Nat

/-- `_exit` of the process at `p`, from `lock_acquire` to `lock_release`. -/
def leave (tab : Tab) (p : Nat) (code : Int) : Option Tab :=
  let tab := { tab with passed := update tab.passed (tab.heap p).uid (some code) }
  -- "I'm a root, just exit"
  if (tab.heap p).parent = none then some tab
  else (exitProcess tab (tab.heap p).pid code).map fun tab =>
    { tab with cvs := update tab.cvs (tab.heap p).exitCv none }

/-- `waitpid` without sleeping. The word behind the table is taken to be a null pointer. -/
def reap (tab : Tab) (me : Nat) (pid : Int) : Option Tab := match processGet tab pid none with
  | none => some tab
  | some kid =>
    if (tab.heap kid).parent = some me ∧ (tab.heap kid).exit = true then
      removeProcess tab (tab.heap kid).pid
    else some tab

/-- In a `failedStart` and in a `failedFork`, `fd_table_create` fails. -/
inductive Op where
  | runprogram (p cv : Nat)
  | failedStart (p cv : Nat)
  | fork (me p cv : Nat)
  | failedFork (me p cv : Nat)
  | waitpid (me : Nat) (pid : Int)
  | exit (me : Nat) (code : Int)

/-- An operation of a running process. With a full table nothing is created. -/
def opStep (s : Procs) : Op → Option Procs
  | .runprogram p cv =>
    if findSlot s.tab = none then some s
    else (addProcess s.tab none p cv).map fun tab => ⟨tab, p :: s.running⟩
  -- `runprogram` returns the error and the thread exits; the entry stays
  | .failedStart p cv =>
    if findSlot s.tab = none then some s
    else (addProcess s.tab none p cv).map fun tab => ⟨tab, s.running⟩
  | .fork me p cv =>
    if me ∈ s.running then
      if findSlot s.tab = none then some s
      else (addProcess s.tab (some me) p cv).map fun tab => ⟨tab, p :: s.running⟩
    else none
  | .failedFork me p cv =>
    if me ∈ s.running then
      if findSlot s.tab = none then some s
      else (addProcess s.tab (some me) p cv).bind fun tab =>
        (removeProcess tab (tab.heap p).pid).map fun tab => ⟨tab, s.running⟩
    else none
  | .waitpid me pid =>
    if me ∈ s.running then (reap s.tab me pid).map fun tab => ⟨tab, s.running⟩ else none
  | .exit me code =>
    if me ∈ s.running then (leave s.tab me code).map fun tab => ⟨tab, s.running.erase me⟩ else none

def Procs.start (junk : Nat → Proc) : Procs := ⟨proctableInit junk, []⟩

variable {tab tab' : Tab} {s s' : Procs} {p q : Nat} {i pid : Int} {parent : Option Nat} {cv : Nat}
  {code : Int} {junk : Nat → Proc}

structure Left (tab tab' : Tab) (p : Nat) : Prop where
  ok : tab'.Ok
  proctable : tab'.proctable = tab.proctable
  allocated : tab'.allocated = tab.allocated
  kin : tab'.kin = tab.kin
  nextUid : tab'.nextUid = tab.nextUid
  pid : ∀ q, (tab'.heap q).pid = (tab.heap q).pid
  uid : ∀ q, (tab'.heap q).uid = (tab.heap q).uid
  exit : ∀ q, q ≠ p → (tab'.heap q).exit = (tab.heap q).exit
  self : (tab'.heap p).exit = true ↔ (tab.heap p).parent ≠ none
  parent : ∀ q r, r ≠ p → (tab.heap q).parent = some r → (tab'.heap q).parent = some r
  orphan : ∀ q, (tab.heap q).parent = none → (tab'.heap q).parent = none

theorem left_exit {heap : Nat → Proc} (hok : tab.Ok) (hp : tab.allocated p = true)
    (hroot : (tab.heap p).parent ≠ none) (hpass : tab.passed (tab.heap p).uid = some code)
    (hx : ExitHeap tab p code heap) : Left tab { tab with heap } p := by
  refine ⟨hok.exit hp hpass hx, rfl, rfl, rfl, rfl, fun q => (hx.fields q).1,
    fun q => (hx.fields q).2.1, fun q hq => (hx.exit_of_ne hq).1, ?_, ?_, ?_⟩
  · simp [hx.self, hroot]
  · intro q r hr hparent
    by_cases hq : q = p
    · subst hq
      simpa [hx.self] using hparent
    · rcases hx.other q hq with ⟨heq, -⟩ | ⟨-, -, horphan⟩
      · simpa [heq] using hparent
      · exact absurd (some.inj (hparent.symm.trans horphan)) hr
  · intro q hq
    rw [← not_isSome_iff_eq_none, isSome_iff_exists]
    rintro ⟨r, hr⟩
    have hold := (hx.parent_some hr).1
    rw [hq] at hold
    cases hold

theorem leave_spec (hok : tab.Ok) (hp : tab.allocated p = true) (hexit : (tab.heap p).exit = false)
    (code : Int) : ∃ tab', leave tab p code = some tab' ∧ Left tab tab' p := by
  have hpass := hok.pass hp code hexit
  unfold leave
  by_cases hroot : (tab.heap p).parent = none
  · rw [if_pos hroot]
    refine ⟨_, rfl, hpass, rfl, rfl, rfl, rfl, fun _ => rfl, fun _ => rfl, fun _ _ => rfl, ?_,
      fun _ _ _ h => h, fun _ h => h⟩
    rw [hexit, hroot]
    simp
  · obtain ⟨heap, hgo, hx⟩ := exitProcess_spec hpass hp hroot code
    rw [if_neg hroot, hgo]
    have hleft := left_exit hpass hp hroot (update_self ..) hx
    have hexiting := exiting_exit hpass hp hexit hroot hx
    refine ⟨_, rfl, { hleft with ok := hleft.ok.destroyCv hexiting }⟩

structure Added (tab tab' : Tab) (parent : Option Nat) (p : Nat) : Prop where
  slot : ∀ i, findSlot tab ≠ some i → tab'.proctable i = tab.proctable i
  nextUid : tab'.nextUid = tab.nextUid + 1
  kin : ∃ i, tab'.kin = update tab.kin tab.nextUid (parent.map fun q => ((tab.heap q).uid, i))
  uid : (tab'.heap p).uid = tab.nextUid
  parent : (tab'.heap p).parent = parent
  old : ∀ k, tab'.allocated k = true → k ≠ p → tab.allocated k = true ∧ tab'.heap k = tab.heap k

theorem added_of_addProcess (hok : tab.Ok)
    (hparent : ∀ q, parent = some q → tab.allocated q = true ∧ (tab.heap q).exit = false)
    (h : addProcess tab parent p cv = some tab') : Added tab tab' parent p := by
  have hold := (addProcess_spec hok hparent h).old
  obtain ⟨i, mid, hfind, -, hclear, -, -, rfl⟩ := addProcess_cases hok h
  -- clearing the slot changes nothing else that matters here
  have hmid : (∀ j, j ≠ i → mid.proctable j = tab.proctable j) ∧ mid.nextUid = tab.nextUid ∧
      mid.kin = tab.kin ∧ mid.heap = tab.heap := by
    rcases hclear with ⟨-, rfl⟩ | ⟨k, -, -, hpid, -, -, rfl⟩
    · exact ⟨fun _ _ => rfl, rfl, rfl, rfl⟩
    · refine ⟨?_, rfl, rfl, rfl⟩
      intro j hj
      rw [← hpid] at hj
      exact update_of_ne hj ..
  obtain ⟨hproc, huid, hkin, hheap⟩ := hmid
  refine ⟨?_, congrArg (· + 1) huid, ⟨i, ?_⟩, ?_, ?_, hold⟩
  · intro j hj
    have hji : j ≠ i := fun heq => hj (heq ▸ hfind)
    exact (update_of_ne hji ..).trans (hproc j hji)
  · unfold newProcess
    rw [hkin, huid, hheap]
  · unfold newProcess
    simp [huid]
  · unfold newProcess
    simp

/-! ## The invariant -/

structure Procs.Inv (s : Procs) : Prop where
  ok : s.tab.Ok
  nodup : s.running.Nodup
  running : ∀ p ∈ s.running, s.tab.allocated p = true ∧ (s.tab.heap p).exit = false
  kin : ∀ p q n, s.tab.allocated p = true → q ∈ s.running →
    s.tab.kin (s.tab.heap p).uid = some ((s.tab.heap q).uid, n) → (s.tab.heap p).parent = some q
  kin_lt : ∀ p u n, s.tab.allocated p = true → s.tab.kin (s.tab.heap p).uid = some (u, n) →
    u < s.tab.nextUid

theorem inv_start (junk : Nat → Proc) : (Procs.start junk).Inv := by
  refine ⟨⟨?_, ?_, ?_, ?_, ?_, ?_, ?_, ?_, ?_, ?_⟩, nodup_nil, ?_, ?_, ?_⟩ <;>
    simp [Procs.start, proctableInit]

theorem Procs.Inv.create (h : s.Inv) (hparent : ∀ q, parent = some q → q ∈ s.running)
    (hadd : addProcess s.tab parent p cv = some tab') : Procs.Inv ⟨tab', p :: s.running⟩ := by
  have hlive : ∀ q, parent = some q → s.tab.allocated q = true ∧ (s.tab.heap q).exit = false :=
    fun q hq => h.running q (hparent q hq)
  have hc := addProcess_spec h.ok hlive hadd
  have ha := added_of_addProcess h.ok hlive hadd
  obtain ⟨i, hkin⟩ := ha.kin
  have hold : ∀ q ∈ s.running, q ≠ p ∧ tab'.allocated q = true ∧ tab'.heap q = s.tab.heap q := by
    intro q hq
    obtain ⟨hqa, hqe⟩ := h.running q hq
    obtain ⟨hne, hqa', -⟩ := hc.alive q hqa hqe
    exact ⟨hne, hqa', (ha.old q hqa' hne).2⟩
  have huid : ∀ q, s.tab.allocated q = true → (s.tab.heap q).uid ≠ s.tab.nextUid :=
    fun q hq => ne_of_lt (h.ok.uid_lt q hq)
  refine ⟨hc.ok, ?_, ?_, ?_, ?_⟩
  · exact nodup_cons.mpr ⟨fun hp => (hold p hp).1 rfl, h.nodup⟩
  · intro q hq
    rcases mem_cons.mp hq with rfl | hq
    · exact hc.self
    · obtain ⟨-, hqa, hheap⟩ := hold q hq
      rw [hheap]
      exact ⟨hqa, (h.running q hq).2⟩
  · intro q r n hq hr hrel
    rw [hkin] at hrel
    by_cases hqp : q = p
    · -- the new process, and the parent that it was created for
      subst hqp
      rw [ha.uid, update_self, map_eq_some_iff] at hrel
      obtain ⟨x, hx, hpair⟩ := hrel
      obtain ⟨hxp, hxa, hxheap⟩ := hold x (hparent x hx)
      have hxr : (tab'.heap x).uid = (tab'.heap r).uid := by
        rw [hxheap]
        exact congrArg Prod.fst hpair
      have hra : tab'.allocated r = true := by
        rcases mem_cons.mp hr with rfl | hr
        · exact hc.self.1
        · exact (hold r hr).2.1
      rw [ha.parent, hx, hc.ok.uid_inj x r hxa hra hxr]
    · obtain ⟨hqa, hheap⟩ := ha.old q hq hqp
      rw [hheap, update_of_ne (huid q hqa)] at hrel
      rw [hheap]
      rcases mem_cons.mp hr with rfl | hr
      · have hlt := h.kin_lt q _ n hqa hrel
        rw [ha.uid] at hlt
        exact absurd hlt (lt_irrefl _)
      · rw [(hold r hr).2.2] at hrel
        exact h.kin q r n hqa hr hrel
  · intro q u n hq hrel
    rw [hkin] at hrel
    rw [ha.nextUid]
    by_cases hqp : q = p
    · subst hqp
      rw [ha.uid, update_self, map_eq_some_iff] at hrel
      obtain ⟨x, hx, hpair⟩ := hrel
      have hlt := h.ok.uid_lt x (hlive x hx).1
      have hu : (s.tab.heap x).uid = u := congrArg Prod.fst hpair
      omega
    · obtain ⟨hqa, hheap⟩ := ha.old q hq hqp
      rw [hheap, update_of_ne (huid q hqa)] at hrel
      exact Nat.lt_succ_of_lt (h.kin_lt q u n hqa hrel)

theorem Procs.Inv.without (h : s.Inv) (hp : s.tab.allocated p = true)
    (hchild : ∀ q, s.tab.allocated q = true → (s.tab.heap q).parent ≠ some p) :
    Procs.Inv ⟨s.tab.without p, s.running.erase p⟩ := by
  have hmem : ∀ q, q ∈ s.running.erase p ↔ q ≠ p ∧ q ∈ s.running := fun q => h.nodup.mem_erase_iff
  refine ⟨h.ok.remove_childless hp hchild, h.nodup.erase p, ?_, ?_, ?_⟩
  · intro q hq
    obtain ⟨hne, hq⟩ := (hmem q).mp hq
    obtain ⟨hqa, hrest⟩ := h.running q hq
    exact ⟨without_allocated.mpr ⟨hqa, hne⟩, hrest⟩
  · intro q r n hq hr
    exact h.kin q r n (without_allocated.mp hq).1 ((hmem r).mp hr).2
  · intro q u n hq
    exact h.kin_lt q u n (without_allocated.mp hq).1

theorem Procs.Inv.leave (h : s.Inv) (hl : Left s.tab tab' p) :
    Procs.Inv ⟨tab', s.running.erase p⟩ := by
  have hmem : ∀ q, q ∈ s.running.erase p ↔ q ≠ p ∧ q ∈ s.running := fun q => h.nodup.mem_erase_iff
  refine ⟨hl.ok, h.nodup.erase p, ?_, ?_, ?_⟩
  · intro q hq
    obtain ⟨hne, hq⟩ := (hmem q).mp hq
    rw [hl.allocated, hl.exit q hne]
    exact h.running q hq
  · intro q r n hq hr hrel
    obtain ⟨hne, hr⟩ := (hmem r).mp hr
    rw [hl.allocated] at hq
    rw [hl.kin, hl.uid, hl.uid] at hrel
    exact hl.parent q r hne (h.kin q r n hq hr hrel)
  · intro q u n hq hrel
    rw [hl.allocated] at hq
    rw [hl.kin, hl.uid] at hrel
    rw [hl.nextUid]
    exact h.kin_lt q u n hq hrel

theorem reap_cases (hok : tab.Ok) (me : Nat) (pid : Int) :
    reap tab me pid = some tab ∨ ∃ kid, reap tab me pid = some (tab.without kid) ∧
      tab.allocated kid = true ∧ (tab.heap kid).parent = some me ∧ (tab.heap kid).exit = true := by
  unfold reap
  cases hget : processGet tab pid none with
  | none => exact .inl rfl
  | some kid =>
    have hkid : tab.allocated kid = true := by
      obtain ⟨-, hget⟩ := ite_none_right_eq_some.mp hget
      split at hget
      · cases hget
      · exact (hok.slot pid kid hget).2.1
    dsimp only
    by_cases hdone : (tab.heap kid).parent = some me ∧ (tab.heap kid).exit = true
    · rw [if_pos hdone]
      exact .inr ⟨kid, removeProcess_eq hok hkid, hkid, hdone⟩
    · rw [if_neg hdone]
      exact .inl rfl

/-- A new process runs, or a process without children is taken out. -/
inductive Part (s : Procs) : Procs → Prop where
  | create {parent : Option Nat} {p cv : Nat} {tab' : Tab} :
    (∀ q, parent = some q → q ∈ s.running) → addProcess s.tab parent p cv = some tab' →
    Part s ⟨tab', p :: s.running⟩
  | remove {p : Nat} : s.tab.allocated p = true →
    (∀ q, s.tab.allocated q = true → (s.tab.heap q).parent ≠ some p) →
    Part s ⟨s.tab.without p, s.running.erase p⟩

theorem Part.inv (hpart : Part s s') (h : s.Inv) : s'.Inv := by
  cases hpart with
  | create hparent hadd => exact h.create hparent hadd
  | remove hp hchild => exact h.without hp hchild

theorem parts_inv (hparts : Relation.ReflTransGen Part s s') (h : s.Inv) : s'.Inv := by
  induction hparts with
  | refl => exact h
  | tail _ hpart ih => exact hpart.inv ih

theorem failedFork_parts (h : s.Inv) (hq : q ∈ s.running)
    (hadd : addProcess s.tab (some q) p cv = some tab)
    (hremove : removeProcess tab (tab.heap p).pid = some tab') :
    Relation.ReflTransGen Part s ⟨tab', s.running⟩ := by
  have hparent : ∀ x, some q = some x → x ∈ s.running := by
    rintro x ⟨⟩
    exact hq
  have hc := addProcess_spec h.ok (fun x hx => h.running x (hparent x hx)) hadd
  have hchild : ∀ x, tab.allocated x = true → (tab.heap x).parent ≠ some p := by
    intro x hx hpar
    by_cases hxp : x = p
    · subst hxp
      have hlt := (hc.ok.parent x x hx hpar).2.2.1
      exact lt_irrefl _ hlt
    · obtain ⟨hxa, hheap⟩ := hc.old x hx hxp
      rw [hheap] at hpar
      obtain ⟨hpa, hpe, -⟩ := h.ok.parent x p hxa hpar
      exact (hc.alive p hpa hpe).1 rfl
  rw [removeProcess_eq hc.ok hc.self.1] at hremove
  obtain rfl := some.inj hremove
  have hgone : Part ⟨tab, p :: s.running⟩ ⟨tab.without p, (p :: s.running).erase p⟩ :=
    .remove hc.self.1 hchild
  rw [erase_cons_head] at hgone
  exact (Relation.ReflTransGen.single (.create hparent hadd)).tail hgone

theorem waitpid_parts {me : Nat} (h : s.Inv) (hreap : reap s.tab me pid = some tab') :
    Relation.ReflTransGen Part s ⟨tab', s.running⟩ := by
  rcases reap_cases h.ok me pid with hsame | ⟨kid, hgone, hkid, -, hexit⟩
  · obtain rfl := some.inj (hsame.symm.trans hreap)
    exact .refl
  · obtain rfl := some.inj (hgone.symm.trans hreap)
    have hnot : kid ∉ s.running := by
      intro hrun
      have hno := (h.running kid hrun).2
      rw [hexit] at hno
      cases hno
    have hpart : Part s ⟨s.tab.without kid, s.running.erase kid⟩ := by
      apply Part.remove hkid
      intro q hq hparent
      have hno := (h.ok.parent q kid hq hparent).2.1
      rw [hexit] at hno
      cases hno
    rw [erase_of_not_mem hnot] at hpart
    exact .single hpart

/-- A process that calls `_exit` has a parent, and no program start fails that has got a slot. -/
def Clean (s : Procs) : Op → Prop
  | .exit me _ => (s.tab.heap me).parent ≠ none
  | .failedStart _ _ => findSlot s.tab = none
  | _ => True

instance (s : Procs) : ∀ op, Decidable (Clean s op)
  | .exit _ _ => inferInstanceAs (Decidable (_ ≠ none))
  | .failedStart _ _ => inferInstanceAs (Decidable (_ = none))
  | .runprogram _ _ | .fork _ _ _ | .failedFork _ _ _ | .waitpid _ _ =>
    inferInstanceAs (Decidable True)

theorem opStep_cases {op : Op} (h : s.Inv) (hstep : opStep s op = some s') :
    (∃ me code tab', op = .exit me code ∧ me ∈ s.running ∧ Left s.tab tab' me ∧
      s' = ⟨tab', s.running.erase me⟩) ∨
    (∃ p cv tab', op = .failedStart p cv ∧ addProcess s.tab none p cv = some tab' ∧
      findSlot s.tab ≠ none ∧ s' = ⟨tab', s.running⟩) ∨
    Clean s op ∧ Relation.ReflTransGen Part s s' := by
  cases op with
  | runprogram p cv =>
    refine .inr (.inr ⟨trivial, ?_⟩)
    unfold opStep at hstep
    dsimp only at hstep
    split at hstep
    · obtain rfl := some.inj hstep
      exact .refl
    · obtain ⟨tab', hadd, rfl⟩ := map_eq_some_iff.mp hstep
      refine .single (.create ?_ hadd)
      rintro q ⟨⟩
  | failedStart p cv =>
    unfold opStep at hstep
    dsimp only at hstep
    split at hstep
    · next hfull =>
      obtain rfl := some.inj hstep
      exact .inr (.inr ⟨hfull, .refl⟩)
    · next hroom =>
      obtain ⟨tab', hadd, rfl⟩ := map_eq_some_iff.mp hstep
      exact .inr (.inl ⟨p, cv, tab', rfl, hadd, hroom, rfl⟩)
  | fork me p cv =>
    refine .inr (.inr ⟨trivial, ?_⟩)
    obtain ⟨hme, hstep⟩ := ite_none_right_eq_some.mp hstep
    split at hstep
    · obtain rfl := some.inj hstep
      exact .refl
    · obtain ⟨tab', hadd, rfl⟩ := map_eq_some_iff.mp hstep
      refine .single (.create ?_ hadd)
      rintro q ⟨⟩
      exact hme
  | failedFork me p cv =>
    refine .inr (.inr ⟨trivial, ?_⟩)
    obtain ⟨hme, hstep⟩ := ite_none_right_eq_some.mp hstep
    split at hstep
    · obtain rfl := some.inj hstep
      exact .refl
    · obtain ⟨tab', hadd, hstep⟩ := bind_eq_some_iff.mp hstep
      obtain ⟨tab'', hremove, rfl⟩ := map_eq_some_iff.mp hstep
      exact failedFork_parts h hme hadd hremove
  | waitpid me pid =>
    refine .inr (.inr ⟨trivial, ?_⟩)
    obtain ⟨-, hstep⟩ := ite_none_right_eq_some.mp hstep
    obtain ⟨tab', hreap, rfl⟩ := map_eq_some_iff.mp hstep
    exact waitpid_parts h hreap
  | exit me code =>
    obtain ⟨hme, hstep⟩ := ite_none_right_eq_some.mp hstep
    obtain ⟨tab', hleave, rfl⟩ := map_eq_some_iff.mp hstep
    obtain ⟨hma, hmexit⟩ := h.running me hme
    obtain ⟨tab'', hgo, hl⟩ := leave_spec h.ok hma hmexit code
    obtain rfl := some.inj (hgo.symm.trans hleave)
    exact .inl ⟨me, code, _, rfl, hme, hl, rfl⟩

theorem opStep_inv (s : Procs) (op : Op) (s' : Procs) (h : s.Inv) (hstep : opStep s op = some s') :
    s'.Inv := by
  rcases opStep_cases h hstep with ⟨me, code, tab', -, hme, hl, rfl⟩ |
    ⟨p, cv, tab', -, hadd, -, rfl⟩ | ⟨-, hparts⟩
  · exact h.leave hl
  · have hnew := h.create (show ∀ q, none = some q → q ∈ s.running from nofun) hadd
    exact ⟨hnew.ok, h.nodup, fun q hq => hnew.running q (mem_cons_of_mem p hq),
      fun q r n hq hr => hnew.kin q r n hq (mem_cons_of_mem p hr), hnew.kin_lt⟩
  · exact parts_inv hparts h

/-- It runs, or its exit code is for a parent that runs. The histories tell whose child it is. -/
def Guarded (s : Procs) (p : Nat) : Prop := p ∈ s.running ∨ (s.tab.heap p).exit = true ∧
    ∃ q ∈ s.running, ∃ n, s.tab.kin (s.tab.heap p).uid = some ((s.tab.heap q).uid, n)

def ParentOf (tab : Tab) (p q : Nat) : Prop :=
  ∃ i, tab.proctable i = some p ∧ (tab.heap p).parent = some q

structure WellFormed (s : Procs) : Prop where
  pid : ∀ i p, s.tab.proctable i = some p → (s.tab.heap p).pid = i
  parent : ∀ p q, ParentOf s.tab p q → ∃ j, s.tab.proctable j = some q
  acyclic : ∀ p, ¬ Relation.TransGen (ParentOf s.tab) p p
  kept : ∀ i p, s.tab.proctable i = some p → Guarded s p → ∀ parent new cv tab',
    (∀ q, parent = some q → q ∈ s.running) → addProcess s.tab parent new cv = some tab' →
    tab'.proctable i = some p

theorem Procs.Inv.not_reusable (h : s.Inv) (hp : s.tab.allocated p = true) (hg : Guarded s p) :
    reusable s.tab p = false := by
  rw [← Bool.not_eq_true]
  intro hreuse
  obtain ⟨hexit, hparent⟩ := reusable_orphan h.ok hp hreuse
  rcases hg with hrun | ⟨-, q, hq, n, hkin⟩
  · rw [(h.running p hrun).2] at hexit
    cases hexit
  · rw [h.kin p q n hp hq hkin] at hparent
    cases hparent

theorem Procs.Inv.wellFormed (h : s.Inv) : WellFormed s := by
  have hup : ∀ p q, ParentOf s.tab p q →
      s.tab.allocated q = true ∧ (s.tab.heap q).uid < (s.tab.heap p).uid := by
    rintro p q ⟨i, hi, hparent⟩
    obtain ⟨hqa, -, hlt, -⟩ := h.ok.parent p q (h.ok.slot i p hi).2.1 hparent
    exact ⟨hqa, hlt⟩
  constructor
  · intro i p hi
    exact (h.ok.slot i p hi).2.2
  · intro p q hpq
    exact ⟨_, h.ok.home q (hup p q hpq).1⟩
  · -- parents are older than their children
    have hlt : ∀ p q, Relation.TransGen (ParentOf s.tab) p q →
        (s.tab.heap q).uid < (s.tab.heap p).uid := by
      intro p q hpath
      induction hpath with
      | single hpq => exact (hup _ _ hpq).2
      | tail _ hqr ih => exact lt_trans (hup _ _ hqr).2 ih
    intro p hcycle
    exact lt_irrefl _ (hlt p p hcycle)
  · intro i p hi hg parent new cv tab' hparent hadd
    have hlive := fun q hq => h.running q (hparent q hq)
    rw [(added_of_addProcess h.ok hlive hadd).slot i ?_, hi]
    intro hfind
    have htest := List.find?_some hfind
    rw [hi] at htest
    dsimp only at htest
    rw [h.not_reusable (h.ok.slot i p hi).2.1 hg] at htest
    cases htest

theorem process_table_well_formed (junk : Nat → Proc) (ops : List Op) :
    Always opStep WellFormed (Procs.start junk) ops :=
  always_of_inv opStep_inv (fun _ h => h.wellFormed) (inv_start junk) ops

def Recorded (s : Procs) : Prop :=
  ∀ i p, s.tab.proctable i = some p → p ∉ s.running → (s.tab.heap p).exit = true

/-- The table is full only with processes that still need their slots. -/
structure NotLeaked (s : Procs) : Prop where
  recorded : Recorded s
  full : findSlot s.tab = none → ∀ i ∈ slots, ∃ p, s.tab.proctable i = some p ∧ Guarded s p

theorem Procs.Inv.notLeaked (h : s.Inv) (hrec : Recorded s) : NotLeaked s := by
  refine ⟨hrec, ?_⟩
  intro hfull i hi
  have htest := List.find?_eq_none.mp hfull i hi
  cases hslot : s.tab.proctable i with
  | none => simp [hslot] at htest
  | some p =>
    refine ⟨p, rfl, ?_⟩
    rw [hslot] at htest
    by_cases hrun : p ∈ s.running
    · exact .inl hrun
    · -- an exited process is kept for a parent, which has not exited and so runs
      have hexit := hrec i p hslot hrun
      have hp := (h.ok.slot i p hslot).2.1
      cases hparent : (s.tab.heap p).parent with
      | none => simp [reusable, hexit, hparent] at htest
      | some q =>
        obtain ⟨hqa, hqe, -, hkin⟩ := h.ok.parent p q hp hparent
        have hq : q ∈ s.running := by
          by_contra hnot
          rw [hrec _ q (h.ok.home q hqa) hnot] at hqe
          cases hqe
        exact .inr ⟨hexit, q, hq, _, hkin⟩

theorem Part.recorded (hpart : Part s s') (h : s.Inv) (hrec : Recorded s) : Recorded s' := by
  intro i q hi hnot
  have hq := (((hpart.inv h).ok.slot i q hi)).2.1
  cases hpart with
  | create hparent hadd =>
    have hc := addProcess_spec h.ok (fun q hq => h.running q (hparent q hq)) hadd
    obtain ⟨hqp, hnot⟩ := not_or.mp (mem_cons.not.mp hnot)
    obtain ⟨hqa, hheap⟩ := hc.old q hq hqp
    rw [hheap]
    exact hrec _ q (h.ok.home q hqa) hnot
  | remove hp hchild =>
    obtain ⟨hqa, hne⟩ := without_allocated.mp hq
    apply hrec _ q (h.ok.home q hqa)
    intro hrun
    exact hnot (h.nodup.mem_erase_iff.mpr ⟨hne, hrun⟩)

theorem parts_recorded (hparts : Relation.ReflTransGen Part s s') (h : s.Inv) (hrec : Recorded s) :
    Recorded s' := by
  induction hparts with
  | refl => exact hrec
  | tail hfirst hpart ih => exact hpart.recorded (parts_inv hfirst h) ih

theorem Recorded.leave (hrec : Recorded s) (h : s.Inv) (hp : p ∈ s.running)
    (hl : Left s.tab tab' p) :
    Recorded ⟨tab', s.running.erase p⟩ ↔ (s.tab.heap p).parent ≠ none := by
  have hhome := h.ok.home p (h.running p hp).1
  rw [← hl.self]
  constructor
  · intro hnew
    apply hnew (s.tab.heap p).pid p
    · rw [hl.proctable]
      exact hhome
    · exact fun hmem => (h.nodup.mem_erase_iff.mp hmem).1 rfl
  · intro hexit i q hi hnot
    by_cases hqp : q = p
    · rw [hqp]
      exact hexit
    · rw [hl.proctable] at hi
      rw [hl.exit q hqp]
      exact hrec i q hi fun hrun => hnot (h.nodup.mem_erase_iff.mpr ⟨hqp, hrun⟩)

theorem opStep_recorded {op : Op} (h : s.Inv) (hrec : Recorded s) (hstep : opStep s op = some s') :
    Recorded s' ↔ Clean s op := by
  rcases opStep_cases h hstep with ⟨me, code, tab', rfl, hme, hl, rfl⟩ |
    ⟨p, cv, tab', rfl, hadd, hroom, rfl⟩ | ⟨hclean, hparts⟩
  · exact hrec.leave h hme hl
  · refine iff_of_false (fun hnew => ?_) hroom
    have hc : Created s.tab tab' none p := addProcess_spec h.ok nofun hadd
    have hexit := hnew _ p (hc.ok.home p hc.self.1) fun hrun =>
      (hc.alive p (h.running p hrun).1 (h.running p hrun).2).1 rfl
    rw [hc.self.2] at hexit
    cases hexit
  · exact iff_of_true (parts_recorded hparts h hrec) hclean

theorem slots_not_leaked_iff {junk : Nat → Proc} {ops : List Op}
    (hrun : run opStep (Procs.start junk) ops = some s) :
    Always opStep NotLeaked (Procs.start junk) ops ↔
      Meets opStep Clean (Procs.start junk) ops := by
  have hstart : (Procs.start junk).Inv ∧ Recorded (Procs.start junk) := by
    refine ⟨inv_start junk, ?_⟩
    rintro i p ⟨⟩
  have hstep : ∀ s op s', s.Inv ∧ Recorded s → Clean s op → opStep s op = some s' →
      s'.Inv ∧ Recorded s' := by
    rintro s op s' ⟨h, hrec⟩ hop hgo
    exact ⟨opStep_inv s op s' h hgo, (opStep_recorded h hrec hgo).mpr hop⟩
  constructor
  · apply meets_of_always hstep _ hstart hrun
    rintro s op s' ⟨h, hrec⟩ hop hgo hleak
    exact hop ((opStep_recorded h hrec hgo).mp hleak.recorded)
  · exact always_of_meets hstep (fun s h => h.1.notLeaked h.2) hstart

theorem slots_not_leaked_parent :
    (run opStep (Procs.start zeroed) [.runprogram 0 0, .fork 0 1 1, .exit 1 5, .waitpid 0 2]).isSome
        = true ∧
      Always opStep NotLeaked (Procs.start zeroed)
        [.runprogram 0 0, .fork 0 1 1, .exit 1 5, .waitpid 0 2] := by
  refine ⟨by decide +kernel, ?_⟩
  obtain ⟨s, hs⟩ : ∃ s, run opStep (Procs.start zeroed)
      [.runprogram 0 0, .fork 0 1 1, .exit 1 5, .waitpid 0 2] = some s :=
    isSome_iff_exists.mp (by decide +kernel)
  exact (slots_not_leaked_iff hs).mpr (by decide +kernel)

/-- The slot of a program that has exited stays taken. After 99 of them nothing runs. -/
theorem root_exit_leaks_slot :
    (∃ s, run opStep (Procs.start zeroed) [.runprogram 0 0, .exit 0 7] = some s ∧
      s.running = [] ∧ s.tab.proctable 1 = some 0 ∧ (s.tab.heap 0).exit = false ∧
      ¬ Always opStep NotLeaked (Procs.start zeroed) [.runprogram 0 0, .exit 0 7]) ∧
    ∃ s ∈ run opStep (Procs.start zeroed)
        ((List.range 99).flatMap fun p => [.runprogram p p, .exit p 7]),
      s.running = [] ∧ findSlot s.tab = none := by
  refine ⟨?_, by decide +kernel⟩
  have hrun : ∃ s ∈ run opStep (Procs.start zeroed) [.runprogram 0 0, .exit 0 7],
      s.running = [] ∧ s.tab.proctable 1 = some 0 ∧ (s.tab.heap 0).exit = false := by
    decide +kernel
  obtain ⟨s, hs, hnone, hslot, hexit⟩ := hrun
  refine ⟨s, hs, hnone, hslot, hexit, ?_⟩
  intro h
  have hrecorded := (h.last hs).recorded 1 0 hslot (by simp [hnone])
  rw [hexit] at hrecorded
  cases hrecorded

end Os161.Process
