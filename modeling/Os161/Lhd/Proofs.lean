import Os161.Lhd.Spec
import Os161.Synch.Waiting

/-! # Disk requests do not mix -/

open Os161.Lib Os161.Synch.Many Option

namespace Os161.Lhd

variable {T D : Type} {s s' : State T D} {d d' : Dev D} {t u : T} {p : Pc D} {io : Io}
variable {e : Completion}
  {data : Option D} {n : Nat}

theorem statval_working (io : Io) : io.statval &&& LHD_STATEMASK = LHD_WORKING := by
  unfold Io.statval
  split <;> decide

theorem statval_iswrite (io : Io) : io.statval &&& LHD_ISWRITE ≠ 0 ↔ io.write = true := by
  unfold Io.statval
  cases io.write <;> decide

theorem code_state (e : Completion) (io : Io) :
    (e.code ||| (io.statval &&& LHD_ISWRITE)) &&& LHD_STATEMASK = e.code := by
  unfold Io.statval
  cases io.write <;> cases e <;> decide

theorem lhdCodeToErrno_code (e : Completion) (io : Io) :
    lhdCodeToErrno (e.code ||| (io.statval &&& LHD_ISWRITE)) = none ↔ e = .ok := by
  unfold lhdCodeToErrno
  rw [code_state]
  cases e <;> decide

structure Quiet (d : Dev D) : Prop where
  done : d.done = 0
  stat : d.stat = LHD_IDLE
  outstanding : d.outstanding = 0

def Moved (d : Dev D) (io : Io) (data : Option D) : Prop :=
  if io.write then data = some (d.disk io.at) else d.buf = d.disk io.at

def Filled (d : Dev D) (io : Io) (data : Option D) : Prop := io.write = true → data = some d.buf

structure Reported (d : Dev D) (io : Io) (data : Option D) (n : Nat) : Prop where
  resultOf : d.resultOf = n
  result : d.result = lhdCodeToErrno (d.outcome n)
  moved : d.result = none → Moved d io data

structure Working (d : Dev D) (io : Io) (data : Option D) (n : Nat) : Prop where
  done : d.done = 0
  one : d.outstanding = 1
  num : d.started = n
  stat : d.stat = io.statval
  sect : d.sect = io.at
  filled : Filled d io data
  moved : d.moved = true → Moved d io data

structure Ended (d : Dev D) (io : Io) (data : Option D) (n : Nat) (e : Completion) : Prop where
  done : d.done = 0
  one : d.outstanding = 1
  num : d.started = n
  stat : d.stat = e.code ||| (io.statval &&& LHD_ISWRITE)
  outcome : d.outcome n = d.stat
  moved : e = .ok → Moved d io data

structure Handled (d : Dev D) (io : Io) (data : Option D) (n : Nat) : Prop where
  done : d.done = 1
  none : d.outstanding = 0
  stat : d.stat = LHD_IDLE
  reported : Reported d io data n

inductive Phase (d : Dev D) (io : Io) (data : Option D) (n : Nat) : Prop
  | working (h : Working d io data n)
  | ended (e : Completion) (h : Ended d io data n e)
  | handled (h : Handled d io data n)

theorem Quiet.not_works (h : Quiet d) : d.works = false := by simp [Dev.works, h.stat]

theorem Handled.not_works (h : Handled d io data n) : d.works = false := by
  simp [Dev.works, h.stat]

theorem Ended.not_works (h : Ended d io data n e) : d.works = false := by
  rw [Dev.works, h.stat, code_state]
  cases e <;> rfl

theorem Quiet.start (h : Quiet d) (hfill : Filled d io data) (hsect : d.sect = io.at) :
    Working (d.start io.statval) io data (d.started + 1) where
  done := h.done
  one := by simp [Dev.start, h.outstanding]
  num := rfl
  stat := rfl
  sect := hsect
  filled := hfill
  moved := fun hm => by cases hm

theorem Working.transfer (h : Working d io data n) : Working d.transfer io data n := by
  have hbit := statval_iswrite io
  rw [← h.stat] at hbit
  by_cases hw : io.write = true
  · rw [Dev.transfer, if_pos (hbit.mpr hw)]
    refine ⟨h.done, h.one, h.num, h.stat, h.sect, h.filled, fun _ => ?_⟩
    simp only [Moved, hw, if_true, h.sect, Function.update_self]
    exact h.filled hw
  · rw [Dev.transfer, if_neg (mt hbit.mp hw)]
    refine ⟨h.done, h.one, h.num, h.stat, h.sect, fun hw' => absurd hw' hw, fun _ => ?_⟩
    simp [Moved, hw, Bool.false_eq_true, h.sect]

theorem Working.complete (h : Working d io data n)
    (hm : e = .ok → d.moved = true) : Ended (d.complete e) io data n e where
  done := h.done
  one := h.one
  num := h.num
  stat := by rw [Dev.complete, h.stat]
  outcome := by simp [Dev.complete, h.num]
  moved := fun he => h.moved (hm he)

theorem Ended.irq (h : Ended d io data n e) : ∃ d', lhdIrq d = some d' ∧ Handled d' io data n := by
  have hstate : d.stat &&& LHD_STATEMASK = e.code := by rw [h.stat, code_state]
  have hadd : addCount d.done = some 1 := by rw [h.done]; decide
  refine ⟨{ d with
    stat := 0
    result := lhdCodeToErrno d.stat
    done := 1
    outstanding := d.outstanding - 1
    resultOf := d.started }, ?_, rfl, ?_, rfl, h.num, ?_, fun hres => ?_⟩
  · unfold lhdIrq
    rw [hstate, hadd]
    cases e <;> rfl
  · simp [h.one]
  · rw [h.outcome]
  · rw [h.stat, lhdCodeToErrno_code] at hres
    exact h.moved hres

theorem lhdIrq_of_stat (h : d.stat = LHD_IDLE ∨ d.works = true) : lhdIrq d = some d := by
  have hstate : d.stat &&& LHD_STATEMASK = LHD_IDLE ∨ d.stat &&& LHD_STATEMASK = LHD_WORKING := by
    rcases h with h | h
    · exact Or.inl (by rw [h]; rfl)
    · exact Or.inr (by simpa [Dev.works] using h)
  rcases hstate with h | h
  · simp [lhdIrq, h]
  · simp [lhdIrq, h]

theorem Phase.irq (h : Phase d io data n) : ∃ d', lhdIrq d = some d' ∧ Phase d' io data n := by
  cases h with
  | working h =>
    exact ⟨d, lhdIrq_of_stat (Or.inr (by simp [Dev.works, h.stat, statval_working])), .working h⟩
  | ended e h =>
    obtain ⟨d', hirq, hd'⟩ := h.irq
    exact ⟨d', hirq, .handled hd'⟩
  | handled h => exact ⟨d, lhdIrq_of_stat (Or.inl h.stat), .handled h⟩

def Pc.Inside : Pc D → Prop
  | .out | .clear _ => False
  | _ => True

def Owns (d : Dev D) : Pc D → Prop
  | .fill _ | .leave _ _ => Quiet d
  | .sect io data => Quiet d ∧ Filled d io data
  | .start io data => Quiet d ∧ Filled d io data ∧ d.sect = io.at
  | .wait io data n => Phase d io data n
  | .ready io data n => Quiet d ∧ Reported d io data n
  | .copy io _ => Quiet d ∧ d.buf = d.disk io.at
  | .out | .clear _ => False

structure Free (s : State T D) : Prop where
  clear : s.clear = 1
  quiet : Quiet s.dev
  nobody : ∀ u, ¬ (s.pc u).Inside

structure Held (s : State T D) (t : T) : Prop where
  clear : s.clear = 0
  owns : Owns s.dev (s.pc t)
  alone : ∀ u, u ≠ t → ¬ (s.pc u).Inside

structure Inv (s : State T D) : Prop where
  running : s.panicked = false
  owner : Free s ∨ ∃ t, Held s t

theorem Owns.inside (h : Owns d p) : p.Inside := by
  cases p <;> first | exact h.elim | trivial

theorem Owns.cases (h : Owns d p) :
    Quiet d ∨ ∃ io data n, p = .wait io data n ∧ Phase d io data n := by
  cases p with
  | out => exact h.elim
  | clear io => exact h.elim
  | fill io => exact Or.inl h
  | sect io data => exact Or.inl h.1
  | start io data => exact Or.inl h.1
  | wait io data n => exact Or.inr ⟨io, data, n, rfl, h⟩
  | ready io data n => exact Or.inl h.1
  | copy io n => exact Or.inl h.1
  | leave io result => exact Or.inl h

theorem Inv.held (h : Inv s) (ht : (s.pc t).Inside) : Held s t := by
  rcases h.owner with hfree | ⟨u, hheld⟩
  · exact absurd ht (hfree.nobody t)
  · obtain rfl : t = u := by
      by_contra hne
      exact hheld.alone t hne ht
    exact hheld

theorem loop_outside (io : Io) : ¬ (loop io : Pc D).Inside := by
  unfold loop
  split <;> exact fun h => h

theorem lhdIo_outside (blocks : BitVec 32) (write : Bool) (offset resid : BitVec 32) :
    ¬ (lhdIo blocks write offset resid : Pc D).Inside := by
  unfold lhdIo
  dsimp only
  split
  · exact fun h => h
  · split
    · exact fun h => h
    · exact loop_outside _

theorem Inv.cases (h : Inv s) :
    Quiet s.dev ∨ ∃ t io data n, Held s t ∧ s.pc t = .wait io data n ∧ Phase s.dev io data n := by
  rcases h.owner with hfree | ⟨t, hheld⟩
  · exact Or.inl hfree.quiet
  · rcases hheld.owns.cases with hquiet | ⟨io, data, n, hpc, hphase⟩
    · exact Or.inl hquiet
    · exact Or.inr ⟨t, io, data, n, hheld, hpc, hphase⟩

theorem Inv.working (h : Inv s) (hw : s.dev.works = true) :
    ∃ t io data n, Held s t ∧ s.pc t = .wait io data n ∧ Working s.dev io data n := by
  rcases h.cases with hquiet | ⟨t, io, data, n, hheld, hpc, hphase⟩
  · simp [hquiet.not_works] at hw
  · cases hphase with
    | working hworking => exact ⟨t, io, data, n, hheld, hpc, hworking⟩
    | ended e hended => simp [hended.not_works] at hw
    | handled hhandled => simp [hhandled.not_works] at hw

theorem Held.device (h : Held s t) (hrun : s.panicked = false) (hpc : s.pc t = .wait io data n)
    (hphase : Phase d' io data n) : Inv { s with dev := d' } where
  running := hrun
  owner := by
    refine Or.inr ⟨t, h.clear, ?_, h.alone⟩
    rw [hpc]
    exact hphase

theorem Inv.irq (h : Inv s) : ∃ d', lhdIrq s.dev = some d' ∧ Inv { s with dev := d' } := by
  rcases h.cases with hquiet | ⟨t, io, data, n, hheld, hpc, hphase⟩
  · exact ⟨s.dev, lhdIrq_of_stat (Or.inl hquiet.stat), h⟩
  · obtain ⟨d', hirq, hd'⟩ := hphase.irq
    exact ⟨d', hirq, hheld.device h.running hpc hd'⟩

variable [DecidableEq T]

/-! ## Threads -/

@[simp] theorem goto_self : (goto s t p).pc t = p := by simp [goto]

theorem goto_other (h : u ≠ t) : (goto s t p).pc u = s.pc u := by simp [goto, h]

theorem Inv.outside (h : Inv s) (ht : ¬ (s.pc t).Inside) (hp : ¬ p.Inside) : Inv (goto s t p) where
  running := h.running
  owner := by
    have hstay : ∀ u, ¬ (s.pc u).Inside → ¬ ((goto s t p).pc u).Inside := fun u hu => by
      by_cases hut : u = t
      · subst hut
        rwa [goto_self]
      · rwa [goto_other hut]
    rcases h.owner with hfree | ⟨v, hheld⟩
    · exact Or.inl ⟨hfree.clear, hfree.quiet, fun u => hstay u (hfree.nobody u)⟩
    · have hvt : v ≠ t := by
        rintro rfl
        exact ht hheld.owns.inside
      refine Or.inr ⟨v, hheld.clear, ?_, fun u hu => hstay u (hheld.alone u hu)⟩
      rw [goto_other hvt]
      exact hheld.owns

theorem Held.goto (h : Held s t) (hrun : s.panicked = false) (hp : Owns d' p) :
    Inv (goto { s with dev := d' } t p) where
  running := hrun
  owner := by
    refine Or.inr ⟨t, h.clear, ?_, fun u hu => ?_⟩
    · rw [goto_self]
      exact hp
    · rw [goto_other hu]
      exact h.alone u hu

theorem Inv.enter (h : Inv s) (henter : enter s t io = some s') : Inv s' := by
  rcases h.owner with hfree | ⟨u, hheld⟩
  · have htake : takeCount (1 : Int) = some 0 := by decide
    simp only [Lhd.enter, hfree.clear, one_ne_zero, if_false, htake, some.injEq] at henter
    subst henter
    refine ⟨h.running, Or.inr ⟨t, rfl, ?_, fun u hu => ?_⟩⟩
    · rw [goto_self]
      split
      · exact hfree.quiet
      · rename_i hw
        exact ⟨hfree.quiet, fun hw' => absurd hw' hw⟩
    · rw [goto_other hu]
      exact hfree.nobody u
  · -- The device is taken, so the thread sleeps.
    simp [Lhd.enter, hheld.clear] at henter

section

variable (h : Held s t) (hrun : s.panicked = false)
include h hrun

theorem Held.await (hphase : Phase s.dev io data n)
    (hawait : await s t io data n = some s') : Inv s' := by
  have hzero : s.dev.done ≠ 0 := by
    rintro hzero
    simp [Lhd.await, hzero] at hawait
  cases hphase with
  | working hw => exact absurd hw.done hzero
  | ended e he => exact absurd he.done hzero
  | handled hh =>
    have htake : takeCount (1 : Int) = some 0 := by decide
    simp only [Lhd.await, hh.done, one_ne_zero, if_false, htake, some.injEq] at hawait
    subst hawait
    refine h.goto hrun ⟨⟨rfl, hh.stat, hh.none⟩, hh.reported.resultOf, hh.reported.result, ?_⟩
    exact hh.reported.moved

theorem Held.getResult (hquiet : Quiet s.dev)
    (hrep : Reported s.dev io data n) : Inv (getResult s t io n) := by
  refine h.goto hrun ?_
  split
  · rename_i hread
    refine ⟨hquiet, ?_⟩
    have := hrep.moved hread.1
    simpa [Moved, hread.2] using this
  · exact hquiet

theorem Held.leave {result : Option Errno}
    (hquiet : Quiet s.dev) : Inv (leave s t io result) := by
  have hadd : addCount (0 : Int) = some 1 := by decide
  simp only [Lhd.leave, h.clear, hadd]
  refine ⟨hrun, Or.inl ⟨rfl, hquiet, fun u => ?_⟩⟩
  by_cases hut : u = t
  · subst hut
    rw [goto_self]
    split
    · exact loop_outside _
    · exact fun h => h
  · rw [goto_other hut]
    exact h.alone u hut

end

theorem Inv.go {x : D} {err : Option Errno} (h : Inv s) (hgo : go s t x err = some s') : Inv s' := by
  unfold Lhd.go at hgo
  split at hgo <;> rename_i hpc
  · cases hgo
  · exact h.enter hgo
  all_goals have hheld := h.held (t := t) (by rw [hpc]; trivial)
  all_goals have howns := hheld.owns
  all_goals rw [hpc] at howns
  all_goals try cases hgo
  · -- `uiomove` fills the buffer or fails
    refine hheld.goto h.running ?_
    split
    · exact ⟨⟨howns.done, howns.stat, howns.outstanding⟩, fun _ => rfl⟩
    · exact ⟨howns.done, howns.stat, howns.outstanding⟩
  · exact hheld.goto h.running
      ⟨⟨howns.1.done, howns.1.stat, howns.1.outstanding⟩, howns.2, rfl⟩
  · exact hheld.goto h.running (.working (howns.1.start howns.2.1 howns.2.2))
  · exact hheld.await h.running howns hgo
  · exact hheld.getResult h.running howns.1 howns.2
  · exact hheld.goto h.running howns.1
  · exact hheld.leave h.running howns

theorem step_inv {blocks : BitVec 32} (a : Label T D) (h : Inv s)
    (hstep : step blocks s a = some s') : Inv s' := by
  unfold step at hstep
  rw [if_neg (by simp [h.running])] at hstep
  cases a with
  | call t write offset resid =>
    simp only at hstep
    split at hstep <;> cases hstep
    rename_i hpc
    exact h.outside (by simp [hpc, Pc.Inside]) (lhdIo_outside _ _ _ _)
  | run t x err => exact h.go hstep
  | transfer =>
    obtain ⟨hw, rfl⟩ := Option.ite_some_none_eq_some.mp hstep
    obtain ⟨t, io, data, n, hheld, hpc, hworking⟩ := h.working hw
    exact hheld.device h.running hpc (.working hworking.transfer)
  | complete e =>
    obtain ⟨⟨hw, hm⟩, rfl⟩ := Option.ite_some_none_eq_some.mp hstep
    obtain ⟨t, io, data, n, hheld, hpc, hworking⟩ := h.working hw
    exact hheld.device h.running hpc (.ended e (hworking.complete hm))
  | irq =>
    obtain ⟨d', hirq, hinv⟩ := h.irq
    simp only [hirq, some.injEq] at hstep
    subst hstep
    exact hinv

omit [DecidableEq T] in
theorem Inv.unmixed (h : Inv s) : Unmixed s where
  one := by
    rcases h.cases with hquiet | ⟨t, io, data, n, -, -, hphase⟩
    · simp [hquiet.outstanding]
    · cases hphase with
      | working hw => exact hw.one.le
      | ended e he => exact he.one.le
      | handled hh => simp [hh.none]
  working := fun hw => by
    obtain ⟨t, io, data, n, -, hpc, hworking⟩ := h.working hw
    refine ⟨t, io, data, ?_, hworking.sect, ?_, hworking.filled⟩
    · rw [hworking.num, hpc]
    · rw [hworking.stat, statval_iswrite]
  result := fun t io data n hpc => by
    have howns := (h.held (t := t) (by rw [hpc]; trivial)).owns
    rw [hpc] at howns
    exact ⟨howns.2.resultOf, howns.2.result⟩
  read := fun t io n hpc => by
    have howns := (h.held (t := t) (by rw [hpc]; trivial)).owns
    rw [hpc] at howns
    exact howns.2
  written := fun t io data n hpc hw hres => by
    have howns := (h.held (t := t) (by rw [hpc]; trivial)).owns
    rw [hpc] at howns
    simpa [Moved, hw] using howns.2.moved hres
  rest := fun hout => by
    rcases h.owner with hfree | ⟨t, hheld⟩
    · exact ⟨hfree.clear, hfree.quiet.done⟩
    · have howns := hheld.owns
      rw [hout t] at howns
      exact howns.elim
  asserts := h.running

omit [DecidableEq T] in
theorem inv_init (sect : BitVec 32) (buf : D) (disk : BitVec 32 → D) :
    Inv (init sect buf disk : State T D) :=
  ⟨rfl, Or.inl ⟨rfl, ⟨rfl, rfl, rfl⟩, fun _ h => h⟩⟩

/-- No thread gets the result or the data of another one's request. -/
theorem disk_requests_unmixed (blocks sect : BitVec 32) (buf : D) (disk : BitVec 32 → D)
    (as : List (Label T D)) : Always (step blocks) Unmixed (init sect buf disk) as :=
  always_of_inv (fun _ a _ h hs => step_inv a h hs) (fun _ h => h.unmixed) (inv_init sect buf disk) as

end Os161.Lhd
