import Mathlib.Algebra.Group.Nat.Defs
import Os161.Lib.Run

/-!
# Interrupts on the LAMEbus

`lamebus_interrupt` of `kern/dev/lamebus/lamebus.c`. It gives up after too many interrupts that no
driver takes, but returns from a stray one before it looks at their number.
-/

open Os161.Lib List

namespace Os161.Lamebus

variable {F D : Type}

abbrev LB_NSLOTS : Nat := 32

/-- The register `CTLREG_IRQS` and the tables of `struct lamebus_softc`. -/
structure Bus (F D : Type) where
  irqs : BitVec 32
  slotsinuse : BitVec 32
  irqfuncs : Nat → Option F
  devdata : Nat → D

/-- The bus at one interrupt, and what a handler does to it. -/
structure Irq (F D : Type) where
  bus : Bus F D
  handler : F → D → Bus F D → Bus F D

structure Scan (F D : Type) where
  bus : Bus F D
  irqs : BitVec 32
  duds : Nat
  dudsThisTime : Nat
  called : List (Nat × F × D)

def mask (slot : Nat) : BitVec 32 := 1 <<< slot

def Scan.dud (s : Scan F D) : Scan F D :=
  { s with duds := s.duds + 1, dudsThisTime := s.dudsThisTime + 1 }

def visit (c : Irq F D) (s : Scan F D) (slot : Nat) : Scan F D := if s.irqs &&& mask slot = 0 then s
  else if s.bus.slotsinuse &&& mask slot = 0 then s.dud
  else
    match s.bus.irqfuncs slot with
    | none => s.dud
    | some f =>
      let bus := c.handler f (s.bus.devdata slot) s.bus
      { s with bus, irqs := bus.irqs, called := s.called ++ [(slot, f, s.bus.devdata slot)] }

/-- The loop before it comes to slot `n`. -/
def scan (c : Irq F D) (duds n : Nat) : Scan F D :=
  (range n).foldl (visit c) ⟨c.bus, c.bus.irqs, duds, 0, []⟩

structure Result (F D : Type) where
  duds : Nat
  panicked : Bool
  called : List (Nat × F × D)

def lamebusInterrupt (duds : Nat) (c : Irq F D) : Result F D :=
  if c.bus.irqs = 0 then ⟨duds + 1, false, []⟩
  else
    let s := scan c duds LB_NSLOTS
    let duds := if s.dudsThisTime = 0 ∧ 0 < s.duds then 0 else s.duds
    ⟨duds, 10000 < duds, s.called⟩

/-! ## What it should do -/

/-- The handler that a slot is due, and what it is called with. -/
def due (bus : Bus F D) (slot : Nat) : Option (F × D) :=
  if bus.irqs &&& mask slot = 0 ∨ bus.slotsinuse &&& mask slot = 0 then none
  else (bus.irqfuncs slot).map (·, bus.devdata slot)

/-- The bus when it is the turn of slot `n`. -/
def reach (c : Irq F D) : Nat → Bus F D
  | 0 => c.bus
  | n + 1 => (due (reach c n) n).elim (reach c n) fun fd => c.handler fd.1 fd.2 (reach c n)

/-- The slot interrupts, and has no driver or no handler. -/
def Unclaimed (bus : Bus F D) (slot : Nat) : Prop := bus.irqs &&& mask slot ≠ 0 ∧
  (bus.slotsinuse &&& mask slot = 0 ∨ (bus.irqfuncs slot).isNone)

instance (bus : Bus F D) (slot : Nat) : Decidable (Unclaimed bus slot) :=
  inferInstanceAs (Decidable (_ ∧ _))

def Dud (c : Irq F D) : Prop := ∀ slot < LB_NSLOTS, c.bus.irqs &&& mask slot ≠ 0 →
  Unclaimed c.bus slot

/-- A stray interrupt is one dud, and so is each slot that nobody takes. -/
def dudsMet (c : Irq F D) : Nat :=
  if c.bus.irqs = 0 then 1
  else (range LB_NSLOTS).countP fun slot => Unclaimed (reach c slot) slot

def Clean (c : Irq F D) : Prop :=
  dudsMet c = 0 ∧ ∃ slot < LB_NSLOTS, (due (reach c slot) slot).isSome

instance (c : Irq F D) : Decidable (Clean c) := inferInstanceAs (Decidable (_ ∧ _))

/-- `seen` is a history: the duds since the last clean call. -/
structure State where
  duds : Nat
  panicked : Bool
  seen : Nat

def accumulate (seen : Nat) (c : Irq F D) : Nat := if Clean c then 0 else seen + dudsMet c

def step (s : State) (c : Irq F D) : Option State :=
  if s.panicked then none
  else
    let r := lamebusInterrupt s.duds c
    some ⟨r.duds, r.panicked, accumulate s.seen c⟩

structure Right (s : State) (c : Irq F D) : Prop where
  panics : Dud c → 10000 < accumulate s.seen c → (lamebusInterrupt s.duds c).panicked = true
  resets : Clean c → (lamebusInterrupt s.duds c).duds = 0
  serves : ∀ slot < LB_NSLOTS, (lamebusInterrupt s.duds c).called.filter (·.1 = slot) =
    (due (reach c slot) slot).toList.map (slot, ·)

def NotStuck (s : State) (c : Irq F D) : Prop := c.bus.irqs = 0 → s.seen < 10000

/-! ## One call -/

variable {c : Irq F D} {s : Scan F D} {duds n slot : Nat}

theorem scan_succ : scan c duds (n + 1) = visit c (scan c duds n) n := by
  simp [scan, range_succ]

/-- What the loop has done before slot `n`: it counts what `Unclaimed` says. -/
structure Scanned (c : Irq F D) (duds n : Nat) (s : Scan F D) : Prop where
  bus : s.bus = reach c n
  irqs : s.irqs = (reach c n).irqs
  duds : s.duds = duds + s.dudsThisTime
  met : s.dudsThisTime = (range n).countP fun slot => Unclaimed (reach c slot) slot
  called : s.called = (range n).flatMap fun slot => (due (reach c slot) slot).toList.map (slot, ·)

theorem visit_eq (hirqs : s.irqs = s.bus.irqs) : visit c s n =
    (due s.bus n).elim (if Unclaimed s.bus n then s.dud else s) fun fd =>
      { s with bus := c.handler fd.1 fd.2 s.bus, irqs := (c.handler fd.1 fd.2 s.bus).irqs,
               called := s.called ++ [(n, fd)] } := by
  unfold visit due
  rw [hirqs]
  by_cases hset : s.bus.irqs &&& mask n = 0
  · have hclaimed : ¬ Unclaimed s.bus n := fun h => h.1 hset
    rw [if_pos hset, if_pos (.inl hset), Option.elim_none, if_neg hclaimed]
  · by_cases hused : s.bus.slotsinuse &&& mask n = 0
    · have hun : Unclaimed s.bus n := ⟨hset, .inl hused⟩
      rw [if_neg hset, if_pos hused, if_pos (.inr hused), Option.elim_none, if_pos hun]
    · rw [if_neg hset, if_neg hused, if_neg (not_or.mpr ⟨hset, hused⟩)]
      cases hf : s.bus.irqfuncs n with
      | none =>
        have hun : Unclaimed s.bus n := ⟨hset, .inr (by rw [hf]; rfl)⟩
        exact (if_pos hun).symm
      | some f => rfl

theorem due_eq_none_of_unclaimed {bus : Bus F D} (h : Unclaimed bus n) : due bus n = none := by
  unfold due
  split
  · rfl
  · rename_i hset
    simpa using h.2.resolve_left (not_or.mp hset).2

theorem unclaimed_of_due_eq_none {bus : Bus F D} (hset : bus.irqs &&& mask n ≠ 0)
    (h : due bus n = none) : Unclaimed bus n := by
  refine ⟨hset, or_iff_not_imp_left.mpr fun hused => ?_⟩
  rw [due, if_neg (not_or.mpr ⟨hset, hused⟩)] at h
  simpa using h

theorem Scanned.visit (h : Scanned c duds n s) : Scanned c duds (n + 1) (visit c s n) := by
  have hirqs : s.irqs = s.bus.irqs := h.irqs.trans (congrArg _ h.bus.symm)
  rw [visit_eq hirqs, h.bus]
  cases hdue : due (reach c n) n with
  | some fd =>
    have hclaimed : ¬ Unclaimed (reach c n) n := fun hn => by
      simp [due_eq_none_of_unclaimed hn] at hdue
    refine ⟨?_, ?_, h.duds, ?_, ?_⟩
    · simp [reach, hdue]
    · simp [reach, hdue]
    · simp [range_succ, hclaimed, h.met]
    · simp [range_succ, h.called, hdue]
  | none =>
    have hreach : reach c (n + 1) = reach c n := by simp [reach, hdue]
    split
    · rename_i hun
      refine ⟨h.bus.trans hreach.symm, hreach ▸ h.irqs, ?_, ?_, ?_⟩
      · simp [Scan.dud, h.duds, Nat.add_assoc]
      · simp [Scan.dud, range_succ, hun, h.met]
      · simp [Scan.dud, range_succ, h.called, hdue]
    · rename_i hun
      refine ⟨h.bus.trans hreach.symm, hreach ▸ h.irqs, h.duds, ?_, ?_⟩
      · simp [range_succ, hun, h.met]
      · simp [range_succ, h.called, hdue]

theorem scanned (c : Irq F D) (duds n : Nat) : Scanned c duds n (scan c duds n) := by
  induction n with
  | zero => exact ⟨rfl, rfl, rfl, rfl, rfl⟩
  | succ n ih => exact scan_succ ▸ ih.visit

theorem exists_bit {w : BitVec 32} (h : w ≠ 0) : ∃ slot < LB_NSLOTS, w &&& mask slot ≠ 0 := by
  by_contra hall
  refine h (BitVec.eq_of_getLsbD_eq fun i hi => ?_)
  have hzero : w &&& mask i = 0 := not_not.mp fun hne => hall ⟨i, hi, hne⟩
  have hbit := congrArg (BitVec.getLsbD · i) hzero
  simpa [mask, hi, BitVec.getLsbD_ofNat, Nat.testBit_shiftLeft, ← BitVec.getLsbD_eq_getElem]
    using hbit

/-- With a bit set and no dud, some handler is called: the first slot that interrupts is due one. -/
theorem clean_of_met (hirqs : c.bus.irqs ≠ 0) (hmet : dudsMet c = 0) : Clean c := by
  refine ⟨hmet, ?_⟩
  by_contra hnone
  have hdue : ∀ n < LB_NSLOTS, due (reach c n) n = none := fun n hn => by
    by_contra hsome
    exact hnone ⟨n, hn, Option.isSome_iff_ne_none.mpr hsome⟩
  have hreach : ∀ n ≤ LB_NSLOTS, reach c n = c.bus := fun n hn => by
    induction n with
    | zero => rfl
    | succ n ih =>
      rw [reach, hdue n hn]
      exact ih (Nat.le_of_lt hn)
  obtain ⟨slot, hslot, hbit⟩ := exists_bit hirqs
  rw [dudsMet, if_neg hirqs, countP_eq_zero] at hmet
  refine hmet slot (mem_range.mpr hslot) (decide_eq_true ?_)
  refine unclaimed_of_due_eq_none ?_ (hdue slot hslot)
  rw [hreach slot (Nat.le_of_lt hslot)]
  exact hbit

theorem accumulate_stray (hirqs : c.bus.irqs = 0) : accumulate duds c = duds + 1 := by
  have hmet : dudsMet c = 1 := if_pos hirqs
  rw [accumulate, hmet, if_neg]
  exact fun hclean => absurd (hmet.symm.trans hclean.1) Nat.one_ne_zero

/-- The counter of the code is the history's. -/
theorem lamebusInterrupt_duds : (lamebusInterrupt duds c).duds = accumulate duds c := by
  by_cases hirqs : c.bus.irqs = 0
  · rw [accumulate_stray hirqs, lamebusInterrupt, if_pos hirqs]
  · have h := scanned c duds LB_NSLOTS
    have hmet : dudsMet c = (scan c duds LB_NSLOTS).dudsThisTime := by
      rw [dudsMet, if_neg hirqs, h.met]
    simp only [lamebusInterrupt, accumulate, if_neg hirqs, ← hmet, h.duds]
    by_cases hzero : dudsMet c = 0
    · simp [hzero, clean_of_met hirqs hzero]
    · simp [hzero, Clean]

theorem and_mask_stray {w : BitVec 32} (h : w = 0) : w &&& mask n = 0 := by
  rw [h]
  exact BitVec.zero_and

theorem reach_stray (h : c.bus.irqs = 0) : reach c n = c.bus := by
  induction n with
  | zero => rfl
  | succ n ih => rw [reach, ih, due, if_pos (.inl (and_mask_stray h)), Option.elim_none]

theorem filter_due (n : Nat) :
    ((range n).flatMap fun m => (due (reach c m) m).toList.map (m, ·)).filter (·.1 = slot) =
      if slot < n then (due (reach c slot) slot).toList.map (slot, ·) else [] := by
  induction n with
  | zero => rfl
  | succ n ih =>
    rw [range_succ, flatMap_append, filter_append, ih]
    by_cases heq : n = slot
    · subst heq
      simp [filter_map, Function.comp_def]
    · have hlt : slot < n ↔ slot < n + 1 := by omega
      simp [filter_map, Function.comp_def, heq, hlt]

theorem lamebusInterrupt_called (hslot : slot < LB_NSLOTS) :
    (lamebusInterrupt duds c).called.filter (·.1 = slot) =
      (due (reach c slot) slot).toList.map (slot, ·) := by
  unfold lamebusInterrupt
  split
  · rename_i hirqs
    rw [reach_stray hirqs, due, if_pos (.inl (and_mask_stray hirqs))]
    rfl
  · dsimp only
    rw [(scanned c duds LB_NSLOTS).called, filter_due, if_pos hslot]

/-- Only the way out on a stray interrupt passes the test by. -/
theorem lamebusInterrupt_panicked : (lamebusInterrupt duds c).panicked = true ↔
    c.bus.irqs ≠ 0 ∧ 10000 < accumulate duds c := by
  rw [← lamebusInterrupt_duds]
  by_cases hirqs : c.bus.irqs = 0
  · simp [lamebusInterrupt, hirqs]
  · simp only [lamebusInterrupt, if_neg hirqs, decide_eq_true_eq]
    exact (and_iff_right hirqs).symm

/-! ## Every call of a run -/

theorem right_iff {s : State} (h : s.duds = s.seen) (c : Irq F D) : Right s c ↔ NotStuck s c := by
  have hpanics := @lamebusInterrupt_panicked F D c s.duds
  rw [h] at hpanics
  constructor
  · intro hright hirqs
    by_contra hge
    have hdud : Dud c := fun slot _ hset => absurd (and_mask_stray hirqs) hset
    have hmany : 10000 < accumulate s.seen c := by
      rw [accumulate_stray hirqs]
      omega
    exact (hpanics.mp (h ▸ hright.panics hdud hmany)).1 hirqs
  · intro hstuck
    refine ⟨fun _ hmany => ?_, fun hclean => ?_, fun slot hslot => lamebusInterrupt_called hslot⟩
    · refine h ▸ hpanics.mpr ⟨fun hirqs => ?_, hmany⟩
      have hlt := hstuck hirqs
      rw [accumulate_stray hirqs] at hmany
      omega
    · rw [lamebusInterrupt_duds, accumulate, if_pos hclean]

theorem step_seen {s s' : State} (h : s.duds = s.seen) (hstep : step s c = some s') :
    s'.duds = s'.seen := by
  unfold step at hstep
  split at hstep
  · cases hstep
  · cases hstep
    exact lamebusInterrupt_duds.trans (by rw [h])

def boot : State := ⟨0, false, 0⟩

theorem interrupts_right_iff (calls : List (Irq F D)) :
    Meets step Right boot calls ↔ Meets step NotStuck boot calls := by
  have hseen : boot.duds = boot.seen := rfl
  constructor
  · exact Meets.imp (I := fun s => s.duds = s.seen) (fun s c h hc =>
      ⟨(right_iff h c).mp hc, fun s' hs => step_seen h hs⟩) hseen
  · exact Meets.imp (I := fun s => s.duds = s.seen) (fun s c h hc =>
      ⟨(right_iff h c).mpr hc, fun s' hs => step_seen h hs⟩) hseen

def stray : Irq Unit Unit := ⟨⟨0, 0, fun _ => none, fun _ => ()⟩, fun _ _ bus => bus⟩

theorem run_stray (n : Nat) :
    run step ⟨duds, false, duds⟩ (replicate n stray) = some ⟨duds + n, false, duds + n⟩ := by
  induction n generalizing duds with
  | zero => rfl
  | succ n ih =>
    change run step ⟨duds + 1, false, duds + 1⟩ (replicate n stray) = _
    rw [ih, Nat.add_right_comm]
    rfl

/-- The count of dud interrupts is twice what it panics at. -/
theorem stray_interrupts : Dud stray ∧
    run step boot (replicate 20000 stray) = some ⟨20000, false, 20000⟩ := by
  refine ⟨fun _ _ h => absurd BitVec.zero_and h, ?_⟩
  have hrun := @run_stray 0 20000
  rwa [Nat.zero_add] at hrun

end Os161.Lamebus
