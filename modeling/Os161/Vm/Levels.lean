import Os161.Vm.Destroy
import Os161.Vm.Stats

/-!
# The interrupt level and the locks of `vm_fault`

What a thread does to `curspl` and the locks in its calls of `vm_fault`, which nest. `vm_fault` raises
the level first, and only the ways to the TLB and into `load_each_segment` lower it again.
-/

open Os161.Lib Function List Option

namespace Os161.Vm.Levels

open Destroy (wantsFrame wantsFrame_iff)

abbrev SPL_HIGH : Nat := 15

inductive LockName
  | tlb | core | stats
  deriving DecidableEq

/-- `unheld` is history: a lock was released that was not held. -/
structure Cpu where
  curspl : Nat
  holds : LockName → Bool
  unheld : Bool

namespace Cpu

def splx (c : Cpu) (spl : Nat) : Cpu := { c with curspl := spl }

def splhigh (c : Cpu) : Cpu := c.splx SPL_HIGH

def acquire (c : Cpu) (l : LockName) : Cpu := let level := c.curspl
  let c := c.splhigh
  { c with holds := update c.holds l true }.splx level

def release (c : Cpu) (l : LockName) : Cpu := let level := c.curspl
  let c := c.splhigh
  if c.holds l then { c with holds := update c.holds l false }.splx level
  else { c with unheld := true }

/-- `getppages` after `vm_bootstrap`, whether it finds a frame or not. -/
def getppages (c : Cpu) : Cpu := (c.acquire .core).release .core

/-- `vmstats_inc` takes its lock unless interrupts are off. -/
def vmstatsInc (c : Cpu) : Cpu :=
  if c.curspl = SPL_HIGH then c else (c.acquire .stats).release .stats

def fill (c : Cpu) (entered : Bool) : Cpu :=
  (if entered then (c.acquire .tlb).release .tlb else c).vmstatsInc

end Cpu

structure Active where
  entry : Nat
  call : Call

/-- `returned` is the level at which the call was entered that has just returned. -/
structure State where
  as : Option Addrspace
  globals : Globals
  tlb : Tlb
  cpu : Cpu
  calls : List Active
  returned : Option Nat
  alive : Bool

inductive Label
  | fault (ty : FaultType) (va frame : Nat)
  | loaded (ok : Bool)
  | fill
  /-- The program or the kernel runs outside `vm_fault`, at any level. -/
  | run (as : Option Addrspace) (g : Globals) (tlb : Tlb) (spl : Nat)
  | others (g : Globals) (tlb : Tlb)

namespace State

def stop (s : State) : State := { s with calls := [], returned := none, alive := false }

def ret (s : State) (entry : Nat) (calls : List Active) : State :=
  { s with calls := calls, returned := some entry }

def enter (s : State) (entry : Nat) (call : Call) : State :=
  { s with cpu := s.cpu.splx entry, calls := ⟨entry, call⟩ :: s.calls, returned := none }

/-- The first part of `vm_fault`. Its error returns do not call `splx`. -/
def fault (s : State) (ty : FaultType) (va frame : Nat) : State := let entry := s.cpu.curspl
  let cpu := s.cpu.splhigh
  match s.as with
  | none => { s with globals := s.globals.sawFault va, cpu := cpu }.ret entry s.calls
  | some as =>
    let cpu := if wantsFrame as ty va then cpu.getppages else cpu
    match faultPage as s.globals ty va frame with
    | none => { s with cpu := cpu }.stop
    | some (as', g, out) =>
      let s' := { s with as := some as', globals := g, cpu := cpu }
      match out with
      | .fail _ => s'.ret entry s.calls
      | .kill => s'.stop
      | .fill f => s'.enter entry (.filling f)
      | .load f _ => s'.enter entry (.loading f)

def loaded (s : State) (a : Active) (f : Fault) (calls : List Active) (ok : Bool) : State :=
  let spl := s.cpu.curspl
  let s := { s with cpu := s.cpu.splhigh }
  if ok then
    { s with
      globals := afterLoad s.globals f
      cpu := s.cpu.splx spl
      calls := ⟨a.entry, .filling f⟩ :: calls
      returned := none }
  else if f.ty = .write then { s with cpu := s.cpu.release .tlb }.stop
  else s.ret a.entry calls

def fill (s : State) (as : Addrspace) (a : Active) (f : Fault) (calls : List Active) : State :=
  let r := tlbFill as s.globals s.tlb f
  let entered := decide (f.wrTo ∨ f.seg = .stack ∨ s.globals.firstCodeRead)
  { s with globals := r.1, tlb := r.2, cpu := s.cpu.fill entered }.ret a.entry calls

end State

def Active.loading (a : Active) : Option Fault := match a.call with
  | .loading f => some f
  | .filling _ => none

def Active.filling (a : Active) : Option Fault := match a.call with
  | .loading _ => none
  | .filling f => some f

def step (s : State) (l : Label) : Option State := if s.alive then
    match l, s.calls with
    | .fault ty va frame, [] => some (s.fault ty va frame)
    | .fault ty va frame, a :: _ => a.loading.map fun _ => s.fault ty va frame
    | .loaded ok, a :: calls => a.loading.map fun f => s.loaded a f calls ok
    | .fill, a :: calls => a.filling.bind fun f => s.as.map fun as => s.fill as a f calls
    | .run as g tlb spl, [] =>
      some { s with as := as, globals := g, tlb := tlb, cpu := s.cpu.splx spl, returned := none }
    | .others g tlb, _ => some { s with globals := g, tlb := tlb, returned := none }
    | _, _ => none
  else none

def start (as : Option Addrspace) (g : Globals) (tlb : Tlb) (spl : Nat) : State :=
  ⟨as, g, tlb, ⟨spl, fun _ => false, false⟩, [], none, true⟩

/-- After a call the level is the one of its start, and no lock is held. -/
structure Restored (s : State) : Prop where
  held : s.cpu.unheld = false
  level : ∀ entry ∈ s.returned, s.cpu.curspl = entry
  locks : ∀ entry ∈ s.returned, ∀ l, s.cpu.holds l = false

/-- `vm_fault` returns an error before it calls `load_each_segment`. -/
def Refused (as : Option Addrspace) (ty : FaultType) (va frame : Nat) : Prop :=
  ∀ a ∈ as, a.locate (pageOf va) = none ∨ (a.pageAt (pageOf va)).isSome = true ∧
    (ty = .other ∨ wantsFrame a ty va = true ∧ frame = 0)

def Restoring (s : State) : Label → Prop
  | .fault ty va frame => Refused s.as ty va frame → s.cpu.curspl = SPL_HIGH
  | .loaded ok => ok = false → ∀ a ∈ s.calls.head?, ∀ f ∈ a.loading, f.ty ≠ .write ∧ a.entry = SPL_HIGH
  | _ => True

section cpu

variable {c : Cpu} {l : LockName}

theorem release_acquire (h : c.holds l = false) : (c.acquire l).release l = c := by
  have hupd : update (update c.holds l true) l false = c.holds := by
    rw [update_idem, ← h, update_eq_self]
  unfold Cpu.acquire Cpu.release Cpu.splhigh Cpu.splx
  simp [hupd]

theorem getppages_eq (h : c.holds .core = false) : c.getppages = c := release_acquire h

theorem fill_eq (h : ∀ l, c.holds l = false) (entered : Bool) : c.fill entered = c := by
  have hinc : c.vmstatsInc = c := by
    unfold Cpu.vmstatsInc
    split
    · rfl
    · exact release_acquire (h .stats)
  unfold Cpu.fill
  cases entered with
  | false => simpa using hinc
  | true =>
    rw [if_pos rfl, release_acquire (h .tlb)]
    exact hinc

end cpu

/-! ## Runs -/

structure Inv (s : State) : Prop where
  restored : Restored s
  locks : ∀ l, s.cpu.holds l = false
  entries : ∀ a ∈ s.calls, a.entry = s.cpu.curspl

variable {s s' : State} {ty : FaultType} {va frame : Nat}

section refused

variable {as : Addrspace} {g : Globals}

theorem refused_some (as : Addrspace) : Refused (some as) ty va frame ↔
    as.locate (pageOf va) = none ∨ (as.pageAt (pageOf va)).isSome = true ∧
      (ty = .other ∨ wantsFrame as ty va = true ∧ frame = 0) := by
  simp [Refused]

theorem not_refused_of_panic (h : faultPage as g ty va frame = none) :
    ¬ Refused (some as) ty va frame := by
  have hnone : as.locate (pageOf va) ≠ none ∧ as.pageAt (pageOf va) = none := by
    unfold faultPage at h
    dsimp only at h
    split at h
    · cases h
    · rename_i seg i hloc
      have hloc' : as.locate (pageOf va) = some (seg, i) := hloc
      rw [Addrspace.pageAt_eq hloc', hloc']
      exact ⟨nofun, map_eq_none_iff.mp h⟩
  rw [refused_some]
  simp [hnone]

theorem fails_iff_refused {as' : Addrspace} {g' : Globals} {out : Outcome}
    (h : faultPage as g ty va frame = some (as', g', out)) :
    (∃ e, out = .fail e) ↔ Refused (some as) ty va frame := by
  rw [refused_some]
  rcases faultPage_cases h with ⟨hloc, -, -, rfl⟩ | ⟨seg, i, pg, hloc, hpg, hanswer⟩
  · simp [hloc]
  · have hat : as.pageAt (pageOf va) = some pg := (Addrspace.pageAt_eq hloc).trans hpg
    rw [wantsFrame_iff, hat, hloc]
    cases hanswer with
    | readonly | other => simp
    | held hty hv => rcases hty with rfl | rfl <;> simp [hv]
    | refused hty hv hframe => simp [hty, hv, hframe]
    | zeroed hty hv hframe | loading hty hv hframe => rcases hty with rfl | rfl <;> simp [hframe]

end refused

theorem fault_cases (h : Inv s) (ty : FaultType) (va frame : Nat) :
    (Refused s.as ty va frame ∧ (s.fault ty va frame).cpu = s.cpu.splhigh ∧
        (s.fault ty va frame).calls = s.calls ∧
        (s.fault ty va frame).returned = some s.cpu.curspl) ∨
      (¬ Refused s.as ty va frame ∧ (s.fault ty va frame).returned = none ∧
        (s.fault ty va frame).cpu.unheld = s.cpu.unheld ∧
        (s.fault ty va frame).cpu.holds = s.cpu.holds ∧
        ∀ a ∈ (s.fault ty va frame).calls, a.entry = (s.fault ty va frame).cpu.curspl) := by
  have hcore : s.cpu.splhigh.getppages = s.cpu.splhigh := getppages_eq (h.locks .core)
  unfold State.fault
  cases has : s.as with
  | none => exact .inl ⟨by simp [Refused], rfl, rfl, rfl⟩
  | some as =>
    simp only [hcore, ite_self]
    cases hf : faultPage as s.globals ty va frame with
    | none => exact .inr ⟨not_refused_of_panic hf, rfl, rfl, rfl, by simp [State.stop]⟩
    | some r =>
      obtain ⟨as', g, out⟩ := r
      have hfail := fails_iff_refused hf
      cases out with
      | fail e => exact .inl ⟨hfail.mp ⟨e, rfl⟩, rfl, rfl, rfl⟩
      | kill => exact .inr ⟨by simp [← hfail], rfl, rfl, rfl, by simp [State.stop]⟩
      | fill f | load f l =>
        refine .inr ⟨by simp [← hfail], rfl, rfl, rfl, ?_⟩
        intro a ha
        rcases mem_cons.mp ha with rfl | ha
        · rfl
        · exact h.entries a ha

theorem Inv.of_running (hu : s.cpu.unheld = false) (hr : s.returned = none)
    (hl : ∀ l, s.cpu.holds l = false) (he : ∀ a ∈ s.calls, a.entry = s.cpu.curspl) : Inv s :=
  ⟨⟨hu, by simp [hr], by simp [hr]⟩, hl, he⟩

theorem Inv.of_returned {entry : Nat} (hu : s.cpu.unheld = false) (hr : s.returned = some entry)
    (hlevel : s.cpu.curspl = entry) (hl : ∀ l, s.cpu.holds l = false)
    (he : ∀ a ∈ s.calls, a.entry = s.cpu.curspl) : Inv s :=
  ⟨⟨hu, by simpa [hr] using hlevel, fun _ _ => hl⟩, hl, he⟩

theorem Inv.fault (h : Inv s) (hc : Refused s.as ty va frame → s.cpu.curspl = SPL_HIGH) :
    Inv (s.fault ty va frame) := by
  rcases fault_cases h ty va frame with ⟨href, hcpu, hcalls, hret⟩ | ⟨-, hret, hu, hl, he⟩
  · have hlevel : s.cpu.splhigh = s.cpu := by
      unfold Cpu.splhigh Cpu.splx
      rw [← hc href]
    rw [hlevel] at hcpu
    refine .of_returned (hcpu ▸ h.restored.held) hret (by rw [hcpu]) (hcpu ▸ h.locks) ?_
    rw [hcalls, hcpu]
    exact h.entries
  · exact .of_running (hu.trans h.restored.held) hret (hl ▸ h.locks) he

theorem not_restored_fault (h : Inv s)
    (hc : ¬ (Refused s.as ty va frame → s.cpu.curspl = SPL_HIGH)) :
    ¬ Restored (s.fault ty va frame) := by
  obtain ⟨href, hlevel⟩ := Classical.not_imp.mp hc
  rcases fault_cases h ty va frame with ⟨-, hcpu, -, hret⟩ | ⟨hnot, -⟩
  · intro hr
    have hl := hr.level _ hret
    rw [hcpu] at hl
    exact hlevel hl.symm
  · exact absurd href hnot

variable {a : Active} {f : Fault} {calls : List Active}

theorem Inv.loaded (h : Inv s) (hcalls : s.calls = a :: calls) {ok : Bool}
    (hc : ok = false → f.ty ≠ .write ∧ a.entry = SPL_HIGH) : Inv (s.loaded a f calls ok) := by
  have he := h.entries
  rw [hcalls] at he
  obtain ⟨ha, he⟩ := forall_mem_cons.mp he
  unfold State.loaded
  cases ok with
  | true =>
    exact .of_running h.restored.held rfl h.locks (forall_mem_cons.mpr ⟨ha, he⟩)
  | false =>
    obtain ⟨hty, hentry⟩ := hc rfl
    rw [if_neg (by simp), if_neg hty]
    refine .of_returned h.restored.held rfl hentry.symm h.locks ?_
    intro x hx
    rw [he x hx, ← ha]
    exact hentry

theorem not_restored_loaded (h : Inv s) (hc : ¬ (f.ty ≠ .write ∧ a.entry = SPL_HIGH)) :
    ¬ Restored (s.loaded a f calls false) := by
  have hlock : s.cpu.splhigh.holds .tlb = false := h.locks .tlb
  unfold State.loaded
  rw [if_neg (by simp)]
  intro hr
  by_cases hty : f.ty = .write
  · rw [if_pos hty] at hr
    have hheld := hr.held
    simp only [State.stop, Cpu.release] at hheld
    rw [if_neg (by simpa [Cpu.splhigh, Cpu.splx] using hlock)] at hheld
    cases hheld
  · rw [if_neg hty] at hr
    exact hc ⟨hty, (hr.level _ rfl).symm⟩

theorem Inv.fill (h : Inv s) (hcalls : s.calls = a :: calls) (as : Addrspace) :
    Inv (s.fill as a f calls) := by
  have he := h.entries
  rw [hcalls] at he
  obtain ⟨ha, he⟩ := forall_mem_cons.mp he
  have hcpu : (s.fill as a f calls).cpu = s.cpu := fill_eq h.locks _
  refine .of_returned (hcpu ▸ h.restored.held) rfl (by rw [hcpu, ha]) (hcpu ▸ h.locks) ?_
  rw [hcpu]
  exact he

theorem Inv.step {l : Label} (h : Inv s) (hc : Restoring s l) (hs : Levels.step s l = some s') :
    Inv s' := by
  unfold Levels.step at hs
  split at hs
  case isFalse => cases hs
  case isTrue =>
    split at hs
    case h_1 =>
      cases hs
      exact h.fault hc
    case h_2 =>
      obtain ⟨f, -, rfl⟩ := map_eq_some_iff.mp hs
      exact h.fault hc
    case h_3 ok a calls hcalls =>
      obtain ⟨f, hf, rfl⟩ := map_eq_some_iff.mp hs
      exact h.loaded hcalls fun hok => hc hok a (by simp [hcalls]) f hf
    case h_4 a calls hcalls =>
      obtain ⟨f, -, hs⟩ := bind_eq_some_iff.mp hs
      obtain ⟨as, -, rfl⟩ := map_eq_some_iff.mp hs
      exact h.fill hcalls as
    case h_5 as g tlb spl hcalls =>
      cases hs
      exact .of_running h.restored.held rfl h.locks (by simp [hcalls])
    case h_6 =>
      cases hs
      exact .of_running h.restored.held rfl h.locks h.entries
    case h_7 => cases hs

theorem not_restored_step {l : Label} (h : Inv s) (hc : ¬ Restoring s l)
    (hs : Levels.step s l = some s') : ¬ Restored s' := by
  unfold Levels.step at hs
  split at hs
  case isFalse => cases hs
  case isTrue =>
    split at hs
    case h_1 =>
      cases hs
      exact not_restored_fault h hc
    case h_2 =>
      obtain ⟨f, -, rfl⟩ := map_eq_some_iff.mp hs
      exact not_restored_fault h hc
    case h_3 ok a calls hcalls =>
      obtain ⟨f, hf, rfl⟩ := map_eq_some_iff.mp hs
      have hbad : ok = false ∧ ¬ (f.ty ≠ .write ∧ a.entry = SPL_HIGH) := by
        simpa [Restoring, hcalls, hf] using hc
      obtain ⟨rfl, hbad⟩ := hbad
      exact not_restored_loaded h hbad
    case h_4 | h_5 | h_6 => exact absurd trivial hc
    case h_7 => cases hs

theorem inv_start (as : Option Addrspace) (g : Globals) (tlb : Tlb) (spl : Nat) :
    Inv (start as g tlb spl) := .of_running rfl rfl (fun _ => rfl) (by simp [start])

theorem restored_iff {as : Option Addrspace} {g : Globals} {tlb : Tlb} {spl : Nat} {ls : List Label}
    (hrun : run Levels.step (start as g tlb spl) ls = some s') :
    Always Levels.step Restored (start as g tlb spl) ls ↔
      Meets Levels.step Restoring (start as g tlb spl) ls := by
  constructor
  · exact meets_of_always (fun _ _ _ h hc hs => Inv.step h hc hs)
      (fun _ _ _ h hc hs => not_restored_step h hc hs) (inv_start as g tlb spl) hrun
  · exact always_of_meets (fun _ _ _ h hc hs => Inv.step h hc hs) (fun _ h => h.restored)
      (inv_start as g tlb spl)

def dataPage (filesz : Nat) : Addrspace :=
  ⟨⟨0, 0, 0, 0, 0, []⟩, ⟨0x10000000, 1, filesz, 0, 6, [⟨0x10000000, 0, false, 6⟩]⟩, [], 0⟩

theorem fault_stays_at_splhigh :
    (∃ s, run Levels.step (start none ⟨0, false, false, false, false⟩ .zero 0)
        [.fault .read 0x1000 0] = some s ∧ s.returned = some 0 ∧ s.cpu.curspl = SPL_HIGH ∧
      ¬ Restored s) ∧
    ∃ s, run Levels.step (start (some (dataPage 100)) ⟨0, false, false, false, false⟩ .zero 0)
        [.fault .write 0x10000004 0x31000, .loaded false] = some s ∧ s.cpu.unheld = true ∧
      ¬ Restored s := by
  refine ⟨⟨_, rfl, rfl, rfl, ?_⟩, _, rfl, rfl, ?_⟩
  · intro h
    exact absurd (h.level 0 rfl) (by decide)
  · intro h
    exact absurd h.held (by decide)

theorem restored_iff_data_page :
    ∃ s, run Levels.step (start (some (dataPage 100)) ⟨0, false, false, false, false⟩ .zero 0)
        [.fault .read 0x10000004 0x31000, .loaded true, .fill] = some s ∧ s.returned = some 0 ∧
      Always Levels.step Restored
        (start (some (dataPage 100)) ⟨0, false, false, false, false⟩ .zero 0)
        [.fault .read 0x10000004 0x31000, .loaded true, .fill] := by
  refine ⟨_, rfl, rfl, (restored_iff rfl).mpr ⟨?_, fun _ _ => ⟨?_, fun _ _ => ⟨trivial, fun _ _ => trivial⟩⟩⟩⟩
  · intro href
    exact absurd ((refused_some _).mp href) (by decide)
  · intro hok
    cases hok

end Os161.Vm.Levels
