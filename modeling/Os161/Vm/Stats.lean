import Mathlib.Data.BitVec
import Os161.Vm.Load

/-!
# Statistics of page faults

The counters of `kern/vm/uw-vmstats.c` that `vm_fault` increments. Calls nest: while one loads its
page, the stores to that page may fault.
-/

open Os161.Lib Function List

namespace Os161.Vm

inductive Stat
  | tlbFault | tlbFaultFree | tlbFaultReplace | tlbInvalidate | tlbReload
  | pageFaultZero | pageFaultDisk | elfFileRead | swapFileRead | swapFileWrite
  deriving DecidableEq

abbrev Counts := Stat → BitVec 32

def vmstatsInc (k : Counts) (i : Stat) : Counts := Function.update k i (k i + 1)

inductive Warning
  | freePlusReplace | reloadPlusPageFaults | fileReads
  deriving DecidableEq

def vmstatsPrint (k : Counts) : List Warning :=
  (if k .tlbFault ≠ k .tlbFaultFree + k .tlbFaultReplace then [.freePlusReplace] else []) ++
  (if k .tlbFault ≠ k .pageFaultDisk + k .pageFaultZero + k .tlbReload then
    [.reloadPlusPageFaults] else []) ++
  (if k .pageFaultDisk ≠ k .elfFileRead + k .swapFileRead then [.fileReads] else [])

inductive Call
  | loading (f : Fault)
  | filling (f : Fault)
  deriving DecidableEq

/-- `calls` are the calls in progress, the innermost one first. -/
structure Counted where
  as : Option Addrspace
  globals : Globals
  tlb : Tlb
  counts : Counts
  calls : List Call
  alive : Bool

inductive Tick
  | fault (ty : FaultType) (va frame : Nat)
  | loaded (ok : Bool)
  | fill
  | invalidate
  | elsewhere (as : Option Addrspace) (g : Globals) (tlb : Tlb)

def pageStat (as : Addrspace) (va : Nat) : Stat :=
  if (as.pageAt (pageOf va)).any Page.valid then .tlbReload else .pageFaultZero

def fillStat (as : Addrspace) (g : Globals) (t : Tlb) (f : Fault) : Stat :=
  if f.wrTo ∨ f.seg = .stack ∨ g.firstCodeRead then
    let t := if codeFirst as g f then t.clearDirty as.r1 else t
    if codeFirst as g f && (t.probe f.fa).isSome then .tlbFaultFree
    else if t.freeSlot.isSome then .tlbFaultFree
    else .tlbFaultReplace
  else .tlbFaultReplace

/-- The process ends inside `vm_fault`, with all its calls: `_exit` does not return. -/
def Counted.exit (s : Counted) : Counted := { s with calls := [], alive := false }

def Counted.panic (s : Counted) : Counted := { s with alive := false }

def Counted.fault (s : Counted) (ty : FaultType) (va frame : Nat) : Counted := match s.as with
  | none => { s with globals := s.globals.sawFault va }
  | some as =>
    match faultPage as s.globals ty va frame with
    | none => s.panic
    | some (as', g, out) =>
      let s' := { s with as := some as', globals := g }
      match out with
      | .fail _ => s'
      | .kill => s'.exit
      | .fill f =>
        { s' with counts := vmstatsInc s.counts (pageStat as va), calls := .filling f :: s.calls }
      | .load f _ => { s' with calls := .loading f :: s.calls }

/-- After an error of a write fault it releases a lock that it does not hold. -/
def Counted.loaded (s : Counted) (f : Fault) (calls : List Call) (ok : Bool) : Counted := if ok then
    { s with
      globals := afterLoad s.globals f
      counts := vmstatsInc (vmstatsInc s.counts .pageFaultDisk) .elfFileRead
      calls := .filling f :: calls }
  else if f.ty = .write then s.panic
  else { s with calls := calls }

def Counted.fill (s : Counted) (as : Addrspace) (f : Fault) (calls : List Call) : Counted :=
  let r := tlbFill as s.globals s.tlb f
  { s with
    globals := r.1
    tlb := r.2
    counts := vmstatsInc (vmstatsInc s.counts .tlbFault) (fillStat as s.globals s.tlb f)
    calls := calls }

/-- Faults come from the program, or from the stores of a call that loads its page. -/
def Counted.step (s : Counted) (a : Tick) : Option Counted := if s.alive then
    match a, s.calls with
    | .fault ty va frame, [] => some (s.fault ty va frame)
    | .fault ty va frame, .loading _ :: _ => some (s.fault ty va frame)
    | .loaded ok, .loading f :: calls => some (s.loaded f calls ok)
    | .fill, .filling f :: calls => s.as.map fun as => s.fill as f calls
    | .invalidate, _ =>
      some { s with tlb := s.tlb.invalid, counts := vmstatsInc s.counts .tlbInvalidate }
    | .elsewhere as g tlb, _ => some { s with as := as, globals := g, tlb := tlb }
    | _, _ => none
  else none

def Counted.start (as : Option Addrspace) (g : Globals) (tlb : Tlb) : Counted :=
  ⟨as, g, tlb, fun _ => 0, [], true⟩

structure Identities (k : Counts) : Prop where
  tlb : k .tlbFault = k .tlbFaultFree + k .tlbFaultReplace
  pages : k .tlbFault = k .tlbReload + k .pageFaultZero + k .pageFaultDisk
  disk : k .pageFaultDisk = k .elfFileRead + k .swapFileRead

theorem Identities.print {k : Counts} (h : Identities k) : vmstatsPrint k = [] := by
  have hpages : k .tlbFault = k .pageFaultDisk + k .pageFaultZero + k .tlbReload := by
    rw [h.pages]
    ac_rfl
  rw [vmstatsPrint, if_neg (not_not.mpr h.tlb), if_neg (not_not.mpr hpages),
    if_neg (not_not.mpr h.disk)]
  rfl

structure Balanced (k : Counts) (pending : BitVec 32) : Prop where
  tlb : k .tlbFault = k .tlbFaultFree + k .tlbFaultReplace
  pages : k .tlbFault + pending = k .tlbReload + k .pageFaultZero + k .pageFaultDisk
  disk : k .pageFaultDisk = k .elfFileRead + k .swapFileRead

def pending : List Call → BitVec 32
  | .filling _ :: _ => 1
  | _ => 0

structure StatsInv (s : Counted) : Prop where
  balanced : Balanced s.counts (pending s.calls)
  outer : ∀ c ∈ s.calls.tail, ∃ f, c = .loading f

variable {s s' : Counted} {k : Counts} {calls : List Call} {f : Fault}

theorem pending_outer (h : ∀ c ∈ calls, ∃ f, c = Call.loading f) : pending calls = 0 := by
  cases calls with
  | nil => rfl
  | cons c calls =>
    obtain ⟨f, rfl⟩ := h c mem_cons_self
    rfl

theorem Balanced.page (h : Balanced k 0) (as : Addrspace) (va : Nat) :
    Balanced (vmstatsInc k (pageStat as va)) 1 := by
  have hpages := h.pages
  unfold pageStat
  split
  · refine ⟨h.tlb, ?_, h.disk⟩
    simp only [vmstatsInc, update_self, ne_eq, reduceCtorEq, not_false_eq_true, update_of_ne]
    grind
  · refine ⟨h.tlb, ?_, h.disk⟩
    simp only [vmstatsInc, update_self, ne_eq, reduceCtorEq, not_false_eq_true, update_of_ne]
    grind

theorem Balanced.load (h : Balanced k 0) :
    Balanced (vmstatsInc (vmstatsInc k .pageFaultDisk) .elfFileRead) 1 := by
  have hpages := h.pages
  have hdisk := h.disk
  refine ⟨h.tlb, ?_, ?_⟩
  all_goals simp only [vmstatsInc, update_self, ne_eq, reduceCtorEq, not_false_eq_true,
      update_of_ne]
  all_goals grind

theorem fillStat_cases (as : Addrspace) (g : Globals) (t : Tlb) (f : Fault) :
    fillStat as g t f = .tlbFaultFree ∨ fillStat as g t f = .tlbFaultReplace := by
  unfold fillStat
  dsimp only
  split_ifs <;> simp

theorem Balanced.fill {i : Stat} (h : Balanced k 1) (hi : i = .tlbFaultFree ∨ i = .tlbFaultReplace) :
    Balanced (vmstatsInc (vmstatsInc k .tlbFault) i) 0 := by
  have htlb := h.tlb
  have hpages := h.pages
  rcases hi with rfl | rfl
  all_goals
    refine ⟨?_, ?_, h.disk⟩
    all_goals simp only [vmstatsInc, update_self, ne_eq, reduceCtorEq, not_false_eq_true,
      update_of_ne]
    all_goals grind

def Nested (s : Counted) : Prop := ∀ c ∈ s.calls, ∃ f, c = Call.loading f

section

variable (h : StatsInv s)
include h

theorem StatsInv.balanced_zero (hn : Nested s) : Balanced s.counts 0 := by
  have hb := h.balanced
  rwa [pending_outer hn] at hb

theorem StatsInv.nested_tail (hc : s.calls = .loading f :: calls) : Nested s := by
  intro c hm
  have ho := h.outer
  rw [hc] at hm ho
  rcases mem_cons.mp hm with rfl | hm
  · exact ⟨f, rfl⟩
  · exact ho c hm

theorem StatsInv.fault (hn : Nested s) (ty : FaultType) (va frame : Nat) :
    StatsInv (s.fault ty va frame) := by
  have hb := h.balanced_zero hn
  unfold Counted.fault
  split
  · exact ⟨h.balanced, h.outer⟩
  · split
    · exact ⟨h.balanced, h.outer⟩
    · split
      · exact ⟨h.balanced, h.outer⟩
      · exact ⟨hb, by simp [Counted.exit]⟩
      · exact ⟨hb.page _ va, hn⟩
      · exact ⟨hb, hn⟩

theorem StatsInv.loaded (hc : s.calls = .loading f :: calls) (ok : Bool) :
    StatsInv (s.loaded f calls ok) := by
  have hb := h.balanced_zero (h.nested_tail hc)
  have ho := h.outer
  rw [hc, tail_cons] at ho
  unfold Counted.loaded
  split
  · exact ⟨hb.load, ho⟩
  · split
    · exact ⟨h.balanced, h.outer⟩
    · refine ⟨?_, fun c hm => ho c (mem_of_mem_tail hm)⟩
      simp only [pending_outer ho]
      exact hb

theorem StatsInv.fill (hc : s.calls = .filling f :: calls) (as : Addrspace) :
    StatsInv (s.fill as f calls) := by
  have hb := h.balanced
  have ho := h.outer
  rw [hc] at hb
  rw [hc, tail_cons] at ho
  refine ⟨?_, fun c hm => ho c (mem_of_mem_tail hm)⟩
  have hk := Balanced.fill hb (fillStat_cases as s.globals s.tlb f)
  simp only [Counted.fill, pending_outer ho]
  exact hk

theorem StatsInv.step {a : Tick} (hs : s.step a = some s') : StatsInv s' := by
  unfold Counted.step at hs
  split at hs
  · split at hs
    case h_1 hc =>
      cases hs
      exact h.fault (by simp [Nested, hc]) _ _ _
    case h_2 hc =>
      cases hs
      exact h.fault (h.nested_tail hc) _ _ _
    case h_3 hc =>
      cases hs
      exact h.loaded hc _
    case h_4 hc =>
      obtain ⟨as, -, rfl⟩ := Option.map_eq_some_iff.mp hs
      exact h.fill hc as
    case h_5 =>
      cases hs
      have hb := h.balanced
      exact ⟨⟨hb.tlb, hb.pages, hb.disk⟩, h.outer⟩
    case h_6 =>
      cases hs
      exact ⟨h.balanced, h.outer⟩
    case h_7 => cases hs
  · cases hs

end

theorem statsInv_start (as : Option Addrspace) (g : Globals) (tlb : Tlb) :
    StatsInv (.start as g tlb) :=
  ⟨⟨by simp [Counted.start], by simp [Counted.start, pending], by simp [Counted.start]⟩,
    by simp [Counted.start]⟩

theorem StatsInv.identities (h : StatsInv s) (hc : s.calls = []) : Identities s.counts := by
  have hb := h.balanced_zero (by simp [Nested, hc])
  exact ⟨hb.tlb, by simp [← hb.pages], hb.disk⟩

/-- Faults may nest and fail. -/
theorem stats_identities (as : Option Addrspace) (g : Globals) (tlb : Tlb) (l : List Tick) :
    Always Counted.step (fun s => s.calls = [] → Identities s.counts ∧ vmstatsPrint s.counts = [])
      (.start as g tlb) l := by
  refine always_of_inv (I := StatsInv) (fun s a s' h hs => h.step hs) (fun s h hc => ?_)
    (statsInv_start as g tlb) l
  exact ⟨h.identities hc, (h.identities hc).print⟩

end Os161.Vm
