import Os161.Vm.Fault
import Os161.Vm.Switch

/-!
# When the TLB keeps processes apart

Every caller has set `curthread->t_vmspace` before, so `as_activate` never invalidates anything.
-/

open Function List Option

namespace Os161.Vm

open Lib

variable {as : Addrspace} {e : TlbEntry} {T : Type} {s s' : Sys T} {t : T} {a : Nat}

theorem Maps.grow {as' : Addrspace} (h : Maps as e) (hg : Grown as as') :
    Maps as' e := by
  obtain ⟨pg, hpg, hv, hf⟩ := h
  exact ⟨pg, hg _ _ hpg hv, hv, hf⟩

theorem Maps.congr {e' : TlbEntry} (h : Maps as e) (hs : SameMap e' e) :
    Maps as e' := by
  obtain ⟨pg, hpg, hv, hf⟩ := h
  exact ⟨pg, hs.1 ▸ hpg, hv, hs.2.trans hf⟩

theorem Backed.maps {f : Fault} (h : Backed as f)
    (hs : SameMap e ⟨f.fa, f.paddr⟩) : Maps as e := by
  obtain ⟨pg, hpg, hv, hf⟩ := h
  exact ⟨pg, by rw [hs.1]; exact hpg, hv, hs.2.trans (by rw [hf])⟩

/-- The TLB has translations of the address space activated last, the current thread's. -/
structure Inv (s : Sys T) : Prop where
  own : ∀ i, (s.tlb.entry i).Valid → ∃ a, s.activated = some a ∧ Maps (s.spaces a) (s.tlb.entry i)
  cur : ∀ a, s.vmspace s.curthread = some a → s.activated = some a
  backed : ∀ t, ∀ st ∈ s.faults t, ∃ a, s.vmspace t = some a ∧ Backed (s.spaces a) st.fault
  old : ∀ t a, s.vmspace t = some a → a < s.nextAs

namespace Inv

theorem isolated (hi : Inv s) : Isolated s := by
  intro a ha _ i hv
  obtain ⟨b, hb, hm⟩ := hi.own i hv
  obtain rfl : a = b := some.inj ((hi.cur a ha).symm.trans hb)
  exact hm

theorem no_faults (hi : Inv s) (h : s.vmspace t = none) : s.faults t = [] := by
  cases hf : s.faults t with
  | nil => rfl
  | cons st rest =>
    obtain ⟨a, ha, -⟩ := hi.backed t st (by simp [hf])
    simp [h] at ha

/-! ## Page tables -/

section

variable (hi : Inv s) (ha : s.vmspace s.curthread = some a)
include hi ha

theorem grow
    (hg : Grown (s.spaces a) as) (g : Globals) :
    Inv { s with spaces := update s.spaces a as, globals := g } := by
  have hup : ∀ b, Grown (s.spaces b) (update s.spaces a as b) := by
    intro b
    by_cases hb : b = a
    · subst hb
      rwa [update_self]
    · rw [update_of_ne hb]
      exact .refl _
  refine ⟨fun i hv => ?_, hi.cur, fun t st hst => ?_, hi.old⟩
  · obtain ⟨b, hb, hm⟩ := hi.own i hv
    exact ⟨b, hb, hm.grow (hup b)⟩
  · obtain ⟨b, hb, hm⟩ := hi.backed t st hst
    exact ⟨b, hb, hm.grow (hup b)⟩

theorem fill {f : Fault}
    (hb : Backed (s.spaces a) f) :
    Inv { s with globals := (tlbFill (s.spaces a) s.globals s.tlb f).1
                 tlb := (tlbFill (s.spaces a) s.globals s.tlb f).2 } := by
  refine ⟨fun i hv => ?_, hi.cur, hi.backed, hi.old⟩
  refine ⟨a, hi.cur a ha, ?_⟩
  rcases tlbFill_spec i hv with ⟨hv', hs⟩ | hs
  · obtain ⟨b, hb', hm⟩ := hi.own i hv'
    obtain rfl : a = b := some.inj ((hi.cur a ha).symm.trans hb')
    exact hm.congr hs
  · exact hb.maps hs

theorem loadElf
    (hbare : (s.spaces a).Bare) (as : Addrspace) :
    Inv { s with spaces := update s.spaces a as } := by
  have hgrown : Grown (s.spaces a) as := by
    intro fa pg hpg
    obtain ⟨h1, h2, h3⟩ := hbare
    obtain ⟨seg, i, -, hpg⟩ := Addrspace.exists_of_pageAt hpg
    cases seg <;> simp [Addrspace.pages, h1, h2, h3] at hpg
  exact hi.grow ha hgrown s.globals

end

variable [DecidableEq T]

section

variable (hi : Inv s)
include hi

theorem setFaults {l : List Stage}
    (hl : ∀ st ∈ l, ∃ a, s.vmspace s.curthread = some a ∧ Backed (s.spaces a) st.fault) :
    Inv { s with faults := update s.faults s.curthread l } := by
  refine ⟨hi.own, hi.cur, fun t st hst => ?_, hi.old⟩
  by_cases ht : t = s.curthread
  · subst ht
    simp only [update_self] at hst
    exact hl st hst
  · simp only [update_of_ne ht] at hst
    exact hi.backed t st hst

theorem drop :
    Inv { s with vmspace := update s.vmspace s.curthread none
                 faults := update s.faults s.curthread [] } := by
  have hmem : ∀ t a, update s.vmspace s.curthread none t = some a → s.vmspace t = some a := by
    intro t a h
    by_cases ht : t = s.curthread
    · simp [ht] at h
    · rwa [update_of_ne ht] at h
  refine ⟨hi.own, fun a ha => by simp at ha, fun t st hst => ?_,
    fun t a h => hi.old t a (hmem t a h)⟩
  by_cases ht : t = s.curthread
  · simp [ht] at hst
  · simp only [update_of_ne ht] at hst ⊢
    exact hi.backed t st hst

theorem enterFault (ha : s.vmspace s.curthread = some a) {ty : FaultType}
    {va frame : Nat} (h : enterFault s a ty va frame = some s') : Inv s' := by
  obtain ⟨⟨as, g, out⟩, hpage, rfl⟩ := map_eq_some_iff.mp h
  obtain ⟨-, hg, hb⟩ := faultPage_spec hpage
  have hgrow := hi.grow ha hg g
  have hself : ∀ f, Backed as f → Backed (update s.spaces a as a) f := by
    intro f hf
    rwa [update_self]
  have hpush : ∀ st : Stage, Backed as st.fault → ∀ st' ∈ st :: s.faults s.curthread,
      ∃ b, s.vmspace s.curthread = some b ∧ Backed (update s.spaces a as b) st'.fault := by
    intro st hst
    exact forall_mem_cons.mpr ⟨⟨a, ha, hself _ hst⟩, hgrow.backed s.curthread⟩
  cases out with
  | fail e => exact hgrow
  | kill => exact hgrow.drop
  | load f l => exact hgrow.setFaults (hpush _ hb.2)
  | fill f => exact hgrow.setFaults (hpush _ hb.2)

theorem switch (hc : Undisturbed s (.switch t)) (h : step s (.switch t) = some s') :
    Inv s' := by
  simp only [step] at h
  split at h
  · rename_i a ha
    cases h
    refine ⟨fun i hv => ⟨a, rfl, ?_⟩, fun b hb => ?_, hi.backed, hi.old⟩
    · -- the comparison finds the two equal, so the TLB is as it was
      simp only [asActivate, ha, ne_eq, not_true_eq_false, if_false] at hv ⊢
      rcases hc a ha with hact | hempty
      · obtain ⟨b, hb, hm⟩ := hi.own i hv
        obtain rfl : a = b := some.inj (hact.symm.trans hb)
        exact hm
      · exact absurd hv (hempty i)
    · exact ha.symm.trans hb
  · rename_i hnone
    cases h
    exact ⟨hi.own, fun a ha => by simp [hnone] at ha, hi.backed, hi.old⟩

theorem attach (hnone : s.vmspace s.curthread = none) (hempty : s.tlb.Empty)
    (as : Addrspace) : Inv (attach s as) := by
  have hother : ∀ t b, t ≠ s.curthread →
      update s.vmspace s.curthread (some s.nextAs) t = some b → s.vmspace t = some b := by
    intro t b ht h
    rwa [update_of_ne ht] at h
  have hnew : ∀ t b, s.vmspace t = some b → b ≠ s.nextAs := fun t b h => (hi.old t b h).ne
  refine ⟨fun i hv => ?_, fun b hb => ?_, fun t st hst => ?_, fun t b hb => ?_⟩
  · simp only [Vm.attach, asActivate, update_self, ne_eq, not_true_eq_false, if_false] at hv
    exact absurd hv (hempty i)
  · simp only [Vm.attach, asActivate, update_self] at hb ⊢
    exact hb
  · have ht : t ≠ s.curthread := by
      rintro rfl
      have hst : st ∈ s.faults s.curthread := hst
      simp [hi.no_faults hnone] at hst
    obtain ⟨b, hb, hm⟩ := hi.backed t st hst
    refine ⟨b, ?_, ?_⟩
    · simp only [Vm.attach, asActivate, update_of_ne ht]
      exact hb
    · simp only [Vm.attach, asActivate, update_of_ne (hnew t b hb)]
      exact hm
  · simp only [Vm.attach, asActivate] at hb ⊢
    by_cases ht : t = s.curthread
    · subst ht
      rw [update_self] at hb
      have := some.inj hb
      omega
    · have := hi.old t b (hother t b ht hb)
      omega

theorem step {e : Event T} (hc : Undisturbed s e) (h : Vm.step s e = some s') :
    Inv s' := by
  cases e with
  | fault ty va frame =>
    simp only [Vm.step, ite_none_right_eq_some, bind_eq_some_iff] at h
    obtain ⟨-, a, ha, h⟩ := h
    exact hi.enterFault ha h
  | touch ty off frame =>
    simp only [Vm.step] at h
    split at h
    · rename_i ha
      exact hi.enterFault ha (ite_none_right_eq_some.mp h).2
    · cases h
  | loaded ok =>
    simp only [Vm.step] at h
    split at h
    · rename_i f l rest hf
      have hrest := fun st (hst : st ∈ rest) =>
        hi.backed s.curthread st (by rw [hf]; exact mem_cons_of_mem _ hst)
      split at h
      · cases h
        obtain ⟨a, ha, hb⟩ := hi.backed s.curthread ⟨f, some l⟩ (by rw [hf]; exact mem_cons_self)
        have hi' := (hi.grow ha (.refl _) (afterLoad s.globals f)).setFaults (l := ⟨f, none⟩ :: rest)
        rw [update_eq_self] at hi'
        exact hi' (forall_mem_cons.mpr ⟨⟨a, ha, hb⟩, hrest⟩)
      · cases h
        exact hi.setFaults hrest
    · cases h
  | fill =>
    simp only [Vm.step] at h
    split at h
    · rename_i f rest a hf ha
      cases h
      obtain ⟨b, hb, hback⟩ := hi.backed s.curthread ⟨f, none⟩ (by rw [hf]; exact mem_cons_self)
      obtain rfl : a = b := some.inj (ha.symm.trans hb)
      exact (hi.fill ha hback).setFaults fun st hst =>
        hi.backed s.curthread st (by rw [hf]; exact mem_cons_of_mem _ hst)
    · cases h
  | switch t => exact hi.switch hc h
  | asDestroy =>
    simp only [Vm.step, ite_some_none_eq_some] at h
    obtain ⟨hf, rfl⟩ := h
    have hd := hi.drop
    rwa [← hf, update_eq_self] at hd
  | asCreate junk =>
    simp only [Vm.step, ite_some_none_eq_some] at h
    obtain ⟨hnone, rfl⟩ := h
    exact hi.attach hnone hc _
  | loadElf v phs junk =>
    simp only [Vm.step, bind_eq_some_iff, ite_some_none_eq_some] at h
    obtain ⟨a, ha, ⟨-, hbare⟩, rfl⟩ := h
    exact hi.loadElf ha hbare _
  | forkentry parent junk junkPaddr =>
    simp only [Vm.step, ite_none_right_eq_some, map_eq_some_iff] at h
    obtain ⟨hnone, p, -, rfl⟩ := h
    exact hi.attach hnone hc _

end

end Inv

theorem inv_init (t : T) (g : Globals) (tlb : Tlb) (junk : Addrspace) : Inv (init t g tlb junk) := by
  refine ⟨fun i hv => ?_, by simp [init], by simp [init], by simp [init]⟩
  simp [init, Tlb.invalid, TlbEntry.Valid] at hv

/-- Every activation finds its own address space active or an empty TLB. -/
theorem isolated_of_undisturbed [DecidableEq T] (t : T) (g : Globals) (tlb : Tlb) (junk : Addrspace)
    (es : List (Event T)) (hc : Meets step Undisturbed (init t g tlb junk) es) :
    Always step Isolated (init t g tlb junk) es :=
  always_of_meets (fun _ _ _ hi hc h => hi.step hc h) (fun _ hi => hi.isolated)
    (inv_init t g tlb junk) hc

def noPages : Region := ⟨0, 0, 0, 0, 0, []⟩

def noSpace : Addrspace := ⟨noPages, noPages, [], 0⟩

def smallProgram : List Phdr :=
  [⟨.reginfo, 0, 0, 0, 0, 0⟩, ⟨.load, 4096, 0x400000, 64, 64, 5⟩, ⟨.load, 8192, 0x10000000, 64, 64, 6⟩]

def boot : Sys (Fin 2) :=
  init 0 ⟨0, false, false, false, false⟩ Tlb.zero noSpace

def start : List (Event (Fin 2)) := [.asCreate noSpace, .loadElf 0 smallProgram fun _ => 0]

/-- Process 0 writes to its stack, and its entry is still there when process 1 runs. -/
theorem entry_survives_switch :
    ∃ s ∈ run step boot (start ++ [.switch 1] ++ start ++
      [.switch 0, .fault .write 0x7ffffffc 0x5000, .fill, .switch 1]), ¬ Isolated s := by
  decide +kernel

theorem isolated_of_undisturbed_kernel :
    let es : List (Event (Fin 2)) := start ++
      [.fault .write 0x7ffffffc 0x5000, .fill, .switch 1, .switch 0, .fault .read 0x400000 0x6000,
        .touch .write 0 0, .fill, .loaded true, .fill]
    Meets step Undisturbed boot es ∧ Always step Isolated boot es := by
  have hc : Meets step Undisturbed boot (start ++
      [.fault .write 0x7ffffffc 0x5000, .fill, .switch 1, .switch 0, .fault .read 0x400000 0x6000,
        .touch .write 0 0, .fill, .loaded true, .fill]) := by decide +kernel
  exact ⟨hc, isolated_of_undisturbed _ _ _ _ _ hc⟩

end Os161.Vm
