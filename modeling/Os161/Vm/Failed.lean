import Os161.Coremap.Proofs
import Os161.Vm.Destroy
import Os161.Vm.Load

/-!
# Faults that fail

`vm_fault` marks its page as valid before it asks for a frame and reads the file. First one call, then
the pages of all address spaces.
-/

open Os161.Lib Function List Option

namespace Os161.Vm.Failed

open Os161.Coremap (Entry getppages setUsed stampEntry RamSize vmBootstrap)
open Destroy (wantsFrame wantsFrame_iff)

/-! ## One call -/

structure Mach where
  globals : Globals
  tlb : Tlb
  mem : Nat → Nat → UInt8
  coremap : List Entry

/-- A read of the executable fails after `io` bytes. -/
structure Miss where
  ty : FaultType
  va : Nat
  c : Coremap.Call
  file : List UInt8
  io : Option Nat

/-- A write fault that cannot load its page releases `tlb_lock`, which it does not hold. -/
def Mach.enter (k : Mach) (as : Addrspace) (m : Miss) (frame : Nat) (coremap : List Entry) :
    Option (Mach × Option Addrspace × Ret) :=
  (vmFault ⟨as, k.globals, k.tlb, k.mem⟩ m.file m.ty m.va frame m.io).bind fun (p, ret) =>
    if m.ty = .write ∧ frame ≠ 0 ∧ ret ≠ .ok ∧ ret ≠ .killed then none
    else some (⟨p.globals, p.tlb, p.mem, coremap⟩, some p.as, ret)

def Mach.vmFault (k : Mach) (as : Option Addrspace) (m : Miss) :
    Option (Mach × Option Addrspace × Ret) :=
  match as with
  | none => some ({ k with globals := k.globals.sawFault m.va }, none, .err .EFAULT)
  | some as =>
    if wantsFrame as m.ty m.va then
      match getppages k.coremap 1 m.c with
      | .page paddr coremap => k.enter as m paddr coremap
      | .none => k.enter as m 0 k.coremap
      | .wild | .panic => none
    else k.enter as m 0 k.coremap

/-- The pages are as before, and so is every frame that is in use. -/
structure Unchanged (k k' : Mach) (as as' : Option Addrspace) : Prop where
  pages : ∀ seg, as'.map (fun a => a.pages seg) = as.map fun a => a.pages seg
  frames : k'.coremap.map Entry.used = k.coremap.map Entry.used

section call

variable {as as' : Addrspace} {g : Globals} {ty : FaultType} {va frame fa : Nat} {pg : Page}
  {p p' : Proc} {ret : Ret} {k k' : Mach} {m : Miss} {coremap : List Entry}

theorem faultPage_pages {r : Addrspace × Globals × Outcome}
    (h : faultPage as g ty va frame = some r) :
    (wantsFrame as ty va = false ∧ r.1 = as) ∨
      (wantsFrame as ty va = true ∧ ∃ seg i pg, (as.pages seg)[i]? = some pg ∧ pg.valid = false ∧
        r.1 = as.setPage seg i ⟨pageOf va, if frame = 0 then pg.paddr else frame, true,
          pg.permission⟩) := by
  obtain ⟨as', g', out⟩ := r
  rw [wantsFrame_iff, ← Bool.not_eq_true, wantsFrame_iff]
  rcases faultPage_cases h with ⟨hloc, hsame, -, -⟩ | ⟨seg, i, pg, hloc, hpg, hanswer⟩
  · refine .inl ⟨?_, hsame⟩
    simp [Addrspace.pageAt, hloc]
  · rw [Addrspace.pageAt_eq hloc, hpg]
    cases hanswer with
    | readonly | other => exact .inl ⟨by simp, rfl⟩
    | held _ hv => exact .inl ⟨by simp [hv], rfl⟩
    | refused hty hv hframe =>
      exact .inr ⟨⟨hty, pg, rfl, hv⟩, seg, i, pg, hpg, hv, by rw [if_pos hframe]⟩
    | zeroed hty hv hframe | loading hty hv hframe =>
      exact .inr ⟨⟨hty, pg, rfl, hv⟩, seg, i, pg, hpg, hv, by rw [if_neg hframe]⟩

theorem loadEachSegment_as {file : List UInt8} {l : Load} {io : Option Nat}
    (h : loadEachSegment p file fa l io = (p', ret)) (hpg : p.as.pageAt fa = some pg)
    (hv : pg.valid = true) (hal : fa % PAGE_SIZE = 0) : p'.as = p.as := by
  rcases loadEachSegment_cases h with ⟨-, rfl, -⟩ | ⟨-, ⟨rfl, -⟩ | ⟨-, q, acc, mem, hk, rfl, -⟩⟩
  · rfl
  · rfl
  · rcases kernelStore_cases hpg hv hal with ⟨e, -, hstore⟩ | ⟨-, _, seg, i, rfl, hstore⟩
    · cases hk.symm.trans hstore
      rfl
    · cases hk.symm.trans hstore
      rfl

theorem vmFault_pages {file : List UInt8} {io : Option Nat}
    (h : Vm.vmFault p file ty va frame io = some (p', ret)) :
    ∃ g out, faultPage p.as p.globals ty va frame = some (p'.as, g, out) := by
  obtain ⟨⟨as, g, out⟩, hpage, hrest⟩ := map_eq_some_iff.mp h
  have hback := (faultPage_spec hpage).2.2
  refine ⟨g, out, ?_⟩
  rw [hpage]
  cases out with
  | fail e | kill | fill f =>
    cases hrest
    rfl
  | load f l =>
    obtain ⟨hfa, pg, hpg, hv, -⟩ := hback
    dsimp only at hrest
    cases hl : loadEachSegment ⟨as, g, p.tlb, p.mem⟩ file f.fa l io with
    | mk q ret' =>
      have has : q.as = as := loadEachSegment_as hl hpg hv (by rw [hfa]; exact pageOf_aligned va)
      rw [hl] at hrest
      cases ret' with
      | ok | err e | killed =>
        cases hrest
        subst has
        rfl

theorem enter_pages {k' : Mach} {o : Option Addrspace}
    (h : k.enter as m frame coremap = some (k', o, ret)) :
    ∃ as' g out, o = some as' ∧ k'.coremap = coremap ∧
      faultPage as k.globals m.ty m.va frame = some (as', g, out) := by
  obtain ⟨⟨p, ret'⟩, hfault, hrest⟩ := bind_eq_some_iff.mp h
  obtain ⟨g, out, hpage⟩ := vmFault_pages hfault
  dsimp only at hrest
  split at hrest
  · cases hrest
  · cases hrest
    exact ⟨p.as, g, out, rfl, rfl, hpage⟩

theorem vmFault_cases {o o' : Option Addrspace} (h : k.vmFault o m = some (k', o', ret)) :
    ((∀ as ∈ o, wantsFrame as m.ty m.va = false) ∧ o' = o ∧ k'.coremap = k.coremap) ∨
      ∃ as seg i pg frame, o = some as ∧ wantsFrame as m.ty m.va = true ∧
        (as.pages seg)[i]? = some pg ∧ pg.valid = false ∧
        o' = some (as.setPage seg i ⟨pageOf m.va, if frame = 0 then pg.paddr else frame, true,
          pg.permission⟩) ∧
        (getppages k.coremap 1 m.c = .page frame k'.coremap ∨
          getppages k.coremap 1 m.c = .none ∧ frame = 0 ∧ k'.coremap = k.coremap) := by
  unfold Mach.vmFault at h
  cases o with
  | none =>
    cases h
    exact .inl ⟨by simp, rfl, rfl⟩
  | some as =>
    dsimp only at h
    cases hw : wantsFrame as m.ty m.va with
    | false =>
      rw [if_neg (by simp [hw])] at h
      obtain ⟨as', g, out, rfl, hcore, hpage⟩ := enter_pages h
      rcases faultPage_pages hpage with ⟨-, has⟩ | ⟨hw', -⟩
      · exact .inl ⟨by simpa using hw, congrArg some has, hcore⟩
      · rw [hw] at hw'
        cases hw'
    | true =>
      rw [if_pos hw] at h
      have hpages : ∀ {frame coremap}, k.enter as m frame coremap = some (k', o', ret) →
          k'.coremap = coremap ∧ ∃ seg i pg, (as.pages seg)[i]? = some pg ∧ pg.valid = false ∧
            o' = some (as.setPage seg i ⟨pageOf m.va, if frame = 0 then pg.paddr else frame, true,
              pg.permission⟩) := by
        intro frame coremap he
        obtain ⟨as', g, out, rfl, hcore, hpage⟩ := enter_pages he
        rcases faultPage_pages hpage with ⟨hw', -⟩ | ⟨-, seg, i, pg, hpg, hv, has⟩
        · rw [hw] at hw'
          cases hw'
        · exact ⟨hcore, seg, i, pg, hpg, hv, congrArg some has⟩
      split at h
      · rename_i paddr coremap hg
        obtain ⟨hcore, seg, i, pg, hpg, hv, ho⟩ := hpages h
        exact .inr ⟨as, seg, i, pg, paddr, rfl, hw, hpg, hv, ho, .inl (by rw [hg, hcore])⟩
      · rename_i hg
        obtain ⟨hcore, seg, i, pg, hpg, hv, ho⟩ := hpages h
        exact .inr ⟨as, seg, i, pg, 0, rfl, hw, hpg, hv, ho, .inr ⟨hg, rfl, hcore⟩⟩
      · cases h
      · cases h

theorem unchanged_iff {o o' : Option Addrspace} (h : k.vmFault o m = some (k', o', ret)) :
    Unchanged k k' o o' ↔ ∀ as ∈ o, wantsFrame as m.ty m.va = false := by
  rcases vmFault_cases h with ⟨hw, rfl, hcore⟩ | ⟨as, seg, i, pg, frame, rfl, hw, hpg, hv, rfl, -⟩
  · exact ⟨fun _ => hw, fun _ => ⟨fun _ => rfl, by rw [hcore]⟩⟩
  · constructor
    · intro hu
      have hpages := hu.pages seg
      simp only [map_some, some.injEq, Addrspace.pages_setPage_self] at hpages
      have hi := (List.getElem?_eq_some_iff.mp hpg).1
      rw [← hpages, List.getElem?_set_self hi] at hpg
      have hvalid := congrArg Page.valid (some.inj hpg)
      rw [hv] at hvalid
      cases hvalid
    · intro hnot
      rw [hnot as rfl] at hw
      cases hw

end call

/-- `kernel` tells which entries of the coremap the kernel has taken for itself. -/
structure State where
  mach : Mach
  spaces : Nat → Option Addrspace
  kernel : Nat → Bool

inductive Label
  | create (p : Nat) (junk : Addrspace)
  | loadElf (p v : Nat) (phs : List Phdr) (junk : Nat → Nat)
  | defineStack (p : Nat) (junk : Nat → Nat)
  | fault (p : Nat) (m : Miss)
  /-- `as_copy` of the address space `p`; the new one is `q`. -/
  | copy (p q : Nat) (junk : Addrspace) (junkPaddr : Segment → Nat → Nat)
  | destroy (p : Nat)
  | take (j : Nat)
  | give (j : Nat)
  /-- Anything else: programs and the kernel run, and the TLB is flushed. -/
  | elsewhere (g : Globals) (tlb : Tlb) (mem : Nat → Nat → UInt8)

def State.set (s : State) (p : Nat) (o : Option Addrspace) : State :=
  { s with spaces := update s.spaces p o }

def State.mark (s : State) (j : Nat) (b : Bool) : State := { s with
    mach := { s.mach with coremap := s.mach.coremap.modify j fun e => { e with used := b } }
    kernel := update s.kernel j b }

def step (s : State) : Label → Option State
  | .create p junk => if s.spaces p = none then some (s.set p (some (asCreate junk))) else none
  | .loadElf p v phs junk => (s.spaces p).map fun as => s.set p (some (loadElf as v phs junk).1)
  | .defineStack p junk => (s.spaces p).map fun as => s.set p (some (asDefineStack as junk))
  | .fault p m =>
    (s.mach.vmFault (s.spaces p) m).map fun r => { s.set p r.2.1 with mach := r.1 }
  | .copy p q junk junkPaddr =>
    if s.spaces q = none then (s.spaces p).map fun as => s.set q (some (asCopy as junk junkPaddr))
    else none
  | .destroy p => some (s.set p none)
  | .take j => if s.mach.coremap[j]?.any (fun e => !e.used) then some (s.mark j true) else none
  | .give j => if s.kernel j then some (s.mark j false) else none
  | .elsewhere g tlb mem => some { s with mach := { s.mach with globals := g, tlb := tlb, mem := mem } }

/-- After `vm_bootstrap`: what is used belongs to the kernel. -/
def boot (coremap : List Entry) (g : Globals) (tlb : Tlb) (mem : Nat → Nat → UInt8) : State where
  mach := ⟨g, tlb, mem, coremap⟩
  spaces := fun _ => none
  kernel := fun j => coremap[j]?.any Entry.used

def Resident (s : State) (p : Nat) (seg : Segment) (i : Nat) (pg : Page) : Prop :=
  ∃ as, s.spaces p = some as ∧ (as.pages seg)[i]? = some pg ∧ pg.valid = true

/-- The frame of a valid page is allocated, not to the kernel, and to no other page. -/
structure Owned (s : State) : Prop where
  frame : ∀ p seg i pg, Resident s p seg i pg →
    ∃ j e, s.mach.coremap[j]? = some e ∧ e.paddr = pg.paddr ∧ e.used = true ∧ s.kernel j = false
  alone : ∀ p seg i pg q seg' i' pg', Resident s p seg i pg → Resident s q seg' i' pg' →
    pg.paddr = pg'.paddr → p = q ∧ seg = seg' ∧ i = i'

/-- A fault that wants a frame gets one, and no address space is copied. -/
def Supplied (s : State) : Label → Prop
  | .fault p m => ∀ as ∈ s.spaces p, wantsFrame as m.ty m.va = true →
    getppages s.mach.coremap 1 m.c ≠ .none
  | .copy .. => False
  | _ => True

/-! ### Entries of the coremap -/

def Marks (cm cm' : List Entry) (j : Nat) (b : Bool) : Prop :=
  ∃ f : Entry → Entry, (∀ e, (f e).paddr = e.paddr ∧ (f e).used = b) ∧
    ∀ i, cm'[i]? = if i = j then cm[i]?.map f else cm[i]?

variable {s s' : State} {cm cm' : List Entry} {j : Nat} {b : Bool}

theorem marks_modify (cm : List Entry) (j : Nat) (b : Bool) :
    Marks cm (cm.modify j fun e => { e with used := b }) j b := by
  refine ⟨fun e => { e with used := b }, fun e => ⟨rfl, rfl⟩, fun i => ?_⟩
  by_cases hij : i = j
  · simp [hij]
  · simp [hij, Ne.symm hij]

theorem marks_getppages {c : Coremap.Call} {pa : Nat} (h : getppages cm 1 c = .page pa cm') :
    ∃ j e, cm[j]? = some e ∧ e.used = false ∧ e.paddr = pa ∧ Marks cm cm' j true := by
  obtain ⟨j, e, he, hu, hpa, rfl⟩ := Coremap.getppages_one h
  refine ⟨j, e, he, hu, hpa, fun e => { stampEntry 1 c e with used := true },
    fun e => ⟨rfl, rfl⟩, fun i => ?_⟩
  rw [Coremap.setUsed_getElem?, List.getElem?_modify]
  cases cm[i]? with
  | none => simp
  | some x =>
    simp only [Option.map_some, Option.map_eq_map]
    by_cases hij : i = j
    · have hin : j ≤ i ∧ i < j + 1 := by omega
      rw [if_pos hin, if_pos hij.symm, if_pos hij]
    · have hout : ¬ (j ≤ i ∧ i < j + 1) := by omega
      rw [if_neg hout, if_neg (Ne.symm hij), if_neg hij]

namespace Marks

theorem self (h : Marks cm cm' j b) {e : Entry} (he : cm[j]? = some e) :
    ∃ e', cm'[j]? = some e' ∧ e'.paddr = e.paddr ∧ e'.used = b := by
  obtain ⟨f, hf, hget⟩ := h
  refine ⟨f e, ?_, hf e⟩
  rw [hget, if_pos rfl, he]
  rfl

theorem other (h : Marks cm cm' j b) {i : Nat} (hij : i ≠ j) : cm'[i]? = cm[i]? := by
  obtain ⟨f, -, hget⟩ := h
  rw [hget, if_neg hij]

theorem paddr (h : Marks cm cm' j b) {i : Nat} {e' : Entry} (he : cm'[i]? = some e') :
    ∃ e, cm[i]? = some e ∧ e'.paddr = e.paddr := by
  obtain ⟨f, hf, hget⟩ := h
  rw [hget] at he
  split at he
  · obtain ⟨e, hcm, rfl⟩ := map_eq_some_iff.mp he
    exact ⟨e, hcm, (hf e).1⟩
  · exact ⟨e', he, rfl⟩

end Marks

/-! ### The invariant -/

structure CoreOk (cm : List Entry) (kernel : Nat → Bool) : Prop where
  nonzero : ∀ (i : Nat) (e : Entry), cm[i]? = some e → e.paddr ≠ 0
  distinct : ∀ (i j : Nat) (e e' : Entry), cm[i]? = some e → cm[j]? = some e' →
    e.paddr = e'.paddr → i = j
  kernel : ∀ (j : Nat) (e : Entry), kernel j = true → cm[j]? = some e → e.used = true

structure Inv (s : State) : Prop where
  core : CoreOk s.mach.coremap s.kernel
  owned : Owned s

theorem CoreOk.marks {kernel kernel' : Nat → Bool} (h : CoreOk cm kernel) (hm : Marks cm cm' j b)
    (hk : ∀ i, kernel' i = true → i = j ∧ b = true ∨ i ≠ j ∧ kernel i = true) :
    CoreOk cm' kernel' where
  nonzero := by
    intro i e he
    obtain ⟨x, hx, hp⟩ := hm.paddr he
    rw [hp]
    exact h.nonzero i x hx
  distinct := by
    intro i k e e' he he' hp
    obtain ⟨x, hx, hpx⟩ := hm.paddr he
    obtain ⟨y, hy, hpy⟩ := hm.paddr he'
    exact h.distinct i k x y hx hy (by rw [← hpx, ← hpy, hp])
  kernel := by
    intro i e hki he
    rcases hk i hki with ⟨rfl, rfl⟩ | ⟨hij, hold⟩
    · obtain ⟨x, hx, -⟩ := hm.paddr he
      obtain ⟨e', he', -, hu⟩ := hm.self hx
      rw [he] at he'
      cases he'
      exact hu
    · rw [hm.other hij] at he
      exact h.kernel i e hold he

def NoNew (as as' : Addrspace) : Prop :=
  ∀ (seg : Segment) (i : Nat) (pg : Page), (as'.pages seg)[i]? = some pg → pg.valid = true →
    (as.pages seg)[i]? = some pg

theorem NoNew.refl (as : Addrspace) : NoNew as as := fun _ _ _ h _ => h

theorem NoNew.trans {as as' as'' : Addrspace} (h : NoNew as as') (h' : NoNew as' as'') :
    NoNew as as'' := fun seg i pg hpg hv => h seg i pg (h' seg i pg hpg hv) hv

theorem NoNew.of_append {as as' : Addrspace} (h : ∀ seg, ∃ new, as'.pages seg = as.pages seg ++ new ∧
    ∀ pg ∈ new, pg.valid = false) : NoNew as as' := by
  intro seg i pg hpg hv
  obtain ⟨new, heq, hnew⟩ := h seg
  rw [heq, List.getElem?_append] at hpg
  split at hpg
  · exact hpg
  · rw [hnew pg (mem_of_getElem? hpg)] at hv
    cases hv

theorem noNew_defineRegion (as : Addrspace) (vaddr sz f_sz flag : Nat) (junk : Nat → Nat) :
    NoNew as (asDefineRegion as vaddr sz f_sz flag junk).1 := by
  apply NoNew.of_append
  intro seg
  unfold asDefineRegion
  split_ifs
  · cases seg with
    | code => exact ⟨_, rfl, by simp⟩
    | data | stack => exact ⟨[], (append_nil _).symm, by simp⟩
  · cases seg with
    | data => exact ⟨_, rfl, by simp⟩
    | code | stack => exact ⟨[], (append_nil _).symm, by simp⟩
  · exact ⟨[], (append_nil _).symm, by simp⟩

theorem noNew_defineStack (as : Addrspace) (junk : Nat → Nat) : NoNew as (asDefineStack as junk) := by
  apply NoNew.of_append
  intro seg
  cases seg with
  | code | data => exact ⟨[], by simp [Addrspace.pages, asDefineStack], by simp⟩
  | stack => exact ⟨_, rfl, by simp⟩

theorem noNew_defineRegions (junk : Nat → Nat) (phs : List Phdr) (as : Addrspace) :
    NoNew as (defineRegions junk phs as).1 := by
  induction phs generalizing as with
  | nil => exact .refl as
  | cons ph phs ih =>
    unfold defineRegions
    cases ph.p_type with
    | null | phdr | reginfo => exact ih as
    | other => exact .refl as
    | load =>
      have hdef := noNew_defineRegion as ph.p_vaddr ph.p_memsz ph.p_filesz (ph.p_flags &&& 7) junk
      dsimp only
      split
      · rename_i as₁ e heq
        rwa [heq] at hdef
      · rename_i as₁ heq
        rw [heq] at hdef
        exact hdef.trans (ih as₁)

theorem pages_setOffsets (n : Nat) (phs : List Phdr) (as : Addrspace) (seg : Segment) :
    (setOffsets n phs as).1.pages seg = as.pages seg := by
  induction phs generalizing n as with
  | nil => rfl
  | cons ph phs ih =>
    unfold setOffsets
    cases ph.p_type with
    | null | phdr | reginfo => exact ih (n + 1) as
    | other => rfl
    | load =>
      rw [ih]
      split_ifs <;> cases seg <;> rfl

theorem noNew_loadElf (as : Addrspace) (v : Nat) (phs : List Phdr) (junk : Nat → Nat) :
    NoNew as (loadElf as v phs junk).1 := by
  have hdef := noNew_defineRegions junk phs as
  unfold loadElf
  split
  · rename_i as₁ e heq
    rwa [heq] at hdef
  · rename_i as₁ heq
    rw [heq] at hdef
    intro seg i pg hpg hv
    rw [pages_setOffsets] at hpg
    refine hdef seg i pg ?_ hv
    cases seg <;> exact hpg

theorem Owned.shrink (h : Owned s) (hmach : s'.mach.coremap = s.mach.coremap)
    (hkern : s'.kernel = s.kernel) (hnew : ∀ p as', s'.spaces p = some as' →
      (∃ as, s.spaces p = some as ∧ NoNew as as') ∨ ∀ seg, ∀ pg ∈ as'.pages seg, pg.valid = false) :
    Owned s' := by
  have hback : ∀ p seg i pg, Resident s' p seg i pg → Resident s p seg i pg := by
    rintro p seg i pg ⟨as', has', hpg, hv⟩
    rcases hnew p as' has' with ⟨as, has, hno⟩ | hinv
    · exact ⟨as, has, hno seg i pg hpg hv, hv⟩
    · rw [hinv seg pg (mem_of_getElem? hpg)] at hv
      cases hv
  refine ⟨?_, ?_⟩
  · intro p seg i pg hr
    rw [hmach, hkern]
    exact h.frame p seg i pg (hback _ _ _ _ hr)
  · intro p seg i pg q seg' i' pg' hr hr'
    exact h.alone p seg i pg q seg' i' pg' (hback _ _ _ _ hr) (hback _ _ _ _ hr')

theorem Inv.set (h : Inv s) (p : Nat) (o : Option Addrspace)
    (hnew : ∀ as', o = some as' → (∃ as, s.spaces p = some as ∧ NoNew as as') ∨
      ∀ seg, ∀ pg ∈ as'.pages seg, pg.valid = false) : Inv (s.set p o) := by
  refine ⟨h.core, h.owned.shrink rfl rfl ?_⟩
  intro q as' has'
  by_cases hq : q = p
  · subst hq
    exact hnew as' (by simpa [State.set] using has')
  · have has : s.spaces q = some as' := by simpa [State.set, update_of_ne hq] using has'
    exact .inl ⟨as', has, fun _ _ _ hpg _ => hpg⟩

theorem Inv.mark (h : Inv s) (hno : ∀ p seg i pg, Resident s p seg i pg →
      ∀ e, s.mach.coremap[j]? = some e → e.paddr ≠ pg.paddr) : Inv (s.mark j b) := by
  have hm := marks_modify s.mach.coremap j b
  refine ⟨h.core.marks hm ?_, ?_, h.owned.alone⟩
  · intro i hki
    by_cases hij : i = j
    · subst hij
      exact .inl ⟨rfl, by simpa [State.mark] using hki⟩
    · exact .inr ⟨hij, by simpa [State.mark, update_of_ne hij] using hki⟩
  · intro p seg i pg hr
    obtain ⟨k, e, he, hp, hu, hk⟩ := h.owned.frame p seg i pg hr
    have hkj : k ≠ j := by
      rintro rfl
      exact hno p seg i pg hr e he hp
    refine ⟨k, e, ?_, hp, hu, ?_⟩
    · exact (hm.other hkj).trans he
    · simpa [State.mark, update_of_ne hkj] using hk

theorem Inv.getFrame (h : Inv s) {p i : Nat} {as : Addrspace} {seg : Segment} {pg new : Page}
    {k : Mach} {e : Entry} (has : s.spaces p = some as) (hpg : (as.pages seg)[i]? = some pg)
    (he : s.mach.coremap[j]? = some e) (hu : e.used = false)
    (hnew : new.paddr = e.paddr) (hm : Marks s.mach.coremap k.coremap j true) :
    Inv { s.set p (some (as.setPage seg i new)) with mach := k } := by
  have hi := (List.getElem?_eq_some_iff.mp hpg).1
  -- a page that is valid now is the new one, or was valid before
  have hres : ∀ {q seg' i' pg'}, Resident { s.set p (some (as.setPage seg i new)) with mach := k }
      q seg' i' pg' → (q = p ∧ seg' = seg ∧ i' = i ∧ pg' = new) ∨ Resident s q seg' i' pg' := by
    rintro q seg' i' pg' ⟨a, ha, hpg', hv'⟩
    by_cases hq : q = p
    · subst hq
      obtain rfl : as.setPage seg i new = a := by simpa [State.set] using ha
      by_cases hseg : seg' = seg
      · subst hseg
        rw [Addrspace.pages_setPage_self] at hpg'
        by_cases hii : i' = i
        · subst hii
          rw [List.getElem?_set_self hi] at hpg'
          exact .inl ⟨rfl, rfl, rfl, (some.inj hpg').symm⟩
        · rw [List.getElem?_set_ne (Ne.symm hii)] at hpg'
          exact .inr ⟨as, has, hpg', hv'⟩
      · rw [Addrspace.pages_setPage_of_ne hseg] at hpg'
        exact .inr ⟨as, has, hpg', hv'⟩
    · exact .inr ⟨a, by simpa [State.set, update_of_ne hq] using ha, hpg', hv'⟩
  -- the entry was unused, so no page had its frame
  have hfresh : ∀ {q seg' i' pg'}, Resident s q seg' i' pg' → pg'.paddr ≠ e.paddr := by
    intro q seg' i' pg' hr hp
    obtain ⟨l, x, hx, hxp, hxu, -⟩ := h.owned.frame q seg' i' pg' hr
    obtain rfl := h.core.distinct l j x e hx he (hxp.trans hp)
    rw [he] at hx
    cases hx
    rw [hu] at hxu
    cases hxu
  refine ⟨h.core.marks hm ?_, ?_, ?_⟩
  · intro l hl
    refine .inr ⟨?_, hl⟩
    rintro rfl
    rw [h.core.kernel l e hl he] at hu
    cases hu
  · intro q seg' i' pg' hr
    rcases hres hr with ⟨-, -, -, rfl⟩ | hr
    · obtain ⟨e', he', hp, hused⟩ := hm.self he
      refine ⟨j, e', he', hp.trans hnew.symm, hused, ?_⟩
      by_contra hk
      rw [h.core.kernel j e (by simpa [State.set] using hk) he] at hu
      cases hu
    · obtain ⟨l, x, hx, hxp, hxu, hk⟩ := h.owned.frame q seg' i' pg' hr
      have hlj : l ≠ j := by
        rintro rfl
        rw [he] at hx
        cases hx
        rw [hu] at hxu
        cases hxu
      exact ⟨l, x, (hm.other hlj).trans hx, hxp, hxu, hk⟩
  · intro q seg' i' pg' q' seg'' i'' pg'' hr hr' hp
    rcases hres hr with ⟨rfl, rfl, rfl, rfl⟩ | hold₁
    · rcases hres hr' with ⟨rfl, rfl, rfl, rfl⟩ | hold₂
      · exact ⟨rfl, rfl, rfl⟩
      · exact absurd (hp.symm.trans hnew) (hfresh hold₂)
    · rcases hres hr' with ⟨rfl, rfl, rfl, rfl⟩ | hold₂
      · exact absurd (hp.trans hnew) (hfresh hold₁)
      · exact h.owned.alone _ _ _ _ _ _ _ _ hold₁ hold₂ hp

theorem Inv.fault (h : Inv s) {p : Nat} {m : Miss} (hc : Supplied s (.fault p m))
    (hs : Failed.step s (.fault p m) = some s') : Inv s' := by
  obtain ⟨⟨k, o, ret⟩, hf, rfl⟩ := map_eq_some_iff.mp hs
  rcases vmFault_cases hf with ⟨-, rfl, hcore⟩ |
    ⟨as, seg, i, pg, frame, has, hw, hpg, hv, rfl, hgot⟩
  · refine ⟨?_, h.owned.shrink hcore rfl ?_⟩
    · rw [hcore]
      exact h.core
    · intro q as' has'
      have has : s.spaces q = some as' := by simpa [State.set] using has'
      exact .inl ⟨as', has, .refl as'⟩
  · rcases hgot with hgot | ⟨hnone, -⟩
    · obtain ⟨j, e, he, hu, hpa, hm⟩ := marks_getppages hgot
      have hne : frame ≠ 0 := hpa ▸ h.core.nonzero j e he
      exact h.getFrame has hpg he hu (by rw [if_neg hne, hpa]) hm
    · exact absurd hnone (hc as has hw)

theorem Inv.step (h : Inv s) {l : Label} (hc : Supplied s l) (hs : Failed.step s l = some s') :
    Inv s' := by
  cases l with
  | create p junk =>
    simp only [Failed.step] at hs
    split at hs
    · cases hs
      apply h.set
      rintro as' ⟨⟩
      exact .inr (by intro seg; cases seg <;> simp [asCreate, Addrspace.pages])
    · cases hs
  | loadElf p v phs junk =>
    obtain ⟨as, has, rfl⟩ := map_eq_some_iff.mp hs
    apply h.set
    rintro as' ⟨⟩
    exact .inl ⟨as, has, noNew_loadElf as v phs junk⟩
  | defineStack p junk =>
    obtain ⟨as, has, rfl⟩ := map_eq_some_iff.mp hs
    apply h.set
    rintro as' ⟨⟩
    exact .inl ⟨as, has, noNew_defineStack as junk⟩
  | fault p m => exact h.fault hc hs
  | copy p q junk junkPaddr => exact hc.elim
  | destroy p =>
    cases hs
    apply h.set
    intro as' has'
    cases has'
  | take j =>
    simp only [Failed.step] at hs
    split at hs
    · rename_i hany
      cases hs
      apply h.mark
      intro p seg i pg hr e he hp
      obtain ⟨k, x, hx, hxp, hxu, -⟩ := h.owned.frame p seg i pg hr
      obtain rfl := h.core.distinct k j x e hx he (hxp.trans hp.symm)
      rw [hx] at hany
      simp [hxu] at hany
    · cases hs
  | give j =>
    simp only [Failed.step] at hs
    split at hs
    · rename_i hkern
      cases hs
      apply h.mark
      intro p seg i pg hr e he hp
      obtain ⟨k, x, hx, hxp, -, hk⟩ := h.owned.frame p seg i pg hr
      obtain rfl := h.core.distinct k j x e hx he (hxp.trans hp.symm)
      rw [hk] at hkern
      cases hkern
    · cases hs
  | elsewhere g tlb mem =>
    cases hs
    exact ⟨h.core, h.owned.shrink rfl rfl fun q as' has' => .inl ⟨as', has', .refl as'⟩⟩

theorem inv_boot {first last : Nat} (hram : RamSize first last)
    (hboot : vmBootstrap first last = some cm) (g : Globals) (tlb : Tlb)
    (mem : Nat → Nat → UInt8) : Inv (boot cm g tlb mem) := by
  obtain ⟨hshape, -⟩ := Coremap.vmBootstrap_spec hram hboot
  have hfirst := hram.first_pos
  have hno : ∀ p seg i pg, ¬ Resident (boot cm g tlb mem) p seg i pg := by
    rintro p seg i pg ⟨as, has, -⟩
    cases has
  refine ⟨⟨?_, ?_, ?_⟩, ?_, ?_⟩
  · intro i e he
    rw [hshape.paddr i e he]
    omega
  · intro i j e e' he he' hp
    rw [hshape.paddr i e he, hshape.paddr j e' he'] at hp
    unfold Coremap.pageSize at hp
    omega
  · intro j e hk he
    have he' : cm[j]? = some e := he
    simpa [boot, he'] using hk
  · intro p seg i pg hr
    exact absurd hr (hno p seg i pg)
  · intro p seg i pg q seg' i' pg' hr
    exact absurd hr (hno p seg i pg)

/-- A failed call leaves pages and frames as they were just when it did not want a frame. -/
theorem failed_faults {first last : Nat} (hram : RamSize first last)
    (hboot : vmBootstrap first last = some cm) (g : Globals) (tlb : Tlb)
    (mem : Nat → Nat → UInt8) :
    (∀ (k k' : Mach) (o o' : Option Addrspace) (m : Miss) (e : Errno),
      k.vmFault o m = some (k', o', .err e) →
      (Unchanged k k' o o' ↔ ∀ as ∈ o, wantsFrame as m.ty m.va = false)) ∧
    ∀ ls : List Label, Meets step Supplied (boot cm g tlb mem) ls →
      Always step Owned (boot cm g tlb mem) ls := by
  constructor
  · intro k k' o o' m e h
    exact unchanged_iff h
  · intro ls hmeets
    exact always_of_meets (fun _ _ _ hi hc hs => Inv.step hi hc hs) (fun _ hi => hi.owned)
      (inv_boot hram hboot g tlb mem) hmeets

def oneFrame (used : Bool) : Mach :=
  ⟨⟨0, false, false, false, false⟩, Tlb.zero, fun _ _ => 0, [⟨0x31000, used, 0, -1, -1, none⟩]⟩

def onePage (filesz : Nat) : Addrspace :=
  ⟨⟨0, 0, 0, 0, 0, []⟩, ⟨0x10000000, 1, filesz, 0, 6, [⟨0x10000000, 0xbad, false, 6⟩]⟩, [], 0⟩

def readMiss : Miss := ⟨.read, 0x10000004, ⟨0, (0, 0), none⟩, [], none⟩

/-- The page becomes valid with the `paddr` that it happens to have. For a file that is too short
the frame is not given back. -/
theorem failed_fault_marks_page :
    (∃ k as, (oneFrame true).vmFault (some (onePage 0)) readMiss = some (k, some as, .err .ENOMEM) ∧
      as.pageAt 0x10000000 = some ⟨0x10000000, 0xbad, true, 6⟩ ∧
      ¬ Unchanged (oneFrame true) k (some (onePage 0)) (some as) ∧
      ∃ k' as', k.vmFault (some as) readMiss = some (k', as', .ok)) ∧
    ∃ k as, (oneFrame false).vmFault (some (onePage 100)) readMiss = some (k, some as, .err .ENOEXEC) ∧
      k.coremap.map Entry.used = [true] ∧
      ¬ Unchanged (oneFrame false) k (some (onePage 100)) (some as) := by
  refine ⟨⟨_, _, rfl, rfl, ?_, _, _, rfl⟩, _, _, rfl, rfl, ?_⟩
  · intro h
    exact absurd (h.pages .data) (by decide)
  · intro h
    exact absurd h.frames (by decide)

theorem failed_faults_512k :
    (∃ k', (oneFrame true).vmFault none readMiss = some (k', none, .err .EFAULT) ∧
      Unchanged (oneFrame true) k' none none) ∧
    ∃ cm ∈ vmBootstrap 0x30000 0x80000, Always step Owned
      (boot cm ⟨0, false, false, false, false⟩ Tlb.zero fun _ _ => 0)
      [.create 0 (onePage 0), .loadElf 0 7 [⟨.load, 0, 0x10000000, 0, 4096, 6⟩] fun _ => 0,
        .fault 0 readMiss] := by
  have hcm : ∃ cm ∈ vmBootstrap 0x30000 0x80000, getppages cm 1 readMiss.c ≠ .none := by
    decide +kernel
  obtain ⟨cm, hcm, hfree⟩ := hcm
  have hram : RamSize 0x30000 0x80000 := ⟨by decide, by decide, by decide, by decide, by decide⟩
  obtain ⟨hcall, hruns⟩ := failed_faults hram hcm ⟨0, false, false, false, false⟩ Tlb.zero fun _ _ => 0
  refine ⟨⟨_, rfl, (hcall _ _ _ _ _ _ rfl).mpr (by simp)⟩, cm, hcm,
    hruns _ ⟨trivial, fun s₁ h₁ => ⟨trivial, fun s₂ h₂ => ?_⟩⟩⟩
  obtain rfl : _ = s₁ := by simpa [step, boot] using h₁
  obtain rfl : _ = s₂ := by simpa [step, State.set] using h₂
  exact ⟨fun _ _ _ => hfree, fun _ _ => trivial⟩

end Os161.Vm.Failed
