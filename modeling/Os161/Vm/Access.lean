import Os161.Vm.Load

/-!
# References to memory

Without an entry in the TLB, or with a read-only one for a store, `mips_trap` calls `vm_fault`.
References come from the program, or from `copyin` and `copyout`.
-/

open Option

namespace Os161.Vm

inductive Mode
  | user | copy
  deriving DecidableEq

/-- `frame` and `io` are what `getppages` and the device answer if they are asked. -/
structure Reference where
  mode : Mode
  store : Bool
  va : Nat
  frame : Nat
  io : Option Nat

def Reference.fault (r : Reference) : FaultType := if r.store then .write else .read

structure Task where
  proc : Proc
  alive : Bool

def copiesOut (p : Proc) (file : List UInt8) (ty : FaultType) (va frame : Nat) (io : Option Nat) :
    Bool :=
  match faultPage p.as p.globals ty va frame with
  | some (_, _, .load _ l) => transferred file l io ≠ 0
  | _ => false

/-- A failed fault kills the program or makes `copyin` fail, unless `vm_fault` has called `copyout`,
which leaves `pcb_badfaultfunc` NULL: the kernel panics. -/
def mipsTrap (file : List UInt8) (s : Task) (ty : FaultType) (r : Reference) : Option Task :=
  (vmFault s.proc file ty r.va r.frame r.io).map fun (p, ret) =>
    match ret with
    | .ok => { s with proc := p }
    | .err _ => ⟨p, r.mode = .copy && !copiesOut s.proc file ty r.va r.frame r.io⟩
    | .killed => ⟨p, false⟩

/-- `getppages` answers with the address of a frame. -/
def Task.step (file : List UInt8) (s : Task) (r : Reference) : Option Task :=
  if s.alive ∧ r.va < USERSTACK ∧ r.frame % PAGE_SIZE = 0 then
    match s.proc.tlb.translate r.va with
    | none => mipsTrap file s r.fault r
    | some e =>
      if r.store ∧ e.elo &&& TLBLO_DIRTY = 0 then mipsTrap file s .readonly r else some s
  else none

def Task.nested (s : Task) (r : Reference) : Option Proc :=
  match faultPage s.proc.as s.proc.globals r.fault r.va r.frame with
  | some (as, g, .load f _) => some (kernelStore { s.proc with as := as, globals := g } f.fa).1
  | _ => none

def Task.start (as : Addrspace) (g : Globals) (tlb : Tlb) (mem : Nat → Nat → UInt8) : Task :=
  ⟨⟨as, g, tlb, mem⟩, true⟩

theorem Reference.fault_eq (r : Reference) : r.fault = .read ∨ r.fault = .write := by
  unfold fault
  cases r.store
  · exact .inl rfl
  · exact .inr rfl

@[simp] theorem firstCodeRead_sawFault (g : Globals) (va : Nat) :
    (g.sawFault va).firstCodeRead = g.firstCodeRead := by
  unfold Globals.sawFault
  split <;> rfl

@[simp] theorem codeWriteNread_sawFault (g : Globals) (va : Nat) :
    (g.sawFault va).codeWriteNread = g.codeWriteNread := by
  unfold Globals.sawFault
  split <;> rfl

@[simp] theorem codeWriteNread_afterLoad (g : Globals) (f : Fault) :
    (afterLoad g f).codeWriteNread = g.codeWriteNread := by
  unfold afterLoad Globals.codeRead
  split_ifs <;> rfl

theorem Addrspace.locate_code {as : Addrspace} {fa i : Nat} {seg : Segment}
    (h : as.locate fa = some (seg, i)) : seg = .code ↔ as.r1.Has fa := by
  unfold locate at h
  by_cases hcode : as.r1.Has fa
  · rw [if_pos hcode] at h
    cases h
    exact ⟨fun _ => hcode, fun _ => rfl⟩
  · rw [if_neg hcode] at h
    refine ⟨?_, fun hhas => absurd hhas hcode⟩
    rintro rfl
    split at h
    · cases h
    · split at h <;> cases h

theorem SameShape.has {as as' : Addrspace} (h : SameShape as as') (fa : Nat) :
    as'.r1.Has fa ↔ as.r1.Has fa := by
  obtain ⟨hv, hn, -, -⟩ : as'.r1.vbase = as.r1.vbase ∧ as'.r1.npages = as.r1.npages ∧ _ ∧ _ := by
    simpa [Region.shape] using h.1
  unfold Region.Has Region.vtop
  rw [hv, hn]

variable {as : Addrspace} {g : Globals} {t t' : Tlb} {f : Fault} {p p' : Proc} {fa va elo : Nat}

theorem translate_none_iff :
    t.translate va = none ↔ ∀ j, (t.entry j).Valid → (t.entry j).ehi / PAGE_SIZE ≠ va / PAGE_SIZE := by
  unfold Tlb.translate
  simp

theorem or_valid_ne_zero (w : Nat) : (w ||| TLBLO_VALID) &&& TLBLO_VALID ≠ 0 := by
  rw [Nat.and_or_distrib_right, Nat.and_self]
  intro h
  have := (Nat.or_eq_zero_iff.mp h).2
  cases this

theorem fillWord_valid (as : Addrspace) (g : Globals) (f : Fault) :
    (fillWord as g f).2 &&& TLBLO_VALID ≠ 0 := by
  unfold fillWord
  split
  · exact or_valid_ne_zero _
  · exact or_valid_ne_zero _

theorem fillWord_firstCodeRead (hg : g.firstCodeRead = false) :
    (fillWord as g f).1.firstCodeRead = false := by
  unfold fillWord
  split
  · rfl
  · exact hg

theorem fillWord_readOnly (hg : (g.firstCodeRead || !g.codeWriteNread) = true)
    (hhas : as.r1.Has f.fa) :
    fillWord as g f =
      ({ g with firstCodeRead := false, codeWriteNread := false }, f.paddr ||| TLBLO_VALID) :=
  if_pos ⟨hg, hhas⟩

theorem probe_isSome {k : Fin NUM_TLB} (h : (t.entry k).ehi = fa) : (t.probe fa).isSome := by
  unfold Tlb.probe
  rw [List.find?_isSome]
  exact ⟨k, List.mem_finRange k, decide_eq_true (by rw [h])⟩

theorem Proc.fill_of_not (hg : p.globals.firstCodeRead = false) :
    p.fill f = if f.wrTo ∨ f.seg = .stack then
      { p with
        globals := (fillWord p.as p.globals f).1
        tlb := install p.tlb f.fa (fillWord p.as p.globals f).2 }
      else p := by
  have hnot : codeFirst p.as p.globals f = false := by
    unfold codeFirst
    rw [hg]
    rfl
  unfold Proc.fill tlbFill
  simp only [hg, hnot, Bool.false_eq_true, Bool.false_and, if_false, or_false]
  split <;> rfl

theorem Proc.fill_text (hg : p.globals.firstCodeRead = true) (hhas : p.as.r1.Has f.fa) :
    (p.fill f).globals.firstCodeRead = false ∧
      (p.fill f).tlb = if ((p.tlb.clearDirty p.as.r1).probe f.fa).isSome then
        p.tlb.clearDirty p.as.r1
        else install (p.tlb.clearDirty p.as.r1) f.fa (f.paddr ||| TLBLO_VALID) := by
  have hfirst : codeFirst p.as p.globals f = true := by
    unfold codeFirst
    rw [hg, decide_eq_true hhas]
    rfl
  have hword := fillWord_readOnly (g := p.globals) (by rw [hg]; rfl) hhas
  unfold Proc.fill tlbFill
  simp only [hg, hfirst, hword, or_true, if_true, Bool.true_and]
  split
  · exact ⟨rfl, rfl⟩
  · exact ⟨rfl, rfl⟩

/-! ## A fault on a page without an entry -/

theorem firstCodeRead_codeRead (hg : g.firstCodeRead = false) (seg : Segment) :
    (g.codeRead seg).firstCodeRead = decide (seg = .code) := by
  unfold Globals.codeRead
  split
  · rename_i hseg
    exact (decide_eq_true hseg).symm
  · rename_i hseg
    rw [hg, decide_eq_false hseg]

theorem faultPage_load_flag {ty : FaultType} {frame : Nat} {as' : Addrspace} {g' : Globals} {l : Load}
    (hg : g.firstCodeRead = false) (h : faultPage as g ty va frame = some (as', g', .load f l)) :
    g'.firstCodeRead = false := by
  rcases faultPage_cases h with ⟨-, -, -, hout⟩ | ⟨seg, i, pg, -, -, hanswer⟩
  · cases hout
  · cases hanswer with
    | loading _ _ _ _ _ hg' => rw [hg', firstCodeRead_sawFault, hg]

theorem kernelStore_miss {pg : Page} (hg : p.globals.firstCodeRead = false)
    (hmiss : p.tlb.translate fa = none) (hpg : p.as.pageAt fa = some pg) (hv : pg.valid = true)
    (hal : fa % PAGE_SIZE = 0) :
    (kernelStore p fa).1.as = p.as ∧ (kernelStore p fa).1.globals.firstCodeRead = false ∧
      ∃ elo, elo &&& TLBLO_VALID ≠ 0 ∧ (kernelStore p fa).1.tlb = install p.tlb fa elo := by
  have hsaw : (p.globals.sawFault fa).firstCodeRead = false := by rwa [firstCodeRead_sawFault]
  rcases kernelStore_cases hpg hv hal with ⟨e, he, -⟩ | ⟨-, q, seg, i, hq, hstore⟩
  · rw [hmiss] at he
    cases he
  · rw [hstore, hq, Proc.fill_of_not hsaw]
    exact ⟨rfl, fillWord_firstCodeRead hsaw, _, fillWord_valid _ _ _, rfl⟩

variable {file : List UInt8} {io : Option Nat} {ret : Ret}

theorem loadEachSegment_miss {pg : Page} {l : Load} (h : loadEachSegment p file fa l io = (p', ret))
    (hg : p.globals.firstCodeRead = false) (hmiss : p.tlb.translate fa = none)
    (hpg : p.as.pageAt fa = some pg) (hv : pg.valid = true) (hal : fa % PAGE_SIZE = 0) :
    l.firstRead = true ∧ p' = p ∧ ret = .ok ∨ l.firstRead = false ∧ (p' = p ∧ (∃ e, ret = .err e) ∨
        transferred file l io ≠ 0 ∧ p'.as = p.as ∧ p'.globals.firstCodeRead = false ∧
          ∃ elo, elo &&& TLBLO_VALID ≠ 0 ∧ p'.tlb = install p.tlb fa elo) := by
  refine (loadEachSegment_cases h).imp_right fun ⟨hl, hrest⟩ => ⟨hl, hrest.imp_right ?_⟩
  rintro ⟨hne, q, acc, mem, hk, rfl, -⟩
  have hstore := kernelStore_miss hg hmiss hpg hv hal
  rw [hk] at hstore
  exact ⟨hne, hstore⟩

/-- `copied`: it has called `copyout`, and so cannot fail without a panic. -/
inductive Effect (as : Addrspace) (t : Tlb) (g : Globals) (ty : FaultType) (va frame : Nat)
    (seg : Segment) (pg : Page) (copied : Bool) : Tlb → Ret → Prop
  | failed {e : Errno} (hv : pg.valid = false)
    (hframe : ty = .write → seg = .code → frame = 0) :
    Effect as t g ty va frame seg pg copied t (.err e)
  -- a page of zeros in the data segment is only entered when it is touched again
  | skipped (hseg : seg = .data) : Effect as t g ty va frame seg pg copied t .ok
  | entry {g' : Globals} {i : Nat} {wrTo : Bool} (hframe : pg.valid = false → frame ≠ 0)
    (hwrite : ty = .write → g'.codeWriteNread = g.codeWriteNread) (hty : seg = .code → ty = .write)
    (hg : g'.firstCodeRead = false) :
    Effect as t g ty va frame seg pg copied (install t (pageOf va) (fillWord as g'
      ⟨ty, pageOf va, seg, i, if pg.valid then pg.paddr else frame, wrTo⟩).2) .ok
  | text (hseg : seg = .code) (hty : ty = .read) : Effect as t g ty va frame seg pg copied
      (if ((t.clearDirty as.r1).probe (pageOf va)).isSome then t.clearDirty as.r1
        else install (t.clearDirty as.r1) (pageOf va)
          ((if pg.valid then pg.paddr else frame) ||| TLBLO_VALID)) .ok
  | stopped {elo : Nat} {ret : Ret} (helo : elo &&& TLBLO_VALID ≠ 0) (hcopied : copied = true)
    (hret : ret ≠ .ok) (hty : seg = .code → ty = .read) (hv : pg.valid = false) :
    Effect as t g ty va frame seg pg copied (install t (pageOf va) elo) ret
  | loaded {elo : Nat} (helo : elo &&& TLBLO_VALID ≠ 0) (hseg : seg = .data) :
    Effect as t g ty va frame seg pg copied (install t (pageOf va) elo) .ok
  | loadedText {elo : Nat} (helo : elo &&& TLBLO_VALID ≠ 0) (hseg : seg = .code) (hty : ty = .read)
    (hv : pg.valid = false) :
    Effect as t g ty va frame seg pg copied ((install t (pageOf va) elo).clearDirty as.r1) .ok

section effect

variable {ty : FaultType} {frame i : Nat} {seg : Segment} {pg : Page}

theorem pageOf_div (va : Nat) : pageOf va / PAGE_SIZE = va / PAGE_SIZE :=
  Nat.mul_div_cancel _ (by decide)

theorem translate_pageOf (t : Tlb) (va : Nat) : t.translate (pageOf va) = t.translate va := by
  unfold Tlb.translate
  rw [pageOf_div]

theorem afterLoad_text (hg : g.firstCodeRead = false) :
    (afterLoad g f).firstCodeRead = decide (f.ty = .read ∧ f.seg = .code) := by
  unfold afterLoad
  by_cases hty : f.ty = .read
  · rw [if_pos hty, firstCodeRead_codeRead hg]
    simp [hty]
  · rw [if_neg hty, hg]
    simp [hty]

theorem fill_effect {g' : Globals} {w : Nat} {wrTo copied : Bool}
    (hw : w = if pg.valid then pg.paddr else frame) (hframe : pg.valid = false → frame ≠ 0)
    (hwrite : ty = .write → wrTo = true ∧ g'.codeWriteNread = g.codeWriteNread)
    (hg : g'.firstCodeRead = decide (ty = .read ∧ seg = .code)) (hty : ty = .read ∨ ty = .write)
    (hcode : seg = .code ↔ as.r1.Has (pageOf va)) (mem : Nat → Nat → UInt8) :
    (Proc.fill ⟨as, g', t, mem⟩ ⟨ty, pageOf va, seg, i, w, wrTo⟩).globals.firstCodeRead = false ∧
      Effect as t g ty va frame seg pg copied
        (Proc.fill ⟨as, g', t, mem⟩ ⟨ty, pageOf va, seg, i, w, wrTo⟩).tlb .ok := by
  subst hw
  by_cases hread : ty = .read ∧ seg = .code
  · rw [decide_eq_true hread] at hg
    obtain ⟨hflag, htlb⟩ := Proc.fill_text (p := ⟨as, g', t, mem⟩) (f := ⟨ty, pageOf va, seg, i, _, wrTo⟩)
      hg (hcode.mp hread.2)
    rw [htlb]
    exact ⟨hflag, .text hread.2 hread.1⟩
  · rw [decide_eq_false hread] at hg
    rw [Proc.fill_of_not hg]
    by_cases hin : wrTo = true ∨ seg = .stack
    · rw [if_pos hin]
      refine ⟨fillWord_firstCodeRead hg, .entry hframe (fun hw => (hwrite hw).2) ?_ hg⟩
      intro hseg
      exact hty.resolve_left fun hr => hread ⟨hr, hseg⟩
    · rw [if_neg hin]
      refine ⟨hg, .skipped ?_⟩
      rw [not_or] at hin
      rcases hty with rfl | rfl
      · cases seg with
        | code => exact absurd ⟨rfl, rfl⟩ hread
        | data => rfl
        | stack => exact absurd rfl hin.2
      · exact absurd (hwrite rfl).1 hin.1

theorem loaded_effect {w : Nat} {q : Proc} {copied : Bool}
    (hcode : seg = .code ↔ q.as.r1.Has (pageOf va)) (hseg : seg ≠ .stack)
    (hread : seg = .code → ty = .read) (hv : pg.valid = false)
    (hg : q.globals.firstCodeRead = false) (helo : elo &&& TLBLO_VALID ≠ 0)
    (htlb : q.tlb = install t (pageOf va) elo) : let f : Fault := ⟨ty, pageOf va, seg, i, w, false⟩
    (Proc.fill { q with globals := afterLoad q.globals f } f).globals.firstCodeRead = false ∧
      Effect q.as t g ty va frame seg pg copied
        (Proc.fill { q with globals := afterLoad q.globals f } f).tlb .ok := by
  intro f
  have hafter := afterLoad_text (f := f) hg
  cases seg with
  | stack => exact absurd rfl hseg
  | data =>
    rw [decide_eq_false (by simp)] at hafter
    rw [Proc.fill_of_not hafter, if_neg (by simp)]
    refine ⟨hafter, ?_⟩
    rw [htlb]
    exact .loaded helo rfl
  | code =>
    rw [decide_eq_true ⟨hread rfl, rfl⟩] at hafter
    obtain ⟨hflag, hfill⟩ := Proc.fill_text (p := { q with globals := afterLoad q.globals f })
      (f := f) hafter (hcode.mp rfl)
    refine ⟨hflag, ?_⟩
    -- the probe finds the entry of the nested fault
    obtain ⟨k, hk, -⟩ := install_slot t (pageOf va) elo
    have hprobe : ((q.tlb.clearDirty q.as.r1).probe (pageOf va)).isSome := by
      apply probe_isSome (k := k)
      rw [(clearDirty_spec q.as.r1 k).1.1, htlb, hk]
    rw [hfill, if_pos hprobe, htlb]
    exact .loadedText helo rfl (hread rfl) hv

theorem vmFault_effect (hg : p.globals.firstCodeRead = false)
    (hmiss : p.tlb.translate va = none) (hloc : p.as.locate (pageOf va) = some (seg, i))
    (hpg : (p.as.pages seg)[i]? = some pg) (hty : ty = .read ∨ ty = .write)
    (h : vmFault p file ty va frame io = some (p', ret)) :
    SameShape p.as p'.as ∧ p'.globals.firstCodeRead = false ∧
      Effect p'.as p.tlb p.globals ty va frame seg pg (copiesOut p file ty va frame io) p'.tlb
        ret := by
  obtain ⟨⟨as, g, out⟩, hpage, hret⟩ := map_eq_some_iff.mp h
  obtain ⟨hshape, -, hback⟩ := faultPage_spec hpage
  have hcode : seg = .code ↔ as.r1.Has (pageOf va) := by
    rw [hshape.has]
    exact Addrspace.locate_code hloc
  have hsaw : (p.globals.sawFault va).firstCodeRead = false := by rwa [firstCodeRead_sawFault]
  cases faultPage_answer hloc hpg hpage with
  | readonly | other => simp at hty
  | refused _ hv hframe hg' =>
    cases hret
    exact ⟨hshape, hg'.trans hsaw, .failed hv fun _ _ => hframe⟩
  | held _ hv =>
    cases hret
    exact ⟨hshape, fill_effect (if_pos hv).symm (by simp [hv])
      (fun _ => ⟨rfl, by simp⟩) (afterLoad_text hsaw) hty hcode p.mem⟩
  | zeroed _ hv hframe =>
    cases hret
    exact ⟨hshape, fill_effect (by simp [hv]) (fun _ => hframe)
      (fun hw => ⟨decide_eq_true hw, by simp⟩) (afterLoad_text hsaw) hty hcode p.mem⟩
  | @loading _ _ skip _ hv hframe hz hskip hg' hwrite =>
    rw [hsaw] at hg'
    rw [codeWriteNread_sawFault] at hwrite
    have htext : skip = false → seg = .code → ty = .read := by
      rintro rfl rfl
      exact hty.resolve_right (by simpa using hskip)
    obtain ⟨-, pg', hpg', hv', -⟩ := hback
    have hmiss' : p.tlb.translate (pageOf va) = none := (translate_pageOf _ _).trans hmiss
    dsimp only at hret
    generalize hload : loadEachSegment _ _ _ _ _ = x at hret
    cases x with
    | mk q r =>
      obtain ⟨hfirst, rfl, rfl⟩ | ⟨hfirst, ⟨rfl, e, rfl⟩ | ⟨hcopied, has, hflag, elo, helo, htlb⟩⟩ :=
        loadEachSegment_miss hload hg' hmiss' hpg' hv' (pageOf_aligned va)
      · -- only a store skips the load
        cases hret
        have hwr : ty = .write := by
          rw [show skip = true from hfirst] at hskip
          simpa using (Bool.and_eq_true_iff.mp hskip.symm).1
        have hsame : ∀ f : Fault, f.ty = ty → afterLoad g f = g := fun f hf =>
          if_neg (by rw [hf, hwr]; nofun)
        rw [hsame _ rfl]
        exact ⟨hshape, fill_effect (by simp [hv]) (fun _ => hframe) (fun hw => ⟨hfirst, hwrite hw⟩)
          (hg'.trans (by simp [hwr])) hty hcode p.mem⟩
      · cases hret
        refine ⟨hshape, hg', .failed hv ?_⟩
        rintro rfl hseg
        cases htext hfirst hseg
      · have hcopies : copiesOut p file ty va frame io = true := by
          unfold copiesOut
          rw [hpage]
          exact decide_eq_true hcopied
        simp only at has htlb
        rw [hcopies]
        obtain rfl : skip = false := hfirst
        cases r with
        | ok =>
          cases hret
          rw [← has] at hcode hshape
          have hstack : seg ≠ .stack := by
            rintro rfl
            exact hz rfl
          exact ⟨hshape, loaded_effect hcode hstack (htext rfl) hv hflag helo htlb⟩
        | err e | killed =>
          cases hret
          rw [has, htlb]
          exact ⟨hshape, hflag, .stopped helo rfl nofun (htext rfl) hv⟩

end effect

theorem vmFault_readonly {frame : Nat} (h : vmFault p file .readonly va frame io = some (p', ret)) :
    p' = { p with globals := p.globals.sawFault va } ∧
      (p.as.locate (pageOf va) ≠ none → ret = .killed) := by
  obtain ⟨x, hpage, hret⟩ := map_eq_some_iff.mp h
  obtain ⟨as, g, out⟩ := x
  rcases faultPage_cases hpage with ⟨hloc, rfl, rfl, rfl⟩ | ⟨seg, i, pg, hloc, -, hanswer⟩
  · cases hret
    exact ⟨rfl, fun hne => absurd hloc hne⟩
  · cases hanswer with
    | readonly =>
      cases hret
      exact ⟨rfl, fun _ => rfl⟩
    | held hty | refused hty | zeroed hty | loading hty => simp at hty

variable {s s' : Task} {r : Reference}

theorem step_cases (hg : s.proc.globals.firstCodeRead = false) (h : s.step file r = some s') :
    (s.alive = true ∧ r.va < USERSTACK ∧ r.frame % PAGE_SIZE = 0) ∧
    SameShape s.proc.as s'.proc.as ∧ s'.proc.globals.firstCodeRead = false ∧
    (s'.proc.tlb = s.proc.tlb ∧
        (s.proc.tlb.translate r.va = none → s.proc.as.locate (pageOf r.va) = none) ∨
      s.proc.tlb.translate r.va = none ∧ ∃ seg i pg copied ret,
        s.proc.as.locate (pageOf r.va) = some (seg, i) ∧ (s.proc.as.pages seg)[i]? = some pg ∧
        Effect s'.proc.as s.proc.tlb s.proc.globals r.fault r.va r.frame seg pg copied
          s'.proc.tlb ret ∧
        (ret = .ok → s'.alive = true) ∧ (copied = true → ret ≠ .ok → s'.alive = false)) := by
  obtain ⟨hguard, h⟩ := ite_none_right_eq_some.mp h
  refine ⟨hguard, ?_⟩
  have hsaw : (s.proc.globals.sawFault r.va).firstCodeRead = false := by rwa [firstCodeRead_sawFault]
  cases hmiss : s.proc.tlb.translate r.va with
  | some e =>
    simp only [hmiss] at h
    split at h
    · obtain ⟨⟨p, ret⟩, hfault, hs⟩ := map_eq_some_iff.mp h
      obtain ⟨rfl, -⟩ := vmFault_readonly hfault
      cases ret <;> cases hs <;> exact ⟨.refl _, hsaw, .inl ⟨rfl, nofun⟩⟩
    · cases h
      exact ⟨.refl _, hg, .inl ⟨rfl, nofun⟩⟩
  | none =>
    simp only [hmiss] at h
    obtain ⟨⟨p, ret⟩, hfault, hs⟩ := map_eq_some_iff.mp h
    obtain ⟨b, rfl⟩ : ∃ b, s' = ⟨p, b⟩ := by
      cases ret <;> exact ⟨_, hs.symm⟩
    obtain ⟨⟨as, g, out⟩, hpage, hp⟩ := map_eq_some_iff.mp hfault
    rcases faultPage_cases hpage with ⟨hloc, rfl, rfl, rfl⟩ | ⟨seg, i, pg, hloc, hpg, -⟩
    · cases hp
      exact ⟨.refl _, hsaw, .inl ⟨rfl, fun _ => hloc⟩⟩
    · obtain ⟨hshape, hflag, heffect⟩ := vmFault_effect hg hmiss hloc hpg r.fault_eq hfault
      refine ⟨hshape, hflag, .inr ⟨rfl, seg, i, pg, _, ret, hloc, hpg, heffect, ?_, ?_⟩⟩
      · rintro rfl
        cases hs
        exact hguard.1
      · intro hcopied hret
        cases ret with
        | ok => exact absurd rfl hret
        | err e =>
          cases hs
          rw [hcopied]
          exact Bool.and_false _
        | killed =>
          cases hs
          rfl

end Os161.Vm
