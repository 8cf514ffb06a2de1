import Os161.Vm.Spec

/-! # What a page fault does to the page table and to the TLB -/

open Function Option

namespace Os161.Vm

variable {as as' : Addrspace} {g g' : Globals} {t : Tlb} {f : Fault} {fa i : Nat} {seg : Segment}
  {pg : Page}

namespace Addrspace

@[simp] theorem locate_setPage : (as.setPage seg i pg).locate fa = as.locate fa := by
  cases seg <;> rfl

theorem pages_setPage_self : (as.setPage seg i pg).pages seg = (as.pages seg).set i pg := by
  cases seg <;> rfl

theorem pages_setPage_of_ne {seg' : Segment} (h : seg' ≠ seg) :
    (as.setPage seg i pg).pages seg' = as.pages seg' := by
  cases seg <;> cases seg' <;> first | rfl | exact absurd rfl h

theorem pageAt_eq (h : as.locate fa = some (seg, i)) : as.pageAt fa = (as.pages seg)[i]? := by
  unfold pageAt
  rw [h]
  rfl

theorem exists_of_pageAt (h : as.pageAt fa = some pg) :
    ∃ seg i, as.locate fa = some (seg, i) ∧ (as.pages seg)[i]? = some pg := by
  obtain ⟨⟨seg, i⟩, hloc, hpg⟩ := bind_eq_some_iff.mp h
  exact ⟨seg, i, hloc, hpg⟩

theorem pageAt_setPage_self {old : Page} (h : as.locate fa = some (seg, i))
    (hold : (as.pages seg)[i]? = some old) : (as.setPage seg i pg).pageAt fa = some pg := by
  have hi := (List.getElem?_eq_some_iff.mp hold).1
  rw [pageAt_eq (by simpa using h), pages_setPage_self, List.getElem?_set_self hi]

theorem pageAt_setPage_of_ne (h : as.locate fa ≠ some (seg, i)) :
    (as.setPage seg i pg).pageAt fa = as.pageAt fa := by
  cases hl : as.locate fa with
  | none => simp [pageAt, hl]
  | some p =>
    obtain ⟨seg', j⟩ := p
    rw [pageAt_eq hl, pageAt_eq (by simpa using hl)]
    by_cases hseg : seg' = seg
    · subst hseg
      have hij : i ≠ j := fun e => h (by rw [hl, e])
      rw [pages_setPage_self, List.getElem?_set_ne hij]
    · rw [pages_setPage_of_ne hseg]

end Addrspace

def Grown (as as' : Addrspace) : Prop :=
  ∀ fa pg, as.pageAt fa = some pg → pg.valid = true → as'.pageAt fa = some pg

theorem Grown.refl (as : Addrspace) : Grown as as := fun _ _ h _ => h

theorem grown_setPage {old : Page} (hold : (as.pages seg)[i]? = some old) (hv : old.valid = false) :
    Grown as (as.setPage seg i pg) := by
  intro fa' pg' hpg' hv'
  rw [← hpg']
  apply Addrspace.pageAt_setPage_of_ne
  intro hl
  rw [Addrspace.pageAt_eq hl, hold] at hpg'
  obtain rfl := some.inj hpg'
  simp [hv] at hv'

def Region.shape (r : Region) : Nat × Nat × Nat × Nat := (r.vbase, r.npages, r.filesz, r.off)

def SameShape (as as' : Addrspace) : Prop := as'.r1.shape = as.r1.shape ∧ as'.r2.shape = as.r2.shape

theorem SameShape.refl (as : Addrspace) : SameShape as as := ⟨rfl, rfl⟩

theorem sameShape_setPage : SameShape as (as.setPage seg i pg) := by
  cases seg <;> exact ⟨rfl, rfl⟩

def Backed (as : Addrspace) (f : Fault) : Prop :=
  ∃ pg, as.pageAt f.fa = some pg ∧ pg.valid = true ∧ pg.paddr = f.paddr

theorem Backed.grow (h : Backed as f) (hg : Grown as as') : Backed as' f := by
  obtain ⟨pg, hpg, hv, hp⟩ := h
  exact ⟨pg, hg _ _ hpg hv, hv, hp⟩

def Outcome.Backed (as : Addrspace) (fa : Nat) : Outcome → Prop
  | .fill f | .load f _ => f.fa = fa ∧ Vm.Backed as f
  | .fail _ | .kill => True

def pageOf (va : Nat) : Nat := va / PAGE_SIZE * PAGE_SIZE

theorem pageOf_aligned (va : Nat) : pageOf va % PAGE_SIZE = 0 := Nat.mul_mod_left ..

/-- What the switch on the type of the fault makes of the page `pg`. -/
inductive Answer (as : Addrspace) (g : Globals) (fa frame : Nat) (seg : Segment) (i : Nat)
    (pg : Page) : FaultType → Addrspace → Globals → Outcome → Prop
  | readonly : Answer as g fa frame seg i pg .readonly as g .kill
  | other : Answer as g fa frame seg i pg .other as g (.fail .EINVAL)
  | held {ty : FaultType} (hty : ty = .read ∨ ty = .write) (hv : pg.valid = true) :
    Answer as g fa frame seg i pg ty as (afterLoad g ⟨ty, fa, seg, i, pg.paddr, true⟩)
      (.fill ⟨ty, fa, seg, i, pg.paddr, true⟩)
  | refused {ty : FaultType} {g' : Globals} (hty : ty = .read ∨ ty = .write) (hv : pg.valid = false)
    (hframe : frame = 0) (hg : g'.firstCodeRead = g.firstCodeRead) :
    Answer as g fa frame seg i pg ty (as.setPage seg i ⟨fa, pg.paddr, true, pg.permission⟩) g'
      (.fail .ENOMEM)
  | zeroed {ty : FaultType} (hty : ty = .read ∨ ty = .write) (hv : pg.valid = false)
    (hframe : frame ≠ 0) (hz : as.filesz seg = 0) :
    Answer as g fa frame seg i pg ty (as.setPage seg i ⟨fa, frame, true, pg.permission⟩)
      (afterLoad g ⟨ty, fa, seg, i, frame, ty = .write⟩) (.fill ⟨ty, fa, seg, i, frame, ty = .write⟩)
  | loading {ty : FaultType} {g' : Globals} {skip : Bool} (hty : ty = .read ∨ ty = .write)
    (hv : pg.valid = false) (hframe : frame ≠ 0) (hz : as.filesz seg ≠ 0)
    (hskip : skip = (ty = .write && !(!g.secondWrite && seg = .data)))
    (hg : g'.firstCodeRead = g.firstCodeRead)
    (hwrite : ty = .write → g'.codeWriteNread = g.codeWriteNread) :
    Answer as g fa frame seg i pg ty (as.setPage seg i ⟨fa, frame, true, pg.permission⟩) g'
      (.load ⟨ty, fa, seg, i, frame, skip⟩ (loadOf as seg i skip))

variable {ty : FaultType} {va frame : Nat} {out : Outcome}

theorem readFault_answer (h : readFault as g fa seg i pg frame = (as', g', out)) :
    Answer as g fa frame seg i pg .read as' g' out := by
  unfold readFault at h
  cases hv : pg.valid with
  | true =>
    rw [if_pos hv] at h
    cases h
    exact .held (.inl rfl) hv
  | false =>
    rw [if_neg (by simp [hv])] at h
    dsimp only at h
    split_ifs at h with hframe hz
    · cases h
      exact .refused (.inl rfl) hv hframe rfl
    · cases h
      exact .loading (.inl rfl) hv hframe hz rfl rfl nofun
    · cases h
      exact .zeroed (.inl rfl) hv hframe (not_not.mp hz)

theorem writeFault_answer (h : writeFault as g fa seg i pg frame = (as', g', out)) :
    Answer as g fa frame seg i pg .write as' g' out := by
  unfold writeFault at h
  cases hv : pg.valid with
  | true =>
    rw [if_pos hv] at h
    cases h
    exact .held (.inr rfl) hv
  | false =>
    rw [if_neg (by simp [hv])] at h
    dsimp only at h
    have hflags : ∀ first : Bool, (if first then { g with firstRead := false, secondWrite := true }
        else { g with firstRead := true }).firstCodeRead = g.firstCodeRead ∧
        (if first then { g with firstRead := false, secondWrite := true }
          else { g with firstRead := true }).codeWriteNread = g.codeWriteNread := by
      rintro (_ | _) <;> exact ⟨rfl, rfl⟩
    by_cases hz : as.filesz seg = 0
    · rw [if_neg (not_not_intro hz)] at h
      split_ifs at h with hframe
      · cases h
        exact .refused (.inr rfl) hv hframe rfl
      · cases h
        exact .zeroed (.inr rfl) hv hframe hz
    · rw [if_pos hz] at h
      by_cases hframe : frame = 0
      · rw [if_pos hframe] at h
        cases h
        exact .refused (.inr rfl) hv hframe (hflags _).1
      · rw [if_neg hframe] at h
        cases h
        exact .loading (.inr rfl) hv hframe hz rfl (hflags _).1 fun _ => (hflags _).2

theorem faultPage_cases (h : faultPage as g ty va frame = some (as', g', out)) :
    as.locate (pageOf va) = none ∧ as' = as ∧ g' = g.sawFault va ∧ out = .fail .EFAULT ∨
      ∃ seg i pg, as.locate (pageOf va) = some (seg, i) ∧ (as.pages seg)[i]? = some pg ∧
        Answer as (g.sawFault va) (pageOf va) frame seg i pg ty as' g' out := by
  unfold faultPage at h
  dsimp only at h
  split at h
  · rename_i hloc
    cases h
    exact .inl ⟨hloc, rfl, rfl, rfl⟩
  · rename_i seg i hloc
    obtain ⟨pg, hpg, hout⟩ := map_eq_some_iff.mp h
    refine .inr ⟨seg, i, pg, hloc, hpg, ?_⟩
    cases ty with
    | readonly =>
      cases hout
      exact .readonly
    | other =>
      cases hout
      exact .other
    | read => exact readFault_answer hout
    | write => exact writeFault_answer hout

theorem faultPage_answer (hloc : as.locate (pageOf va) = some (seg, i))
    (hpg : (as.pages seg)[i]? = some pg) (h : faultPage as g ty va frame = some (as', g', out)) :
    Answer as (g.sawFault va) (pageOf va) frame seg i pg ty as' g' out := by
  rcases faultPage_cases h with ⟨hnone, -⟩ | ⟨seg', i', pg', hloc', hpg', hanswer⟩
  · rw [hloc] at hnone
    cases hnone
  · cases hloc.symm.trans hloc'
    cases hpg.symm.trans hpg'
    exact hanswer

theorem faultPage_spec (h : faultPage as g ty va frame = some (as', g', out)) :
    SameShape as as' ∧ Grown as as' ∧ out.Backed as' (pageOf va) := by
  rcases faultPage_cases h with ⟨-, rfl, -, rfl⟩ | ⟨seg, i, pg, hloc, hpg, hanswer⟩
  · exact ⟨.refl _, .refl _, trivial⟩
  · cases hanswer with
    | readonly | other => exact ⟨.refl as, .refl as, trivial⟩
    | held _ hv =>
      exact ⟨.refl as, .refl as, rfl, pg, (Addrspace.pageAt_eq hloc).trans hpg, hv, rfl⟩
    | refused _ hv => exact ⟨sameShape_setPage, grown_setPage hpg hv, trivial⟩
    | zeroed _ hv | loading _ hv =>
      exact ⟨sameShape_setPage, grown_setPage hpg hv, rfl, _, Addrspace.pageAt_setPage_self hloc hpg,
        rfl, rfl⟩

theorem faultPage_keeps {α : Type} {f : Addrspace → α} {r : Addrspace × Globals × Outcome}
    (h : faultPage as g ty va frame = some r)
    (hf : ∀ seg i pg, f (as.setPage seg i pg) = f as) : f r.1 = f as := by
  obtain ⟨as', g', out⟩ := r
  rcases faultPage_cases h with ⟨-, rfl, -⟩ | ⟨seg, i, pg, -, -, hanswer⟩
  · rfl
  · cases hanswer with
    | readonly | other | held => rfl
    | refused | zeroed | loading => exact hf ..

theorem faultPage_valid (hpg : as.pageAt fa = some pg)
    (hv : pg.valid = true) (hal : fa % PAGE_SIZE = 0) :
    ∃ seg i, faultPage as g .write fa 0 =
      some (as, g.sawFault fa, .fill ⟨.write, fa, seg, i, pg.paddr, true⟩) := by
  obtain ⟨seg, i, hloc, hpg⟩ := Addrspace.exists_of_pageAt hpg
  have hfa : fa / PAGE_SIZE * PAGE_SIZE = fa := Nat.div_mul_cancel (Nat.dvd_of_mod_eq_zero hal)
  refine ⟨seg, i, ?_⟩
  unfold faultPage
  simp [hfa, hloc, hpg, map_some, writeFault, hv]

theorem frameOf_or {p c : Nat} (h : c &&& TLBLO_PPAGE = 0) : frameOf (p ||| c) = frameOf p := by
  unfold frameOf
  rw [Nat.and_or_distrib_right, h, Nat.or_zero]

def SameMap (e e' : TlbEntry) : Prop := e.ehi = e'.ehi ∧ frameOf e.elo = frameOf e'.elo

theorem clearDirty_spec (r : Region) (j : Fin NUM_TLB) :
    SameMap ((t.clearDirty r).entry j) (t.entry j) ∧
      (((t.clearDirty r).entry j).Valid → (t.entry j).Valid) := by
  simp only [Tlb.clearDirty]
  split
  · rename_i hc
    refine ⟨⟨rfl, ?_⟩, fun _ => hc.1⟩
    unfold frameOf
    rw [Nat.and_assoc]
    rfl
  · exact ⟨⟨rfl, rfl⟩, id⟩

theorem fillWord_frame : frameOf (fillWord as g f).2 = frameOf f.paddr := by
  unfold fillWord
  split
  · exact frameOf_or rfl
  · rw [frameOf_or rfl, frameOf_or rfl]

theorem install_slot (t : Tlb) (fa elo : Nat) : ∃ k, (install t fa elo).entry k = ⟨fa, elo⟩ ∧
      ∀ j, j ≠ k → (install t fa elo).entry j = t.entry j := by
  unfold install
  cases t.freeSlot with
  | some k => exact ⟨k, update_self .., fun j hj => update_of_ne hj ..⟩
  | none =>
    exact ⟨t.nextVictim, update_self .., fun j hj => update_of_ne hj ..⟩

theorem tlbFill_spec (j : Fin NUM_TLB) (hv : ((tlbFill as g t f).2.entry j).Valid) :
    ((t.entry j).Valid ∧ SameMap ((tlbFill as g t f).2.entry j) (t.entry j)) ∨
      SameMap ((tlbFill as g t f).2.entry j) ⟨f.fa, f.paddr⟩ := by
  obtain ⟨t', ht'⟩ : ∃ t', (if codeFirst as g f then t.clearDirty as.r1 else t) = t' := ⟨_, rfl⟩
  have hclear : SameMap (t'.entry j) (t.entry j) ∧ ((t'.entry j).Valid → (t.entry j).Valid) := by
    rw [← ht']
    split
    · exact clearDirty_spec as.r1 j
    · exact ⟨⟨rfl, rfl⟩, id⟩
  unfold tlbFill at hv ⊢
  simp only [ht'] at hv ⊢
  split
  · rename_i hcond
    rw [if_pos hcond] at hv
    split
    · rename_i hprobe
      rw [if_pos hprobe] at hv
      exact .inl ⟨hclear.2 hv, hclear.1⟩
    · rename_i hprobe
      rw [if_neg hprobe] at hv
      obtain ⟨k, hk, hother⟩ := install_slot t' f.fa (fillWord as g f).2
      by_cases hj : j = k
      · rw [hj, hk]
        exact .inr ⟨rfl, fillWord_frame⟩
      · rw [hother j hj] at hv ⊢
        exact .inl ⟨hclear.2 hv, hclear.1⟩
  · rename_i hcond
    rw [if_neg hcond] at hv
    exact .inl ⟨hv, rfl, rfl⟩

end Os161.Vm
