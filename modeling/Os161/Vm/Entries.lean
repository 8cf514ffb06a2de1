import Mathlib.Data.Nat.Bitwise
import Os161.Vm.Access

/-!
# The entries of the TLB over all runs of a process

Each page has one entry at most, and the code pages have read-only ones as long as no store finds
`code_write_nread` set.
-/

open Option

namespace Os161.Vm

open Lib

variable {file : List UInt8} {t t' : Tlb} {fa elo : Nat}

def twoPages : List Phdr := [⟨.reginfo, 0, 0, 0, 0, 0⟩, ⟨.load, 0, 0x400000, 0x1004, 0x1004, 5⟩,
    ⟨.load, 0x1004, 0x10000000, 4, 4, 6⟩]

def twoPagesFile : List UInt8 := List.replicate 0x1008 1

def twoPagesSpace : Addrspace := let unset : Region := ⟨0, 0, 0, 0, 0, []⟩
  asDefineStack (loadElf (asCreate ⟨unset, unset, [], 0⟩) 0 twoPages fun _ => 0).1 fun _ => 0

def twoPagesTask : Task := Task.start twoPagesSpace ⟨0, false, false, false, false⟩ Tlb.zero.invalid
    fun _ _ => 0

def dataThenStore : List Reference :=
  [⟨.user, false, 0x400000, 0x5000, none⟩, ⟨.user, false, 0x10000000, 0x6000, none⟩,
    ⟨.user, true, 0x401000, 0x7000, none⟩]

def codeThenStore : List Reference :=
  [⟨.user, false, 0x400000, 0x5000, none⟩, ⟨.user, false, 0x10000000, 0x6000, none⟩,
    ⟨.user, true, 0x7ffff000, 0x7000, none⟩, ⟨.user, true, 0x400004, 0, none⟩]

def Tlb.Unique (t : Tlb) : Prop := ∀ j k, (t.entry j).Valid → (t.entry k).Valid →
    (t.entry j).ehi / PAGE_SIZE = (t.entry k).ehi / PAGE_SIZE → j = k

def Adds (fa : Nat) (t t' : Tlb) : Prop := ∃ k, ∀ j, (t'.entry j).Valid →
    (t.entry j).Valid ∧ (t'.entry j).ehi = (t.entry j).ehi ∨ j = k ∧ (t'.entry j).ehi = fa

theorem Adds.refl (fa : Nat) (t : Tlb) : Adds fa t t := ⟨t.nextVictim, fun _ hv => .inl ⟨hv, rfl⟩⟩

theorem adds_install (t : Tlb) (fa elo : Nat) : Adds fa t (install t fa elo) := by
  obtain ⟨k, hk, hother⟩ := install_slot t fa elo
  refine ⟨k, fun j hv => ?_⟩
  by_cases hj : j = k
  · subst hj
    rw [hk]
    exact .inr ⟨rfl, rfl⟩
  · rw [hother j hj] at hv ⊢
    exact .inl ⟨hv, rfl⟩

theorem Adds.clearDirty (h : Adds fa t t') (r : Region) : Adds fa t (t'.clearDirty r) := by
  obtain ⟨k, hk⟩ := h
  refine ⟨k, fun j hv => ?_⟩
  obtain ⟨hmap, hvalid⟩ := clearDirty_spec (t := t') r j
  rw [hmap.1]
  exact hk j (hvalid hv)

theorem Adds.of_clearDirty {r : Region} (h : Adds fa (t.clearDirty r) t') : Adds fa t t' := by
  obtain ⟨k, hk⟩ := h
  refine ⟨k, fun j hv => ?_⟩
  obtain ⟨hmap, hvalid⟩ := clearDirty_spec (t := t) r j
  rcases hk j hv with ⟨hold, hehi⟩ | hnew
  · exact .inl ⟨hvalid hold, hehi.trans hmap.1⟩
  · exact .inr hnew

theorem Tlb.Unique.adds (h : t.Unique) (hmiss : t.translate fa = none) (ha : Adds fa t t') :
    t'.Unique := by
  have hno := translate_none_iff.mp hmiss
  obtain ⟨n, hn⟩ := ha
  intro j k hj hk heq
  rcases hn j hj with ⟨hj', hje⟩ | ⟨rfl, hje⟩
  · rcases hn k hk with ⟨hk', hke⟩ | ⟨rfl, hke⟩
    · rw [hje, hke] at heq
      exact h j k hj' hk' heq
    · rw [hje, hke] at heq
      exact absurd heq (hno j hj')
  · rcases hn k hk with ⟨hk', hke⟩ | ⟨rfl, -⟩
    · rw [hje, hke] at heq
      exact absurd heq.symm (hno k hk')
    · rfl

theorem Effect.adds {as : Addrspace} {g : Globals} {ty : FaultType} {va frame : Nat} {seg : Segment}
    {pg : Page} {copied : Bool} {ret : Ret}
    (h : Effect as t g ty va frame seg pg copied t' ret) : Adds (pageOf va) t t' := by
  cases h with
  | failed | skipped => exact .refl _ t
  | entry | stopped | loaded => exact adds_install t _ _
  | text =>
    split
    · exact (Adds.refl _ t).clearDirty _
    · exact (adds_install _ _ _).of_clearDirty
  | loadedText => exact (adds_install t _ _).clearDirty _

variable {s s' : Task} {r : Reference}

structure Single (s : Task) : Prop where
  flag : s.proc.globals.firstCodeRead = false
  unique : s.proc.tlb.Unique

theorem Single.step (h : Single s) (hstep : s.step file r = some s') : Single s' := by
  obtain ⟨-, -, hflag, hcases⟩ := step_cases h.flag hstep
  refine ⟨hflag, ?_⟩
  rcases hcases with ⟨htlb, -⟩ | ⟨hmiss, seg, i, pg, copied, ret, -, -, heffect, -, -⟩
  · rw [htlb]
    exact h.unique
  · rw [← translate_pageOf] at hmiss
    exact h.unique.adds hmiss heffect.adds

theorem Single.nested (h : Single s) (hmiss : s.proc.tlb.translate r.va = none) {p : Proc}
    (hp : s.nested r = some p) : p.tlb.Unique := by
  unfold Task.nested at hp
  split at hp
  · rename_i as g f l hpage
    cases hp
    obtain ⟨-, -, hfa, pg, hpg, hv, -⟩ := faultPage_spec hpage
    change f.fa = pageOf r.va at hfa
    have hflag : g.firstCodeRead = false := faultPage_load_flag h.flag hpage
    rw [← translate_pageOf, ← hfa] at hmiss
    obtain ⟨-, -, elo, -, htlb⟩ := kernelStore_miss (p := { s.proc with as := as, globals := g })
      hflag hmiss hpg hv (by rw [hfa]; exact pageOf_aligned r.va)
    rw [htlb]
    exact h.unique.adds hmiss (adds_install s.proc.tlb _ _)
  · cases hp

/-- After every fault, also after the one that `load_each_segment` makes in it. -/
def Unduplicated (s : Task) : Prop := s.proc.tlb.Unique ∧
    ∀ r p, s.proc.tlb.translate r.va = none → s.nested r = some p → p.tlb.Unique

theorem entries_unique (file : List UInt8) (as : Addrspace) (g : Globals) (tlb : Tlb)
    (mem : Nat → Nat → UInt8) (rs : List Reference) (hg : g.firstCodeRead = false)
    (hinvalid : ∀ j, ¬ (tlb.entry j).Valid) :
    Always (Task.step file) Unduplicated (Task.start as g tlb mem) rs := by
  apply always_of_inv (I := Single)
  · intro s r s' hs hstep
    exact hs.step hstep
  · intro s hs
    exact ⟨hs.unique, fun r p hmiss hp => hs.nested hmiss hp⟩
  · exact ⟨hg, fun j k hj => absurd hj (hinvalid j)⟩

theorem entries_unique_two_pages :
    (run (Task.step twoPagesFile) twoPagesTask dataThenStore).isSome = true ∧
      Always (Task.step twoPagesFile) Unduplicated twoPagesTask dataThenStore :=
  ⟨by decide +kernel, entries_unique _ _ _ _ _ _ rfl fun _ hv => absurd (Nat.zero_and _) hv⟩

def Tlb.ReadOnly (t : Tlb) (rg : Region) : Prop :=
  ∀ j, (t.entry j).Valid → rg.Has (t.entry j).ehi → (t.entry j).elo &&& TLBLO_DIRTY = 0

/-- No entry lets it write to code, and a store to code that has an entry kills it. -/
structure TextReadOnly (file : List UInt8) (s : Task) : Prop where
  entries : s.alive = true → s.proc.tlb.ReadOnly s.proc.as.r1
  stores : ∀ r s', r.store = true → s.proc.as.r1.Has (pageOf r.va) →
    s.proc.tlb.translate r.va ≠ none → s.step file r = some s' → s'.alive = false

/-- No fault without memory has left it behind, and a store finds `code_write_nread` clear. -/
def Page.Harmless (pg : Page) (g : Globals) (ty : FaultType) (frame : Nat) : Prop :=
  (pg.valid = true → pg.paddr &&& TLBLO_DIRTY = 0) ∧
    (ty = .write → g.codeWriteNread = false ∨ pg.valid = false ∧ frame = 0)

def Harmless (s : Task) (r : Reference) : Prop :=
  s.proc.tlb.translate r.va = none → s.proc.as.r1.Has (pageOf r.va) →
    ∀ pg ∈ s.proc.as.pageAt (pageOf r.va), pg.Harmless s.proc.globals r.fault r.frame

instance (pg : Page) (g : Globals) (ty : FaultType) (frame : Nat) :
    Decidable (pg.Harmless g ty frame) := inferInstanceAs (Decidable (_ ∧ _))

instance (s : Task) (r : Reference) : Decidable (Harmless s r) :=
  inferInstanceAs (Decidable (_ → _ → ∀ pg ∈ s.proc.as.pageAt _, _))

/-! ### Words of entries -/

theorem and_dirty_of_aligned {w : Nat} (h : w % PAGE_SIZE = 0) : w &&& TLBLO_DIRTY = 0 := by
  have hbit : w.testBit 10 = false := by
    rw [Nat.testBit_eq_decide_div_mod_eq, decide_eq_false_iff_not]
    unfold PAGE_SIZE at h
    omega
  rw [Nat.and_comm, show TLBLO_DIRTY = 2 ^ 10 from rfl, Nat.two_pow_and, hbit]
  rfl

theorem or_valid_and_dirty (w : Nat) : (w ||| TLBLO_VALID) &&& TLBLO_DIRTY = w &&& TLBLO_DIRTY := by
  rw [Nat.and_or_distrib_right]
  exact Nat.or_zero _

theorem or_dirty_and_dirty (w : Nat) : (w ||| TLBLO_DIRTY ||| TLBLO_VALID) &&& TLBLO_DIRTY ≠ 0 := by
  rw [or_valid_and_dirty, Nat.and_or_distrib_right, Nat.and_self]
  intro h
  cases (Nat.or_eq_zero_iff.mp h).2

/-! ### Entries that are put in -/

structure Tlb.Tidy (t : Tlb) : Prop where
  aligned : ∀ j, (t.entry j).Valid → (t.entry j).ehi % PAGE_SIZE = 0
  outside : ∀ j, ¬ (t.entry j).Valid → USERSTACK ≤ (t.entry j).ehi

theorem tidy_invalid (t : Tlb) : t.invalid.Tidy := by
  constructor
  · intro j hv
    exact absurd (Nat.zero_and _) hv
  · intro j _
    change USERSTACK ≤ (0x80000 + j.val) <<< 12
    unfold USERSTACK
    omega

theorem Tlb.Tidy.install (h : t.Tidy) (hfa : fa % PAGE_SIZE = 0) (helo : elo &&& TLBLO_VALID ≠ 0) :
    (install t fa elo).Tidy := by
  obtain ⟨k, hk, hother⟩ := install_slot t fa elo
  constructor
  · intro j hv
    by_cases hj : j = k
    · rw [hj, hk]
      exact hfa
    · rw [hother j hj] at hv ⊢
      exact h.aligned j hv
  · intro j hv
    by_cases hj : j = k
    · rw [hj, hk] at hv
      exact absurd helo hv
    · rw [hother j hj] at hv ⊢
      exact h.outside j hv

theorem clearDirty_valid (t : Tlb) (rg : Region) (j : Fin NUM_TLB) :
    ((t.clearDirty rg).entry j).Valid ↔ (t.entry j).Valid := by
  refine ⟨(clearDirty_spec rg j).2, fun hv => ?_⟩
  unfold Tlb.clearDirty
  dsimp only
  split
  · unfold TlbEntry.Valid
    rw [Nat.and_assoc]
    exact hv
  · exact hv

theorem Tlb.Tidy.clearDirty (h : t.Tidy) (rg : Region) : (t.clearDirty rg).Tidy := by
  constructor
  · intro j hv
    rw [(clearDirty_spec rg j).1.1]
    exact h.aligned j ((clearDirty_valid t rg j).mp hv)
  · intro j hv
    rw [(clearDirty_spec rg j).1.1]
    exact h.outside j (mt (clearDirty_valid t rg j).mpr hv)

variable {rg : Region}

theorem Tlb.ReadOnly.install (h : t.ReadOnly rg) (hnew : rg.Has fa → elo &&& TLBLO_DIRTY = 0) :
    (install t fa elo).ReadOnly rg := by
  obtain ⟨k, hk, hother⟩ := install_slot t fa elo
  intro j hv hhas
  by_cases hj : j = k
  · rw [hj, hk] at hhas ⊢
    exact hnew hhas
  · rw [hother j hj] at hv hhas ⊢
    exact h j hv hhas

theorem not_readOnly_install (hhas : rg.Has fa) (helo : elo &&& TLBLO_VALID ≠ 0)
    (hdirty : elo &&& TLBLO_DIRTY ≠ 0) : ¬ (install t fa elo).ReadOnly rg := by
  obtain ⟨k, hk, -⟩ := install_slot t fa elo
  intro h
  have hword := h k (by rw [hk]; exact helo) (by rw [hk]; exact hhas)
  rw [hk] at hword
  exact hdirty hword

theorem readOnly_clearDirty (t : Tlb) (rg : Region) : (t.clearDirty rg).ReadOnly rg := by
  intro j hv hhas
  obtain ⟨hmap, hvalid⟩ := clearDirty_spec (t := t) rg j
  rw [hmap.1] at hhas
  have hentry : (t.clearDirty rg).entry j =
      ⟨(t.entry j).ehi, (t.entry j).elo &&& (2 ^ 32 - 1 - TLBLO_DIRTY)⟩ := if_pos ⟨hvalid hv, hhas⟩
  rw [hentry, Nat.and_assoc]
  exact Nat.and_zero _

theorem Tlb.Tidy.probe_none {va : Nat} (h : t.Tidy) (hmiss : t.translate va = none)
    (hva : va < USERSTACK) : t.probe (pageOf va) = none := by
  unfold Tlb.probe
  rw [List.find?_eq_none]
  intro j _
  rw [decide_eq_true_eq, pageOf_div]
  by_cases hv : (t.entry j).Valid
  · exact translate_none_iff.mp hmiss j hv
  · have := h.outside j hv
    unfold USERSTACK PAGE_SIZE at *
    omega

section effect

variable {as : Addrspace} {g : Globals} {ty : FaultType} {va frame : Nat} {seg : Segment} {pg : Page}
  {copied : Bool} {ret : Ret}

theorem Effect.tidy (h : Effect as t g ty va frame seg pg copied t' ret) (ht : t.Tidy) : t'.Tidy := by
  have hfa := pageOf_aligned va
  cases h with
  | failed | skipped => exact ht
  | entry => exact ht.install hfa (fillWord_valid _ _ _)
  | stopped helo | loaded helo => exact ht.install hfa helo
  | text =>
    split
    · exact ht.clearDirty _
    · exact (ht.clearDirty _).install hfa (or_valid_ne_zero _)
  | loadedText helo => exact (ht.install hfa helo).clearDirty _

theorem Page.Harmless.word (h : pg.Harmless g ty frame) (hframe : frame % PAGE_SIZE = 0) :
    ((if pg.valid then pg.paddr else frame) ||| TLBLO_VALID) &&& TLBLO_DIRTY = 0 := by
  rw [or_valid_and_dirty]
  split
  · exact h.1 ‹_›
  · exact and_dirty_of_aligned hframe

theorem Effect.readOnly (h : Effect as t g ty va frame seg pg copied t' ret) (ht : t.ReadOnly as.r1)
    (hcode : seg = .code ↔ as.r1.Has (pageOf va)) (hframe : frame % PAGE_SIZE = 0)
    (hpage : seg = .code → pg.Harmless g ty frame) :
    t'.ReadOnly as.r1 ∨ copied = true ∧ ret ≠ .ok := by
  cases h with
  | failed | skipped => exact .inl ht
  | entry hmem hwrite hty hg =>
    refine .inl (ht.install fun hhas => ?_)
    have hseg := hcode.mpr hhas
    have hclear : g.codeWriteNread = false :=
      ((hpage hseg).2 (hty hseg)).resolve_right fun hno => hmem hno.1 hno.2
    rw [fillWord_readOnly (by rw [hwrite (hty hseg), hclear, Bool.not_false, Bool.or_true]) hhas]
    exact (hpage hseg).word hframe
  | text hseg =>
    refine .inl ?_
    split
    · exact readOnly_clearDirty _ _
    · exact (readOnly_clearDirty _ _).install fun _ => (hpage hseg).word hframe
  | stopped _ hcopied hret => exact .inr ⟨hcopied, hret⟩
  | loaded _ hseg =>
    refine .inl (ht.install fun hhas => ?_)
    rw [hcode.mpr hhas] at hseg
    cases hseg
  | loadedText => exact .inl (readOnly_clearDirty _ _)

theorem Effect.writable (h : Effect as t g ty va frame .code pg copied t' ret) (ht : t.Tidy)
    (hmiss : t.translate va = none) (hva : va < USERSTACK) (hhas : as.r1.Has (pageOf va))
    (hpage : ¬ pg.Harmless g ty frame) : ret = .ok ∧ ¬ t'.ReadOnly as.r1 := by
  unfold Page.Harmless at hpage
  cases h with
  | failed hv hframe =>
    refine absurd ⟨?_, fun hty => .inr ⟨hv, hframe hty rfl⟩⟩ hpage
    simp [hv]
  | skipped hseg => cases hseg
  | entry _ hwrite hty hg =>
    refine ⟨rfl, not_readOnly_install hhas (fillWord_valid _ _ _) fun hword => hpage ?_⟩
    have hflag := hwrite (hty rfl)
    cases hset : g.codeWriteNread with
    | true =>
      unfold fillWord at hword
      rw [if_neg (by rw [hg, hflag, hset]; simp)] at hword
      exact absurd hword (or_dirty_and_dirty _)
    | false =>
      rw [fillWord_readOnly (by rw [hflag, hset, Bool.not_false, Bool.or_true]) hhas,
        or_valid_and_dirty] at hword
      refine ⟨fun hv => ?_, fun _ => .inl rfl⟩
      rwa [if_pos hv] at hword
  | text _ hty =>
    have hprobe : (t.clearDirty as.r1).probe (pageOf va) = none := by
      apply (ht.clearDirty _).probe_none _ hva
      rw [translate_none_iff] at hmiss ⊢
      intro j hv
      rw [(clearDirty_spec as.r1 j).1.1]
      exact hmiss j ((clearDirty_valid t as.r1 j).mp hv)
    rw [hprobe]
    refine ⟨rfl, not_readOnly_install hhas (or_valid_ne_zero _) fun hword => hpage ?_⟩
    rw [or_valid_and_dirty] at hword
    refine ⟨fun hv => ?_, fun hw => ?_⟩
    · rwa [if_pos hv] at hword
    · rw [hty] at hw
      cases hw
  | stopped _ _ _ hty hv =>
    refine absurd ⟨?_, ?_⟩ hpage
    · simp [hv]
    · simp [hty rfl]
  | loaded _ hseg => cases hseg
  | loadedText _ _ hty hv =>
    refine absurd ⟨?_, ?_⟩ hpage
    · simp [hv]
    · simp [hty]

end effect

/-! ### Runs -/

structure Orderly (s : Task) : Prop where
  flag : s.proc.globals.firstCodeRead = false
  tidy : s.proc.tlb.Tidy
  readOnly : s.alive = true → s.proc.tlb.ReadOnly s.proc.as.r1

theorem SameShape.readOnly {as as' : Addrspace} (h : SameShape as as') :
    t.ReadOnly as'.r1 ↔ t.ReadOnly as.r1 := by
  unfold Tlb.ReadOnly
  simp [h.has]

theorem Orderly.step (h : Orderly s) (hc : Harmless s r) (hstep : s.step file r = some s') :
    Orderly s' := by
  obtain ⟨⟨halive, -, hframe⟩, hshape, hflag, hcases⟩ := step_cases h.flag hstep
  have hro := hshape.readOnly.mpr (h.readOnly halive)
  rcases hcases with ⟨htlb, -⟩ | ⟨hmiss, seg, i, pg, copied, ret, hloc, hpg, heffect, -, hdead⟩
  · exact ⟨hflag, by rw [htlb]; exact h.tidy, fun _ => by rw [htlb]; exact hro⟩
  · have hcode := Addrspace.locate_code hloc
    refine ⟨hflag, heffect.tidy h.tidy, fun halive' => ?_⟩
    have hpage : seg = .code → pg.Harmless s.proc.globals r.fault r.frame := fun hseg =>
      hc hmiss (hcode.mp hseg) pg ((Addrspace.pageAt_eq hloc).trans hpg)
    rw [← hshape.has] at hcode
    rcases heffect.readOnly hro hcode hframe hpage with hgood | ⟨hcopied, hret⟩
    · exact hgood
    · rw [hdead hcopied hret] at halive'
      cases halive'

theorem Orderly.not_textReadOnly (h : Orderly s) (hc : ¬ Harmless s r)
    (hstep : s.step file r = some s') : ¬ TextReadOnly file s' := by
  obtain ⟨⟨-, hva, -⟩, hshape, -, hcases⟩ := step_cases h.flag hstep
  unfold Harmless at hc
  simp only [Classical.not_imp, not_forall] at hc
  obtain ⟨hmiss, hhas, pg, hpg, hbad⟩ := hc
  obtain ⟨seg, i, hloc, hpages⟩ := Addrspace.exists_of_pageAt hpg
  obtain rfl := (Addrspace.locate_code hloc).mpr hhas
  rcases hcases with ⟨-, hnone⟩ | ⟨-, seg', i', pg', copied, ret, hloc', hpages', heffect, hlive, -⟩
  · rw [hnone hmiss] at hloc
    cases hloc
  · rw [hloc] at hloc'
    cases hloc'
    rw [hpages] at hpages'
    cases hpages'
    obtain ⟨hret, hwritable⟩ := heffect.writable h.tidy hmiss hva ((hshape.has _).mpr hhas) hbad
    exact fun hro => hwritable (hro.entries (hlive hret))

theorem Orderly.textReadOnly (h : Orderly s) : TextReadOnly file s := by
  refine ⟨h.readOnly, fun r s' hstore hhas hentry hstep => ?_⟩
  obtain ⟨⟨halive, -, -⟩, hstep⟩ := ite_none_right_eq_some.mp hstep
  obtain ⟨e, he⟩ := ne_none_iff_exists'.mp hentry
  obtain ⟨j, rfl, hv, hpage⟩ := exists_of_translate he
  -- the entry is for the page of the store, so it is read-only
  have hehi : (s.proc.tlb.entry j).ehi = pageOf r.va := by
    have := h.tidy.aligned j hv
    unfold pageOf PAGE_SIZE at *
    omega
  have hdirty := h.readOnly halive j hv (by rw [hehi]; exact hhas)
  simp only [he] at hstep
  rw [if_pos ⟨hstore, hdirty⟩] at hstep
  obtain ⟨⟨p, ret⟩, hfault, hs⟩ := map_eq_some_iff.mp hstep
  have hloc : s.proc.as.locate (pageOf r.va) ≠ none := by
    unfold Addrspace.locate
    rw [if_pos hhas]
    nofun
  obtain rfl := (vmFault_readonly hfault).2 hloc
  cases hs
  rfl

theorem text_readOnly_iff (file : List UInt8) (as : Addrspace) (g : Globals) (tlb : Tlb)
    (mem : Nat → Nat → UInt8) (rs : List Reference) (hg : g.firstCodeRead = false) {s : Task}
    (hrun : run (Task.step file) (Task.start as g tlb.invalid mem) rs = some s) :
    Always (Task.step file) (TextReadOnly file) (Task.start as g tlb.invalid mem) rs ↔
      Meets (Task.step file) Harmless (Task.start as g tlb.invalid mem) rs := by
  have hstart : Orderly (Task.start as g tlb.invalid mem) :=
    ⟨hg, tidy_invalid tlb, fun _ j hv => absurd (Nat.zero_and _) hv⟩
  have hkeep : ∀ s r s', Orderly s → Harmless s r → Task.step file s r = some s' → Orderly s' :=
    fun s r s' hs hc hstep => hs.step hc hstep
  constructor
  · apply meets_of_always hkeep _ hstart hrun
    intro s r s' hs hc hstep
    exact hs.not_textReadOnly hc hstep
  · apply always_of_meets hkeep _ hstart
    intro s hs
    exact hs.textReadOnly

/-- The data page has left `code_write_nread` set, so the store gets a writable entry. -/
theorem text_writable_after_data :
    ∃ s, run (Task.step twoPagesFile) twoPagesTask dataThenStore = some s ∧
      s.alive = true ∧ s.proc.as.r1.flag &&& 2 = 0 ∧ ¬ TextReadOnly twoPagesFile s := by
  have hrun : ∃ s ∈ run (Task.step twoPagesFile) twoPagesTask dataThenStore,
      s.alive = true ∧ s.proc.as.r1.flag &&& 2 = 0 ∧
        ∃ j, (s.proc.tlb.entry j).Valid ∧ s.proc.as.r1.Has (s.proc.tlb.entry j).ehi ∧
          (s.proc.tlb.entry j).elo &&& TLBLO_DIRTY ≠ 0 := by decide +kernel
  obtain ⟨s, hs, halive, hflag, j, hv, hhas, hdirty⟩ := hrun
  exact ⟨s, hs, halive, hflag, fun hro => hdirty (hro.entries halive j hv hhas)⟩

theorem text_readOnly_iff_code_then_store :
    (run (Task.step twoPagesFile) twoPagesTask codeThenStore).isSome = true ∧
      Always (Task.step twoPagesFile) (TextReadOnly twoPagesFile) twoPagesTask codeThenStore := by
  have hsome : (run (Task.step twoPagesFile) twoPagesTask codeThenStore).isSome = true := by
    decide +kernel
  have hmeets : Meets (Task.step twoPagesFile) Harmless twoPagesTask codeThenStore := by
    decide +kernel
  obtain ⟨s, hrun⟩ := isSome_iff_exists.mp hsome
  exact ⟨hsome, (text_readOnly_iff _ _ _ _ _ _ rfl hrun).mpr hmeets⟩

end Os161.Vm
