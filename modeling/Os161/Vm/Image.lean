import Os161.Vm.Isolation
import Os161.Vm.Load
import Os161.Vm.Regions

/-! # When demand loading gives the program image -/

open Option

namespace Os161.Vm

open Lib

variable {p p' : Proc} {file : List UInt8} {fa : Nat} {pg : Page} {f : Fault} {junk : Nat → Nat}
variable {phs : List Phdr} {as as' : Addrspace} {ph text data : Phdr} {t : Tlb} {g : Globals}
variable {ty : FaultType} {va frame i : Nat} {io : Option Nat} {r : Ret} {seg : Segment}
variable {s s' : Image}

theorem Laid.loadHeaders (hl : Laid phs text data) : loadHeaders phs = [text, data] := by
  obtain ⟨ph, rest, rfl, hph, hrest⟩ := hl.headers
  have hrest' : rest.filter (fun ph => ph.p_type = .load) = [] := by simpa using hrest
  simp [Vm.loadHeaders, hph, hl.load.1, hl.load.2, hrest']

theorem Laid.inPlace (hl : Laid phs text data) (junk : Addrspace) : InPlace junk phs := by
  have hloads := hl.loadHeaders
  refine ⟨by simp [hloads], ?_, ?_, ?_⟩
  · have hle : PAGE_SIZE ≤ text.p_vaddr := by
      have := hl.nonzero.1
      have := hl.aligned.1
      unfold PAGE_SIZE at *
      omega
    simpa [hloads] using hle
  · obtain ⟨ph, rest, rfl, -⟩ := hl.headers
    simp [hloads, loadAt_cons_zero hl.load.1, SameData]
  · obtain ⟨ph, rest, rfl, -⟩ := hl.headers
    simp [hloads, loadAt_cons_zero hl.load.2, SameData]

theorem loadElf_laid {junk : Addrspace} {v : Nat} {jp : Nat → Nat} (hl : Laid phs text data)
    (hok : (loadElf (asCreate junk) v phs jp).2 = none) :
    (loadElf (asCreate junk) v phs jp).1.r1.Of text ∧
      (loadElf (asCreate junk) v phs jp).1.r2.Of data := by
  have hp := (loadElf_paired_iff (Prod.ext rfl hok)).mpr (hl.inPlace junk)
  exact ⟨hp.first text (by simp [hl.loadHeaders]), hp.second data (by simp [hl.loadHeaders])⟩

def TlbOk (as : Addrspace) (t : Tlb) : Prop :=
  ∀ j, (t.entry j).Valid → (t.entry j).ehi % PAGE_SIZE = 0 ∧ Maps as (t.entry j)

theorem TlbOk.grow (h : TlbOk as t) (hg : Grown as as') :
    TlbOk as' t := fun j hv => ⟨(h j hv).1, (h j hv).2.grow hg⟩

theorem TlbOk.fill (h : TlbOk as t) (hb : Backed as f)
    (hal : f.fa % PAGE_SIZE = 0) : TlbOk as (tlbFill as g t f).2 := by
  intro j hv
  rcases tlbFill_spec j hv with ⟨hv', hs⟩ | hs
  · obtain ⟨he, hm⟩ := h j hv'
    exact ⟨hs.1 ▸ he, hm.congr hs⟩
  · exact ⟨by rw [hs.1]; exact hal, hb.maps hs⟩

theorem translate_frame {e : TlbEntry} (h : TlbOk as t)
    (hpg : as.pageAt fa = some pg) (hal : fa % PAGE_SIZE = 0) (he : t.translate fa = some e) :
    frameOf e.elo = frameOf pg.paddr := by
  obtain ⟨j, rfl, hv, hpage⟩ := exists_of_translate he
  obtain ⟨hehi, pg', hpg', -, hframe⟩ := h j hv
  have hfa : (t.entry j).ehi = fa := by
    unfold PAGE_SIZE at *
    omega
  rw [hfa, hpg] at hpg'
  obtain rfl := some.inj hpg'
  exact hframe

theorem access_frame {e : TlbEntry} {k : Nat} (h : e.access = .frame k) : k = frameOf e.elo := by
  unfold TlbEntry.access at h
  split at h
  · exact (Access.frame.inj h).symm
  · cases h

theorem kernelStore_spec {acc : Access} (h : kernelStore p fa = (p', acc))
    (hpg : p.as.pageAt fa = some pg) (hv : pg.valid = true) (hal : fa % PAGE_SIZE = 0)
    (ht : TlbOk p.as p.tlb) :
    p'.as = p.as ∧ p'.mem = p.mem ∧ TlbOk p.as p'.tlb ∧
      ∀ k, acc = .frame k → k = frameOf pg.paddr := by
  rcases kernelStore_cases hpg hv hal with ⟨e, he, hstore⟩ | ⟨-, q, seg, i, rfl, hstore⟩
  · cases h.symm.trans hstore
    refine ⟨rfl, rfl, ht, fun k hk => ?_⟩
    rw [access_frame hk, translate_frame ht hpg hal he]
  · cases h.symm.trans hstore
    have hback : Backed p.as ⟨.write, fa, seg, i, pg.paddr, true⟩ := ⟨pg, hpg, hv, rfl⟩
    have hfill := ht.fill (g := p.globals.sawFault fa) hback hal
    refine ⟨rfl, rfl, hfill, fun k hk => ?_⟩
    generalize hx : Tlb.translate _ _ = x at hk
    cases x with
    | none => simp at hk
    | some e =>
      rw [access_frame hk]
      exact translate_frame hfill hpg hal hx

theorem loadEachSegment_spec {l : Load} (h : loadEachSegment p file fa l io = (p', r))
    (hpg : p.as.pageAt fa = some pg) (hv : pg.valid = true) (hal : fa % PAGE_SIZE = 0)
    (ht : TlbOk p.as p.tlb) :
    p'.as = p.as ∧ TlbOk p.as p'.tlb ∧ (r = .ok → l.firstRead = false → ∀ x,
      p'.mem (frameOf pg.paddr) x = if x < l.filesize then file.getD (l.offset + x) 0 else 0) := by
  rcases loadEachSegment_cases h with ⟨hl, rfl, -⟩ | ⟨-, ⟨rfl, e, rfl⟩ | ⟨-, q, acc, mem, hk, rfl, hok⟩⟩
  · exact ⟨rfl, ht, fun _ hl' => by simp [hl] at hl'⟩
  · exact ⟨rfl, ht, nofun⟩
  · obtain ⟨has, -, htlb, hframe⟩ := kernelStore_spec hk hpg hv hal ht
    refine ⟨has, htlb, fun hr _ x => ?_⟩
    obtain ⟨k, rfl, rfl⟩ := hok hr
    simp only [← hframe k rfl, zeroFill, fromFile, Function.update_self]
    split <;> simp_all

theorem vmFault_inv (ht : TlbOk p.as p.tlb) (h : vmFault p file ty va frame io = some (p', r)) :
    SameShape p.as p'.as ∧ TlbOk p'.as p'.tlb := by
  obtain ⟨⟨as, g, out⟩, hpage, hr⟩ := map_eq_some_iff.mp h
  obtain ⟨hshape, hgrown, hback⟩ := faultPage_spec hpage
  have ht' := ht.grow hgrown
  cases out with
  | fail e | kill =>
    cases hr
    exact ⟨hshape, ht'⟩
  | fill f =>
    cases hr
    exact ⟨hshape, ht'.fill hback.2 (by rw [hback.1]; exact pageOf_aligned va)⟩
  | load f l =>
    obtain ⟨hfa, pg, hpg, hv, hpaddr⟩ := hback
    have hal : f.fa % PAGE_SIZE = 0 := by rw [hfa]; exact pageOf_aligned va
    cases hload : loadEachSegment { p with as := as, globals := g } file f.fa l io with
    | mk q r' =>
      obtain ⟨has, htlb, -⟩ := loadEachSegment_spec hload hpg hv hal ht'
      simp only [hload] at hr
      cases r' with
      | ok =>
        cases hr
        refine ⟨by simpa only [Proc.fill, has] using hshape, ?_⟩
        simp only [Proc.fill, has]
        exact htlb.fill ⟨pg, hpg, hv, hpaddr⟩ hal
      | err e | killed =>
        cases hr
        rw [has]
        exact ⟨hshape, htlb⟩

@[simp] theorem secondWrite_sawFault (g : Globals) (va : Nat) :
    (g.sawFault va).secondWrite = g.secondWrite := by
  unfold Globals.sawFault
  split <;> rfl

theorem faultPage_first {g' : Globals} {out : Outcome}
    (hloc : as.locate (pageOf va) = some (seg, i))
    (hvalid : ∀ pg ∈ as.pageAt (pageOf va), pg.valid = false)
    (hc : as.filesz seg ≠ 0 → ty = .read ∨ seg = .data ∧ g.secondWrite = false)
    (h : faultPage as g ty va frame = some (as', g', out)) :
    (∃ e, out = .fail e) ∨ out = .kill ∨ ∃ f : Fault, ∃ pg' : Page, f.fa = pageOf va ∧
      as'.pageAt (pageOf va) = some pg' ∧ pg'.valid = true ∧ pg'.paddr = frame ∧
      out = if as.filesz seg = 0 then .fill f else .load f (loadOf as seg i false) := by
  rcases faultPage_cases h with ⟨hnone, -⟩ | ⟨_, _, pg, hloc', hpg, hanswer⟩
  · rw [hloc] at hnone
    cases hnone
  cases hloc.symm.trans hloc'
  have hset : ∀ pg', (as.setPage seg i pg').pageAt (pageOf va) = some pg' := fun pg' =>
    Addrspace.pageAt_setPage_self hloc hpg
  cases hanswer with
  | readonly => exact .inr (.inl rfl)
  | other | refused => exact .inl ⟨_, rfl⟩
  | held _ hv =>
    rw [hvalid pg ((Addrspace.pageAt_eq hloc).trans hpg)] at hv
    cases hv
  | zeroed _ _ _ hz => exact .inr (.inr ⟨_, _, rfl, hset _, rfl, rfl, by rw [if_pos hz]⟩)
  | loading hty _ _ hz hskip =>
    have hno := hc hz
    rw [secondWrite_sawFault] at hskip
    obtain rfl : _ = false := hskip.trans (by rcases hno with rfl | ⟨rfl, hsw⟩ <;> simp_all)
    exact .inr (.inr ⟨_, _, rfl, hset _, rfl, rfl, by rw [if_neg hz]⟩)

theorem vmFault_first (ht : TlbOk p.as p.tlb) (hloc : p.as.locate (pageOf va) = some (seg, i))
    (hvalid : ∀ pg ∈ p.as.pageAt (pageOf va), pg.valid = false)
    (hc : p.as.filesz seg ≠ 0 → ty = .read ∨ seg = .data ∧ p.globals.secondWrite = false)
    (hzero : p.as.filesz seg = 0 → ∀ x < PAGE_SIZE, p.mem (frameOf frame) x = 0)
    (h : vmFault p file ty va frame io = some (p', .ok)) :
    ∀ x < PAGE_SIZE, p'.byteAt (pageOf va) x =
      some (if x < p.as.filesz seg then file.getD (p.as.off seg + i * PAGE_SIZE + x) 0 else 0) := by
  intro x hx
  obtain ⟨⟨as, g, out⟩, hpage, hr⟩ := map_eq_some_iff.mp h
  obtain ⟨-, hgrown, -⟩ := faultPage_spec hpage
  obtain ⟨e, rfl⟩ | rfl | ⟨f, pg', hfa, hpg', hv', hpaddr, hout⟩ :=
    faultPage_first hloc hvalid hc hpage
  · cases hr
  · cases hr
  · by_cases hz : p.as.filesz seg = 0
    · rw [if_pos hz] at hout
      subst hout
      cases hr
      simp [Proc.byteAt, Proc.fill, hpg', map_some, hpaddr, hzero hz x hx, hz]
    · rw [if_neg hz] at hout
      subst hout
      cases hload : loadEachSegment { p with as := as, globals := g } file f.fa
          (loadOf p.as seg i false) io with
      | mk q r' =>
        simp only [hload] at hr
        cases r' with
        | err e | killed => cases hr
        | ok =>
          cases hr
          rw [← hfa] at hpg'
          obtain ⟨has, -, hmem⟩ := loadEachSegment_spec hload hpg' hv'
            (by rw [hfa]; exact pageOf_aligned va) (ht.grow hgrown)
          rw [hfa] at hpg'
          simp only [Proc.byteAt, Proc.fill, has, hpg', map_some, hmem rfl rfl, loadOf]
          have hmin : x < min (p.as.filesz seg) PAGE_SIZE ↔ x < p.as.filesz seg := by omega
          simp only [hmin]

theorem Region.Of.vbase {rg : Region} (h : rg.Of ph) (hal : ph.p_vaddr % PAGE_SIZE = 0) :
    rg.vbase = ph.p_vaddr :=
  (congrArg Prod.fst h).trans (Nat.div_mul_cancel (Nat.dvd_of_mod_eq_zero hal))

theorem Region.Of.contents {rg : Region} (h : rg.Of ph) :
    rg.filesz = ph.p_filesz ∧ rg.off = ph.p_offset :=
  ⟨congrArg (fun x => x.2.2.1) h, congrArg (fun x => x.2.2.2) h⟩

theorem Region.Of.has_iff {rg : Region} (h : rg.Of ph)
    (hal : ph.p_vaddr % PAGE_SIZE = 0)
    (hb : ph.p_vaddr + ph.p_memsz ≤ USERSTACK - STACKPAGES * PAGE_SIZE)
    (hfa : fa % PAGE_SIZE = 0) : rg.Has fa ↔ ph.HasPage fa := by
  have hv := h.vbase hal
  have hn : rg.npages = regionPages ph.p_vaddr ph.p_memsz := congrArg (fun x => x.2.1) h
  unfold regionPages at hn
  unfold Region.Has Region.vtop Phdr.HasPage pageOf
  unfold USERSTACK STACKPAGES PAGE_SIZE at *
  omega

structure Sited (text data : Phdr) (p : Proc) : Prop where
  text : p.as.r1.Of text
  data : p.as.r2.Of data
  tlb : TlbOk p.as p.tlb

theorem Sited.locate (hs : Sited text data p) (hl : Laid phs text data) (hfa : fa % PAGE_SIZE = 0) :
    (∀ ph ∈ loadHeaders phs, ph.HasPage fa → ∃ seg i, p.as.locate fa = some (seg, i) ∧
      fa = ph.p_vaddr + i * PAGE_SIZE ∧ p.as.filesz seg = ph.p_filesz ∧ p.as.off seg = ph.p_offset) ∧
    (StackPage fa → ∃ i, p.as.locate fa = some (.stack, i)) := by
  have htext := hs.text.has_iff hl.aligned.1 hl.below.1 hfa
  have hdata := hs.data.has_iff hl.aligned.2 hl.below.2 hfa
  have htv := hs.text.vbase hl.aligned.1
  have hdv := hs.data.vbase hl.aligned.2
  refine ⟨fun ph hph hpage => ?_, fun hst => ?_⟩
  · have hcases : ph = text ∨ ph = data := by simpa [hl.loadHeaders] using hph
    have hstart : ph.p_vaddr ≤ fa ∧ (fa - ph.p_vaddr) % PAGE_SIZE = 0 := by
      have hal : ph.p_vaddr % PAGE_SIZE = 0 := by
        rcases hcases with rfl | rfl
        · exact hl.aligned.1
        · exact hl.aligned.2
      have := hpage.1
      unfold pageOf PAGE_SIZE at *
      omega
    have hidx : fa = ph.p_vaddr + (fa - ph.p_vaddr) / PAGE_SIZE * PAGE_SIZE := by
      unfold PAGE_SIZE at *
      omega
    rcases hcases with rfl | rfl
    · refine ⟨.code, (fa - ph.p_vaddr) / PAGE_SIZE, ?_, hidx, hs.text.contents⟩
      unfold Addrspace.locate
      rw [if_pos (htext.mpr hpage), htv]
    · refine ⟨.data, (fa - ph.p_vaddr) / PAGE_SIZE, ?_, hidx, hs.data.contents⟩
      unfold Addrspace.locate
      rw [if_neg fun h => hl.apart fa hfa (htext.mp h) hpage, if_pos (hdata.mpr hpage), hdv]
  · refine ⟨(fa - (USERSTACK - STACKPAGES * PAGE_SIZE)) / PAGE_SIZE, ?_⟩
    have hb := hl.below
    unfold StackPage at hst
    unfold Addrspace.locate
    rw [if_neg fun h => ?_, if_neg fun h => ?_, if_pos hst]
    · have := (hdata.mp h).2
      omega
    · have := (htext.mp h).2
      omega

theorem byte_eq {x : Nat} (hx : x < PAGE_SIZE) (hfa : fa = ph.p_vaddr + i * PAGE_SIZE)
    (hp : ph.p_filesz ≠ 0 → FilePage ph.p_filesz i) :
    (if x < ph.p_filesz then file.getD (ph.p_offset + i * PAGE_SIZE + x) 0 else 0) =
      ph.byte file (fa + x) := by
  have hin : (ph.p_vaddr ≤ fa + x ∧ fa + x < ph.p_vaddr + ph.p_filesz) ↔ x < ph.p_filesz := by
    by_cases hz : ph.p_filesz = 0
    · omega
    · unfold FilePage PAGE_SIZE at *
      omega
  have hoff : ph.p_offset + (fa + x - ph.p_vaddr) = ph.p_offset + i * PAGE_SIZE + x := by omega
  unfold Phdr.byte
  simp [hin, hoff]

theorem fresh_ok (hl : Laid phs text data) (hs : Sited text data s.proc)
    (hc : Expected s (.fault ty va frame io)) (hnew : s.loaded (pageOf va) = false)
    (h : vmFault s.proc file ty va frame io = some (p', .ok)) :
    (∀ ph ∈ loadHeaders phs, ph.HasPage (pageOf va) →
      ∀ x < PAGE_SIZE, p'.byteAt (pageOf va) x = some (ph.byte file (pageOf va + x))) ∧
    (StackPage (pageOf va) → ∀ x < PAGE_SIZE, p'.byteAt (pageOf va) x = some 0) := by
  obtain ⟨hsegs, hstack⟩ := hs.locate hl (pageOf_aligned va)
  have hbytes : ∀ seg i, s.proc.as.locate (pageOf va) = some (seg, i) →
      (s.proc.as.filesz seg ≠ 0 → FilePage (s.proc.as.filesz seg) i) ∧
      ∀ x < PAGE_SIZE, p'.byteAt (pageOf va) x = some (if x < s.proc.as.filesz seg
        then file.getD (s.proc.as.off seg + i * PAGE_SIZE + x) 0 else 0) := by
    intro seg i hloc
    obtain ⟨hvalid, hrest⟩ := (hc.resolve_left (by simp [hnew])) (seg, i) hloc
    by_cases hz : s.proc.as.filesz seg = 0
    · rw [if_pos hz] at hrest
      exact ⟨fun hne => absurd hz hne,
        vmFault_first hs.tlb hloc hvalid (fun hne => absurd hz hne) (fun _ => hrest) h⟩
    · rw [if_neg hz] at hrest
      exact ⟨fun _ => hrest.2,
        vmFault_first hs.tlb hloc hvalid (fun _ => hrest.1) (fun hz' => absurd hz' hz) h⟩
  refine ⟨fun ph hph hpage x hx => ?_, fun hst x hx => ?_⟩
  · obtain ⟨seg, i, hloc, hfa, hsz, hoff⟩ := hsegs ph hph hpage
    obtain ⟨hfile, hb⟩ := hbytes seg i hloc
    rw [hb x hx, hsz, hoff, byte_eq hx hfa (hsz ▸ hfile)]
  · obtain ⟨i, hloc⟩ := hstack hst
    rw [(hbytes .stack i hloc).2 x hx]
    rfl

theorem Sited.of_sameShape {tlb : Tlb} {mem : Nat → Nat → UInt8}
    (hs : Sited text data p) (hsh : SameShape p.as as') (ht : TlbOk as' tlb) :
    Sited text data ⟨as', g, tlb, mem⟩ :=
  ⟨hsh.1.trans hs.text, hsh.2.trans hs.data, ht⟩

theorem imageOk_step (hl : Laid phs text data) {e : Touch}
    (hs : Sited text data s.proc ∧ ImageOk file phs s) (hc : Expected s e)
    (h : Image.step file s e = some s') : Sited text data s'.proc ∧ ImageOk file phs s' := by
  cases e with
  | elsewhere g mem =>
    cases h
    exact ⟨hs.1.of_sameShape (.refl _) hs.1.tlb, fun fa hfa => by simp at hfa⟩
  | fault ty va frame io =>
    simp only [Image.step, ite_none_right_eq_some, map_eq_some_iff] at h
    obtain ⟨-, ⟨p', r⟩, hfault, hr⟩ := h
    obtain ⟨hshape, htlb⟩ := vmFault_inv hs.1.tlb hfault
    have hsited : Sited text data p' := hs.1.of_sameShape hshape htlb
    cases r with
    | err e | killed =>
      cases hr
      exact ⟨hsited, fun fa hfa => by simp at hfa⟩
    | ok =>
      cases hr
      refine ⟨hsited, fun fa hfa => ?_⟩
      cases hnew : s.loaded (pageOf va) with
      | true => simp [hnew] at hfa
      | false =>
        obtain rfl : pageOf va = fa := by simpa [hnew] using hfa
        exact fresh_ok hl hs.1 hc hnew hfault

theorem sited_start {junk : Addrspace} {v : Nat} {jp jp' : Nat → Nat} (g : Globals) (tlb : Tlb)
    (mem : Nat → Nat → UInt8) (hl : Laid phs text data)
    (hok : (loadElf (asCreate junk) v phs jp).2 = none) :
    Sited text data (Image.start (loadElf (asCreate junk) v phs jp).1 jp' g tlb mem).proc := by
  obtain ⟨htext, hdata⟩ := loadElf_laid hl hok
  refine ⟨htext, hdata, fun j hv => ?_⟩
  simp [Image.start, Tlb.invalid, TlbEntry.Valid] at hv

theorem imageOk_of_expected (file : List UInt8) (phs : List Phdr) (text data : Phdr)
    (junk : Addrspace) (v : Nat) (jp jp' : Nat → Nat) (g : Globals) (tlb : Tlb)
    (mem : Nat → Nat → UInt8) (es : List Touch) (hl : Laid phs text data)
    (hok : (loadElf (asCreate junk) v phs jp).2 = none)
    (hc : Meets (Image.step file) Expected
      (Image.start (loadElf (asCreate junk) v phs jp).1 jp' g tlb mem) es) :
    Always (Image.step file) (ImageOk file phs)
      (Image.start (loadElf (asCreate junk) v phs jp).1 jp' g tlb mem) es :=
  always_of_meets (I := fun s => Sited text data s.proc ∧ ImageOk file phs s)
    (fun _ _ _ hs hc h => imageOk_step hl hs hc h) (fun _ hs => hs.2)
    ⟨sited_start g tlb mem hl hok, fun fa hfa => by simp [Image.start] at hfa⟩ hc

def codeAndData : List Phdr :=
  [⟨.reginfo, 0, 0, 0, 0, 0⟩, ⟨.load, 0, 0x400000, 4, 4, 5⟩, ⟨.load, 4, 0x10000000, 4, 8, 6⟩]

def fileBytes : List UInt8 := [1, 2, 3, 4, 5, 6, 7, 8]

def program (secondWrite : Bool) : Image :=
  Image.start (loadElf (asCreate noSpace) 0 codeAndData fun _ => 0).1 (fun _ => 0)
    ⟨0, false, secondWrite, false, false⟩ Tlb.zero fun _ _ => 0

/-- A data page has been written since boot. Then initial values get lost. -/
theorem data_lost_on_write : (loadElf (asCreate noSpace) 0 codeAndData fun _ => 0).2 = none ∧
    ∃ s ∈ run (Image.step fileBytes) (program true) [.fault .write 0x10000004 0x5000 none],
      ¬ ImageOk fileBytes codeAndData s := by
  refine ⟨by decide, ?_⟩
  have hbad : ∃ s ∈ run (Image.step fileBytes) (program true)
      [.fault .write 0x10000004 0x5000 none], s.fresh = some 0x10000000 ∧
        s.proc.byteAt 0x10000000 0 ≠ some 5 := by decide +kernel
  obtain ⟨s, hs, hfresh, hbyte⟩ := hbad
  refine ⟨s, hs, fun hok => hbyte ?_⟩
  exact (hok _ hfresh).1 ⟨.load, 4, 0x10000000, 4, 8, 6⟩ (by decide)
    ⟨by decide, by decide⟩ 0 (by decide)

theorem laid_codeAndData :
    Laid codeAndData ⟨.load, 0, 0x400000, 4, 4, 5⟩ ⟨.load, 4, 0x10000000, 4, 8, 6⟩ where
  headers := ⟨_, [], rfl, by decide, by simp⟩
  load := by decide
  offsets := by decide
  aligned := by decide
  nonzero := by decide
  below := by decide
  apart := by
    rintro fa - ⟨-, h⟩ ⟨h', -⟩
    simp only [pageOf, PAGE_SIZE] at h h'
    omega

theorem imageOk_of_expected_small :
    let es : List Touch := [.fault .read 0x400000 0x5000 none, .fault .write 0x10000004 0x6000 none,
      .fault .write 0x10000004 0 none]
    Meets (Image.step fileBytes) Expected (program false) es ∧
      Always (Image.step fileBytes) (ImageOk fileBytes codeAndData) (program false) es := by
  have hc : Meets (Image.step fileBytes) Expected (program false)
      [.fault .read 0x400000 0x5000 none, .fault .write 0x10000004 0x6000 none,
        .fault .write 0x10000004 0 none] := by decide +kernel
  exact ⟨hc, imageOk_of_expected _ _ _ _ _ _ _ _ _ _ _ _ laid_codeAndData (by decide) hc⟩

end Os161.Vm
