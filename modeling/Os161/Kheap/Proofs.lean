import Os161.Kheap.Pages

/-!
# The subpage allocator keeps its representation

`Rep h live all`: `all` are the pagerefs on `allbase`, and `live` the blocks the callers hold.
-/

open Function List Option

namespace Os161.Kheap

open Lib

structure FreeList (h : Heap) (live : List Block) (pr : Ref) (size : Nat) (l : List Nat) : Prop where
  chain : Chain (nextFree h.mem) (firstFree h pr) l
  count : h.nfree pr = l.length
  mem : ∀ a, a ∈ l ↔ IsBlock (prPageaddr h pr) size a ∧ ∀ c ∈ live, c.addr ≠ a

structure Rep (h : Heap) (live : List Block) (all : List Ref) : Prop where
  chain : Chain h.nextAll h.allbase all
  same : ∀ b : Fin NSIZES, ∃ l, Chain h.nextSamesize (h.sizebases b) l ∧
    ∀ pr, pr ∈ l ↔ pr ∈ all ∧ prBlocktype h pr = b
  type : ∀ pr ∈ all, prBlocktype h pr < NSIZES
  page : ∀ pr ∈ all, 0 < prPageaddr h pr ∧ prPageaddr h pr + PAGE_SIZE < 2 ^ 32
  inj : ∀ pr ∈ all, ∀ q ∈ all, prPageaddr h pr = prPageaddr h q → pr = q
  free : ∀ pr ∈ all, ∀ b : Fin NSIZES, prBlocktype h pr = b → ∃ l, FreeList h live pr (sizes b) l
  held : ∀ c ∈ live, c.asked ≤ c.size ∧ ∃ pr ∈ all, prBlocktype h pr = c.blktype ∧
    IsBlock (prPageaddr h pr) c.size c.addr
  once : live.Pairwise fun a b => a.addr ≠ b.addr
  kept : ∀ p, p ∈ h.kpages ↔ ∃ pr ∈ all, prPageaddr h pr = p
  keptOnce : h.kpages.Nodup

variable {h h' : Heap} {live live' : List Block} {all : List Ref} {pr q : Ref} {b : Fin NSIZES}
variable {s : State}
  {l : List Nat} {a sz kpage : Nat} {c : Block}

namespace FreeList

variable {size : Nat}

theorem frame (hf : FreeList h live pr size l)
    (hpab : h'.pageaddrAndBlocktype pr = h.pageaddrAndBlocktype pr)
    (hoff : h'.freelistOffset pr = h.freelistOffset pr) (hn : h'.nfree pr = h.nfree pr)
    (hmem : ∀ a ∈ l, h'.mem a = h.mem a)
    (hlive : ∀ a, IsBlock (prPageaddr h pr) size a →
      ((∀ c ∈ live', c.addr ≠ a) ↔ ∀ c ∈ live, c.addr ≠ a)) : FreeList h' live' pr size l := by
  have hpage : prPageaddr h' pr = prPageaddr h pr := by unfold prPageaddr; rw [hpab]
  refine ⟨?_, hn.trans hf.count, fun a => ?_⟩
  · unfold firstFree
    rw [hoff, hpage]
    exact hf.chain.congr fun a ha => by unfold nextFree; rw [hmem a ha]
  · rw [hf.mem, hpage]
    exact and_congr_right fun hb => (hlive a hb).symm

theorem subset_blocks (hf : FreeList h live pr size l) :
    l ⊆ (List.range (PAGE_SIZE / size)).map fun k => prPageaddr h pr + k * size := by
  intro a ha
  obtain ⟨k, hk, rfl⟩ := ((hf.mem a).mp ha).1
  exact mem_map.mpr ⟨k, mem_range.mpr hk, rfl⟩

theorem nodup_blocks (page : Nat) (b : Fin NSIZES) :
    ((List.range (PAGE_SIZE / sizes b)).map fun k => page + k * sizes b).Nodup := by
  refine List.Nodup.map (fun k k' he => ?_) nodup_range
  exact Nat.eq_of_mul_eq_mul_right (sizes_pos b) (add_left_cancel he)

theorem none_live (hf : FreeList h live pr size l) (hl : l.length = PAGE_SIZE / size)
    (hc : c ∈ live) : ¬ IsBlock (prPageaddr h pr) size c.addr := by
  rintro ⟨k, hk, he⟩
  have hperm := (hf.chain.nodup.subperm hf.subset_blocks).perm_of_length_le (by simp [hl])
  have hmem : c.addr ∈ l := hperm.mem_iff.mpr (mem_map.mpr ⟨k, mem_range.mpr hk, he.symm⟩)
  exact ((hf.mem _).mp hmem).2 c hc rfl

theorem exists_live (hf : FreeList h live pr (sizes b) l) (hl : l.length < PAGE_SIZE / sizes b) :
    ∃ c ∈ live, IsBlock (prPageaddr h pr) (sizes b) c.addr := by
  by_contra hn
  have hsub : ((List.range (PAGE_SIZE / sizes b)).map fun k => prPageaddr h pr + k * sizes b) ⊆ l := by
    intro a ha
    obtain ⟨k, hk, rfl⟩ := mem_map.mp ha
    have hblock : IsBlock (prPageaddr h pr) (sizes b) (prPageaddr h pr + k * sizes b) :=
      ⟨k, mem_range.mp hk, rfl⟩
    exact (hf.mem _).mpr ⟨hblock, fun c hc he => hn ⟨c, hc, he ▸ hblock⟩⟩
  have hle := ((nodup_blocks (prPageaddr h pr) b).subperm hsub).length_le
  rw [length_map, length_range] at hle
  omega

theorem linkPage {mem : Nat → Nat} (hal : kpage % PAGE_SIZE = 0)
    (hchain : Chain (nextFree mem) (some (kpage + (PAGE_SIZE / sizes b - 1) * sizes b))
      ((List.range (PAGE_SIZE / sizes b)).reverse.map fun k => kpage + k * sizes b))
    (hlive : ∀ c ∈ live, ¬ IsBlock kpage (sizes b) c.addr) :
    FreeList (Kheap.linkPage h pr b kpage ((PAGE_SIZE / sizes b - 1) * sizes b) mem) live pr
      (sizes b) ((List.range (PAGE_SIZE / sizes b)).reverse.map fun k => kpage + k * sizes b) := by
  have hpage := prPageaddr_linkPage h pr pr b kpage ((PAGE_SIZE / sizes b - 1) * sizes b) mem hal
  rw [if_pos rfl] at hpage
  refine ⟨?_, ?_, fun a => ?_⟩
  · have hlast := last_block_lt b
    unfold firstFree
    rw [hpage]
    simp only [Kheap.linkPage, update_self]
    rw [if_neg (by unfold PAGE_SIZE INVALID_OFFSET at *; omega)]
    exact hchain
  · simp [Kheap.linkPage]
  · rw [hpage]
    constructor
    · intro ha
      obtain ⟨k, hk, rfl⟩ := mem_map.mp ha
      have hblock : IsBlock kpage (sizes b) (kpage + k * sizes b) :=
        ⟨k, mem_range.mp (mem_reverse.mp hk), rfl⟩
      exact ⟨hblock, fun c hc he => hlive c hc (he ▸ hblock)⟩
    · rintro ⟨⟨k, hk, rfl⟩, -⟩
      exact mem_map.mpr ⟨k, mem_reverse.mpr (mem_range.mpr hk), rfl⟩

theorem pushFree (hf : FreeList h live pr (sizes b) l) (h0 : 0 < prPageaddr h pr)
    (hc : c ∈ live) (hblock : IsBlock (prPageaddr h pr) (sizes b) c.addr) :
    FreeList (Kheap.pushFree h pr (sizes b) c.addr) (live.filter fun d => d.addr ≠ c.addr) pr
      (sizes b) (c.addr :: l) := by
  have hin := hblock.inside
  have hpos := sizes_pos b
  refine ⟨⟨?_, ?_⟩, ?_, fun a => ?_⟩
  · exact firstFree_pushFree hin.1 (by omega)
  · rw [nextFree_pushFree h0 hin.1]
    refine hf.chain.congr fun a ha => ?_
    -- a free block is not the one written, which a caller still holds
    obtain ⟨hba, hne⟩ := (hf.mem a).mp ha
    unfold nextFree
    rw [pushFree_mem hin.1 (by have := hba.apart hblock (Ne.symm (hne c hc)); omega)]
  · change update h.nfree pr (h.nfree pr + 1) pr = _
    rw [update_self, hf.count, length_cons]
  · rw [mem_cons, hf.mem]
    simp only [mem_filter, decide_eq_true_eq, and_imp]
    constructor
    · rintro (rfl | ⟨hba, hne⟩)
      · exact ⟨hblock, fun d _ hd => hd⟩
      · exact ⟨hba, fun d hd _ => hne d hd⟩
    · rintro ⟨hba, hne⟩
      by_cases ha : a = c.addr
      · exact .inl ha
      · exact .inr ⟨hba, fun d hd he => hne d hd (fun e => ha (he.symm.trans e)) he⟩

end FreeList

theorem doalloc_spec (hf : FreeList h live pr (sizes b) (a :: l)) : ∃ off, doalloc h pr =
        some ({ h with nfree := update h.nfree pr l.length
                       freelistOffset := update h.freelistOffset pr off }, a) ∧
      (if off = INVALID_OFFSET then none else some (prPageaddr h pr + off)) = nextFree h.mem a := by
  have hfirst := hf.chain.1
  obtain ⟨-, ha⟩ := ite_none_left_eq_some.mp hfirst
  have ha : prPageaddr h pr + h.freelistOffset pr = a := some.inj ha
  have hin := ((hf.mem a).mp mem_cons_self).1.inside
  have hsz := sizes_pos b
  have hn : h.nfree pr - 1 = l.length := by
    rw [hf.count]
    exact Nat.add_sub_cancel ..
  unfold doalloc
  rw [kassert_pos (by omega)]
  simp only [ha, hn]
  by_cases hz : h.mem a = 0
  · have hnil : l = [] := by
      cases l with
      | nil => rfl
      | cons d l => exact absurd hf.chain.2.1 (by simp [nextFree, hz])
    refine ⟨INVALID_OFFSET, ?_, by simp [nextFree, hz]⟩
    rw [if_neg (by simpa using hz), kassert_pos (by simp [hnil])]
  · cases l with
    | nil => exact absurd hf.chain.2 (by simp [nextFree, hz])
    | cons d l =>
      have hd : h.mem a = d := by simpa [nextFree, hz] using hf.chain.2.1
      have hind := ((hf.mem d).mp (by simp)).1.inside
      have hoff : (h.mem a + 2 ^ 32 - prPageaddr h pr) % 2 ^ 32 = d - prPageaddr h pr := by
        unfold PAGE_SIZE at hind
        omega
      refine ⟨d - prPageaddr h pr, ?_, ?_⟩
      · rw [if_pos hz, kassert_pos (by simp), hoff, kassert_pos (by omega)]
      · unfold PAGE_SIZE at hind
        rw [if_neg (by unfold INVALID_OFFSET; omega), nextFree, if_neg hz, hd]
        congr 1
        omega

/-! ## Allocation -/

namespace Rep

section

variable (r : Rep h live all)
include r

theorem page_unique (hp : pr ∈ all) (hq : q ∈ all) {b' : Fin NSIZES}
    (ha : IsBlock (prPageaddr h pr) (sizes b) a) (ha' : IsBlock (prPageaddr h q) (sizes b') a) :
    pr = q :=
  r.inj pr hp q hq (ha.page_eq (prPageaddr_aligned h pr) (prPageaddr_aligned h q) ha')

theorem not_isBlock (hal : kpage % PAGE_SIZE = 0) (hnew : kpage ∉ h.kpages)
    (hq : q ∈ all) {b' : Fin NSIZES} (ha : IsBlock (prPageaddr h q) (sizes b') a) :
    ¬ IsBlock kpage (sizes b) a := by
  intro ha'
  exact hnew ((r.kept kpage).mpr ⟨q, hq, ha.page_eq (prPageaddr_aligned h q) hal ha'⟩)

theorem doalloc (hpr : pr ∈ all) (hb : prBlocktype h pr = b)
    (hn : 0 < h.nfree pr) (hsz : sz ≤ sizes b) :
    ∃ h' a, Kheap.doalloc h pr = some (h', a) ∧ a ≠ 0 ∧ Rep h' (⟨a, sz, b⟩ :: live) all ∧
      h'.nfree = update h.nfree pr (h.nfree pr - 1) ∧
      h'.pagerefsInuse = h.pagerefsInuse ∧ h'.pageaddrAndBlocktype = h.pageaddrAndBlocktype := by
  obtain ⟨l, hf⟩ := r.free pr hpr b hb
  cases l with
  | nil => exact absurd hf.count (ne_of_gt hn)
  | cons a l =>
    have hpage := r.page pr hpr
    obtain ⟨off, heq, hoff⟩ := doalloc_spec hf
    obtain ⟨hblock, hfresh⟩ := (hf.mem a).mp mem_cons_self
    have hnd := nodup_cons.mp hf.chain.nodup
    have hlen : h.nfree pr - 1 = l.length := by rw [hf.count]; exact Nat.add_sub_cancel ..
    refine ⟨_, a, heq, ?_, ?_, by rw [hlen], rfl, rfl⟩
    · have := hblock.inside
      omega
    · refine ⟨r.chain, r.same, r.type, r.page, r.inj, fun q hq b' hb' => ?_, ?_, ?_, r.kept,
        r.keptOnce⟩
      · by_cases hqp : q = pr
        · subst hqp
          obtain rfl : b = b' := Fin.ext (hb.symm.trans hb')
          refine ⟨l, ?_, update_self .., fun d => ?_⟩
          · have hrest := hf.chain.2
            rw [← hoff] at hrest
            simp only [firstFree, update_self]
            exact hrest
          · constructor
            · intro hd
              obtain ⟨hdb, hdl⟩ := (hf.mem d).mp (mem_cons_of_mem a hd)
              refine ⟨hdb, forall_mem_cons.mpr ⟨?_, hdl⟩⟩
              rintro rfl
              exact hnd.1 hd
            · rintro ⟨hdb, hdl⟩
              obtain ⟨hda, hdl⟩ := forall_mem_cons.mp hdl
              exact (mem_cons.mp ((hf.mem d).mpr ⟨hdb, hdl⟩)).resolve_left (Ne.symm hda)
        · obtain ⟨m, hm⟩ := r.free q hq b' hb'
          refine ⟨m, hm.frame rfl (update_of_ne hqp ..) (update_of_ne hqp ..)
            (fun _ _ => rfl) fun d hd => ?_⟩
          rw [forall_mem_cons, and_iff_right_iff_imp]
          rintro - rfl
          exact hqp (r.page_unique hq hpr hd hblock)
      · exact forall_mem_cons.mpr ⟨⟨hsz, pr, hpr, hb, hblock⟩, r.held⟩
      · exact pairwise_cons.mpr ⟨fun c hc e => hfresh c hc e.symm, r.once⟩

theorem same_linkPage (hpr : pr ∉ all) (b : Fin NSIZES) (kpage off : Nat)
    (mem : Nat → Nat) (b' : Fin NSIZES) :
    ∃ l, Chain (linkPage h pr b kpage off mem).nextSamesize
        ((linkPage h pr b kpage off mem).sizebases b') l ∧
      ∀ q, q ∈ l ↔ q ∈ pr :: all ∧ prBlocktype (linkPage h pr b kpage off mem) q = b' := by
  have htype := fun q => prBlocktype_linkPage h pr q b kpage off mem
  obtain ⟨l, hl, hmeml⟩ := r.same b'
  have hprl : pr ∉ l := fun hm => hpr ((hmeml pr).mp hm).1
  by_cases hb : b' = b
  · subst hb
    refine ⟨pr :: l, ?_, fun q => ?_⟩
    · simp only [linkPage, update_self]
      exact hl.push hprl
    · rw [mem_cons, mem_cons, hmeml, htype]
      by_cases hq : q = pr
      · simp [hq]
      · simp [hq]
  · refine ⟨l, ?_, fun q => ?_⟩
    · simp only [linkPage, update_of_ne hb]
      exact hl.congr fun q hq => update_of_ne (fun e : q = pr => hprl (e ▸ hq)) ..
    · rw [mem_cons, hmeml, htype]
      by_cases hq : q = pr
      · simp [hq, hpr, Fin.val_inj, Ne.symm hb]
      · simp [hq]

theorem newPage (hpr : pr ∉ all) (hlo : 0 < kpage)
    (hhi : kpage + PAGE_SIZE < 2 ^ 32) (hal : kpage % PAGE_SIZE = 0) (hnew : kpage ∉ h.kpages) (b : Fin NSIZES) :
    ∃ h', Kheap.newPage h pr b kpage = some h' ∧ Rep h' live (pr :: all) ∧
      h'.nfree = update h.nfree pr (PAGE_SIZE / sizes b) ∧
      h'.pagerefsInuse = h.pagerefsInuse ∧
      ∀ q, prBlocktype h' q = if q = pr then b.val else prBlocktype h q := by
  obtain ⟨mem, heq, hchain, hmem⟩ := newPage_spec h pr b hlo
  have hne : ∀ q ∈ all, q ≠ pr := fun q hq e => hpr (e ▸ hq)
  have hpage := fun q => prPageaddr_linkPage h pr q b kpage
    ((PAGE_SIZE / sizes b - 1) * sizes b) mem hal
  have htype := fun q => prBlocktype_linkPage h pr q b kpage
    ((PAGE_SIZE / sizes b - 1) * sizes b) mem
  have hpageNew := (hpage pr).trans (if_pos rfl)
  have htypeNew := (htype pr).trans (if_pos rfl)
  have hpageOld := fun q hq => (hpage q).trans (if_neg (hne q hq))
  have htypeOld := fun q hq => (htype q).trans (if_neg (hne q hq))
  refine ⟨_, heq, ?_, rfl, rfl, htype⟩
  constructor
  case chain => exact r.chain.push hpr
  case same => exact r.same_linkPage hpr b kpage _ mem
  case type =>
    refine forall_mem_cons.mpr ⟨?_, fun q hq => ?_⟩
    · rw [htypeNew]
      exact b.isLt
    · rw [htypeOld q hq]
      exact r.type q hq
  case page =>
    refine forall_mem_cons.mpr ⟨?_, fun q hq => ?_⟩
    · rw [hpageNew]
      exact ⟨hlo, hhi⟩
    · rw [hpageOld q hq]
      exact r.page q hq
  case inj =>
    have hdiff : ∀ q ∈ all, prPageaddr h q ≠ kpage := fun q hq e =>
      hnew ((r.kept kpage).mpr ⟨q, hq, e⟩)
    refine forall_mem_cons.mpr ⟨?_, fun p hp => ?_⟩
    · refine forall_mem_cons.mpr ⟨fun _ => rfl, fun q hq he => ?_⟩
      rw [hpageNew, hpageOld q hq] at he
      exact absurd he.symm (hdiff q hq)
    · refine forall_mem_cons.mpr ⟨fun he => ?_, fun q hq he => ?_⟩
      · rw [hpageNew, hpageOld p hp] at he
        exact absurd he (hdiff p hp)
      · rw [hpageOld p hp, hpageOld q hq] at he
        exact r.inj p hp q hq he
  case free =>
    refine forall_mem_cons.mpr ⟨fun b' hb' => ?_, fun q hq b' hb' => ?_⟩
    · obtain rfl : b = b' := Fin.ext (htypeNew.symm.trans hb')
      refine ⟨_, FreeList.linkPage hal hchain fun c hc => ?_⟩
      obtain ⟨-, q, hq, -, hblock⟩ := r.held c hc
      exact r.not_isBlock hal hnew hq hblock
    · rw [htypeOld q hq] at hb'
      obtain ⟨l, hl⟩ := r.free q hq b' hb'
      refine ⟨l, hl.frame ?_ ?_ ?_ (fun a ha => ?_) fun _ _ => Iff.rfl⟩
      · exact update_of_ne (hne q hq) ..
      · exact update_of_ne (hne q hq) ..
      · exact update_of_ne (hne q hq) ..
      · exact hmem a (r.not_isBlock hal hnew hq ((hl.mem a).mp ha).1)
  case held =>
    intro c hc
    obtain ⟨hsz, q, hq, hb', hblock⟩ := r.held c hc
    refine ⟨hsz, q, mem_cons_of_mem pr hq, ?_, ?_⟩
    · rw [htypeOld q hq]
      exact hb'
    · rw [hpageOld q hq]
      exact hblock
  case once => exact r.once
  case kept =>
    intro p
    simp only [linkPage, mem_cons, r.kept]
    constructor
    · rintro (rfl | ⟨q, hq, he⟩)
      · exact ⟨pr, .inl rfl, hpageNew⟩
      · exact ⟨q, .inr hq, (hpageOld q hq).trans he⟩
    · rintro ⟨q, rfl | hq, he⟩
      · exact .inl (he.symm.trans hpageNew)
      · exact .inr ⟨q, hq, (hpageOld q hq).symm.trans he⟩
  case keptOnce => exact nodup_cons.mpr ⟨hnew, r.keptOnce⟩

theorem pushFree (hpr : pr ∈ all) (hc : c ∈ live)
    (hb : prBlocktype h pr = c.blktype) (hblock : IsBlock (prPageaddr h pr) c.size c.addr) :
    Rep (Kheap.pushFree h pr c.size c.addr) (live.filter fun d => d.addr ≠ c.addr) all := by
  have h0 := (r.page pr hpr).1
  have hin := hblock.inside
  refine ⟨r.chain, r.same, r.type, r.page, r.inj, fun q hq b hb' => ?_, fun d hd => ?_,
    r.once.filter _, r.kept, r.keptOnce⟩
  · obtain ⟨l, hf⟩ := r.free q hq b hb'
    by_cases hqp : q = pr
    · subst hqp
      obtain rfl : c.blktype = b := Fin.ext (hb.symm.trans hb')
      exact ⟨_, hf.pushFree h0 hc hblock⟩
    · refine ⟨l, hf.frame rfl (update_of_ne hqp ..) (update_of_ne hqp ..)
        (fun a ha => ?_) fun a ha => ?_⟩
      · have hout := ((hf.mem a).mp ha).1.outside (prPageaddr_aligned h q)
          (prPageaddr_aligned h pr) fun e => hqp (r.inj q hq pr hpr e)
        exact pushFree_mem hin.1 (by have := sizes_pos b; omega)
      · simp only [mem_filter, decide_eq_true_eq, and_imp]
        refine ⟨fun hne d hd he => hne d hd (fun e => ?_) he, fun hne d hd _ => hne d hd⟩
        obtain rfl : c.addr = a := e.symm.trans he
        exact hqp (r.page_unique hq hpr ha hblock)
  · exact r.held d (mem_filter.mp hd).1

theorem length_le : all.length ≤ NPAGEREFS := by
  simpa using r.chain.nodup.length_le_card

theorem removeLists (hpr : pr ∈ all) (hb : prBlocktype h pr = b)
    (hfull : h.nfree pr = PAGE_SIZE / sizes b) :
    ∃ h', Kheap.removeLists h pr b = some h' ∧
      Rep { h' with kpages := h'.kpages.erase (prPageaddr h pr) } live (all.erase pr) ∧
      h'.nfree = h.nfree ∧ h'.pagerefsInuse = h.pagerefsInuse ∧
      h'.pageaddrAndBlocktype = h.pageaddrAndBlocktype := by
  obtain ⟨l, hl, hmeml⟩ := r.same b
  have hlen : l.length ≤ NPAGEREFS := by simpa using hl.nodup.length_le_card
  obtain ⟨sbase, same, hsame, hschain, hsframe⟩ := hl.unlink ((hmeml pr).mpr ⟨hpr, hb⟩) hlen
  obtain ⟨abase, nall, hall, hachain, -⟩ := r.chain.unlink hpr r.length_le
  have hmem : ∀ q, q ∈ all.erase pr ↔ q ≠ pr ∧ q ∈ all := fun q => r.chain.nodup.mem_erase_iff
  have hsub : ∀ q ∈ all.erase pr, q ∈ all := fun q hq => ((hmem q).mp hq).2
  unfold Kheap.removeLists
  simp only [b.isLt, dif_pos, Fin.eta, hsame, hall, bind_some, map_some]
  refine ⟨_, rfl, ?_, rfl, rfl, rfl⟩
  constructor
  case chain => exact hachain
  case same =>
    intro b'
    by_cases hbb : b' = b
    · subst hbb
      refine ⟨l.erase pr, ?_, fun q => ?_⟩
      · simp only [update_self]
        exact hschain
      · rw [hl.nodup.mem_erase_iff, hmem, hmeml, and_assoc]
        exact Iff.rfl
    · obtain ⟨m, hm, hmemm⟩ := r.same b'
      refine ⟨m, ?_, fun q => ?_⟩
      · simp only [update_of_ne hbb]
        -- the links of this list are not on the one `pr` was taken from
        refine hm.congr fun q hq => hsframe q fun hql => hbb (Fin.ext ?_)
        exact ((hmemm q).mp hq).2.symm.trans ((hmeml q).mp hql).2
      · rw [hmem, hmemm]
        refine ⟨fun ⟨hq, hqb⟩ => ⟨⟨?_, hq⟩, hqb⟩, fun ⟨⟨_, hq⟩, hqb⟩ => ⟨hq, hqb⟩⟩
        rintro rfl
        exact hbb (Fin.ext (hqb.symm.trans hb))
  case type => exact fun q hq => r.type q (hsub q hq)
  case page => exact fun q hq => r.page q (hsub q hq)
  case inj => exact fun p hp q hq => r.inj p (hsub p hp) q (hsub q hq)
  case free =>
    intro q hq b' hb'
    obtain ⟨m, hm⟩ := r.free q (hsub q hq) b' hb'
    exact ⟨m, hm.chain, hm.count, hm.mem⟩
  case held =>
    intro c hc
    obtain ⟨hsz, q, hq, hqb, hblock⟩ := r.held c hc
    refine ⟨hsz, q, (hmem q).mpr ⟨?_, hq⟩, hqb, hblock⟩
    rintro rfl
    obtain ⟨m, hm⟩ := r.free q hq b hb
    obtain rfl : c.blktype = b := Fin.ext (hqb.symm.trans hb)
    exact hm.none_live (hm.count.symm.trans hfull) hc hblock
  case once => exact r.once
  case kept =>
    intro p
    rw [r.keptOnce.mem_erase_iff, r.kept]
    constructor
    · rintro ⟨hne, q, hq, rfl⟩
      exact ⟨q, (hmem q).mpr ⟨fun e => hne (by rw [e]), hq⟩, rfl⟩
    · rintro ⟨q, hq, rfl⟩
      obtain ⟨hne, hq⟩ := (hmem q).mp hq
      exact ⟨fun e => hne (r.inj q hq pr hpr e), q, hq, rfl⟩
  case keptOnce => exact r.keptOnce.erase _

end

end Rep

/-! ## The two calls -/

def Inv (s : State) : Prop :=
  ∃ all, Rep s.heap s.live all ∧ (∀ q, inuse s.heap q = true ↔ q ∈ all) ∧
    ∀ pr ∈ all, ∀ b : Fin NSIZES, prBlocktype s.heap pr = b → s.heap.nfree pr < PAGE_SIZE / sizes b

theorem prBlocktype_congr (hpab : h'.pageaddrAndBlocktype = h.pageaddrAndBlocktype) :
    prBlocktype h' = prBlocktype h := by
  funext q
  unfold prBlocktype
  rw [hpab]

theorem inuse_congr (hw : h'.pagerefsInuse = h.pagerefsInuse) : inuse h' = inuse h := by
  funext q
  unfold inuse
  rw [hw]

theorem Rep.setWord (r : Rep h live all) (i : Fin 8) (w : BitVec 32) :
    Rep (Kheap.setWord h i w) live all :=
  ⟨r.chain, r.same, r.type, r.page, r.inj,
    fun q hq b hb => (r.free q hq b hb).imp fun _ hl => ⟨hl.chain, hl.count, hl.mem⟩, r.held,
    r.once, r.kept, r.keptOnce⟩

theorem nfree_lt_update {n : Nat} (hn : ∀ q ∈ all, q ≠ pr → ∀ b : Fin NSIZES, prBlocktype h q = b →
      h.nfree q < PAGE_SIZE / sizes b)
    (hpr : prBlocktype h pr = b) (hlt : n < PAGE_SIZE / sizes b)
    (hnf : h'.nfree = update h.nfree pr n) (hty : prBlocktype h' = prBlocktype h) :
    ∀ q ∈ all, ∀ b : Fin NSIZES, prBlocktype h' q = b → h'.nfree q < PAGE_SIZE / sizes b := by
  intro q hq b' hb'
  rw [hty] at hb'
  rw [hnf]
  by_cases hqp : q = pr
  · subst hqp
    obtain rfl : b = b' := Fin.ext (hpr.symm.trans hb')
    rwa [update_self]
  · rw [update_of_ne hqp]
    exact hn q hq hqp b' hb'

theorem Inv.kmalloc (hi : Inv s) (hfair : Fair s (.kmalloc sz kpage)) :
    ∃ r, subpageKmalloc s.heap sz kpage = some r ∧ Inv (s.malloced sz r) := by
  obtain ⟨all, r, hbits, hneed⟩ := hi
  obtain ⟨hsz, hk⟩ := hfair
  obtain ⟨b, hb, hfit⟩ := blocktype_fits hsz
  obtain ⟨l, hl, hmeml⟩ := r.same b
  have hlen : l.length < NPAGEREFS + 1 := by
    have : l.length ≤ NPAGEREFS := by simpa using hl.nodup.length_le_card
    omega
  have hwalk := hl.walk (p := fun pr => decide (0 < s.heap.nfree pr))
    (fun pr hpr => kassert_pos ((hmeml pr).mp hpr).2) hlen
  unfold subpageKmalloc
  simp only [hb, bind_some, hwalk]
  cases hfind : l.find? fun pr => decide (0 < s.heap.nfree pr) with
  | some pr =>
    obtain ⟨hpr, hprb⟩ := (hmeml pr).mp (mem_of_find?_eq_some hfind)
    have hfree : 0 < s.heap.nfree pr := by simpa using List.find?_some hfind
    obtain ⟨h', a, heq, ha, hrep, hnf, hw, hpab⟩ := r.doalloc hpr hprb hfree hfit
    refine ⟨(h', a), heq, ?_⟩
    simp only [State.malloced, hb, ha, if_false]
    refine ⟨all, hrep, fun q => by rw [inuse_congr hw]; exact hbits q,
      nfree_lt_update (fun q hq _ => hneed q hq) hprb ?_ hnf (prBlocktype_congr hpab)⟩
    have := hneed pr hpr b hprb
    omega
  | none =>
    rcases allocpageref_spec s.heap with hfull | ⟨w, pr, halloc, hclear, hmark⟩
    · refine ⟨(s.heap, 0), by simp [hfull], ?_⟩
      simp only [State.malloced, hb, if_true]
      exact ⟨all, r, hbits, hneed⟩
    · have hpr : pr ∉ all := fun hm => by simp [(hbits pr).mpr hm] at hclear
      have hrw := r.setWord (wordOf pr) w
      simp only [halloc, bind_some]
      by_cases hk0 : kpage = 0
      · obtain ⟨w', hfp, hunmark⟩ := freepageref_spec (setWord s.heap (wordOf pr) w) pr
          (by simp [hmark])
        refine ⟨(setWord (setWord s.heap (wordOf pr) w) (wordOf pr) w', 0), by simp [hk0, hfp], ?_⟩
        simp only [State.malloced, hb, if_true]
        refine ⟨all, hrw.setWord _ _, fun q => ?_, hneed⟩
        rw [hunmark, hmark, ← hbits]
        by_cases hq : q = pr
        · simp [hq, hclear]
        · simp [hq]
      · obtain ⟨hhi, hal, hnew⟩ := hk.resolve_left hk0
        obtain ⟨h₁, hpage, hrep₁, hnf₁, hw₁, hty₁⟩ := hrw.newPage hpr (Nat.pos_of_ne_zero hk0) hhi hal hnew b
        have hprb : prBlocktype h₁ pr = b := (hty₁ pr).trans (if_pos rfl)
        have hcount := two_le_count b
        have hn₁ : h₁.nfree pr = PAGE_SIZE / sizes b := by rw [hnf₁, update_self]
        obtain ⟨h₂, a, halc, ha, hrep₂, hnf₂, hw₂, hpab₂⟩ :=
          hrep₁.doalloc mem_cons_self hprb (by omega) hfit
        refine ⟨(h₂, a), by simp [hk0, hpage, halc], ?_⟩
        simp only [State.malloced, hb, ha, if_false]
        refine ⟨pr :: all, hrep₂, fun q => ?_, nfree_lt_update (fun q hq hqp b' hb' => ?_) hprb
          (by omega) hnf₂ (prBlocktype_congr hpab₂)⟩
        · rw [inuse_congr (hw₂.trans hw₁), hmark, mem_cons, ← hbits]
          simp [or_comm]
        · rw [hty₁, if_neg hqp] at hb'
          rw [hnf₁, update_of_ne hqp]
          exact hneed q ((mem_cons.mp hq).resolve_left hqp) b' hb'

theorem Rep.putBack (r : Rep h live all) (hbits : ∀ q, inuse h q = true ↔ q ∈ all)
    (hneed : ∀ pr ∈ all, ∀ b : Fin NSIZES, prBlocktype h pr = b → h.nfree pr < PAGE_SIZE / sizes b)
    (hpr : pr ∈ all) (hc : c ∈ live) (hb : prBlocktype h pr = c.blktype)
    (hblock : IsBlock (prPageaddr h pr) c.size c.addr) :
    ∃ h', Kheap.putBack h pr c.blktype c.addr = some h' ∧
      Inv ⟨h', live.filter fun d => d.addr ≠ c.addr⟩ := by
  have hin := hblock.inside
  have hpos := sizes_pos c.blktype
  have hlt := hneed pr hpr c.blktype hb
  have hrep : Rep (Kheap.pushFree h pr (sizes c.blktype) c.addr) _ all :=
    r.pushFree hpr hc hb hblock
  have hnf : (Kheap.pushFree h pr (sizes c.blktype) c.addr).nfree =
      update h.nfree pr (h.nfree pr + 1) := rfl
  have hnfpr : (Kheap.pushFree h pr (sizes c.blktype) c.addr).nfree pr = h.nfree pr + 1 := by
    rw [hnf, update_self]
  unfold Kheap.putBack
  rw [kassert_pos ⟨by omega, hblock.sub_mod⟩, kassert_pos (hnfpr.trans_le hlt)]
  by_cases hfull : h.nfree pr + 1 = PAGE_SIZE / sizes c.blktype
  · obtain ⟨h₁, heq, hrep₁, hnf₁, hw₁, hpab₁⟩ := hrep.removeLists hpr hb (hnfpr.trans hfull)
    have hin₁ : inuse { h₁ with kpages := h₁.kpages.erase (prPageaddr h pr) } = inuse h :=
      inuse_congr hw₁
    obtain ⟨w, hfree, hunmark⟩ := freepageref_spec
      { h₁ with kpages := h₁.kpages.erase (prPageaddr h pr) } pr (by rw [hin₁]; exact (hbits pr).mpr hpr)
    refine ⟨_, ?_, all.erase pr, hrep₁.setWord (wordOf pr) w, fun q => ?_, fun q hq b' hb' => ?_⟩
    · rw [if_pos (hnfpr.trans hfull)]
      exact (congrArg (Option.bind · _) heq).trans hfree
    · refine (Bool.eq_iff_iff.mp (hunmark q)).trans ?_
      rw [hin₁, r.chain.nodup.mem_erase_iff, ← hbits]
      simp [and_comm]
    · obtain ⟨hqp, hq⟩ := r.chain.nodup.mem_erase_iff.mp hq
      rw [hnf₁, hnf, update_of_ne hqp]
      exact hneed q hq b' ((congrFun (prBlocktype_congr hpab₁) q).symm.trans hb')
  · refine ⟨_, if_neg (hnfpr ▸ hfull), all, hrep, hbits,
      nfree_lt_update (fun q hq _ => hneed q hq) hb ?_ hnf rfl⟩
    omega

theorem Rep.find_page (r : Rep h live all) (hpr : pr ∈ all) (hlo : prPageaddr h pr ≤ a)
    (hhi : a < prPageaddr h pr + PAGE_SIZE) :
    (all.find? fun q => decide (prPageaddr h q ≤ a ∧ a < (prPageaddr h q + PAGE_SIZE) % 2 ^ 32)) =
      some pr := by
  have hwrap : ∀ q ∈ all, (prPageaddr h q + PAGE_SIZE) % 2 ^ 32 = prPageaddr h q + PAGE_SIZE := 
    fun q hq => Nat.mod_eq_of_lt (r.page q hq).2
  cases hfind : all.find? fun q =>
      decide (prPageaddr h q ≤ a ∧ a < (prPageaddr h q + PAGE_SIZE) % 2 ^ 32) with
  | none =>
    refine absurd (decide_eq_true ⟨hlo, ?_⟩) (List.find?_eq_none.mp hfind pr hpr)
    rw [hwrap pr hpr]
    exact hhi
  | some q =>
    have hq := mem_of_find?_eq_some hfind
    have hfound := List.find?_some hfind
    obtain ⟨hlo', hhi'⟩ := of_decide_eq_true hfound
    have hal := prPageaddr_aligned h pr
    have hal' := prPageaddr_aligned h q
    rw [r.inj q hq pr hpr (by unfold PAGE_SIZE at *; omega)]

theorem Inv.kfree (hi : Inv s) (hc : c ∈ s.live) :
    ∃ h', subpageKfree s.heap c.addr = some (h', true) ∧
      Inv ⟨h', s.live.filter fun d => d.addr ≠ c.addr⟩ := by
  obtain ⟨all, r, hbits, hneed⟩ := hi
  obtain ⟨-, pr, hpr, hprb, hblock⟩ := r.held c hc
  have hin := hblock.inside
  have hpos := sizes_pos c.blktype
  have hwalk := r.chain.walk (p := fun q => decide (prPageaddr s.heap q ≤ c.addr ∧
      c.addr < (prPageaddr s.heap q + PAGE_SIZE) % 2 ^ 32))
    (fun q hq => kassert_pos (r.type q hq)) (Nat.lt_succ_of_le r.length_le)
  obtain ⟨h', heq, hinv⟩ := r.putBack hbits hneed hpr hc hprb hblock
  have hcls : (⟨prBlocktype s.heap pr, r.type pr hpr⟩ : Fin NSIZES) = c.blktype := Fin.ext hprb
  refine ⟨h', ?_, hinv⟩
  unfold subpageKfree
  rw [hwalk, r.find_page hpr hin.1 (by omega), bind_some]
  simp only
  rw [dif_pos (r.type pr hpr), hcls, heq]
  rfl

theorem Inv.store {addr value : Nat} (hi : Inv s) (hfair : Fair s (.store addr value)) :
    Inv { s with heap := { s.heap with mem := update s.heap.mem addr value } } := by
  obtain ⟨all, r, hbits, hneed⟩ := hi
  refine ⟨all, ⟨r.chain, r.same, r.type, r.page, r.inj, fun q hq b hb => ?_, r.held, r.once, r.kept,
    r.keptOnce⟩, hbits, hneed⟩
  obtain ⟨l, hf⟩ := r.free q hq b hb
  refine ⟨l, hf.frame rfl rfl rfl (fun a ha => update_of_ne ?_ ..) fun _ _ => Iff.rfl⟩
  rintro rfl
  obtain ⟨hblock, hfree⟩ := (hf.mem a).mp ha
  have hin := hblock.inside
  have hpos := sizes_pos b
  rcases hfair with ⟨c, hc, hlo, hhi⟩ | hout
  · obtain ⟨-, pr, hpr, hprb, hcb⟩ := r.held c hc
    unfold Block.size at hhi hcb
    by_cases hqp : q = pr
    · subst hqp
      obtain rfl : c.blktype = b := Fin.ext (hprb.symm.trans hb)
      have := hcb.apart hblock (hfree c hc)
      omega
    · have := hcb.outside (prPageaddr_aligned _ pr) (prPageaddr_aligned _ q) fun e =>
        hqp (r.inj pr hpr q hq e).symm
      omega
  · have := hout _ ((r.kept _).mpr ⟨q, hq, rfl⟩)
    omega

theorem inv_init (mem : Nat → Nat) : Inv (init mem) := by
  refine ⟨[], ?_, fun q => by simp [init, inuse], by simp⟩
  constructor
  case same => exact fun b => ⟨[], rfl, by simp⟩
  all_goals simp [init]

theorem Inv.step {e : Event} (hi : Inv s) (hfair : Fair s e) : ∃ s', step s e = some s' ∧ Inv s' := by
  cases e with
  | kmalloc sz kpage =>
    obtain ⟨r, heq, hinv⟩ := hi.kmalloc hfair
    exact ⟨_, congrArg (Option.map _) heq, hinv⟩
  | kfree ptr =>
    obtain ⟨c, hc, rfl⟩ := hfair
    obtain ⟨h', heq, hinv⟩ := hi.kfree hc
    exact ⟨_, congrArg (Option.map _) heq, hinv⟩
  | store addr value => exact ⟨_, rfl, hi.store hfair⟩

theorem Rep.onAll_iff (r : Rep h live all) : OnAll h pr ↔ pr ∈ all := by
  refine ⟨fun ⟨l, hl, hpr⟩ => ?_, fun hpr => ⟨all, r.chain, hpr⟩⟩
  rwa [← hl.unique r.chain]

theorem Inv.sound (hi : Inv s) : Sound s := by
  obtain ⟨all, r, hbits, hneed⟩ := hi
  constructor
  case disjoint =>
    refine r.once.imp_of_mem fun {c d} hc hd hne => ?_
    obtain ⟨-, pr, hpr, hprb, hcb⟩ := r.held c hc
    obtain ⟨-, q, hq, hqb, hdb⟩ := r.held d hd
    by_cases hpq : pr = q
    · subst hpq
      have hsz : c.size = d.size := by rw [Block.size, Block.size, Fin.ext (hprb.symm.trans hqb)]
      rw [← hsz] at hdb ⊢
      exact hcb.apart hdb hne
    · have hout := hcb.outside (prPageaddr_aligned _ pr) (prPageaddr_aligned _ q) fun e =>
        hpq (r.inj pr hpr q hq e)
      have hin := hdb.inside
      unfold Block.size
      omega
  case inside =>
    intro c hc
    obtain ⟨hsz, pr, hpr, hprb, hcb⟩ := r.held c hc
    exact ⟨hsz, pr, r.onAll_iff.mpr hpr, hprb, hcb.inside.1, hcb.inside.2,
      Nat.dvd_of_mod_eq_zero hcb.sub_mod⟩
  case free =>
    intro pr hpr
    have hpr := r.onAll_iff.mp hpr
    obtain ⟨l, hf⟩ := r.free pr hpr ⟨_, r.type pr hpr⟩ rfl
    exact ⟨⟨_, r.type pr hpr⟩, rfl, l, hf.chain, hf.chain.nodup, hf.count, hf.mem⟩
  case lists =>
    intro b pr
    obtain ⟨l, hl, hmem⟩ := r.same b
    rw [r.onAll_iff, ← hmem]
    refine ⟨fun ⟨m, hm, hpr⟩ => ?_, fun hpr => ⟨l, hl, hpr⟩⟩
    rwa [← hm.unique hl]
  case bits => exact fun pr => (hbits pr).trans r.onAll_iff.symm
  case kept => simpa only [r.onAll_iff] using r.kept
  case needed =>
    intro pr hpr
    have hpr := r.onAll_iff.mp hpr
    obtain ⟨l, hf⟩ := r.free pr hpr ⟨_, r.type pr hpr⟩ rfl
    obtain ⟨c, hc, hblock⟩ := hf.exists_live (hf.count ▸ hneed pr hpr _ rfl)
    have hin := hblock.inside
    have hpos := sizes_pos ⟨_, r.type pr hpr⟩
    exact ⟨c, hc, hin.1, by omega⟩

theorem sound_of_fair (mem : Nat → Nat) (es : List Event) (hfair : Meets step Fair (init mem) es) :
    (∃ s, run step (init mem) es = some s) ∧ Always step Sound (init mem) es := by
  refine ⟨?_, always_of_meets (I := Inv) ?_ (fun s hs => hs.sound) (inv_init mem) hfair⟩
  · obtain ⟨s, hs, -⟩ := run_total (fun s e hi hc => Inv.step hi hc) (inv_init mem) hfair
    exact ⟨s, hs⟩
  · intro s e s' hi hc hs
    obtain ⟨t, ht, hit⟩ := Inv.step hi hc
    rwa [some.inj (hs.symm.trans ht)]

theorem sound_of_fair_page :
    let es : List Event := [.kmalloc 2000 0x80010000, .store 0x80010804 7, .kmalloc 1025 0,
      .kmalloc 16 0, .kfree 0x80010800, .kfree 0x80010000]
    Meets step Fair (init fun _ => 0) es ∧
      (∃ s, run step (init fun _ => 0) es = some s) ∧ Always step Sound (init fun _ => 0) es := by
  have hfair : Meets step Fair (init fun _ => 0) [.kmalloc 2000 0x80010000, .store 0x80010804 7,
      .kmalloc 1025 0, .kmalloc 16 0, .kfree 0x80010800, .kfree 0x80010000] := by decide +kernel
  exact ⟨hfair, sound_of_fair _ _ hfair⟩

end Os161.Kheap
