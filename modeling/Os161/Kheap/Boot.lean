import Os161.Coremap.Proofs
import Os161.Kheap.Proofs

/-!
# `kmalloc` and `kfree` across `vm_bootstrap`

Before `vm_bootstrap` pages come from `ram_stealmem`, after it from the coremap. What fails an
assertion, panics or touches missing memory is `none`.
-/

open Os161.Lib List Option

namespace Os161.Kheap.Boot

open Os161.Coremap (Run Call RamSize pageSize kseg0 paddrToKvaddr sizeofCoremap fixedEntries)

/-- Where pages come from: `firstpaddr` and `lastpaddr`, or the coremap. -/
inductive Ram
  | early (first last : Nat)
  | vm (first last : Nat) (cs : Coremap.State)

/-- `large` are the live blocks that `kmalloc` has got from `alloc_kpages` directly. -/
structure State where
  heap : Kheap.State
  large : List Run
  ram : Ram

def ramStealmem (first last npages : Nat) : Ram × Nat := let size := npages * pageSize % 2 ^ 32
  if last < (first + size) % 2 ^ 32 then (.early first last, 0)
  else (.early ((first + size) % 2 ^ 32) last, first)

def allocKpages (npages : Nat) (c : Call) : Ram → Option (Ram × Nat)
  | .early first last =>
    let (ram, pa) := ramStealmem first last npages
    some (ram, if pa = 0 then 0 else paddrToKvaddr pa)
  | .vm first last cs =>
    match Coremap.allocKpages cs.coremap npages c with
    | .none => some (.vm first last cs, 0)
    | .page va coremap => some (.vm first last ⟨coremap, ⟨va, npages⟩ :: cs.live⟩, va)
    | .wild | .panic => none

/-- `free_kpages`. Before `vm_bootstrap` there is no `core_lock` to acquire. -/
def freeKpages (r : Run) (curpid : Option Int) : Ram → Option Ram
  | .early _ _ => none
  | .vm first last cs =>
    match Coremap.freeKpages cs.coremap r.addr curpid with
    | .ok coremap => some (.vm first last ⟨coremap, cs.live.erase r⟩)
    | .wild | .panic => none

def Ram.last : Ram → Nat
  | .early _ last | .vm _ last _ => last

/-- `subpage_kmalloc` comes to its call of `alloc_kpages`. -/
def asksPage (h : Heap) (sz : Nat) : Bool :=
  match (blocktype sz).bind fun blktype => walk h.nextSamesize
      (fun pr => kassert (prBlocktype h pr = blktype) (some (decide (0 < h.nfree pr))))
      (NPAGEREFS + 1) (h.sizebases blktype) with
  | some none => ((allocpageref h).bind Prod.snd).isSome
  | _ => false

def kmalloc (s : State) (sz : Nat) (c : Call) : Option State := if 2048 ≤ sz then
    let npages := (sz + (pageSize - 1)) % 2 ^ 32 / pageSize
    (allocKpages npages c s.ram).map fun (ram, addr) =>
      { s with ram := ram, large := if addr = 0 then s.large else ⟨addr, npages⟩ :: s.large }
  else if asksPage s.heap.heap sz then
    (allocKpages 1 c s.ram).bind fun (ram, kpage) =>
      -- the free list is written into the page
      if kpage < kseg0 + ram.last then
        (Kheap.step s.heap (.kmalloc sz kpage)).map fun heap => { s with heap := heap, ram := ram }
      else none
  else (Kheap.step s.heap (.kmalloc sz 0)).map fun heap => { s with heap := heap }

def givenBack (h h' : Heap) : Option Nat := h.kpages.find? fun p => p ∉ h'.kpages

/-- `kfree` of a pointer. `pages` is for the history: the length of a large block. -/
def kfree (s : State) (ptr pages : Nat) (curpid : Option Int) : Option State :=
  (subpageKfree s.heap.heap ptr).bind fun (h, found) =>
    if found then
      let heap : Kheap.State := ⟨h, s.heap.live.filter fun b => b.addr ≠ ptr⟩
      match givenBack s.heap.heap h with
      | none => some { s with heap := heap }
      | some page =>
        (freeKpages ⟨page, 1⟩ curpid s.ram).map fun ram => { s with heap := heap, ram := ram }
    else
      kassert (ptr % pageSize = 0) <|
        (freeKpages ⟨ptr, pages⟩ curpid s.ram).map fun ram =>
          { s with ram := ram, large := s.large.erase ⟨ptr, pages⟩ }

/-- After the locks have been created. The coremap has to fit into memory. -/
def vmBootstrap (s : State) : Option State := match s.ram with
  | .early first last =>
    if first + last / pageSize * sizeofCoremap ≤ last then
      (Coremap.vmBootstrap first last).map fun coremap => { s with ram := .vm first last ⟨coremap, []⟩ }
    else none
  | .vm .. => none

inductive Ptr
  | small (b : Block)
  | large (r : Run)

def Ptr.addr : Ptr → Nat
  | .small b => b.addr
  | .large r => r.addr

def Ptr.pages : Ptr → Nat
  | .small _ => 0
  | .large r => r.pages

def Live (s : State) : Ptr → Prop
  | .small b => b ∈ s.heap.live
  | .large r => r ∈ s.large

instance (s : State) : ∀ b, Decidable (Live s b)
  | .small b => inferInstanceAs (Decidable (b ∈ s.heap.live))
  | .large r => inferInstanceAs (Decidable (r ∈ s.large))

/-- Callers store to memory, and `vm_fault` takes frames. -/
inductive Label
  | kmalloc (sz : Nat) (c : Call)
  | kfree (b : Ptr) (curpid : Option Int)
  | vmBootstrap
  | store (addr value : Nat)
  | getppages (c : Call)

def step (s : State) : Label → Option State
  | .kmalloc sz c => kmalloc s sz c
  | .kfree b curpid => if Live s b then kfree s b.addr b.pages curpid else none
  | .vmBootstrap => vmBootstrap s
  | .store addr value =>
    (Kheap.step s.heap (.store addr value)).map fun heap => { s with heap := heap }
  | .getppages c =>
    match s.ram with
    | .early .. => none
    | .vm first last cs =>
      (Coremap.step cs (.getppages 1 c)).map fun cs => { s with ram := .vm first last cs }

def start (first last : Nat) (mem : Nat → Nat) : State := ⟨Kheap.init mem, [], .early first last⟩

/-- The coremap fills its pages. If not, its last page is handed out with the rest of it inside. -/
def WholeTable (last : Nat) : Prop := last / pageSize * sizeofCoremap % pageSize = 0

/-- The sums do not wrap, and stores stay out of free blocks. -/
def Fair (s : State) : Label → Prop
  | .kmalloc sz _ => sz ≤ 2 ^ 31
  | .vmBootstrap => WholeTable s.ram.last
  | .store addr value => Kheap.Fair s.heap (.store addr value)
  | _ => True

instance (s : State) : ∀ l, Decidable (Fair s l)
  | .kmalloc .. => inferInstanceAs (Decidable (_ ≤ _))
  | .vmBootstrap => inferInstanceAs (Decidable (_ = _))
  | .store addr value => inferInstanceAs (Decidable (Kheap.Fair s.heap (.store addr value)))
  | .kfree .. | .getppages _ => inferInstanceAs (Decidable True)

/-! ## What `kfree` promises -/

def Unused (r : Run) : Ram → Prop
  | .early .. => False
  | .vm _ _ cs => ∃ j, Coremap.StartsAt cs.coremap r j ∧ Coremap.Room cs.coremap j r.pages

def pageOf (addr : Nat) : Nat := addr / pageSize * pageSize

def Available (s : State) : Ptr → Prop
  | .small b =>
    (∃ pr l, OnAll s.heap.heap pr ∧
      Chain (nextFree s.heap.heap.mem) (firstFree s.heap.heap pr) l ∧ b.addr ∈ l) ∨
    Unused ⟨pageOf b.addr, 1⟩ s.ram
  | .large r => Unused r s.ram

def Works (s : State) (b : Ptr) (curpid : Option Int) : Prop :=
  ∃ s', kfree s b.addr b.pages curpid = some s' ∧ Available s' b

def Managed (addr : Nat) : Ram → Prop
  | .early .. => False
  | .vm first _ _ => kseg0 + first ≤ addr

/-- Another block of the page stays live, or the page is one of the coremap. -/
def NotStolen (s : State) : Ptr → Prop
  | .small b => (∃ d ∈ s.heap.live, d.addr ≠ b.addr ∧ pageOf d.addr = pageOf b.addr) ∨
      Managed (pageOf b.addr) s.ram
  | .large r => Managed r.addr s.ram

instance (addr : Nat) : ∀ ram, Decidable (Managed addr ram)
  | .early .. => inferInstanceAs (Decidable False)
  | .vm first _ _ => inferInstanceAs (Decidable (kseg0 + first ≤ addr))

instance (s : State) : ∀ b, Decidable (NotStolen s b)
  | .small _ => inferInstanceAs (Decidable ((∃ d ∈ s.heap.live, _) ∨ _))
  | .large r => inferInstanceAs (Decidable (Managed r.addr s.ram))

section Heap

variable {h : Heap} {s : Kheap.State}

variable {pr : Ref} {h' : Heap}

theorem doalloc_kpages {r : Heap × Nat} (hr : doalloc h pr = some r) : r.1.kpages = h.kpages := by
  unfold doalloc kassert at hr
  dsimp only at hr
  split_ifs at hr <;> cases hr <;> rfl

theorem newPage_kpages {b : Fin NSIZES} {kpage : Nat}
    (hr : newPage h pr b kpage = some h') : h'.kpages = kpage :: h.kpages := by
  obtain ⟨r, -, hr⟩ := bind_eq_some_iff.mp hr
  unfold kassert at hr
  dsimp only at hr
  split_ifs at hr
  cases hr
  rfl

theorem allocpageref_kpages {r : Heap × Option Ref} (hr : allocpageref h = some r) :
    r.1.kpages = h.kpages := by
  unfold allocpageref at hr
  split at hr
  · cases hr
    rfl
  · split at hr
    · cases hr
    · cases hr
      rfl

theorem subpageKmalloc_kpages {sz kpage : Nat} {r : Heap × Nat}
    (hr : subpageKmalloc h sz kpage = some r) :
    r.1.kpages = h.kpages ∨ kpage ≠ 0 ∧ r.1.kpages = kpage :: h.kpages := by
  obtain ⟨b, -, hr⟩ := bind_eq_some_iff.mp hr
  obtain ⟨found, -, hr⟩ := bind_eq_some_iff.mp hr
  cases found with
  | some pr => exact .inl (doalloc_kpages hr)
  | none =>
    obtain ⟨⟨h₁, o⟩, h1, hr⟩ := bind_eq_some_iff.mp hr
    have hk : h₁.kpages = h.kpages := allocpageref_kpages h1
    cases o with
    | none =>
      cases hr
      exact .inl hk
    | some pr =>
      split_ifs at hr with hz
      · obtain ⟨h₂, h2, rfl⟩ := map_eq_some_iff.mp hr
        unfold freepageref kassert at h2
        split_ifs at h2
        cases h2
        exact .inl hk
      · obtain ⟨h₂, h2, hr⟩ := bind_eq_some_iff.mp hr
        refine .inr ⟨hz, ?_⟩
        rw [doalloc_kpages hr, newPage_kpages h2, hk]

theorem pageOf_block {b : Fin NSIZES} {a : Nat}
    (hblock : IsBlock (prPageaddr h pr) (sizes b) a) : pageOf a = prPageaddr h pr := by
  have hin := hblock.inside
  have hpos := sizes_pos b
  have hal := prPageaddr_aligned h pr
  simp only [pageOf, pageSize, PAGE_SIZE] at *
  omega

theorem mem_kpages (hi : Kheap.Inv s) {p : Nat} :
    p ∈ s.heap.kpages ↔ ∃ c ∈ s.live, pageOf c.addr = p := by
  obtain ⟨all, r, -, hneed⟩ := hi
  rw [r.kept]
  constructor
  · rintro ⟨pr, hpr, rfl⟩
    obtain ⟨l, hf⟩ := r.free pr hpr ⟨_, r.type pr hpr⟩ rfl
    obtain ⟨c, hc, hblock⟩ := hf.exists_live (hf.count ▸ hneed pr hpr _ rfl)
    exact ⟨c, hc, pageOf_block hblock⟩
  · rintro ⟨c, hc, rfl⟩
    obtain ⟨-, pr, hpr, -, hblock⟩ := r.held c hc
    exact ⟨pr, hpr, (pageOf_block hblock).symm⟩

theorem subpageKfree_other (hi : Kheap.Inv s) {ptr : Nat}
    (hout : ∀ p ∈ s.heap.kpages, ptr < p ∨ p + pageSize ≤ ptr) :
    subpageKfree s.heap ptr = some (s.heap, false) := by
  obtain ⟨all, r, -, -⟩ := hi
  have hwalk := r.chain.walk (p := fun q => decide (prPageaddr s.heap q ≤ ptr ∧
      ptr < (prPageaddr s.heap q + PAGE_SIZE) % 2 ^ 32))
    (fun q hq => kassert_pos (r.type q hq)) (Nat.lt_succ_of_le r.length_le)
  have hnone : (all.find? fun q => decide (prPageaddr s.heap q ≤ ptr ∧
      ptr < (prPageaddr s.heap q + PAGE_SIZE) % 2 ^ 32)) = none := by
    refine List.find?_eq_none.mpr fun q hq hin => ?_
    obtain ⟨hlo, hhi⟩ := of_decide_eq_true hin
    have := hout _ ((r.kept _).mpr ⟨q, hq, rfl⟩)
    simp only [pageSize, PAGE_SIZE] at *
    omega
  unfold subpageKfree
  rw [hwalk, hnone]
  rfl

theorem givenBack_eq {c : Block} (hi : Kheap.Inv s) (hc : c ∈ s.live)
    (hi' : Kheap.Inv ⟨h', s.live.filter fun d => d.addr ≠ c.addr⟩) :
    ((∃ d ∈ s.live, d.addr ≠ c.addr ∧ pageOf d.addr = pageOf c.addr) ∧ givenBack s.heap h' = none) ∨
    ((∀ d ∈ s.live, d.addr ≠ c.addr → pageOf d.addr ≠ pageOf c.addr) ∧
      givenBack s.heap h' = some (pageOf c.addr)) := by
  -- the pages that stay are those of the other blocks
  have hstay : ∀ p, p ∈ h'.kpages ↔ ∃ d ∈ s.live, d.addr ≠ c.addr ∧ pageOf d.addr = p := by
    intro p
    simpa [and_assoc] using mem_kpages hi' (p := p)
  have hgone : ∀ p ∈ s.heap.kpages, p ∉ h'.kpages → p = pageOf c.addr := by
    intro p hp hnp
    obtain ⟨d, hd, rfl⟩ := (mem_kpages hi).mp hp
    by_contra hne
    exact hnp ((hstay _).mpr ⟨d, hd, fun he => hne (by rw [he]), rfl⟩)
  by_cases hother : ∃ d ∈ s.live, d.addr ≠ c.addr ∧ pageOf d.addr = pageOf c.addr
  · refine .inl ⟨hother, List.find?_eq_none.mpr fun p hp hnp => ?_⟩
    have hnp : p ∉ h'.kpages := of_decide_eq_true hnp
    rw [hgone p hp hnp] at hnp
    exact hnp ((hstay _).mpr hother)
  · push Not at hother
    refine .inr ⟨hother, ?_⟩
    have hlast : pageOf c.addr ∉ h'.kpages := by
      rintro hin
      obtain ⟨d, hd, hne, he⟩ := (hstay _).mp hin
      exact hother d hd hne he
    cases hfind : givenBack s.heap h' with
    | none =>
      have hmem := (mem_kpages hi).mpr ⟨c, hc, rfl⟩
      exact absurd (decide_eq_true hlast) (List.find?_eq_none.mp hfind _ hmem)
    | some p =>
      have hp := mem_of_find?_eq_some hfind
      have hnp := List.find?_some hfind
      rw [hgone p hp (of_decide_eq_true hnp)]

theorem freed_in_page {c : Block} (hi : Kheap.Inv s) (hc : c ∈ s.live)
    (hi' : Kheap.Inv ⟨h', s.live.filter fun d => d.addr ≠ c.addr⟩)
    (hother : ∃ d ∈ s.live, d.addr ≠ c.addr ∧ pageOf d.addr = pageOf c.addr) :
    ∃ pr l, OnAll h' pr ∧ Chain (nextFree h'.mem) (firstFree h' pr) l ∧ c.addr ∈ l := by
  obtain ⟨d, hd, hne, hsame⟩ := hother
  obtain ⟨all, r, -, -⟩ := hi
  obtain ⟨all', r', -, -⟩ := hi'
  obtain ⟨-, p, hp, hpb, hcb⟩ := r.held c hc
  obtain ⟨-, q, hq, hqb, hdb⟩ := r.held d hd
  obtain ⟨-, q', hq', hqb', hdb'⟩ := r'.held d (mem_filter.mpr ⟨hd, by simpa using hne⟩)
  -- `c` and `d` are blocks of one page, and so of one size
  have hpage : prPageaddr h' q' = prPageaddr s.heap p := by
    rw [← pageOf_block hdb', ← pageOf_block hcb, hsame]
  obtain rfl : p = q := r.inj p hp q hq (by rw [← pageOf_block hcb, ← pageOf_block hdb, hsame])
  have htype : c.blktype = d.blktype := Fin.ext (hpb.symm.trans hqb)
  obtain ⟨l, hf⟩ := r'.free q' hq' d.blktype hqb'
  refine ⟨q', l, ⟨all', r'.chain, hq'⟩, hf.chain, (hf.mem _).mpr ⟨?_, fun e he => ?_⟩⟩
  · rw [hpage, ← htype]
    exact hcb
  · simpa using (mem_filter.mp he).2

end Heap

/-! ## The pages of the two phases -/

def Apart (r q : Run) : Prop :=
  r.addr + r.pages * pageSize ≤ q.addr ∨ q.addr + q.pages * pageSize ≤ r.addr

/-- The run has been handed out. The coremap goes on behind the end of RAM, and so may the run. -/
def Placed (r : Run) : Ram → Prop
  | .early first _ => r.addr + r.pages * pageSize ≤ kseg0 + first
  | .vm first _ cs => r.addr + r.pages * pageSize ≤ kseg0 + first ∨ r ∈ cs.live

def RamOk (last : Nat) : Ram → Prop
  | .early first l => l = last ∧ 0 < first ∧ first ≤ last ∧ first % pageSize = 0
  | .vm first l cs => l = last ∧ RamSize first last ∧ WholeTable last ∧ Coremap.Inv first last cs

theorem RamOk.last_eq {last : Nat} {ram : Ram} (h : RamOk last ram) : ram.last = last := by
  cases ram <;> exact h.1

/-- The sum of `ram_stealmem` does not wrap, or is too large all the same. -/
def Fits (n : Nat) : Ram → Prop
  | .early first last => n * pageSize < 2 ^ 32 ∧
      (first + n * pageSize < 2 ^ 32 ∨ last < (first + n * pageSize) % 2 ^ 32)
  | .vm .. => True

/-- Unlike `ram_stealmem`, `getppages` refuses a run of no pages. -/
def NoWrap (sz : Nat) : Ram → Prop
  | .early first last => 2048 ≤ sz → sz + (pageSize - 1) < 2 ^ 32 ∧
      Fits ((sz + (pageSize - 1)) / pageSize) (.early first last)
  | .vm .. => True

/-- If `n` pages are free in the coremap at all, some `n` of them are in RAM. -/
def InRam (n : Nat) : Ram → Prop
  | .early .. => True
  | .vm first last cs => ∀ j, Coremap.Room cs.coremap j n →
      ∃ i, Coremap.Room cs.coremap i n ∧ first + (i + n) * pageSize ≤ last

variable {first last : Nat} {cs : Coremap.State} {r q : Run} {ram : Ram} {s s' : State}

theorem placed_at (hram : RamSize first last) (hcs : Coremap.Inv first last cs) (hr : r ∈ cs.live) :
    ∃ j, Coremap.LiveAt cs.coremap r j ∧ j + r.pages ≤ cs.coremap.length ∧
      r.addr = first + j * pageSize + kseg0 := by
  obtain ⟨j, hj⟩ := hcs.live r hr
  exact ⟨j, hj, (Coremap.startsAt_iff hram hcs.shape hj.pages).mp hj.starts⟩

theorem apart_of_disjoint (hram : RamSize first last) (hcs : Coremap.Inv first last cs)
    (hr : r ∈ cs.live) (hq : q ∈ cs.live)
    (hd : ∀ i, ¬ (Coremap.Covers cs.coremap r i ∧ Coremap.Covers cs.coremap q i)) : Apart r q := by
  obtain ⟨j, hj, -, hra⟩ := placed_at hram hcs hr
  obtain ⟨k, hk, -, hqa⟩ := placed_at hram hcs hq
  have hcr : ∀ i, Coremap.Covers cs.coremap r i ↔ j ≤ i ∧ i < j + r.pages :=
    fun i => Coremap.covers_iff hram hcs.shape hj.pages hj.starts
  have hcq : ∀ i, Coremap.Covers cs.coremap q i ↔ k ≤ i ∧ i < k + q.pages :=
    fun i => Coremap.covers_iff hram hcs.shape hk.pages hk.starts
  have hjk := hd j
  have hkj := hd k
  rw [hcr, hcq] at hjk hkj
  have := hj.pages
  have := hk.pages
  unfold Apart
  simp only [pageSize] at *
  omega

structure NewRun (ram ram' : Ram) (r : Run) : Prop where
  placed : Placed r ram'
  aligned : r.addr % pageSize = 0
  high : kseg0 < r.addr
  bound : r.addr + r.pages * pageSize < 2 ^ 32
  apart : ∀ q, 1 ≤ q.pages → Placed q ram → Apart r q
  inside : InRam r.pages ram → r.addr + r.pages * pageSize ≤ kseg0 + ram'.last

theorem WholeTable.fixed (h : WholeTable last) (hram : RamSize first last) :
    0 < fixedEntries last := by
  have := hram.first_lt
  have := hram.last_page
  simp only [WholeTable, fixedEntries, pageSize, sizeofCoremap] at *
  omega

theorem scan_zero (es : List Coremap.Entry) (i count : Nat) (h : count + es.length < 2 ^ 32) :
    (Coremap.scan 0 es i count).1 = i + es.length := by
  induction es generalizing i count with
  | nil => rfl
  | cons e es ih =>
    rw [length_cons] at h ⊢
    unfold Coremap.scan
    split
    · rw [ih (i + 1) 0 (by omega)]
      omega
    · rw [Nat.mod_eq_of_lt (by omega), if_neg (Nat.succ_ne_zero count), ih (i + 1) _ (by omega)]
      omega

theorem allocKpages_zero {c : Call} {ram' : Ram} {addr : Nat}
    (hvm : ∀ first l, ram ≠ .early first l) (hok : RamOk last ram)
    (h : allocKpages 0 c ram = some (ram', addr)) : ram' = ram ∧ addr = 0 := by
  cases ram with
  | early first l => exact absurd rfl (hvm first l)
  | vm first l cs =>
    obtain ⟨rfl, hram, hwhole, hcs⟩ := hok
    -- the scan comes to the end of the coremap, and so would be the run
    have hend : (Coremap.scan 0 cs.coremap 0 c.countPages).1 = cs.coremap.length := by
      obtain ⟨e, he, hused⟩ := hcs.zero_used (hwhole.fixed hram)
      have hlen := hcs.shape.length_lt hram
      cases hcm : cs.coremap with
      | nil => simp [hcm] at he
      | cons e' es =>
        obtain rfl : e' = e := by simpa [hcm] using he
        rw [hcm, length_cons] at hlen
        rw [Coremap.scan, if_pos hused, scan_zero es 1 0 (by omega), length_cons]
        omega
    unfold allocKpages Coremap.allocKpages Coremap.getppages at h
    simp only [hend, Nat.le_refl, or_true, if_true] at h
    split_ifs at h
    cases h
    exact ⟨rfl, rfl⟩

section Pages

variable (hlast : last ≤ 508 * 1024 * 1024)
include hlast

theorem ramStealmem_spec {n : Nat} {ram' : Ram} {pa : Nat}
    (hfits : Fits n (.early first last)) (hok : RamOk last (.early first last))
    (h : ramStealmem first last n = (ram', pa)) :
    RamOk last ram' ∧ (∀ q, Placed q (.early first last) → Placed q ram') ∧
      (pa = 0 ∨ NewRun (.early first last) ram' ⟨paddrToKvaddr pa, n⟩) := by
  obtain ⟨-, hpos, hle, hpage⟩ := hok
  obtain ⟨hsize, hsum⟩ := hfits
  unfold ramStealmem at h
  simp only [Nat.mod_eq_of_lt hsize] at h
  split_ifs at h with hlt
  · cases h
    exact ⟨⟨rfl, hpos, hle, hpage⟩, fun q hq => hq, .inl rfl⟩
  · cases h
    have hkv : paddrToKvaddr first = kseg0 + first := by
      simp only [paddrToKvaddr, kseg0]
      omega
    refine ⟨⟨rfl, by omega, by omega, ?_⟩, fun q hq => ?_,
      .inr ⟨?_, ?_, ?_, ?_, fun q _ hq => ?_, fun _ => ?_⟩⟩
    · simp only [pageSize] at *
      omega
    · simp only [Placed] at hq ⊢
      omega
    · simp only [Placed, hkv]
      omega
    · simp only [hkv, kseg0, pageSize] at *
      omega
    · simp only [hkv]
      omega
    · simp only [hkv, kseg0, pageSize] at *
      omega
    · simp only [Placed, Apart, hkv] at hq ⊢
      omega
    · simp only [hkv, Ram.last]
      omega

variable {ram : Ram}

theorem fits_one (hok : RamOk last ram) : Fits 1 ram := by
  cases ram with
  | vm => trivial
  | early first l =>
    have := hok.2.2.1
    refine ⟨by decide, .inl ?_⟩
    simp only [pageSize]
    omega

theorem noWrap_of_le {sz : Nat} (hok : RamOk last ram) (hsz : sz ≤ 2 ^ 31) : NoWrap sz ram := by
  cases ram with
  | vm => trivial
  | early first l =>
    have := hok.2.2.1
    simp only [NoWrap, Fits, pageSize]
    omega

theorem allocKpages_spec {n : Nat} {c : Call} {ram' : Ram} {addr : Nat} (hn : 1 ≤ n)
    (hfits : Fits n ram) (hok : RamOk last ram) (h : allocKpages n c ram = some (ram', addr)) :
    RamOk last ram' ∧ (∀ q, Placed q ram → Placed q ram') ∧
      (addr = 0 ∨ NewRun ram ram' ⟨addr, n⟩) := by
  cases ram with
  | early first l =>
    obtain rfl := hok.1
    unfold allocKpages at h
    cases hst : ramStealmem first l n with
    | mk ram₁ pa =>
      obtain ⟨hok', hmono, hnew⟩ := ramStealmem_spec hlast hfits hok hst
      simp only [hst, some.injEq, Prod.mk.injEq] at h
      obtain ⟨rfl, rfl⟩ := h
      refine ⟨hok', hmono, ?_⟩
      rcases hnew with rfl | hnew
      · exact .inl rfl
      · split_ifs with hz
        · exact .inl rfl
        · exact .inr hnew
  | vm first l cs =>
    obtain ⟨rfl, hram, hwhole, hcs⟩ := hok
    unfold allocKpages at h
    rcases hcs.allocKpages hram (hwhole.fixed hram) hn c with
      ⟨hg, -⟩ | ⟨j, e, he, hle, hroom, hlow, hg⟩
    · simp only [hg] at h
      cases h
      exact ⟨⟨rfl, hram, hwhole, hcs⟩, fun q hq => hq, .inl rfl⟩
    · simp only [hg] at h
      cases h
      have hcs' := hcs.get hram hn c he hle hroom
      have hkv := hcs.shape.kvaddr hram he
      have hlen := hcs.shape.length
      have := hram.first_lt
      have := hram.first_page
      refine ⟨⟨rfl, hram, hwhole, hcs'⟩, fun q hq => hq.imp id fun hm => mem_cons_of_mem _ hm,
        .inr ⟨.inr mem_cons_self, ?_, hcs.shape.kseg0_lt hram he, ?_, fun q hq1 hq => ?_,
          fun hin => ?_⟩⟩
      · simp only [kseg0, pageSize] at *
        omega
      · simp only [kseg0, pageSize] at *
        omega
      · rcases hq with hq | hq
        · -- a stolen page lies before all pages of the coremap
          right
          simp only [pageSize] at *
          omega
        · exact apart_of_disjoint hram hcs' mem_cons_self (mem_cons_of_mem _ hq)
            (rel_of_pairwise_cons hcs'.disjoint hq)
      · -- first fit: no run that is free lies below this one
        obtain ⟨i, hi, hend⟩ := hin j hroom
        have hji : j ≤ i := Nat.le_of_not_lt fun hlt => hlow i hlt hi
        simp only [Ram.last, pageSize] at *
        omega

end Pages

theorem Placed.managed_iff (hram : RamSize first last) (hcs : Coremap.Inv first last cs)
    (hr : Placed r (.vm first last cs)) (hpos : 1 ≤ r.pages) :
    Managed r.addr (.vm first last cs) ↔ r ∈ cs.live := by
  constructor
  · intro hm
    refine hr.resolve_left fun hstolen => ?_
    simp only [Managed, pageSize] at *
    omega
  · intro hm
    obtain ⟨j, -, -, haddr⟩ := placed_at hram hcs hm
    simp only [Managed]
    omega

theorem freeKpages_stolen (hram : RamSize first last) (hcs : Coremap.Inv first last cs) {addr : Nat}
    (h : addr < kseg0 + first) (curpid : Option Int) :
    Coremap.freeKpages cs.coremap addr curpid = .panic := by
  have hnone : cs.coremap.findIdx? (Coremap.isEntryOf addr curpid) = none := by
    refine List.findIdx?_eq_none_iff.mpr fun e he => ?_
    obtain ⟨i, hi⟩ := mem_iff_getElem?.mp he
    have hne : paddrToKvaddr e.paddr ≠ addr := by
      rw [hcs.shape.kvaddr hram hi]
      omega
    simp [Coremap.isEntryOf, hne]
  rw [Coremap.freeKpages, hnone]

theorem freeKpages_spec (hok : RamOk last ram) (hr : Placed r ram) (hpos : 1 ≤ r.pages)
    (curpid : Option Int) :
    (¬ Managed r.addr ram ∧ freeKpages r curpid ram = none) ∨
    (Managed r.addr ram ∧ ∃ ram', freeKpages r curpid ram = some ram' ∧ RamOk last ram' ∧
      Unused r ram' ∧ ∀ q, q ≠ r → Placed q ram → Placed q ram') := by
  cases ram with
  | early first l => exact .inl ⟨id, rfl⟩
  | vm first l cs =>
    obtain ⟨rfl, hram, hwhole, hcs⟩ := hok
    by_cases hm : Managed r.addr (.vm first l cs)
    · have hlive := (hr.managed_iff hram hcs hpos).mp hm
      obtain ⟨j, hj⟩ := hcs.live r hlive
      have hfree := Coremap.freeKpages_live hram hcs.shape hj curpid
      have hcs' := hcs.free hram hlive hj
      refine .inr ⟨hm, .vm first l ⟨Coremap.setUsed false j r.pages
        (cs.coremap.modify j fun e => { e with len := -1 }), cs.live.erase r⟩,
        by simp [freeKpages, hfree], ⟨rfl, hram, hwhole, hcs'⟩, ⟨j, ?_, ?_⟩, ?_⟩
      · rw [Coremap.startsAt_iff hram hcs'.shape hpos]
        simpa using (Coremap.startsAt_iff hram hcs.shape hpos).mp hj.starts
      · intro i hlo hhi
        exact (Coremap.usedIs_setUsed_modify (f := fun e => { e with len := -1 }) (fun _ => rfl)
          hj.starts.1).mpr (.inl ⟨hlo, hhi, rfl⟩)
      · intro q hne hq
        exact hq.imp id fun hm => (mem_erase_of_ne hne).mpr hm
    · have hlt : r.addr < kseg0 + first := Nat.lt_of_not_le hm
      exact .inl ⟨hm, by simp [freeKpages, freeKpages_stolen hram hcs hlt]⟩

structure Inv (last : Nat) (s : State) : Prop where
  heap : Kheap.Inv s.heap
  ram : RamOk last s.ram
  pages : ∀ p ∈ s.heap.heap.kpages, Placed ⟨p, 1⟩ s.ram ∧ p + pageSize ≤ kseg0 + last
  large : ∀ r ∈ s.large, Placed r s.ram ∧ 1 ≤ r.pages ∧ r.addr % pageSize = 0
  mixed : ∀ p ∈ s.heap.heap.kpages, ∀ r ∈ s.large, Apart ⟨p, 1⟩ r
  once : s.large.Pairwise Apart

theorem Inv.placed_page (h : Inv last s) {c : Block} (hc : c ∈ s.heap.live) :
    Placed ⟨pageOf c.addr, 1⟩ s.ram ∧ pageOf c.addr + pageSize ≤ kseg0 + last :=
  h.pages _ ((mem_kpages h.heap).mpr ⟨c, hc, rfl⟩)

theorem Apart.ne (h : Apart r q) (hr : 1 ≤ r.pages) (hq : 1 ≤ q.pages) : r ≠ q := by
  rintro rfl
  simp only [Apart, pageSize] at h
  omega

theorem Apart.symm (h : Apart r q) : Apart q r := Or.symm h

theorem inv_start (hram : RamSize first last) (mem : Nat → Nat) : Inv last (start first last mem) where
  heap := Kheap.inv_init mem
  ram := ⟨rfl, hram.first_pos, hram.first_lt.le, hram.first_page⟩
  pages := by simp [start, Kheap.init]
  large := by simp [start]
  mixed := by simp [start]
  once := List.Pairwise.nil

theorem Inv.setHeap {heap : Kheap.State} (h : Inv last s) (hheap : Kheap.Inv heap)
    (hk : ∀ p ∈ heap.heap.kpages, p ∈ s.heap.heap.kpages) : Inv last { s with heap := heap } :=
  ⟨hheap, h.ram, fun p hp => h.pages p (hk p hp), h.large, fun p hp => h.mixed p (hk p hp), h.once⟩

theorem Inv.setRam (h : Inv last s) (hok : RamOk last ram)
    (hmono : ∀ q, Placed q s.ram → Placed q ram) : Inv last { s with ram := ram } :=
  ⟨h.heap, hok, fun p hp => (h.pages p hp).imp_left (hmono _),
    fun r hr => (h.large r hr).imp_left (hmono r), h.mixed, h.once⟩

section Steps

variable (hlast : last ≤ 508 * 1024 * 1024)

section Kmalloc

theorem Inv.kmalloc_small {sz kpage : Nat} {heap : Kheap.State} (h : Inv last s)
    (hsz : sz ≤ 2048) (hok : RamOk last ram) (hmono : ∀ q, Placed q s.ram → Placed q ram)
    (hnew : kpage = 0 ∨ NewRun s.ram ram ⟨kpage, 1⟩ ∧ kpage + pageSize ≤ kseg0 + last)
    (hs : Kheap.step s.heap (.kmalloc sz kpage) = some heap) :
    Inv last { s with heap := heap, ram := ram } := by
  have hfair : Kheap.Fair s.heap (.kmalloc sz kpage) := by
    refine ⟨hsz, hnew.imp id fun ⟨hn, _⟩ => ⟨?_, hn.aligned, fun hp => ?_⟩⟩
    · have := hn.bound
      simp only [pageSize, PAGE_SIZE] at *
      omega
    · exact (hn.apart _ (Nat.le_refl 1) (h.pages _ hp).1).ne (Nat.le_refl 1) (Nat.le_refl 1) rfl
  obtain ⟨r, hr, hinv⟩ := h.heap.kmalloc hfair
  simp only [Kheap.step, hr, map_some, some.injEq] at hs
  subst hs
  have hkpages : (s.heap.malloced sz r).heap.kpages = r.1.kpages := by
    unfold Kheap.State.malloced
    split
    · split <;> rfl
    · rfl
  have hram := h.setRam hok hmono
  rcases subpageKmalloc_kpages hr with hsame | ⟨hz, hcons⟩
  · exact hram.setHeap hinv fun p hp => by rwa [hkpages, hsame] at hp
  · obtain ⟨hnew, hinside⟩ := hnew.resolve_left hz
    have hmem : ∀ p ∈ (s.heap.malloced sz r).heap.kpages, p = kpage ∨ p ∈ s.heap.heap.kpages := by
      intro p hp
      rw [hkpages, hcons] at hp
      exact mem_cons.mp hp
    refine ⟨hinv, hok, fun p hp => ?_, hram.large, fun p hp q hq => ?_, h.once⟩
    · rcases hmem p hp with rfl | hp
      · exact ⟨hnew.placed, hinside⟩
      · exact hram.pages p hp
    · rcases hmem p hp with rfl | hp
      · obtain ⟨hplaced, hpos, -⟩ := h.large q hq
        exact hnew.apart q hpos hplaced
      · exact h.mixed p hp q hq

include hlast

theorem Inv.kmalloc_large {npages : Nat} {c : Call} {addr : Nat} (h : Inv last s)
    (hn : 1 ≤ npages) (hfits : Fits npages s.ram)
    (ha : allocKpages npages c s.ram = some (ram, addr)) :
    Inv last { s with
      ram := ram, large := if addr = 0 then s.large else ⟨addr, npages⟩ :: s.large } := by
  obtain ⟨hok, hmono, hnew⟩ := allocKpages_spec hlast hn hfits h.ram ha
  have hram := h.setRam hok hmono
  split_ifs with hz
  · exact hram
  · have hnew := hnew.resolve_left hz
    refine ⟨h.heap, hok, hram.pages, fun r hr => ?_, fun p hp r hr => ?_, ?_⟩
    · rcases mem_cons.mp hr with rfl | hr
      · exact ⟨hnew.placed, hn, hnew.aligned⟩
      · exact hram.large r hr
    · rcases mem_cons.mp hr with rfl | hr
      · exact (hnew.apart _ (Nat.le_refl 1) (h.pages p hp).1).symm
      · exact h.mixed p hp r hr
    · refine pairwise_cons.mpr ⟨fun q hq => ?_, h.once⟩
      obtain ⟨hplaced, hpos, -⟩ := h.large q hq
      exact hnew.apart q hpos hplaced

theorem Inv.kmalloc (hpage : last % pageSize = 0) {sz : Nat} {c : Call} (h : Inv last s)
    (hsz : NoWrap sz s.ram) (hs : kmalloc s sz c = some s') : Inv last s' := by
  unfold Boot.kmalloc at hs
  split_ifs at hs with hlarge hask
  · obtain ⟨⟨ram, addr⟩, ha, rfl⟩ := map_eq_some_iff.mp hs
    by_cases hn : (sz + (pageSize - 1)) % 2 ^ 32 / pageSize = 0
    · have hvm : ∀ first l, s.ram ≠ .early first l := by
        intro first l hearly
        rw [hearly] at hsz
        rw [Nat.mod_eq_of_lt (hsz hlarge).1] at hn
        simp only [pageSize] at hn
        omega
      rw [hn] at ha ⊢
      obtain ⟨rfl, rfl⟩ := allocKpages_zero hvm h.ram ha
      exact h
    · refine h.kmalloc_large hlast (Nat.pos_of_ne_zero hn) ?_ ha
      cases hram : s.ram with
      | vm => trivial
      | early first l =>
        rw [hram] at hsz
        rw [Nat.mod_eq_of_lt (hsz hlarge).1]
        exact (hsz hlarge).2
  · obtain ⟨⟨ram, kpage⟩, ha, hs⟩ := bind_eq_some_iff.mp hs
    obtain ⟨hok, hmono, hnew⟩ :=
      allocKpages_spec hlast (Nat.le_refl 1) (fits_one hlast h.ram) h.ram ha
    dsimp only at hs
    split_ifs at hs with hlt
    obtain ⟨heap, hheap, rfl⟩ := map_eq_some_iff.mp hs
    refine h.kmalloc_small (by omega) hok hmono (hnew.imp_right fun hn => ⟨hn, ?_⟩) hheap
    have haligned := hn.aligned
    rw [hok.last_eq] at hlt
    simp only [kseg0, pageSize] at *
    omega
  · obtain ⟨heap, hheap, rfl⟩ := map_eq_some_iff.mp hs
    exact h.kmalloc_small (by omega) h.ram (fun _ => id) (.inl rfl) hheap

end Kmalloc

theorem Inv.kfree_small {c : Block} (h : Inv last s) (hc : c ∈ s.heap.live) (n : Nat)
    (curpid : Option Int) :
    (∃ heap, kfree s c.addr n curpid = some { s with heap := heap } ∧
      Inv last { s with heap := heap } ∧
      (∃ d ∈ s.heap.live, d.addr ≠ c.addr ∧ pageOf d.addr = pageOf c.addr) ∧
      ∃ pr l, OnAll heap.heap pr ∧ Chain (nextFree heap.heap.mem) (firstFree heap.heap pr) l ∧
        c.addr ∈ l) ∨
    ((∀ d ∈ s.heap.live, d.addr ≠ c.addr → pageOf d.addr ≠ pageOf c.addr) ∧
      ((¬ Managed (pageOf c.addr) s.ram ∧ kfree s c.addr n curpid = none) ∨
        (Managed (pageOf c.addr) s.ram ∧ ∃ heap ram,
          kfree s c.addr n curpid = some { s with heap := heap, ram := ram } ∧
          Inv last { s with heap := heap, ram := ram } ∧ Unused ⟨pageOf c.addr, 1⟩ ram))) := by
  obtain ⟨h', hfree, hinv⟩ := h.heap.kfree hc
  have hkeep : ∀ p ∈ h'.kpages, p ∈ s.heap.heap.kpages ∧
      ∃ d ∈ s.heap.live, d.addr ≠ c.addr ∧ pageOf d.addr = p := by
    intro p hp
    obtain ⟨d, hd, hpd⟩ := (mem_kpages hinv).mp hp
    obtain ⟨hd, hne⟩ := mem_filter.mp hd
    exact ⟨(mem_kpages h.heap).mpr ⟨d, hd, hpd⟩, d, hd, by simpa using hne, hpd⟩
  unfold Boot.kfree
  simp only [hfree, bind_some, if_true]
  rcases givenBack_eq h.heap hc hinv with ⟨hother, hg⟩ | ⟨halone, hg⟩
  · simp only [hg]
    exact .inl ⟨_, rfl, h.setHeap hinv fun p hp => (hkeep p hp).1, hother,
      freed_in_page h.heap hc hinv hother⟩
  · simp only [hg]
    refine .inr ⟨halone, ?_⟩
    rcases freeKpages_spec h.ram (h.placed_page hc).1 (Nat.le_refl 1) curpid with
      ⟨hm, hnone⟩ | ⟨hm, ram', hram, hok, hunused, hmono⟩
    · exact .inl ⟨hm, by rw [hnone]; rfl⟩
    · refine .inr ⟨hm, _, ram', by rw [hram]; rfl, ?_, hunused⟩
      have hpage := (mem_kpages h.heap).mpr ⟨c, hc, rfl⟩
      refine ⟨hinv, hok, fun p hp => ?_, fun r hr => ?_, fun p hp r hr => h.mixed p (hkeep p hp).1 r hr,
        h.once⟩
      · obtain ⟨hp, d, hd, hne, hpd⟩ := hkeep p hp
        refine (h.pages p hp).imp_left (hmono _ fun he => halone d hd hne ?_)
        rw [hpd]
        exact congrArg Run.addr he
      · obtain ⟨hplaced, hpos, hal⟩ := h.large r hr
        exact ⟨hmono r ((h.mixed _ hpage r hr).ne (Nat.le_refl 1) hpos).symm hplaced, hpos, hal⟩

theorem Inv.kfree_large (h : Inv last s) (hr : r ∈ s.large) (curpid : Option Int) :
    (¬ Managed r.addr s.ram ∧ kfree s r.addr r.pages curpid = none) ∨
    (Managed r.addr s.ram ∧ ∃ ram,
      kfree s r.addr r.pages curpid = some { s with ram := ram, large := s.large.erase r } ∧
      Inv last { s with ram := ram, large := s.large.erase r } ∧ Unused r ram) := by
  obtain ⟨hplaced, hpos, hal⟩ := h.large r hr
  have hout : ∀ p ∈ s.heap.heap.kpages, r.addr < p ∨ p + pageSize ≤ r.addr := by
    intro p hp
    have hap := h.mixed p hp r hr
    simp only [Apart, pageSize] at *
    omega
  unfold Boot.kfree
  simp only [subpageKfree_other h.heap hout, bind_some, Bool.false_eq_true, if_false,
    kassert_pos hal]
  rcases freeKpages_spec h.ram hplaced hpos curpid with
    ⟨hm, hnone⟩ | ⟨hm, ram', hram, hok, hunused, hmono⟩
  · exact .inl ⟨hm, by rw [hnone]; rfl⟩
  · refine .inr ⟨hm, ram', by rw [hram]; rfl, ?_, hunused⟩
    have hperm := (perm_cons_erase hr).pairwise_iff fun {x y} => Apart.symm (r := x) (q := y)
    obtain ⟨hapart, honce⟩ := pairwise_cons.mp (hperm.mp h.once)
    refine ⟨h.heap, hok, fun p hp => ?_, fun q hq => ?_, fun p hp q hq =>
      h.mixed p hp q (mem_of_mem_erase hq), honce⟩
    · exact (h.pages p hp).imp_left (hmono _ ((h.mixed p hp r hr).ne (Nat.le_refl 1) hpos))
    · obtain ⟨hpl, hps, hqa⟩ := h.large q (mem_of_mem_erase hq)
      exact ⟨hmono q ((hapart q hq).ne hpos hps).symm hpl, hps, hqa⟩

variable {b : Ptr}

theorem Inv.kfree {curpid : Option Int} (h : Inv last s) (hb : Live s b)
    (hs : kfree s b.addr b.pages curpid = some s') : Inv last s' := by
  cases b with
  | small c =>
    rcases h.kfree_small hb 0 curpid with ⟨heap, heq, hinv, -⟩ | ⟨-, ⟨-, heq⟩ | ⟨-, heap, ram, heq, hinv, -⟩⟩
    · obtain rfl := some.inj (hs.symm.trans heq)
      exact hinv
    · cases hs.symm.trans heq
    · obtain rfl := some.inj (hs.symm.trans heq)
      exact hinv
  | large r =>
    rcases h.kfree_large hb curpid with ⟨-, heq⟩ | ⟨-, ram, heq, hinv, -⟩
    · cases hs.symm.trans heq
    · obtain rfl := some.inj (hs.symm.trans heq)
      exact hinv

theorem Inv.works_iff (h : Inv last s) (hb : Live s b) (curpid : Option Int) :
    Works s b curpid ↔ NotStolen s b := by
  cases b with
  | small c =>
    rcases h.kfree_small hb 0 curpid with ⟨heap, heq, -, hother, hfree⟩ |
      ⟨halone, ⟨hm, heq⟩ | ⟨hm, heap, ram, heq, -, hunused⟩⟩
    · exact ⟨fun _ => .inl hother, fun _ => ⟨_, heq, .inl hfree⟩⟩
    · constructor
      · rintro ⟨s', hs', -⟩
        cases heq.symm.trans hs'
      · rintro (⟨d, hd, hne, he⟩ | hm')
        · exact absurd he (halone d hd hne)
        · exact absurd hm' hm
    · exact ⟨fun _ => .inr hm, fun _ => ⟨_, heq, .inr hunused⟩⟩
  | large r =>
    rcases h.kfree_large hb curpid with ⟨hm, heq⟩ | ⟨hm, ram, heq, -, hunused⟩
    · constructor
      · rintro ⟨s', hs', -⟩
        cases heq.symm.trans hs'
      · exact fun hm' => absurd hm' hm
    · exact ⟨fun _ => hm, fun _ => ⟨_, heq, hunused⟩⟩

theorem Inv.vmBootstrap (hpage : last % pageSize = 0) (hlast : last ≤ 508 * 1024 * 1024)
    (h : Inv last s) (hwhole : WholeTable s.ram.last) (hs : vmBootstrap s = some s') :
    Inv last s' := by
  rw [h.ram.last_eq] at hwhole
  unfold Boot.vmBootstrap at hs
  split at hs
  case h_2 => cases hs
  case h_1 first l hearly =>
    have hok := h.ram
    rw [hearly] at hok
    obtain ⟨rfl, hpos, hle, hfirst⟩ := hok
    split_ifs at hs with hfits
    obtain ⟨cm, hcm, rfl⟩ := map_eq_some_iff.mp hs
    have hram : RamSize first l := by
      refine ⟨hpos, ?_, hlast, hfirst, hpage⟩
      simp only [pageSize, sizeofCoremap] at *
      omega
    refine h.setRam ⟨rfl, hram, hwhole, Coremap.inv_boot hram hcm⟩ fun q hq => ?_
    rw [hearly] at hq
    exact .inl hq

theorem Inv.getppages {c : Call} (h : Inv last s)
    (hs : step s (.getppages c) = some s') : Inv last s' := by
  unfold Boot.step at hs
  dsimp only at hs
  split at hs
  case h_1 => cases hs
  case h_2 first l cs hvm =>
    obtain ⟨cs', hcs', rfl⟩ := map_eq_some_iff.mp hs
    have hok := h.ram
    rw [hvm] at hok
    obtain ⟨rfl, hram, hwhole, hcs⟩ := hok
    have hfix := hwhole.fixed hram
    refine h.setRam ⟨rfl, hram, hwhole, Coremap.step_inv hram hfix _ hcs hcs'⟩ fun q hq => ?_
    rw [hvm] at hq
    refine hq.imp id fun hm => ?_
    rcases hcs.getppages hram hfix (Nat.le_refl 1) c with ⟨hg, -⟩ | ⟨j, e, -, -, -, -, hg⟩
    all_goals
      simp only [Coremap.step, hg, Nat.one_ne_zero, if_false, some.injEq] at hcs'
      subst hcs'
    · exact hm
    · exact mem_cons_of_mem _ hm

/-- No sum of this call wraps, and stores stay out of free blocks. -/
def Sized (s : State) : Label → Prop
  | .kmalloc sz _ => NoWrap sz s.ram
  | .vmBootstrap => WholeTable s.ram.last
  | .store addr value => Kheap.Fair s.heap (.store addr value)
  | _ => True

theorem Inv.step (hpage : last % pageSize = 0) (hlast : last ≤ 508 * 1024 * 1024)
    {l : Label} (h : Inv last s) (hc : Sized s l) (hs : Boot.step s l = some s') : Inv last s' := by
  cases l with
  | kmalloc sz c => exact h.kmalloc hlast hpage hc hs
  | kfree b curpid =>
    simp only [Boot.step] at hs
    split_ifs at hs with hb
    exact h.kfree hb hs
  | vmBootstrap => exact h.vmBootstrap hpage hlast hc hs
  | store addr value =>
    simp only [Boot.step, Kheap.step, map_some, some.injEq] at hs
    subst hs
    exact h.setHeap (h.heap.store hc) fun p hp => hp
  | getppages c => exact h.getppages hs

theorem Fair.sized {l : Label} (hlast : last ≤ 508 * 1024 * 1024) (h : Inv last s) (hc : Fair s l) :
    Sized s l := by
  cases l with
  | kmalloc sz c => exact noWrap_of_le hlast h.ram hc
  | vmBootstrap | store addr value => exact hc
  | _ => trivial

/-- `kfree` works exactly if it has no page of `ram_stealmem` to give back. -/
theorem kfree_works_iff (hram : RamSize first last) (mem : Nat → Nat) {ls : List Label}
    (hfair : Meets step Fair (start first last mem) ls)
    (hrun : run step (start first last mem) ls = some s) {b : Ptr} (hb : Live s b) (curpid : Option Int) : Works s b curpid ↔ NotStolen s b := by
  have hstep : ∀ s l s', Inv last s → Fair s l → step s l = some s' → Inv last s' :=
    fun _ _ _ h hc hs => h.step hram.last_page hram.last_le (hc.sized hram.last_le h) hs
  have hinv : Always step (Inv last) (start first last mem) ls :=
    always_of_meets hstep (fun _ h => h) (inv_start hram mem) hfair
  exact (hinv.last hrun).works_iff hb curpid

theorem kfree_works_iff_two_pages : ∃ s ∈ run step (start 0x30000 0x400000 fun _ => 0)
        [.kmalloc 16 ⟨0, (0, 0), none⟩, .vmBootstrap, .kmalloc 5000 ⟨0, (0, 0), none⟩],
      NotStolen s (.large ⟨0x8003a000, 2⟩) ∧ Works s (.large ⟨0x8003a000, 2⟩) none := by
  have hrun : ∃ s ∈ run step (start 0x30000 0x400000 fun _ => 0)
        [.kmalloc 16 ⟨0, (0, 0), none⟩, .vmBootstrap, .kmalloc 5000 ⟨0, (0, 0), none⟩],
      Live s (.large ⟨0x8003a000, 2⟩) ∧ NotStolen s (.large ⟨0x8003a000, 2⟩) := by
    decide +kernel
  obtain ⟨s, hs, hlive, hnot⟩ := hrun
  refine ⟨s, hs, hnot,
    (kfree_works_iff (by constructor <;> decide) (fun _ => 0) ?_ hs hlive none).mpr hnot⟩
  decide +kernel

theorem not_works {curpid : Option Int}
    (h : (kfree s b.addr b.pages curpid).isNone = true) : ¬ Works s b curpid := by
  rintro ⟨s', hs', -⟩
  rw [hs'] at h
  cases h

/-- Before `vm_bootstrap` there is no lock yet, and after it the coremap does not have the page. -/
theorem kfree_of_stolen_page :
    (∃ s ∈ run step (start 0x30000 0x400000 fun _ => 0) [.kmalloc 4096 ⟨0, (0, 0), none⟩],
      Live s (.large ⟨0x80030000, 1⟩) ∧ ¬ Works s (.large ⟨0x80030000, 1⟩) none) ∧
    ∃ s ∈ run step (start 0x30000 0x400000 fun _ => 0)
        [.kmalloc 4096 ⟨0, (0, 0), none⟩, .vmBootstrap],
      Live s (.large ⟨0x80030000, 1⟩) ∧ ¬ Works s (.large ⟨0x80030000, 1⟩) none := by
  have hearly : ∃ s ∈ run step (start 0x30000 0x400000 fun _ => 0)
        [.kmalloc 4096 ⟨0, (0, 0), none⟩],
      Live s (.large ⟨0x80030000, 1⟩) ∧ (kfree s 0x80030000 1 none).isNone := by
    decide +kernel
  have hlate : ∃ s ∈ run step (start 0x30000 0x400000 fun _ => 0)
        [.kmalloc 4096 ⟨0, (0, 0), none⟩, .vmBootstrap],
      Live s (.large ⟨0x80030000, 1⟩) ∧ (kfree s 0x80030000 1 none).isNone := by
    decide +kernel
  obtain ⟨s, hs, hlive, hnone⟩ := hearly
  obtain ⟨t, ht, htlive, htnone⟩ := hlate
  exact ⟨⟨s, hs, hlive, not_works hnone⟩, ⟨t, ht, htlive, not_works htnone⟩⟩

end Steps

end Os161.Kheap.Boot
