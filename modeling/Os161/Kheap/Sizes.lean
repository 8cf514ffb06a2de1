import Os161.Kheap.Boot

/-!
# How much `kmalloc` returns

`kmalloc` rounds the size up to pages and `ram_stealmem` adds it to `firstpaddr`, both in 32 bits.
The coremap has as many entries as RAM has pages from address 0 on, but the first of them stands for
`firstpaddr`: the last ones stand for no memory.
-/

open Os161.Lib List Option

namespace Os161.Kheap.Boot

open Os161.Coremap (Run Call RamSize pageSize kseg0 paddrToKvaddr fixedEntries sizeofCoremap)

/-- The pointer that a call of `kmalloc` has returned, unless it is NULL. -/
def got (s s' : State) : Option Ptr :=
  if s.large.length < s'.large.length then s'.large.head?.map .large
  else if s.heap.live.length < s'.heap.live.length then s'.heap.live.head?.map .small
  else none

def Ptr.bytes : Ptr → Nat
  | .small b => b.size
  | .large r => r.pages * pageSize

/-- The bytes lie in pages that have been handed out. -/
def Allocated (ram : Ram) : Ptr → Prop
  | .small b => Placed ⟨pageOf b.addr, 1⟩ ram ∧ b.addr + b.size ≤ pageOf b.addr + pageSize
  | .large r => Placed r ram

structure Provides (s : State) (want : Nat) (s' : State) (p : Ptr) : Prop where
  room : want ≤ p.bytes
  allocated : Allocated s'.ram p
  inside : p.addr + p.bytes ≤ kseg0 + s'.ram.last
  apart : ∀ q, Live s q → p.addr + p.bytes ≤ q.addr ∨ q.addr + q.bytes ≤ p.addr

/-- Whoever asks for `sz` bytes to put `want` bytes there gets room for them, or NULL. -/
def Enough (s : State) (want sz : Nat) (c : Call) : Prop :=
  ∀ s' p, kmalloc s sz c = some s' → got s s' = some p → Provides s want s' p

/-- Before `vm_bootstrap` no sum wraps. After it a run of enough pages is free in RAM, or none is. -/
def Served (sz : Nat) : Ram → Prop
  | .early first last => NoWrap sz (.early first last)
  | .vm first last cs => WholeTable last ∧
      (2048 ≤ sz → InRam ((sz + (pageSize - 1)) % 2 ^ 32 / pageSize) (.vm first last cs))

def Refused (s : State) (sz : Nat) (c : Call) : Prop :=
  ∀ s', kmalloc s sz c = some s' → got s s' = none

variable {s s' : State} {sz last : Nat} {c : Call} {p : Ptr}

theorem kmalloc_got (h : kmalloc s sz c = some s') (hp : got s s' = some p) :
    (∃ r, p = .large r ∧ r.pages = (sz + (pageSize - 1)) % 2 ^ 32 / pageSize ∧ 2048 ≤ sz ∧
      allocKpages r.pages c s.ram = some (s'.ram, r.addr) ∧ r.addr ≠ 0 ∧
      s'.large = r :: s.large ∧ s'.heap = s.heap) ∨
    ∃ b, p = .small b ∧ b.asked = sz ∧ s'.large = s.large ∧ s'.heap.live = b :: s.heap.live := by
  have hsmall {kpage : Nat} {heap : Kheap.State} {ram : Ram}
      (hs : Kheap.step s.heap (.kmalloc sz kpage) = some heap)
      (hp : got s { s with heap := heap, ram := ram } = some p) :
      ∃ b, p = .small b ∧ b.asked = sz ∧ heap.live = b :: s.heap.live := by
    obtain ⟨r, -, rfl⟩ := map_eq_some_iff.mp hs
    unfold Kheap.State.malloced at hp ⊢
    split at hp
    · split_ifs at hp with hz
      · simp [got] at hp
      · simp only [got, lt_irrefl, if_false, length_cons, Nat.lt_succ_self, if_true,
          List.head?_cons, map_some, some.injEq] at hp
        exact ⟨_, hp.symm, rfl, by rw [if_neg hz]⟩
    · simp [got] at hp
  unfold kmalloc at h
  split_ifs at h with hlarge hask
  · obtain ⟨⟨ram, addr⟩, ha, rfl⟩ := map_eq_some_iff.mp h
    dsimp only at hp ⊢
    split_ifs at hp ⊢ with hz
    · simp [got] at hp
    · simp only [got, length_cons, Nat.lt_succ_self, if_true, List.head?_cons, map_some,
        some.injEq] at hp
      exact .inl ⟨_, hp.symm, rfl, hlarge, ha, hz, rfl, rfl⟩
  · obtain ⟨⟨ram, kpage⟩, -, h⟩ := bind_eq_some_iff.mp h
    dsimp only at h
    split_ifs at h
    obtain ⟨heap, hs, rfl⟩ := map_eq_some_iff.mp h
    obtain ⟨b, hb, hasked, hlive⟩ := hsmall hs hp
    exact .inr ⟨b, hb, hasked, rfl, hlive⟩
  · obtain ⟨heap, hs, rfl⟩ := map_eq_some_iff.mp h
    obtain ⟨b, hb, hasked, hlive⟩ := hsmall hs hp
    exact .inr ⟨b, hb, hasked, rfl, hlive⟩

theorem block_in_page {hs : Kheap.State} (h : Kheap.Inv hs) {b : Block} (hb : b ∈ hs.live) :
    b.asked ≤ b.size ∧ pageOf b.addr ≤ b.addr ∧ b.addr + b.size ≤ pageOf b.addr + pageSize := by
  obtain ⟨all, r, -, -⟩ := h
  obtain ⟨hasked, pr, -, -, hblock⟩ := r.held b hb
  rw [pageOf_block hblock]
  exact ⟨hasked, hblock.inside⟩

theorem Served.noWrap {ram : Ram} (h : Served sz ram) : NoWrap sz ram := by
  cases ram with
  | early => exact h
  | vm => trivial

theorem Served.fits {ram : Ram} (h : Served sz ram) (hlarge : 2048 ≤ sz) :
    Fits ((sz + (pageSize - 1)) % 2 ^ 32 / pageSize) ram ∧
      InRam ((sz + (pageSize - 1)) % 2 ^ 32 / pageSize) ram := by
  cases ram with
  | early first l =>
    obtain ⟨hsum, hfits⟩ := h hlarge
    rw [Nat.mod_eq_of_lt hsum]
    exact ⟨hfits, trivial⟩
  | vm => exact ⟨trivial, h.2 hlarge⟩

theorem Inv.provides (hlast : last ≤ 508 * 1024 * 1024) (hpre : Inv last s)
    (hserved : Served sz s.ram) (h : Inv last s') (hsz : sz < 2 ^ 32)
    (hs : Boot.kmalloc s sz c = some s') (hp : got s s' = some p) : Provides s sz s' p := by
  -- a page of the heap and a large block do not overlap
  have hmixed {b : Block} {r : Run} (hb : b ∈ s'.heap.live) (hr : r ∈ s'.large) :
      b.addr + b.size ≤ r.addr ∨ r.addr + r.pages * pageSize ≤ b.addr := by
    have hin := block_in_page h.heap hb
    have hap := h.mixed _ ((mem_kpages h.heap).mpr ⟨b, hb, rfl⟩) r hr
    simp only [Apart] at hap
    omega
  obtain ⟨r, rfl, hpages, hbig, ha, hne, hlarge, hheap⟩ | ⟨b, rfl, hasked, hlarge, hlive⟩ :=
    kmalloc_got hs hp
  · have hr : r ∈ s'.large := hlarge ▸ mem_cons_self
    obtain ⟨hplaced, hpos, -⟩ := h.large r hr
    have honce : (r :: s.large).Pairwise Apart := hlarge ▸ h.once
    obtain ⟨hfits, hin⟩ := hserved.fits hbig
    rw [← hpages] at hfits hin
    have hnew := (allocKpages_spec hlast hpos hfits hpre.ram ha).2.2.resolve_left hne
    refine ⟨?_, hplaced, hnew.inside hin, fun q hq => ?_⟩
    · simp only [Ptr.bytes, pageSize] at *
      omega
    · cases q with
      | small d => exact (hmixed (hheap ▸ hq : d ∈ s'.heap.live) hr).symm
      | large q => exact (pairwise_cons.mp honce).1 q hq
  · have hb : b ∈ s'.heap.live := hlive ▸ mem_cons_self
    obtain ⟨hroom, -, hpage⟩ := block_in_page h.heap hb
    have honce := h.heap.sound.disjoint
    rw [hlive] at honce
    obtain ⟨hplaced, hinside⟩ := h.placed_page hb
    refine ⟨hasked ▸ hroom, ⟨hplaced, hpage⟩, ?_, fun q hq => ?_⟩
    · rw [h.ram.last_eq]
      exact hpage.trans hinside
    cases q with
    | small d => exact (pairwise_cons.mp honce).1 d hq
    | large r => exact hmixed hb (hlarge ▸ hq : r ∈ s'.large)

theorem Provides.large_inside {want addr n first l : Nat} {heap : Kheap.State} {large : List Run}
    {cs : Coremap.State} (h : Provides s want ⟨heap, large, .vm first l cs⟩ (.large ⟨addr, n⟩)) :
    addr + n * pageSize ≤ kseg0 + l := h.inside

theorem Enough.inRam {n : Nat} (he : Enough s sz sz c) (hlarge : 2048 ≤ sz)
    (hn : (sz + (pageSize - 1)) % 2 ^ 32 / pageSize = n) (hok : RamOk last s.ram) :
    InRam n s.ram := by
  cases hram : s.ram with
  | early => trivial
  | vm first l cs =>
    rw [hram] at hok
    obtain ⟨rfl, hsize, hwhole, hcs⟩ := hok
    have hfirst := hsize.first_lt.le
    intro j hroom
    rcases Nat.eq_zero_or_pos n with rfl | hpos
    · exact ⟨0, fun i _ h2 => absurd h2 (by omega), by omega⟩
    rcases hcs.allocKpages hsize (hwhole.fixed hsize) hpos c with
      ⟨-, hnone⟩ | ⟨i, e, hi, -, hfree, -, hg⟩
    · exact absurd hroom (hnone j)
    · obtain ⟨cm, hg⟩ : ∃ cm, Coremap.allocKpages cs.coremap n c = .page _ cm := ⟨_, hg⟩
      have hkv := hcs.shape.kvaddr hsize hi
      have hne : paddrToKvaddr e.paddr ≠ 0 := (Nat.zero_lt_of_lt (hcs.shape.kseg0_lt hsize hi)).ne'
      have hs : kmalloc s sz c = some { s with
          ram := .vm first l ⟨cm, ⟨paddrToKvaddr e.paddr, n⟩ :: cs.live⟩
          large := ⟨paddrToKvaddr e.paddr, n⟩ :: s.large } := by
        simp only [kmalloc, if_pos hlarge, hn, hram, allocKpages, hg, map_some, if_neg hne]
      have hprov := he _ (.large ⟨paddrToKvaddr e.paddr, n⟩) hs (if_pos (Nat.lt_succ_self _))
      have hin := hprov.large_inside
      refine ⟨i, hfree, ?_⟩
      simp only [hkv, kseg0, pageSize] at hin ⊢
      omega

theorem Enough.served (he : Enough s sz sz c) (hsz : sz < 2 ^ 32) (hok : RamOk last s.ram)
    (hlast : last ≤ 508 * 1024 * 1024) : Served sz s.ram := by
  have hin := fun hlarge => he.inRam hlarge rfl hok
  cases hram : s.ram with
  | vm =>
    rw [hram] at hok hin
    exact ⟨hok.1 ▸ hok.2.2.1, hin⟩
  | early first l =>
    rw [hram] at hok
    obtain ⟨rfl, hpos, hle, -⟩ := hok
    intro hlarge
    have hsize : (sz + (pageSize - 1)) % 2 ^ 32 / pageSize * pageSize < 2 ^ 32 := by
      simp only [pageSize]
      omega
    by_cases hfull : l < (first + (sz + (pageSize - 1)) % 2 ^ 32 / pageSize * pageSize) % 2 ^ 32
    · simp only [Fits, pageSize] at *
      omega
    · have hkv : paddrToKvaddr first = kseg0 + first := by
        simp only [paddrToKvaddr, kseg0]
        omega
      have hne : kseg0 + first ≠ 0 := by omega
      have hs : kmalloc s sz c = some { s with
          ram := .early ((first + (sz + (pageSize - 1)) % 2 ^ 32 / pageSize * pageSize) % 2 ^ 32) l
          large := ⟨kseg0 + first, (sz + (pageSize - 1)) % 2 ^ 32 / pageSize⟩ :: s.large } := by
        simp only [kmalloc, if_pos hlarge, hram, allocKpages, ramStealmem, Nat.mod_eq_of_lt hsize,
          if_neg hfull, if_neg hpos.ne', hkv, if_neg hne, map_some]
      obtain ⟨hroom, hplaced, -, -⟩ := he _ (.large ⟨kseg0 + first, _⟩) hs (if_pos (Nat.lt_succ_self _))
      simp only [Ptr.bytes, Allocated, Placed, Fits, pageSize] at *
      omega

theorem Enough.refused {n : Nat} (he : Enough s (n * 4) sz c) (hn : 2 ^ 30 ≤ n) : Refused s sz c := by
  intro s' hs
  cases hp : got s s' with
  | none => rfl
  | some p =>
    have hroom := (he s' p hs hp).room
    obtain ⟨r, rfl, hpages, -⟩ | ⟨b, rfl, -⟩ := kmalloc_got hs hp
    · simp only [Ptr.bytes, pageSize] at *
      omega
    · have hmax : ∀ b, sizes b ≤ 2048 := by decide
      have hsize := hmax b.blktype
      simp only [Ptr.bytes, Block.size] at hroom
      omega

end Os161.Kheap.Boot
