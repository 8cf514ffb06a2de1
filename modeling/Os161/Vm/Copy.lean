import Os161.Coremap.Spec
import Os161.Vm.Fault

/-!
# Copies of address spaces

The memory that `kmalloc` hands out is not cleared: `junk` is what the new `struct addrspace` holds
and `junkPaddr` the `paddr` of each new `struct page`.
-/

open List Option

namespace Os161.Vm.Copy

open Os161.Coremap (Entry)

structure Sys where
  coremap : List Entry
  mem : Nat → Nat
  spaces : List Addrspace

def copySpace (s : Sys) (old junk : Addrspace) (junkPaddr : Segment → Nat → Nat) : Sys :=
  { s with spaces := s.spaces ++ [asCopy old junk junkPaddr] }

def validAt (as : Addrspace) (seg : Segment) (i : Nat) : Prop :=
  ∃ pg, (as.pages seg)[i]? = some pg ∧ pg.valid = true

def Allocated (coremap : List Entry) (frame : Nat) : Prop :=
  ∃ e ∈ coremap, e.paddr = frame ∧ e.used = true

def OnlyPage (spaces : List Addrspace) (k : Nat) (seg : Segment) (i frame : Nat) : Prop :=
  ∀ k' as' seg' i' pg', spaces[k']? = some as' → (as'.pages seg')[i']? = some pg' →
    pg'.valid = true → pg'.paddr = frame → k' = k ∧ seg' = seg ∧ i' = i

structure SameFields (r r' : Region) : Prop where
  vbase : r'.vbase = r.vbase
  npages : r'.npages = r.npages
  filesz : r'.filesz = r.filesz
  off : r'.off = r.off
  flag : r'.flag = r.flag

structure ExactCopy (s s' : Sys) (old new : Addrspace) : Prop where
  spaces : s'.spaces = s.spaces ++ [new]
  r1 : SameFields old.r1 new.r1
  r2 : SameFields old.r2 new.r2
  v : new.v = old.v
  valid : ∀ seg i, validAt new seg i ↔ validAt old seg i
  backed : ∀ seg i pg pg', (old.pages seg)[i]? = some pg → pg.valid = true →
    (new.pages seg)[i]? = some pg' → Allocated s'.coremap pg'.paddr ∧
      OnlyPage s'.spaces s.spaces.length seg i pg'.paddr ∧
      ∀ o < PAGE_SIZE, s'.mem (pg'.paddr + o) = s'.mem (pg.paddr + o)
  demand : ∀ fa, (∀ pg ∈ old.pageAt (fa / PAGE_SIZE * PAGE_SIZE), pg.valid = false) →
    ∀ g ty frame, (faultPage new g ty fa frame).map Prod.snd =
      (faultPage old g ty fa frame).map Prod.snd
  unchanged : ∀ seg, ∀ pg ∈ old.pages seg, pg.valid = true →
    ∀ o < PAGE_SIZE, s'.mem (pg.paddr + o) = s.mem (pg.paddr + o)

def copied (old : Addrspace) : Segment → Nat
  | .code => old.r1.npages
  | .data => old.r2.npages
  | .stack => STACKPAGES

variable {s : Sys} {old junk : Addrspace} {junkPaddr : Segment → Nat → Nat} {seg : Segment} {i : Nat}

theorem getElem?_asCopy (junk : Addrspace) (junkPaddr : Segment → Nat → Nat)
    (h : i < copied old seg) :
    ∃ pg, ((asCopy old junk junkPaddr).pages seg)[i]? = some pg ∧ pg.valid = true ∧
      pg.paddr = junkPaddr seg i := by
  cases seg
  all_goals
    simp only [copied] at h
    simp [asCopy, Addrspace.pages, List.getElem?_range h]

theorem length_pages_asCopy (old junk : Addrspace) (junkPaddr : Segment → Nat → Nat)
    (seg : Segment) :
    ((asCopy old junk junkPaddr).pages seg).length = copied old seg := by
  cases seg <;> simp [asCopy, Addrspace.pages, copied]

theorem asCopy_page {pg : Page} (h : ((asCopy old junk junkPaddr).pages seg)[i]? = some pg) :
    i < copied old seg ∧ pg.valid = true ∧ pg.paddr = junkPaddr seg i := by
  have hi : i < copied old seg := by
    rw [← length_pages_asCopy old junk junkPaddr seg]
    exact (List.getElem?_eq_some_iff.mp h).1
  obtain ⟨pg', hpg', hv, hp⟩ := getElem?_asCopy junk junkPaddr hi
  obtain rfl := some.inj (hpg'.symm.trans h)
  exact ⟨hi, hv, hp⟩

theorem validAt_asCopy : validAt (asCopy old junk junkPaddr) seg i ↔ i < copied old seg := by
  constructor
  · rintro ⟨pg, hpg, -⟩
    exact (asCopy_page hpg).1
  · intro h
    obtain ⟨pg, hpg, hv, -⟩ := getElem?_asCopy junk junkPaddr h
    exact ⟨pg, hpg, hv⟩

theorem locate_asCopy (fa : Nat) : (asCopy old junk junkPaddr).locate fa = old.locate fa := rfl

theorem locate_lt {fa : Nat} (h : old.locate fa = some (seg, i)) : i < copied old seg := by
  have hmod : ∀ r : Region, r.vtop ≤ r.vbase + r.npages * PAGE_SIZE := fun r => Nat.mod_le ..
  have h1 := hmod old.r1
  have h2 := hmod old.r2
  unfold Addrspace.locate at h
  split_ifs at h with hc hd hs
  all_goals
    cases h
    apply Nat.div_lt_of_lt_mul
    simp only [copied, mul_comm PAGE_SIZE]
    omega

/-- The memory holds, by chance, what the copy needs, and all pages of `old` are valid. -/
structure Lucky (s : Sys) (old junk : Addrspace) (junkPaddr : Segment → Nat → Nat) : Prop where
  valid : ∀ seg i, validAt old seg i ↔ i < copied old seg
  r1 : junk.r1.filesz = old.r1.filesz ∧ junk.r1.off = old.r1.off ∧ junk.r1.flag = old.r1.flag
  r2 : junk.r2.filesz = old.r2.filesz ∧ junk.r2.off = old.r2.off ∧ junk.r2.flag = old.r2.flag
  v : junk.v = old.v
  allocated : ∀ seg i, i < copied old seg → Allocated s.coremap (junkPaddr seg i)
  unshared : ∀ seg i, i < copied old seg → ∀ as ∈ s.spaces, ∀ seg', ∀ pg ∈ as.pages seg',
    pg.valid = true → pg.paddr ≠ junkPaddr seg i
  distinct : ∀ seg i seg' i', i < copied old seg → i' < copied old seg' →
    junkPaddr seg' i' = junkPaddr seg i → seg' = seg ∧ i' = i
  bytes : ∀ seg i pg, (old.pages seg)[i]? = some pg → i < copied old seg →
    ∀ o < PAGE_SIZE, s.mem (junkPaddr seg i + o) = s.mem (pg.paddr + o)

theorem Lucky.onlyPage (h : Lucky s old junk junkPaddr) (hi : i < copied old seg) :
    OnlyPage (copySpace s old junk junkPaddr).spaces s.spaces.length seg i (junkPaddr seg i) := by
  intro k' as' seg' i' pg' hk hpg hv hp
  rcases lt_or_ge k' s.spaces.length with hlt | hge
  · -- the page of another address space
    simp only [copySpace, List.getElem?_append_left hlt] at hk
    exact absurd hp (h.unshared seg i hi as' (mem_of_getElem? hk) seg' pg'
      (mem_of_getElem? hpg) hv)
  · simp only [copySpace, List.getElem?_append_right hge, List.getElem?_singleton] at hk
    split_ifs at hk with hzero
    cases hk
    obtain ⟨hi', -, hp'⟩ := asCopy_page hpg
    obtain ⟨hseg, hidx⟩ := h.distinct seg i seg' i' hi hi' (hp'.symm.trans hp)
    exact ⟨by omega, hseg, hidx⟩

theorem Lucky.exactCopy (h : Lucky s old junk junkPaddr) :
    ExactCopy s (copySpace s old junk junkPaddr) old (asCopy old junk junkPaddr) where
  spaces := rfl
  r1 := ⟨rfl, rfl, h.r1.1, h.r1.2.1, h.r1.2.2⟩
  r2 := ⟨rfl, rfl, h.r2.1, h.r2.2.1, h.r2.2.2⟩
  v := h.v
  valid seg i := validAt_asCopy.trans (h.valid seg i).symm
  backed seg i pg pg' hpg hv hpg' := by
    obtain ⟨hi, -, hp⟩ := asCopy_page hpg'
    rw [hp]
    exact ⟨h.allocated seg i hi, h.onlyPage hi, h.bytes seg i pg hpg hi⟩
  demand fa hfa g ty frame := by
    unfold faultPage
    simp only [locate_asCopy]
    cases hloc : old.locate (fa / PAGE_SIZE * PAGE_SIZE) with
    | none => rfl
    | some p =>
      -- the page is valid, so there is nothing to load
      obtain ⟨seg, i⟩ := p
      obtain ⟨pg, hpg, hv⟩ := (h.valid seg i).mpr (locate_lt hloc)
      have hinv := hfa pg (by rw [Addrspace.pageAt_eq hloc, hpg]; rfl)
      rw [hv] at hinv
      cases hinv
  unchanged _ _ _ _ _ _ := rfl

theorem ExactCopy.lucky
    (h : ExactCopy s (copySpace s old junk junkPaddr) old (asCopy old junk junkPaddr)) :
    Lucky s old junk junkPaddr := by
  have hvalid : ∀ seg i, validAt old seg i ↔ i < copied old seg := fun seg i =>
    (h.valid seg i).symm.trans validAt_asCopy
  -- what is said of a page of the copy is said of the frame that its memory named
  have hbacked : ∀ seg i, i < copied old seg → Allocated s.coremap (junkPaddr seg i) ∧
      OnlyPage (s.spaces ++ [asCopy old junk junkPaddr]) s.spaces.length seg i (junkPaddr seg i) := by
    intro seg i hi
    obtain ⟨pg, hpg, hv⟩ := (hvalid seg i).mpr hi
    obtain ⟨pg', hpg', -, hp⟩ := getElem?_asCopy junk junkPaddr hi
    obtain ⟨hall, honly, -⟩ := h.backed seg i pg pg' hpg hv hpg'
    rw [hp] at hall honly
    exact ⟨hall, honly⟩
  refine ⟨hvalid, ⟨h.r1.filesz, h.r1.off, h.r1.flag⟩, ⟨h.r2.filesz, h.r2.off, h.r2.flag⟩, h.v,
    fun seg i hi => (hbacked seg i hi).1, ?_, ?_, ?_⟩
  · intro seg i hi as has seg' pg hpg hv hp
    obtain ⟨k, hk⟩ := mem_iff_getElem?.mp has
    obtain ⟨j, hj⟩ := mem_iff_getElem?.mp hpg
    have hlt : k < s.spaces.length := (List.getElem?_eq_some_iff.mp hk).1
    have hk' : (s.spaces ++ [asCopy old junk junkPaddr])[k]? = some as := by
      rw [List.getElem?_append_left hlt, hk]
    have heq := ((hbacked seg i hi).2 k as seg' j pg hk' hj hv hp).1
    omega
  · intro seg i seg' i' hi hi' hp
    obtain ⟨pg, hpg, hv, hpp⟩ := getElem?_asCopy junk junkPaddr hi'
    have hk : (s.spaces ++ [asCopy old junk junkPaddr])[s.spaces.length]? =
        some (asCopy old junk junkPaddr) := by simp
    exact ((hbacked seg i hi).2 _ _ seg' i' pg hk hpg hv (hpp.trans hp)).2
  · intro seg i pg hpg hi
    obtain ⟨pg₀, hpg₀, hv⟩ := (hvalid seg i).mpr hi
    obtain rfl := some.inj (hpg₀.symm.trans hpg)
    obtain ⟨pg', hpg', -, hp⟩ := getElem?_asCopy junk junkPaddr hi
    obtain ⟨-, -, hbytes⟩ := h.backed seg i _ pg' hpg hv hpg'
    rw [hp] at hbytes
    exact hbytes

def oneTouched : Option Addrspace :=
  (faultPage (asDefineStack (asCreate ⟨⟨0, 0, 0, 0, 0, []⟩, ⟨0, 0, 0, 0, 0, []⟩, [], 0⟩) fun _ => 0)
    ⟨0, false, false, false, false⟩ .write 0x7ffffff0 0x2000).map Prod.fst

end Os161.Vm.Copy
