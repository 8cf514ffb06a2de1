import Os161.Coremap.Spec
import Os161.Lib.Run
import Os161.Vm.Fault

/-!
# The memory of an address space

What is allocated for address spaces and what `as_destroy` gives back, over any number of them one
after another. Calls of `kmalloc` find memory.
-/

open Os161.Lib Function List Option

namespace Os161.Vm.Destroy

open Os161.Coremap (Entry Call getppages)

inductive Kind
  | addrspace | array | vector | page
  deriving DecidableEq

abbrev Heap := Kind → Nat

def kmalloc (h : Heap) (k : Kind) (n : Nat) : Heap := update h k (h k + n)

def kfree (h : Heap) (k : Kind) : Heap := update h k (h k - 1)

/-- `frames` and `before` are history: the frames handed out, and those free at the creation. -/
structure State where
  as : Option Addrspace
  vector : Segment → Bool
  heap : Heap
  coremap : List Entry
  frames : List Nat
  before : Nat

def freeFrames (coremap : List Entry) : Nat := coremap.countP fun e => !e.used

/-- `g` are the flags of `vm_fault`, and `c` is what `getppages` finds around it. -/
inductive Label
  | create (junk : Addrspace)
  | defineRegion (vaddr sz f_sz flag : Nat) (junk : Nat → Nat)
  | defineStack (junk : Nat → Nat)
  | fault (ty : FaultType) (va : Nat) (g : Globals) (c : Call)
  | destroy

def pageCount (as : Addrspace) : Nat := as.r1.useg.length + as.r2.useg.length + as.usegs.length

def create (s : State) (junk : Addrspace) : State := { s with
    as := some (asCreate junk)
    vector := fun _ => false
    heap := kmalloc (kmalloc s.heap .addrspace 1) .array 3
    frames := []
    before := freeFrames s.coremap }

/-- The new vector takes the place of an old one, also where `array_add` needs room. -/
def arrayPreallocate (s : State) (seg : Segment) : State := let heap := kmalloc s.heap .vector 1
  { s with
    heap := if s.vector seg then kfree heap .vector else heap
    vector := update s.vector seg true }

def addPages (s : State) (as' : Addrspace) (n : Nat) : State :=
  { s with as := some as', heap := kmalloc s.heap .page n }

def defineRegion (s : State) (as : Addrspace) (vaddr sz f_sz flag : Nat) (junk : Nat → Nat) : State :=
  let as' := (asDefineRegion as vaddr sz f_sz flag junk).1
  if as.r1.vbase = 0 then addPages (arrayPreallocate s .code) as' as'.r1.npages
  else if as.r2.vbase = 0 then addPages (arrayPreallocate s .data) as' as'.r2.npages
  else s

def defineStack (s : State) (as : Addrspace) (junk : Nat → Nat) : State :=
  addPages (arrayPreallocate s .stack) (asDefineStack as junk) STACKPAGES

def wantsFrame (as : Addrspace) (ty : FaultType) (va : Nat) : Bool :=
  (ty = .read || ty = .write) && (as.pageAt (va / PAGE_SIZE * PAGE_SIZE)).any fun pg => !pg.valid

/-- `vm_fault`, which allocates nothing after its first part. `none` is a panic. -/
def fault (s : State) (as : Addrspace) (ty : FaultType) (va : Nat) (g : Globals) (c : Call) :
    Option State :=
  if wantsFrame as ty va then
    match getppages s.coremap 1 c with
    | .page paddr coremap =>
      (faultPage as g ty va paddr).map fun r =>
        { s with as := some r.1, coremap := coremap, frames := paddr :: s.frames }
    | .none => (faultPage as g ty va 0).map fun r => { s with as := some r.1 }
    | .wild | .panic => none
  else (faultPage as g ty va 0).map fun r => { s with as := some r.1 }

def arrayDestroy (s : State) (seg : Segment) : State :=
  let heap := if s.vector seg then kfree s.heap .vector else s.heap
  { s with heap := kfree heap .array, vector := update s.vector seg false }

def asDestroy (s : State) : State :=
  let s := arrayDestroy (arrayDestroy (arrayDestroy s .code) .data) .stack
  { s with as := none, heap := kfree s.heap .addrspace }

def step (s : State) (l : Label) : Option State := match s.as, l with
  | none, .create junk => some (create s junk)
  | some as, .defineRegion vaddr sz f_sz flag junk => some (defineRegion s as vaddr sz f_sz flag junk)
  | some as, .defineStack junk => some (defineStack s as junk)
  | some as, .fault ty va g c => fault s as ty va g c
  | some _, .destroy => some (asDestroy s)
  | _, _ => none

def start (coremap : List Entry) : State :=
  ⟨none, fun _ => false, fun _ => 0, coremap, [], freeFrames coremap⟩

structure Returned (s : State) : Prop where
  frames : ∀ p ∈ s.frames, ∀ e ∈ s.coremap, e.paddr = p → e.used = false
  pages : s.heap .page = 0
  free : freeFrames s.coremap = s.before

def GivenBack (s : State) : Prop := s.as = none → Returned s

def NoPages (s : State) (l : Label) : Prop := l = .destroy → ∀ as ∈ s.as, pageCount as = 0

variable {s s' : State} {as as' : Addrspace} {g : Globals} {ty : FaultType} {va : Nat} {l : Label}

theorem pageCount_setPage (seg : Segment) (i : Nat) (pg : Page) :
    pageCount (as.setPage seg i pg) = pageCount as := by
  cases seg <;> simp [pageCount, Addrspace.setPage]

theorem pageCount_faultPage {frame : Nat}
    {r : Addrspace × Globals × Outcome} (h : faultPage as g ty va frame = some r) :
    pageCount r.1 = pageCount as :=
  faultPage_keeps h pageCount_setPage

theorem wantsFrame_iff : wantsFrame as ty va = true ↔
    (ty = .read ∨ ty = .write) ∧ ∃ pg, as.pageAt (pageOf va) = some pg ∧ pg.valid = false := by
  unfold wantsFrame pageOf
  cases as.pageAt (va / PAGE_SIZE * PAGE_SIZE) <;> simp

theorem pageCount_ne_zero (h : wantsFrame as ty va = true) : pageCount as ≠ 0 := by
  obtain ⟨-, pg, hpg, -⟩ := wantsFrame_iff.mp h
  obtain ⟨seg, i, -, hpg⟩ := Addrspace.exists_of_pageAt hpg
  have hlt := (List.getElem?_eq_some_iff.mp hpg).1
  unfold pageCount
  cases seg <;> simp only [Addrspace.pages] at hlt <;> omega

theorem pageCount_defineRegion_code (h : as.r1.vbase = 0) (vaddr sz f_sz flag : Nat)
    (junk : Nat → Nat) : pageCount (asDefineRegion as vaddr sz f_sz flag junk).1 =
      pageCount as + (asDefineRegion as vaddr sz f_sz flag junk).1.r1.npages := by
  simp only [asDefineRegion, h, if_true, pageCount, Region.define, length_append,
    length_map, length_range]
  omega

theorem pageCount_defineRegion_data (h : as.r1.vbase ≠ 0) (h2 : as.r2.vbase = 0)
    (vaddr sz f_sz flag : Nat) (junk : Nat → Nat) :
    pageCount (asDefineRegion as vaddr sz f_sz flag junk).1 =
      pageCount as + (asDefineRegion as vaddr sz f_sz flag junk).1.r2.npages := by
  simp only [asDefineRegion, h, h2, if_true, if_false, pageCount, Region.define,
    length_append, length_map, length_range]
  omega

theorem pageCount_defineStack (junk : Nat → Nat) :
    pageCount (asDefineStack as junk) = pageCount as + STACKPAGES := by
  simp [pageCount, asDefineStack, add_assoc]

structure Held (s : State) (as : Addrspace) : Prop where
  pages : s.heap .page = pageCount as
  frames : pageCount as = 0 → s.frames = [] ∧ freeFrames s.coremap = s.before

structure Inv (s : State) : Prop where
  held : ∀ as, s.as = some as → Held s as
  returned : s.as = none → s.heap .page = 0 ∧ s.frames = [] ∧ freeFrames s.coremap = s.before

@[simp] theorem kmalloc_self (h : Heap) (k : Kind) (n : Nat) : kmalloc h k n k = h k + n :=
  update_self ..

theorem kmalloc_of_ne (h : Heap) {k k' : Kind} (n : Nat) (hk : k' ≠ k) : kmalloc h k n k' = h k' :=
  update_of_ne hk ..

theorem kfree_of_ne (h : Heap) {k k' : Kind} (hk : k' ≠ k) : kfree h k k' = h k' :=
  update_of_ne hk ..

@[simp] theorem arrayPreallocate_page (s : State) (seg : Segment) :
    (arrayPreallocate s seg).heap .page = s.heap .page := by
  unfold arrayPreallocate
  split <;> simp [kfree_of_ne, kmalloc_of_ne]

@[simp] theorem arrayDestroy_page (s : State) (seg : Segment) :
    (arrayDestroy s seg).heap .page = s.heap .page := by
  unfold arrayDestroy
  split <;> simp [kfree_of_ne]

@[simp] theorem asDestroy_page (s : State) : (asDestroy s).heap .page = s.heap .page := by
  simp [asDestroy, kfree_of_ne]

theorem Held.inv (h : Held s as) (hs : s.as = some as) : Inv s := by
  refine ⟨fun as' heq => ?_, fun heq => ?_⟩
  · obtain rfl := some.inj (hs.symm.trans heq)
    exact h
  · rw [hs] at heq
    cases heq

theorem Held.addPages {n : Nat} (h : Held s as) (hn : pageCount as' = pageCount as + n)
    (seg : Segment) : Held (addPages (arrayPreallocate s seg) as' n) as' :=
  ⟨by simp [Destroy.addPages, h.pages, hn], fun hz => h.frames (by omega)⟩

theorem Held.defineRegion (h : Held s as) (hs : s.as = some as) (vaddr sz f_sz flag : Nat)
    (junk : Nat → Nat) : Inv (defineRegion s as vaddr sz f_sz flag junk) := by
  unfold Destroy.defineRegion
  split_ifs with h1 h2
  · exact (h.addPages (pageCount_defineRegion_code h1 ..) .code).inv rfl
  · exact (h.addPages (pageCount_defineRegion_data h1 h2 ..) .data).inv rfl
  · exact h.inv hs

theorem Held.fault {c : Call} (h : Held s as)
    (hf : fault s as ty va g c = some s') : Inv s' := by
  unfold Destroy.fault at hf
  split at hf
  case isTrue hw =>
    split at hf
    · obtain ⟨r, hr, rfl⟩ := map_eq_some_iff.mp hf
      have hcount := pageCount_faultPage hr
      -- there is a page, so nothing is said about the frames
      exact Held.inv ⟨hcount ▸ h.pages, fun hz => absurd (hcount ▸ hz) (pageCount_ne_zero hw)⟩ rfl
    · obtain ⟨r, hr, rfl⟩ := map_eq_some_iff.mp hf
      have hcount := pageCount_faultPage hr
      exact Held.inv ⟨hcount ▸ h.pages, fun hz => h.frames (hcount ▸ hz)⟩ rfl
    · cases hf
    · cases hf
  case isFalse =>
    obtain ⟨r, hr, rfl⟩ := map_eq_some_iff.mp hf
    have hcount := pageCount_faultPage hr
    exact Held.inv ⟨hcount ▸ h.pages, fun hz => h.frames (hcount ▸ hz)⟩ rfl

theorem Inv.create (h : Inv s) (hs : s.as = none) (junk : Addrspace) : Inv (create s junk) := by
  have hp := (h.returned hs).1
  have hheld : Held (Destroy.create s junk) (asCreate junk) := by
    refine ⟨?_, fun _ => ⟨rfl, rfl⟩⟩
    simp [Destroy.create, kmalloc_of_ne, hp, pageCount, asCreate]
  exact hheld.inv rfl

theorem Held.destroy (h : Held s as) (hz : pageCount as = 0) : Inv (asDestroy s) := by
  refine ⟨by rintro _ ⟨⟩, fun _ => ⟨?_, h.frames hz⟩⟩
  rw [asDestroy_page, h.pages, hz]

theorem Inv.step (h : Inv s) (hc : NoPages s l) (hs : Destroy.step s l = some s') : Inv s' := by
  unfold Destroy.step at hs
  split at hs
  case h_1 has =>
    cases hs
    exact h.create has _
  case h_2 has =>
    cases hs
    exact (h.held _ has).defineRegion has ..
  case h_3 has =>
    cases hs
    exact ((h.held _ has).addPages (pageCount_defineStack _) .stack).inv rfl
  case h_4 has => exact (h.held _ has).fault hs
  case h_5 has =>
    cases hs
    exact (h.held _ has).destroy (hc rfl _ has)
  case h_6 => cases hs

theorem Inv.givenBack (h : Inv s) : GivenBack s := by
  intro hs
  obtain ⟨hpages, hframes, hfree⟩ := h.returned hs
  exact ⟨by simp [hframes], hpages, hfree⟩

theorem Inv.not_givenBack (h : Inv s) (hc : ¬ NoPages s l)
    (hs : Destroy.step s l = some s') : ¬ GivenBack s' := by
  unfold NoPages at hc
  push Not at hc
  obtain ⟨rfl, as, has, hcount⟩ := hc
  simp only [Destroy.step, mem_def.mp has, some.injEq] at hs
  subst hs
  intro hg
  have hpages := (hg rfl).pages
  rw [asDestroy_page, (h.held as has).pages] at hpages
  exact hcount hpages

structure Blocks (s : State) : Prop where
  addrspace : s.heap .addrspace = if s.as.isSome then 1 else 0
  array : s.heap .array = if s.as.isSome then 3 else 0
  vector : s.heap .vector =
    (s.vector .code).toNat + (s.vector .data).toNat + (s.vector .stack).toNat
  unused : s.as = none → ∀ seg, s.vector seg = false

theorem Blocks.live (h : Blocks s) (hs : s.as = some as) : s.heap .addrspace = 1 ∧ s.heap .array = 3 := by
  simpa [hs] using And.intro h.addrspace h.array

theorem Blocks.addPages {n : Nat} (h : Blocks s) (hs : s.as = some as) (seg : Segment) :
    Blocks (addPages (arrayPreallocate s seg) as' n) := by
  obtain ⟨ha, hr⟩ := h.live hs
  have hv := h.vector
  refine ⟨?_, ?_, ?_, by rintro ⟨⟩⟩
  · simp only [Destroy.addPages, arrayPreallocate]
    split <;> simp [kfree_of_ne, kmalloc_of_ne, ha]
  · simp only [Destroy.addPages, arrayPreallocate]
    split <;> simp [kfree_of_ne, kmalloc_of_ne, hr]
  · cases seg
    all_goals
      simp only [Destroy.addPages, arrayPreallocate]
      split
      all_goals simp_all [kmalloc_of_ne, kfree]
      all_goals omega

theorem Blocks.fault {c : Call} (h : Blocks s)
    (hs : s.as = some as) (hf : fault s as ty va g c = some s') : Blocks s' := by
  have hkeep : s'.heap = s.heap ∧ s'.vector = s.vector ∧ s'.as.isSome = true := by
    unfold Destroy.fault at hf
    split at hf
    · split at hf
      · obtain ⟨r, -, rfl⟩ := map_eq_some_iff.mp hf
        exact ⟨rfl, rfl, rfl⟩
      · obtain ⟨r, -, rfl⟩ := map_eq_some_iff.mp hf
        exact ⟨rfl, rfl, rfl⟩
      · cases hf
      · cases hf
    · obtain ⟨r, -, rfl⟩ := map_eq_some_iff.mp hf
      exact ⟨rfl, rfl, rfl⟩
  obtain ⟨hheap, hvec, has⟩ := hkeep
  obtain ⟨ha, hr⟩ := h.live hs
  refine ⟨by simp [hheap, has, ha], by simp [hheap, has, hr], by simp [hheap, hvec, h.vector], ?_⟩
  intro hnone
  simp [hnone] at has

@[simp] theorem arrayDestroy_addrspace (s : State) (seg : Segment) :
    (arrayDestroy s seg).heap .addrspace = s.heap .addrspace := by
  unfold arrayDestroy
  split <;> simp [kfree_of_ne]

@[simp] theorem arrayDestroy_array (s : State) (seg : Segment) :
    (arrayDestroy s seg).heap .array = s.heap .array - 1 := by
  unfold arrayDestroy
  split <;> simp [kfree]

@[simp] theorem arrayDestroy_vectors (s : State) (seg : Segment) :
    (arrayDestroy s seg).heap .vector = s.heap .vector - (s.vector seg).toNat := by
  unfold arrayDestroy
  split <;> simp_all [kfree]

@[simp] theorem arrayDestroy_vector (s : State) (seg : Segment) :
    (arrayDestroy s seg).vector = update s.vector seg false := rfl

theorem Blocks.destroy (h : Blocks s) (hs : s.as = some as) : Blocks (asDestroy s) := by
  obtain ⟨ha, hr⟩ := h.live hs
  refine ⟨by simp [asDestroy, kfree, ha], by simp [asDestroy, kfree_of_ne, hr], ?_, fun _ seg => ?_⟩
  · simp only [asDestroy, arrayDestroy_vector, arrayDestroy_vectors, kfree_of_ne, h.vector, ne_eq,
      reduceCtorEq, not_false_eq_true, update_of_ne, update_self, Bool.toNat_false,
      add_zero]
    omega
  · cases seg <;> simp [asDestroy]

theorem Blocks.create (h : Blocks s) (hs : s.as = none) (junk : Addrspace) :
    Blocks (create s junk) := by
  have ha := h.addrspace
  have hr := h.array
  simp only [hs, isSome_none, Bool.false_eq_true, if_false] at ha hr
  refine ⟨by simp [Destroy.create, kmalloc_of_ne, ha], by simp [Destroy.create, kmalloc_of_ne, hr],
    ?_, by rintro ⟨⟩⟩
  simp [Destroy.create, kmalloc_of_ne, h.vector, h.unused hs]

theorem Blocks.step (h : Blocks s) (hs : Destroy.step s l = some s') : Blocks s' := by
  unfold Destroy.step at hs
  split at hs
  case h_1 has =>
    cases hs
    exact h.create has _
  case h_2 has =>
    cases hs
    unfold Destroy.defineRegion
    split_ifs
    · exact h.addPages has .code
    · exact h.addPages has .data
    · exact h
  case h_3 has =>
    cases hs
    exact h.addPages has .stack
  case h_4 has => exact h.fault has hs
  case h_5 has =>
    cases hs
    exact h.destroy has
  case h_6 => cases hs

theorem arrays_given_back (coremap : List Entry) (ls : List Label) :
    Always step (fun s => s.as = none → ∀ k, k ≠ .page → s.heap k = 0) (start coremap) ls := by
  refine always_of_inv (I := Blocks) (fun _ _ _ hi hs => hi.step hs) (fun s hi hs k hk => ?_)
    ⟨rfl, rfl, rfl, fun _ _ => rfl⟩ ls
  cases k with
  | addrspace => simp [hi.addrspace, hs]
  | array => simp [hi.array, hs]
  | vector => simp [hi.vector, hi.unused hs]
  | page => exact absurd rfl hk

theorem inv_start (coremap : List Entry) : Inv (start coremap) :=
  ⟨by rintro _ ⟨⟩, fun _ => ⟨rfl, rfl, rfl⟩⟩

/-- None of them has a page when it is destroyed. -/
theorem memory_given_back_iff (coremap : List Entry) {ls : List Label}
    (h : run step (start coremap) ls = some s) :
    Always step GivenBack (start coremap) ls ↔ Meets step NoPages (start coremap) ls := by
  constructor
  · exact meets_of_always (I := Inv) (fun _ _ _ hi hc hs => hi.step hc hs)
      (fun _ _ _ hi hc hs => hi.not_givenBack hc hs) (inv_start coremap) h
  · exact always_of_meets (I := Inv) (fun _ _ _ hi hc hs => hi.step hc hs)
      (fun _ hi => hi.givenBack) (inv_start coremap)

def twoFrames : List Entry := [⟨0x1000, true, 1, -1, -1, none⟩, ⟨0x2000, false, 0, -1, -1, none⟩]

theorem memory_given_back_iff_no_pages :
    let ls : List Label := [.create ⟨⟨0, 0, 0, 0, 0, []⟩, ⟨0, 0, 0, 0, 0, []⟩, [], 0⟩,
      .fault .read 0x400000 ⟨0, false, false, false, false⟩ ⟨0, (0, 0), none⟩, .destroy]
    Meets step NoPages (start twoFrames) ls ∧ Always step GivenBack (start twoFrames) ls := by
  intro ls
  have hc : Meets step NoPages (start twoFrames) ls := by
    refine ⟨by rintro ⟨⟩, ?_⟩
    rintro _ ⟨⟩
    refine ⟨by rintro ⟨⟩, ?_⟩
    rintro _ ⟨⟩
    refine ⟨?_, fun _ _ => trivial⟩
    rintro - _ ⟨⟩
    rfl
  exact ⟨hc, (memory_given_back_iff twoFrames rfl).mpr hc⟩

/-- The frame stays used, and twelve blocks stay allocated. -/
theorem stack_page_leaks :
    ∃ s, run step (start twoFrames) [.create ⟨⟨0, 0, 0, 0, 0, []⟩, ⟨0, 0, 0, 0, 0, []⟩, [], 0⟩,
        .defineStack (fun _ => 0),
        .fault .write 0x7ffffff0 ⟨0, false, false, false, false⟩ ⟨0, (0, 0), none⟩,
        .destroy] = some s ∧
      s.as = none ∧ s.frames = [0x2000] ∧ s.coremap[1]?.map Entry.used = some true ∧
      s.heap .page = 12 ∧ s.before = 1 ∧ freeFrames s.coremap = 0 ∧ ¬ GivenBack s := by
  refine ⟨_, rfl, rfl, rfl, rfl, rfl, rfl, rfl, fun h => ?_⟩
  have hpages := (h rfl).pages
  revert hpages
  decide

end Os161.Vm.Destroy
