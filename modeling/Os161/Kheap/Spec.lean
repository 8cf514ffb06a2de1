import Mathlib.Data.Fin.VecNotation
import Mathlib.Data.BitVec
import Os161.Lib.Run
import Os161.Lib.Chain

/-!
# The subpage allocator of `kern/lib/kheap.c`

Everything here runs at splhigh, so a call is one step. Memory is a function from word addresses. A
null pointer is `none`, and so is a call that does not return.
-/

open Function

namespace Os161.Kheap

open Lib

abbrev PAGE_SIZE : Nat := 4096
abbrev NSIZES : Nat := 8
abbrev NPAGEREFS : Nat := 256
abbrev INVALID_OFFSET : Nat := 0xffff

def sizes : Fin NSIZES → Nat := ![16, 32, 64, 128, 256, 512, 1024, 2048]

abbrev Ref := Fin 256

structure Heap where
  nextSamesize : Ref → Option Ref
  nextAll : Ref → Option Ref
  pageaddrAndBlocktype : Ref → Nat
  freelistOffset : Ref → Nat
  nfree : Ref → Nat
  pagerefsInuse : Fin 8 → BitVec 32
  sizebases : Fin NSIZES → Option Ref
  allbase : Option Ref
  mem : Nat → Nat
  /-- The pages got from `alloc_kpages` and not given to `free_kpages` since. -/
  kpages : List Nat

def kassert {α : Type} (p : Prop) [Decidable p] (k : Option α) : Option α := if p then k else none

@[simp] theorem kassert_pos {α : Type} {p : Prop} [Decidable p] {k : Option α} (h : p) :
    kassert p k = k := if_pos h

-- PAGE_FRAME is 0xfffff000: masking with it clears the twelve low bits, with its complement
-- keeps only those.
def prPageaddr (h : Heap) (pr : Ref) : Nat := h.pageaddrAndBlocktype pr / PAGE_SIZE * PAGE_SIZE

def prBlocktype (h : Heap) (pr : Ref) : Nat := h.pageaddrAndBlocktype pr % PAGE_SIZE

def mkpab (pa blk : Nat) : Nat := pa / PAGE_SIZE * PAGE_SIZE + blk % PAGE_SIZE

/-- The word of `pagerefs_inuse` with the bit of a pageref. -/
def wordOf (pr : Ref) : Fin 8 := ⟨pr / 32, by omega⟩

def bitOf (pr : Ref) : Nat := pr % 32

def inuse (h : Heap) (pr : Ref) : Bool := (h.pagerefsInuse (wordOf pr)).getLsbD (bitOf pr)

def setWord (h : Heap) (i : Fin 8) (w : BitVec 32) : Heap :=
  { h with pagerefsInuse := update h.pagerefsInuse i w }

def allocpageref (h : Heap) : Option (Heap × Option Ref) :=
  match (List.finRange 8).find? fun i => h.pagerefsInuse i != BitVec.allOnes 32 with
  | none => some (h, none)
  | some i =>
    match (List.finRange 32).find? fun j : Fin 32 => !(h.pagerefsInuse i).getLsbD j with
    | none => none
    | some j =>
      some (setWord h i (h.pagerefsInuse i ||| BitVec.twoPow 32 j),
        some ⟨i.val * 32 + j.val, by omega⟩)

def freepageref (h : Heap) (p : Ref) : Option Heap := kassert (inuse h p) <|
    some (setWord h (wordOf p) (h.pagerefsInuse (wordOf p) &&& ~~~BitVec.twoPow 32 (bitOf p)))

def removeLists (h : Heap) (pr : Ref) (blktype : Nat) : Option Heap := if hb : blktype < NSIZES then
    (unlink h.nextSamesize pr NPAGEREFS (h.sizebases ⟨blktype, hb⟩)).bind fun (sbase, same) =>
    (unlink h.nextAll pr NPAGEREFS h.allbase).map fun (abase, all) =>
      { h with
        nextSamesize := same, sizebases := update h.sizebases ⟨blktype, hb⟩ sbase
        nextAll := all, allbase := abase }
  else none

/-- The smallest size class that fits; none is a panic. -/
def blocktype (sz : Nat) : Option (Fin NSIZES) := (List.finRange NSIZES).find? fun i => sz ≤ sizes i

/-- The code after the label `doalloc`. -/
def doalloc (h : Heap) (pr : Ref) : Option (Heap × Nat) :=
  kassert (h.freelistOffset pr < PAGE_SIZE) <|
  let prpage := prPageaddr h pr
  let retptr := prpage + h.freelistOffset pr
  let fl := h.mem retptr
  let nfree := h.nfree pr - 1
  let take offset := some
    ({ h with
       nfree := update h.nfree pr nfree
       freelistOffset := update h.freelistOffset pr offset }, retptr)
  if fl ≠ 0 then
    kassert (0 < nfree) <|
    let offset := (fl + 2 ^ 32 - prpage) % 2 ^ 32
    kassert (offset < PAGE_SIZE) <| take offset
  else
    kassert (nfree = 0) <| take INVALID_OFFSET

/-- Threads the free list of a new page; `fl` is the last block written. -/
def threadBlocks (fla size : Nat) : Nat → Nat → Nat → (Nat → Nat) → Option (Nat × (Nat → Nat))
  | 0, _, fl, mem => some (fl, mem)
  | n + 1, i, _, mem =>
    let fl := fla + i * size
    kassert (fl ≠ fla + (i - 1) * size) <|
      threadBlocks fla size n (i + 1) fl (update mem fl (fla + (i - 1) * size))

def linkPage (h : Heap) (pr : Ref) (blktype : Fin NSIZES) (prpage offset : Nat) (mem : Nat → Nat) :
    Heap :=
  { h with
    pageaddrAndBlocktype := update h.pageaddrAndBlocktype pr (mkpab prpage blktype)
    nfree := update h.nfree pr (PAGE_SIZE / sizes blktype)
    freelistOffset := update h.freelistOffset pr offset
    nextSamesize := update h.nextSamesize pr (h.sizebases blktype)
    sizebases := update h.sizebases blktype (some pr)
    nextAll := update h.nextAll pr h.allbase
    allbase := some pr
    mem := mem
    kpages := prpage :: h.kpages }

def newPage (h : Heap) (pr : Ref) (blktype : Fin NSIZES) (prpage : Nat) : Option Heap :=
  let nfree := PAGE_SIZE / sizes blktype
  (threadBlocks prpage (sizes blktype) (nfree - 1) 1 prpage
    (update h.mem prpage 0)).bind fun (fl, mem) =>
  kassert (fl - prpage = (nfree - 1) * sizes blktype) <|
    some (linkPage h pr blktype prpage (fl - prpage) mem)

/-- 0 is NULL. `kpage` is what `alloc_kpages(1)` answers if it is asked. -/
def subpageKmalloc (h : Heap) (sz kpage : Nat) : Option (Heap × Nat) :=
  (blocktype sz).bind fun blktype =>
  (walk h.nextSamesize
      (fun pr => kassert (prBlocktype h pr = blktype) (some (decide (0 < h.nfree pr))))
      (NPAGEREFS + 1) (h.sizebases blktype)).bind fun found =>
  match found with
  | some pr => doalloc h pr
  | none =>
    (allocpageref h).bind fun (h, pr) =>
    match pr with
    | none => some (h, 0)
    | some pr =>
      if kpage = 0 then (freepageref h pr).map fun h => (h, 0)
      else (newPage h pr blktype kpage).bind fun h => doalloc h pr

def fillDeadbeef (mem : Nat → Nat) (a : Nat) : Nat → (Nat → Nat)
  | 0 => mem
  | n + 1 => update (fillDeadbeef mem a n) (a + 4 * n) 0xdeadbeef

def pushFree (h : Heap) (pr : Ref) (size ptraddr : Nat) : Heap := let prpage := prPageaddr h pr
  let offset := ptraddr - prpage
  let next := if h.freelistOffset pr = INVALID_OFFSET then 0 else prpage + h.freelistOffset pr
  { h with
    mem := update (fillDeadbeef h.mem ptraddr (size / 4)) (prpage + offset) next
    freelistOffset := update h.freelistOffset pr offset
    nfree := update h.nfree pr (h.nfree pr + 1) }

def putBack (h : Heap) (pr : Ref) (blktype : Fin NSIZES) (ptraddr : Nat) : Option Heap :=
  let prpage := prPageaddr h pr
  let size := sizes blktype
  kassert (ptraddr - prpage < PAGE_SIZE ∧ (ptraddr - prpage) % size = 0) <|
  let h := pushFree h pr size ptraddr
  kassert (h.nfree pr ≤ PAGE_SIZE / size) <|
  if h.nfree pr = PAGE_SIZE / size then
    (removeLists h pr blktype).bind fun h =>
      freepageref { h with kpages := h.kpages.erase prpage } pr
  else some h

/-- `subpage_kfree(ptr)`: false is the answer -1, not a block of this allocator. -/
def subpageKfree (h : Heap) (ptraddr : Nat) : Option (Heap × Bool) := (walk h.nextAll
      (fun pr => kassert (prBlocktype h pr < NSIZES)
        (some (decide (prPageaddr h pr ≤ ptraddr ∧
          ptraddr < (prPageaddr h pr + PAGE_SIZE) % 2 ^ 32))))
      (NPAGEREFS + 1) h.allbase).bind fun found =>
  match found with
  | none => some (h, false)
  | some pr =>
    if hb : prBlocktype h pr < NSIZES then
      (putBack h pr ⟨prBlocktype h pr, hb⟩ ptraddr).map fun h => (h, true)
    else none

structure Block where
  addr : Nat
  asked : Nat
  blktype : Fin NSIZES
  deriving DecidableEq

def Block.size (b : Block) : Nat := sizes b.blktype

structure State where
  heap : Heap
  live : List Block

inductive Event
  | kmalloc (sz kpage : Nat)
  | kfree (ptr : Nat)
  | store (addr value : Nat)

def State.malloced (s : State) (sz : Nat) (r : Heap × Nat) : State := match blocktype sz with
  | some b =>
    if r.2 = 0 then { s with heap := r.1 } else ⟨r.1, ⟨r.2, sz, b⟩ :: s.live⟩
  | none => { s with heap := r.1 }

def step (s : State) : Event → Option State
  | .kmalloc sz kpage => (subpageKmalloc s.heap sz kpage).map (s.malloced sz)
  | .kfree ptr =>
    (subpageKfree s.heap ptr).map fun r => ⟨r.1, s.live.filter fun b => b.addr ≠ ptr⟩
  | .store addr value =>
    some { s with heap := { s.heap with mem := update s.heap.mem addr value } }

def init (mem : Nat → Nat) : State where
  heap :=
    { nextSamesize := fun _ => none, nextAll := fun _ => none, pageaddrAndBlocktype := fun _ => 0
      freelistOffset := fun _ => 0, nfree := fun _ => 0, pagerefsInuse := fun _ => 0
      sizebases := fun _ => none, allbase := none, mem := mem, kpages := [] }
  live := []

/-- Only live blocks are freed, and stores stay out of free ones. `alloc_kpages` gives kseg0
addresses, so never the last page, whose end would wrap to 0. -/
def Fair (s : State) : Event → Prop
  | .kmalloc sz kpage => sz ≤ 2048 ∧
      (kpage = 0 ∨ kpage + PAGE_SIZE < 2 ^ 32 ∧ kpage % PAGE_SIZE = 0 ∧ kpage ∉ s.heap.kpages)
  | .kfree ptr => ∃ b ∈ s.live, b.addr = ptr
  | .store addr _ =>
      (∃ b ∈ s.live, b.addr ≤ addr ∧ addr < b.addr + b.size) ∨
      ∀ p ∈ s.heap.kpages, addr < p ∨ p + PAGE_SIZE ≤ addr

instance (s : State) : ∀ e, Decidable (Fair s e)
  | .kmalloc .. => inferInstanceAs (Decidable (_ ∧ _))
  | .kfree .. => inferInstanceAs (Decidable (∃ b ∈ s.live, _))
  | .store .. => inferInstanceAs (Decidable (_ ∨ _))

/-! ## What the representation must satisfy -/

def OnAll (h : Heap) (pr : Ref) : Prop := ∃ l, Chain h.nextAll h.allbase l ∧ pr ∈ l

def OnSize (h : Heap) (b : Fin NSIZES) (pr : Ref) : Prop :=
  ∃ l, Chain h.nextSamesize (h.sizebases b) l ∧ pr ∈ l

def nextFree (mem : Nat → Nat) (a : Nat) : Option Nat := if mem a = 0 then none else some (mem a)

def firstFree (h : Heap) (pr : Ref) : Option Nat :=
  if h.freelistOffset pr = INVALID_OFFSET then none
  else some (prPageaddr h pr + h.freelistOffset pr)

def IsBlock (page size a : Nat) : Prop := ∃ k < PAGE_SIZE / size, a = page + k * size

structure Sound (s : State) : Prop where
  disjoint : s.live.Pairwise fun a b => a.addr + a.size ≤ b.addr ∨ b.addr + b.size ≤ a.addr
  inside : ∀ b ∈ s.live, b.asked ≤ b.size ∧ ∃ pr, OnAll s.heap pr ∧
    prBlocktype s.heap pr = b.blktype ∧ prPageaddr s.heap pr ≤ b.addr ∧
    b.addr + b.size ≤ prPageaddr s.heap pr + PAGE_SIZE ∧ b.size ∣ b.addr - prPageaddr s.heap pr
  free : ∀ pr, OnAll s.heap pr → ∃ b : Fin NSIZES, prBlocktype s.heap pr = b ∧
    ∃ l, Chain (nextFree s.heap.mem) (firstFree s.heap pr) l ∧ l.Nodup ∧
      s.heap.nfree pr = l.length ∧
      ∀ a, a ∈ l ↔ IsBlock (prPageaddr s.heap pr) (sizes b) a ∧ ∀ c ∈ s.live, c.addr ≠ a
  lists : ∀ b pr, OnSize s.heap b pr ↔ OnAll s.heap pr ∧ prBlocktype s.heap pr = b
  bits : ∀ pr, inuse s.heap pr ↔ OnAll s.heap pr
  /-- Of every page that is kept some block is live, and no other page is kept. -/
  kept : ∀ p, p ∈ s.heap.kpages ↔ ∃ pr, OnAll s.heap pr ∧ prPageaddr s.heap pr = p
  needed : ∀ pr, OnAll s.heap pr →
    ∃ c ∈ s.live, prPageaddr s.heap pr ≤ c.addr ∧ c.addr < prPageaddr s.heap pr + PAGE_SIZE

end Os161.Kheap
