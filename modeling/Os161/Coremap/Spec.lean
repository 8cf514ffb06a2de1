import Mathlib.Algebra.Group.Nat.Defs
import Mathlib.Data.List.Basic

/-!
# The physical page allocator

`getppages`, `free_kpages` and `vm_bootstrap` of `kern/vm/vm.c`. The machine words of these
functions are 32 bits wide.
-/

namespace Os161.Coremap

def pageSize : Nat := 4096

def kseg0 : Nat := 0x80000000

def paddrToKvaddr (paddr : Nat) : Nat := (paddr + kseg0) % 2 ^ 32

/-- `sizeof(struct coremap)`: nine words. -/
def sizeofCoremap : Nat := 36

/-- Without the fields of the swap code. `stamp` is `secs` and `nano`, unset before the first use.
-/
structure Entry where
  paddr : Nat
  used : Bool
  flag : Nat
  len : Int
  pid : Int
  stamp : Option (Int × Nat)
  deriving DecidableEq

def pageFrame (addr : Nat) : Nat := addr / pageSize * pageSize

/-- How many entries the coremap itself takes: `(freeaddr-firstaddr)/PAGE_SIZE`. -/
def fixedEntries (lastaddr : Nat) : Nat := lastaddr / pageSize * sizeofCoremap / pageSize

def bootEntry (firstaddr lastaddr i : Nat) : Entry where
  paddr := (firstaddr + i * pageSize) % 2 ^ 32
  used := i < fixedEntries lastaddr
  flag := if i < fixedEntries lastaddr then 1 else 0
  len := -1
  pid := -1
  stamp := none

/-- `lastaddr - freeaddr` is unsigned: the test for a negative difference is a test for zero. -/
def vmBootstrap (firstaddr lastaddr : Nat) : Option (List Entry) :=
  let coremapSize := lastaddr / pageSize
  let freeaddr := firstaddr + coremapSize * sizeofCoremap
  if freeaddr = lastaddr then none
  else
    let coremap := (List.range coremapSize).map (bootEntry firstaddr lastaddr)
    if coremap.all fun e => decide (pageFrame e.paddr = e.paddr) then some coremap else none

/-- What `ram_getsize` hands to `vm_bootstrap`. -/
structure RamSize (firstaddr lastaddr : Nat) : Prop where
  first_pos : 0 < firstaddr
  first_lt : firstaddr < lastaddr
  last_le : lastaddr ≤ 508 * 1024 * 1024
  first_page : firstaddr % pageSize = 0
  last_page : lastaddr % pageSize = 0

/-- `countPages` is what the uninitialised local `count_pages` happens to hold. -/
structure Call where
  countPages : Nat
  now : Int × Nat
  curpid : Option Int

/-- The index and the count that the scan stops at. -/
def scan (npages : Nat) : List Entry → Nat → Nat → Nat × Nat
  | [], i, count => (i, count)
  | e :: es, i, count =>
    if e.used then scan npages es (i + 1) 0
    else
      let count := (count + 1) % 2 ^ 32
      if count = npages then (i, count) else scan npages es (i + 1) count

def setUsed (b : Bool) (start n : Nat) (coremap : List Entry) : List Entry :=
  coremap.mapIdx fun i e => if start ≤ i ∧ i < start + n then { e with used := b } else e

def stampEntry (npages : Nat) (c : Call) (e : Entry) : Entry :=
  { e with len := npages, stamp := some c.now, pid := c.curpid.getD e.pid }

inductive Got where
  | none                                        -- returns 0
  | page (paddr : Nat) (coremap : List Entry)
  | wild                                        -- touches memory outside the coremap
  | panic
  deriving DecidableEq

def getppages (coremap : List Entry) (npages : Nat) (c : Call) : Got :=
  let r := scan npages coremap 0 c.countPages
  if r.2 = npages then
    -- The run is `i - npages + 1 .. i`. Nothing checks that it starts inside the array.
    if r.1 + 1 < npages ∨ coremap.length ≤ r.1 then .wild
    else
      let j := r.1 + 1 - npages
      match coremap[j]? with
      | .none => .wild
      | .some e =>
        if pageFrame e.paddr = e.paddr then
          .page e.paddr (setUsed true j npages (coremap.modify j (stampEntry npages c)))
        else .panic
  else .none

/-- `coremap_insertpid`: the first entry with this physical address gets the pid. -/
def coremapInsertpid (coremap : List Entry) (pa : Nat) (pid : Int) : Option (List Entry) :=
  (coremap.findIdx? fun e => decide (e.paddr = pa)).map fun i =>
    coremap.modify i fun e => { e with pid := pid }

def allocKpages (coremap : List Entry) (npages : Nat) (c : Call) : Got :=
  match getppages coremap npages c with
  | .page pa coremap =>
    let va := paddrToKvaddr pa
    if kseg0 < va then .page va coremap
    else match c.curpid with
      | .none => .panic
      | .some pid =>
        match coremapInsertpid coremap pa pid with
        | .none => .wild
        | .some coremap => .page va coremap
  | r => r

inductive Freed where
  | ok (coremap : List Entry)
  | wild
  | panic
  deriving DecidableEq

/-- The entry that `free_kpages` looks for. A kernel address has no owner. -/
def isEntryOf (addr : Nat) (curpid : Option Int) (e : Entry) : Bool :=
  decide (paddrToKvaddr e.paddr = addr) && (decide (kseg0 < addr) || decide (curpid = some e.pid))

def freeKpages (coremap : List Entry) (addr : Nat) (curpid : Option Int) : Freed :=
  match coremap.findIdx? (isEntryOf addr curpid) with
  | .none => .panic
  | .some i =>
    match coremap[i]? with
    | .none => .wild
    | .some e =>
      if e.len = -1 then .panic
      else if coremap.length < i + e.len.toNat then .wild
      else .ok (setUsed false i e.len.toNat (coremap.modify i fun e => { e with len := -1 }))

structure Run where
  addr : Nat
  pages : Nat
  deriving DecidableEq

structure State where
  coremap : List Entry
  live : List Run

inductive Event where
  | getppages (npages : Nat) (c : Call)
  | allocKpages (npages : Nat) (c : Call)
  | freeKpages (run : Run) (curpid : Option Int)

/-- `free_kpages` is called once for each address handed out. -/
def step (s : State) : Event → Option State
  | .getppages npages c =>
    if npages = 0 then .none
    else match getppages s.coremap npages c with
      | .none => .some s
      | .page paddr coremap => .some ⟨coremap, ⟨paddrToKvaddr paddr, npages⟩ :: s.live⟩
      | .wild | .panic => .none
  | .allocKpages npages c =>
    if npages = 0 then .none
    else match allocKpages s.coremap npages c with
      | .none => .some s
      | .page va coremap => .some ⟨coremap, ⟨va, npages⟩ :: s.live⟩
      | .wild | .panic => .none
  | .freeKpages r curpid =>
    if r ∈ s.live then
      match freeKpages s.coremap r.addr curpid with
      | .ok coremap => .some ⟨coremap, s.live.erase r⟩
      | .wild | .panic => .none
    else .none

/-! ## What the allocator promises -/

def UsedIs (coremap : List Entry) (i : Nat) (b : Bool) : Prop :=
  ∃ e, coremap[i]? = some e ∧ e.used = b

def StartsAt (coremap : List Entry) (r : Run) (j : Nat) : Prop :=
  j + r.pages ≤ coremap.length ∧ ∃ e, coremap[j]? = some e ∧ paddrToKvaddr e.paddr = r.addr

def Covers (coremap : List Entry) (r : Run) (i : Nat) : Prop :=
  ∃ j, StartsAt coremap r j ∧ j ≤ i ∧ i < j + r.pages

def Room (coremap : List Entry) (j n : Nat) : Prop :=
  ∀ i, j ≤ i → i < j + n → UsedIs coremap i false

def GetOk (coremap : List Entry) (n : Nat) : Got → Prop
  | .none => ∀ j, ¬ Room coremap j n
  | .page paddr coremap' => ∃ j, (∃ e, coremap[j]? = some e ∧ e.paddr = paddr) ∧
      Room coremap j n ∧ ∀ i, j ≤ i → i < j + n → UsedIs coremap' i true
  | .wild => False
  | .panic => False

def FreeOk (coremap : List Entry) (r : Run) : Freed → Prop
  | .ok coremap' => ∃ j, StartsAt coremap r j ∧ ∀ i b, UsedIs coremap' i b ↔
      (j ≤ i ∧ i < j + r.pages ∧ b = false) ∨ (¬ (j ≤ i ∧ i < j + r.pages) ∧ UsedIs coremap i b)
  | .wild => False
  | .panic => False

/-- The unused entries describe different frames inside RAM, none of them the coremap's. -/
structure FreeRam (firstaddr lastaddr : Nat) (coremap : List Entry) : Prop where
  inside : ∀ e ∈ coremap, e.used = false → firstaddr ≤ e.paddr ∧ e.paddr + pageSize ≤ lastaddr
  apart : ∀ e ∈ coremap, e.used = false →
    e.paddr + pageSize ≤ firstaddr ∨ firstaddr + lastaddr / pageSize * sizeofCoremap ≤ e.paddr
  distinct : coremap.Pairwise fun e e' => e.paddr ≠ e'.paddr

structure Sound (s : State) : Prop where
  disjoint : s.live.Pairwise fun r q => ∀ i, ¬ (Covers s.coremap r i ∧ Covers s.coremap q i)
  used : ∀ i e, s.coremap[i]? = some e →
    (e.used = true ↔ (∃ r ∈ s.live, Covers s.coremap r i) ∨ e.flag = 1)
  get : ∀ n c, 1 ≤ n → GetOk s.coremap n (getppages s.coremap n c)
  free : ∀ r ∈ s.live, ∀ curpid, FreeOk s.coremap r (freeKpages s.coremap r.addr curpid)

end Os161.Coremap
