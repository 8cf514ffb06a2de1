import Os161.Container.Array
import Os161.Lib.Run
import Os161.Vm.Fault

/-!
# The regions of an executable

`load_elf` goes over the program headers twice. First `as_define_region` takes the first slot whose
base is 0; the second pass stores the file offsets, by the number of the header.
-/

open List Option

namespace Os161.Vm

open Lib

/-! ## What the two passes leave -/

def regionBase (vaddr : Nat) : Nat := vaddr / PAGE_SIZE * PAGE_SIZE

def regionPages (vaddr sz : Nat) : Nat :=
  ((sz + vaddr % PAGE_SIZE) % 2 ^ 32 + (PAGE_SIZE - 1)) % 2 ^ 32 / PAGE_SIZE

def loadAt (phs : List Phdr) (i : Nat) : Option Phdr := phs[i]?.filter fun ph => ph.p_type = .load

def slotFor (as : Addrspace) : Option Segment :=
  if as.r1.vbase = 0 then some .code else if as.r2.vbase = 0 then some .data else none

def defineLoad (junk : Nat → Nat) (as : Addrspace) (ph : Phdr) : Addrspace :=
  (asDefineRegion as ph.p_vaddr ph.p_memsz ph.p_filesz (ph.p_flags &&& 7) junk).1

def slotsFor (junk : Nat → Nat) : Addrspace → List Phdr → List (Option Segment)
  | _, [] => []
  | as, ph :: phs => slotFor as :: slotsFor junk (defineLoad junk as ph) phs

def Region.Of (r : Region) (ph : Phdr) : Prop :=
  r.shape = (regionBase ph.p_vaddr, regionPages ph.p_vaddr ph.p_memsz, ph.p_filesz, ph.p_offset)

/-- Each slot has the file data of its own header. -/
structure Paired (junk : Nat → Nat) (phs : List Phdr) (as as' : Addrspace) : Prop where
  slots : slotsFor junk as (loadHeaders phs) = [some .code, some .data].take (loadHeaders phs).length
  first : ∀ ph ∈ (loadHeaders phs)[0]?, as'.r1.Of ph
  second : ∀ ph ∈ (loadHeaders phs)[1]?, as'.r2.Of ph

/-- The same file data, or none when the offset that was there happens to be right. -/
def SameData (off : Nat) (ph : Phdr) : Option Phdr → Prop
  | some ph' => ph'.p_offset = ph.p_offset ∧ ph'.p_filesz = ph.p_filesz
  | none => off = ph.p_offset

/-- `junk` is what was in the memory of the new `struct addrspace`. -/
structure InPlace (junk : Addrspace) (phs : List Phdr) : Prop where
  two : (loadHeaders phs).length ≤ 2
  nonzero : (loadHeaders phs).length = 2 → ∀ ph ∈ (loadHeaders phs)[0]?, PAGE_SIZE ≤ ph.p_vaddr
  first : ∀ ph ∈ (loadHeaders phs)[0]?, SameData junk.r1.off ph (loadAt phs 1)
  second : ∀ ph ∈ (loadHeaders phs)[1]?, SameData junk.r2.off ph (loadAt phs 2)

section passes

variable {junk : Nat → Nat} {as as' : Addrspace} {ph : Phdr} {phs : List Phdr} {i v : Nat}

theorem regionBase_eq_zero {vaddr : Nat} : regionBase vaddr = 0 ↔ vaddr < PAGE_SIZE := by
  unfold regionBase PAGE_SIZE
  omega

theorem asDefineRegion_eq (as : Addrspace) (vaddr sz f_sz flag : Nat) (junk : Nat → Nat) :
    asDefineRegion as vaddr sz f_sz flag junk = if as.r1.vbase = 0 then
        ({ as with r1 := as.r1.define (regionBase vaddr) (regionPages vaddr sz) f_sz flag junk }, none)
      else if as.r2.vbase = 0 then
        ({ as with r2 := as.r2.define (regionBase vaddr) (regionPages vaddr sz) f_sz flag junk }, none)
      else (as, some .EUNIMP) := rfl

theorem defineRegions_loads (h : defineRegions junk phs as = (as', none)) :
    as' = (loadHeaders phs).foldl (defineLoad junk) as := by
  induction phs generalizing as with
  | nil =>
    cases h
    rfl
  | cons ph phs ih =>
    unfold defineRegions at h
    cases ht : ph.p_type with
    | null | phdr | reginfo =>
      simp only [ht] at h
      simpa [loadHeaders, ht] using ih h
    | other => simp [ht] at h
    | load =>
      have hl : loadHeaders (ph :: phs) = ph :: loadHeaders phs := by simp [loadHeaders, ht]
      simp only [ht] at h
      split at h
      · cases h
      · rename_i as₁ hd
        have heq : defineLoad junk as ph = as₁ := by
          unfold defineLoad
          rw [hd]
        rw [hl, foldl_cons, heq]
        exact ih h

def Region.setData (r : Region) : Option Phdr → Region
  | none => r
  | some ph => { r with off := ph.p_offset, filesz := ph.p_filesz }

theorem loadAt_cons_zero (ht : ph.p_type = .load) : loadAt (ph :: phs) 0 = some ph := by
  simp [loadAt, Option.filter, ht]

theorem loadAt_cons_zero_of_ne (ht : ph.p_type ≠ .load) : loadAt (ph :: phs) 0 = none := by
  simp [loadAt, Option.filter, ht]

@[simp] theorem loadAt_cons_succ : loadAt (ph :: phs) (i + 1) = loadAt phs i := by
  simp [loadAt]

def Region.setFrom (r : Region) (i k : Nat) (phs : List Phdr) : Region :=
  if i ≤ k then r.setData (loadAt phs (k - i)) else r

theorem setOffsets_eq (h : setOffsets i phs as = (as', none)) :
    as' = { as with r1 := as.r1.setFrom i 1 phs, r2 := as.r2.setFrom i 2 phs } := by
  induction phs generalizing as i with
  | nil =>
    cases h
    simp [Region.setFrom, loadAt, Region.setData]
  | cons ph phs ih =>
    unfold setOffsets at h
    -- only headers 1 and 2 are looked at, so the cases are what is left of them
    cases ht : ph.p_type with
    | other => simp [ht] at h
    | null | phdr | reginfo =>
      simp only [ht] at h
      rw [ih h]
      have hne : ph.p_type ≠ .load := by simp [ht]
      rcases i with _ | _ | _ | i <;>
        simp [Region.setFrom, loadAt_cons_zero_of_ne hne, Region.setData]
    | load =>
      simp only [ht] at h
      rw [ih h]
      rcases i with _ | _ | _ | i <;>
        simp [Region.setFrom, loadAt_cons_zero ht, Region.setData]

theorem loadElf_eq (h : loadElf as v phs junk = (as', none)) :
    as'.r1 = ((loadHeaders phs).foldl (defineLoad junk) as).r1.setData (loadAt phs 1) ∧
      as'.r2 = ((loadHeaders phs).foldl (defineLoad junk) as).r2.setData (loadAt phs 2) := by
  unfold loadElf at h
  cases hd : defineRegions junk phs as with
  | mk as₁ e =>
    rw [hd] at h
    cases e with
    | some e => simp at h
    | none =>
      have hs := setOffsets_eq h
      rw [defineRegions_loads hd] at hs
      rw [hs]
      exact ⟨rfl, rfl⟩

theorem Region.setData_of {r : Region} {o : Option Phdr}
    (hr : r.shape = (regionBase ph.p_vaddr, regionPages ph.p_vaddr ph.p_memsz, ph.p_filesz, v)) :
    (r.setData o).Of ph ↔ SameData v ph o := by
  simp only [Region.shape, Prod.mk.injEq] at hr
  obtain ⟨hb, hn, hf, ho⟩ := hr
  cases o with
  | none => simp [Region.setData, Region.Of, Region.shape, SameData, hb, hn, hf, ho]
  | some ph' => simp [Region.setData, Region.Of, Region.shape, SameData, hb, hn, and_comm]

@[simp] theorem length_slotsFor : (slotsFor junk as phs).length = phs.length := by
  induction phs generalizing as with
  | nil => rfl
  | cons ph phs ih => simp [slotsFor, ih]

theorem defineLoad_code (junk : Nat → Nat) (ph : Phdr) (h : as.r1.vbase = 0) :
    (defineLoad junk as ph).r1.shape = (regionBase ph.p_vaddr, regionPages ph.p_vaddr ph.p_memsz,
      ph.p_filesz, as.r1.off) ∧ (defineLoad junk as ph).r2 = as.r2 := by
  unfold defineLoad
  rw [asDefineRegion_eq, if_pos h]
  exact ⟨rfl, rfl⟩

theorem defineLoad_data (junk : Nat → Nat) (ph : Phdr) (h1 : as.r1.vbase ≠ 0)
    (h2 : as.r2.vbase = 0) :
    (defineLoad junk as ph).r2.shape = (regionBase ph.p_vaddr, regionPages ph.p_vaddr ph.p_memsz,
      ph.p_filesz, as.r2.off) ∧ (defineLoad junk as ph).r1 = as.r1 := by
  unfold defineLoad
  rw [asDefineRegion_eq, if_neg h1, if_pos h2]
  exact ⟨rfl, rfl⟩

theorem slotsFor_two (junk : Nat → Nat) (a b : Phdr) (h1 : as.r1.vbase = 0) (h2 : as.r2.vbase = 0) :
    slotsFor junk as [a, b] = [some .code, some .data] ↔ PAGE_SIZE ≤ a.p_vaddr := by
  obtain ⟨hshape, hr2⟩ := defineLoad_code junk a h1
  simp only [Region.shape, Prod.mk.injEq] at hshape
  have hz := @regionBase_eq_zero a.p_vaddr
  simp only [slotsFor, slotFor, h1, hr2, h2, hshape.1, hz, if_true, List.cons.injEq, true_and,
    and_true]
  split <;> simp <;> omega

theorem loadElf_paired_iff {junkAs : Addrspace}
    (h : loadElf (asCreate junkAs) v phs junk = (as', none)) :
    Paired junk phs (asCreate junkAs) as' ↔ InPlace junkAs phs := by
  obtain ⟨h1, h2⟩ := loadElf_eq h
  have hnew1 : (asCreate junkAs).r1.vbase = 0 := rfl
  have hnew2 : (asCreate junkAs).r2.vbase = 0 := rfl
  rcases hl : loadHeaders phs with _ | ⟨a, _ | ⟨b, _ | ⟨c, rest⟩⟩⟩
  · constructor
    · exact fun _ => ⟨by simp [hl], by simp [hl], by simp [hl], by simp [hl]⟩
    · exact fun _ => ⟨by simp [hl, slotsFor], by simp [hl], by simp [hl]⟩
  · -- one region: the slot is right, so the file data decides
    have hof : as'.r1.Of a ↔ SameData junkAs.r1.off a (loadAt phs 1) := by
      rw [h1, hl, foldl_cons, foldl_nil]
      exact Region.setData_of (defineLoad_code junk a hnew1).1
    constructor
    · exact fun hp => ⟨by simp [hl], by simp [hl], by simpa [hl, hof] using hp.first, by simp [hl]⟩
    · intro hp
      exact ⟨by simp [hl, slotsFor, slotFor, hnew1], by simpa [hl, hof] using hp.first, by simp [hl]⟩
  · have hslots := slotsFor_two junk a b hnew1 hnew2
    -- with a base that is not 0 the second header takes the second slot
    have hof : PAGE_SIZE ≤ a.p_vaddr → (as'.r1.Of a ↔ SameData junkAs.r1.off a (loadAt phs 1)) ∧
          (as'.r2.Of b ↔ SameData junkAs.r2.off b (loadAt phs 2)) := by
      intro ha
      obtain ⟨hshape, hr2⟩ := defineLoad_code junk a hnew1
      have hbase : (defineLoad junk (asCreate junkAs) a).r1.vbase ≠ 0 := by
        have hb := congrArg Prod.fst hshape
        have := (@regionBase_eq_zero a.p_vaddr).not.mpr (by omega)
        simp only [Region.shape] at hb
        rwa [hb]
      obtain ⟨hshape2, hr1⟩ := defineLoad_data junk b hbase (hr2 ▸ hnew2)
      rw [h1, h2, hl]
      simp only [foldl_cons, foldl_nil, hr1]
      exact ⟨Region.setData_of hshape, Region.setData_of hshape2⟩
    constructor
    · intro hp
      have ha : PAGE_SIZE ≤ a.p_vaddr := hslots.mp (by simpa [hl] using hp.slots)
      obtain ⟨ho1, ho2⟩ := hof ha
      exact ⟨by simp [hl], by simpa [hl] using ha, by simpa [hl, ho1] using hp.first,
        by simpa [hl, ho2] using hp.second⟩
    · intro hp
      have ha : PAGE_SIZE ≤ a.p_vaddr := hp.nonzero (by simp [hl]) a (by simp [hl])
      obtain ⟨ho1, ho2⟩ := hof ha
      exact ⟨by simpa [hl] using hslots.mpr ha, by simpa [hl, ho1] using hp.first,
        by simpa [hl, ho2] using hp.second⟩
  · -- a third region has no slot
    constructor
    · intro hp
      have hlen := congrArg List.length hp.slots
      simp [hl] at hlen
    · intro hp
      have htwo := hp.two
      simp [hl] at htwo

end passes

def codeHeader : Phdr := ⟨.load, 0x1000, 0x400000, 100, 100, 5⟩

def dataHeader : Phdr := ⟨.load, 0x2000, 0x10000000, 50, 200, 6⟩

def zeroSpace : Addrspace := ⟨⟨0, 0, 0, 0, 0, []⟩, ⟨0, 0, 0, 0, 0, []⟩, [], 0⟩

/-- Without a header before them, the code gets the offset of the data. -/
theorem loadElf_mismatched : ∃ as',
    loadElf (asCreate zeroSpace) 7 [codeHeader, dataHeader] (fun _ => 0) = (as', none) ∧
      as'.r1.vbase = codeHeader.p_vaddr ∧ as'.r1.off = dataHeader.p_offset ∧
      ¬ Paired (fun _ => 0) [codeHeader, dataHeader] (asCreate zeroSpace) as' := by
  refine ⟨_, rfl, rfl, rfl, ?_⟩
  intro h
  have hoff := h.first codeHeader rfl
  exact absurd hoff (by unfold Region.Of; decide)

def reginfoFirst : List Phdr := [⟨.reginfo, 0, 0, 0, 0, 4⟩, codeHeader, dataHeader]

theorem loadElf_paired_reginfo : ∃ as',
    loadElf (asCreate zeroSpace) 7 reginfoFirst (fun _ => 0) = (as', none) ∧
      Paired (fun _ => 0) reginfoFirst (asCreate zeroSpace) as' := by
  refine ⟨_, rfl, (loadElf_paired_iff rfl).mpr ⟨by decide, ?_, ?_, ?_⟩⟩
  · intro _ ph hph
    obtain rfl : codeHeader = ph := some.inj hph
    decide
  · intro ph hph
    obtain rfl : codeHeader = ph := some.inj hph
    exact ⟨rfl, rfl⟩
  · intro ph hph
    obtain rfl : dataHeader = ph := some.inj hph
    exact ⟨rfl, rfl⟩

/-! ## `as_define_region` and its memory

`pre`, `page i` and `grow i` tell whether `kmalloc` finds memory in `array_preallocate`, for the page
of round `i`, and in `array_add` in that round. Only a missing page ends the call: the kernel writes
through a null pointer. -/

namespace Alloc

structure Slot where
  vbase : Nat
  npages : Nat
  filesz : Nat
  off : Nat
  flag : Nat
  useg : Arr Page

structure Space where
  r1 : Slot
  r2 : Slot

/-- The slot of the first call is `r1`, that of the second one `r2`. -/
def Space.slot (as : Space) : Nat → Slot
  | 0 => as.r1
  | _ => as.r2

def asCreate (junk : Space) : Space where
  r1 := { junk.r1 with vbase := 0, npages := 0, useg := Arr.create }
  r2 := { junk.r2 with vbase := 0, npages := 0, useg := Arr.create }

structure Request where
  vaddr : Nat
  sz : Nat
  f_sz : Nat
  flag : Nat
  vaddr_lt : vaddr < 2 ^ 32
  sz_lt : sz < 2 ^ 32
  pre : Bool
  page : Nat → Bool
  grow : Nat → Bool
  junk : Nat → Nat

namespace Request

variable (q : Request)

def base : Nat := regionBase q.vaddr

def npages : Nat := regionPages q.vaddr q.sz

def newPage (i : Nat) : Page := ⟨(q.base + i * PAGE_SIZE) % 2 ^ 32, q.junk i, false, q.flag⟩

/-- One entry for each byte. When the `int` comes out negative, the loop does nothing. -/
def nguys : Nat := if q.npages * PAGE_SIZE < 2 ^ 31 then q.npages * PAGE_SIZE else 0

def addPages : Nat → Nat → Arr Page → Option (Arr Page)
  | 0, _, a => some a
  | n + 1, i, a =>
    if q.page i then (a.add (q.grow i) (q.newPage i)).bind fun r => addPages n (i + 1) r.1 else none

def fill (r : Slot) : Option Slot :=
  (r.useg.preallocate q.pre q.nguys).bind fun p => (q.addPages q.npages 0 p.1).map fun a =>
    { r with vbase := q.base, npages := q.npages, filesz := q.f_sz, flag := q.flag, useg := a }

end Request

def asDefineRegion (as : Space) (q : Request) : Option (Space × Option Errno) :=
  if as.r1.vbase = 0 then (q.fill as.r1).map fun r => ({ as with r1 := r }, none)
  else if as.r2.vbase = 0 then (q.fill as.r2).map fun r => ({ as with r2 := r }, none)
  else some (as, some .EUNIMP)

def step (as : Space) (q : Request) : Option Space := match asDefineRegion as q with
  | some (as', none) => some as'
  | _ => none

/-- All of the bytes, below USERTOP, and a page for each of its pages. -/
structure Covers (r : Slot) (q : Request) : Prop where
  base : r.vbase ≤ q.vaddr
  top : q.vaddr + q.sz ≤ r.vbase + r.npages * PAGE_SIZE
  user : r.vbase + r.npages * PAGE_SIZE ≤ USERSTACK
  count : r.useg.num = r.npages
  pages : r.useg.toList.map Page.vaddr = (List.range r.npages).map fun i => r.vbase + i * PAGE_SIZE

/-- Each call leaves the earlier regions alone, and after two of them there is no room. -/
structure Defined (junk : Space) (qs : List Request) (as : Space) : Prop where
  covered : ∀ k q before after, qs[k]? = some q →
    run step (asCreate junk) (qs.take k) = some before → step before q = some after →
    Covers (after.slot k) q ∧ ∀ j < k, after.slot j = before.slot j
  refused : qs.length = 2 → ∀ q, asDefineRegion as q = some (as, some .EUNIMP)

/-- At once, or at every round where it is full: it has 2, 6, 14 slots and so on. -/
def Request.Stocked (q : Request) : Prop := (q.pre = true ∧ q.npages * PAGE_SIZE < 2 ^ 31) ∨
    ∀ i < q.npages, (∃ k, i + 2 = 2 ^ k) → q.grow i = true

structure Fits (qs : List Request) : Prop where
  user : ∀ q ∈ qs, q.vaddr + q.sz ≤ USERSTACK
  nonzero : qs.length = 2 → ∀ q ∈ qs, PAGE_SIZE ≤ q.vaddr
  stocked : ∀ q ∈ qs, q.Stocked

variable {q : Request} {a a' : Arr Page} {l : List Page} {n i : Nat} {r r' : Slot}
  {as as' junk : Space} {qs : List Request}

/-! ### The loop -/

theorem addPages_succ (h : q.addPages (n + 1) i a = some a') :
    ∃ r, a.add (q.grow i) (q.newPage i) = some r ∧ q.addPages n (i + 1) r.1 = some a' := by
  unfold Request.addPages at h
  split at h
  · exact bind_eq_some_iff.mp h
  · cases h

theorem addPages_sublist (ha : a.Holds l) (h : q.addPages n i a = some a') :
    ∃ l', a'.Holds (l ++ l') ∧ l'.Sublist ((List.range' i n).map q.newPage) := by
  induction n generalizing a l i with
  | zero =>
    cases h
    exact ⟨[], by simpa using ha, by simp⟩
  | succ n ih =>
    obtain ⟨b, hadd, hrest⟩ := addPages_succ h
    rcases ha.add_cases (q.grow i) (q.newPage i) with ⟨-, hfail⟩ | ⟨a₁, hok, ha₁, -⟩
    · obtain rfl := some.inj (hadd.symm.trans hfail)
      obtain ⟨l', hl', hsub⟩ := ih ha hrest
      exact ⟨l', hl', hsub.cons _⟩
    · obtain rfl := some.inj (hadd.symm.trans hok)
      obtain ⟨l', hl', hsub⟩ := ih ha₁ hrest
      exact ⟨q.newPage i :: l', by simpa using hl', hsub.cons_cons _⟩

theorem addPages_num_le (ha : a.Holds l) (h : q.addPages n i a = some a') :
    a'.num ≤ l.length + n := by
  obtain ⟨l', hl', hsub⟩ := addPages_sublist ha h
  have hlen := hsub.length_le
  rw [hl'.num, length_append]
  simpa using hlen

theorem addPages_num_of_room (ha : a.Holds l) (hroom : l.length + n ≤ a.max)
    (h : q.addPages n i a = some a') : a'.num = l.length + n := by
  induction n generalizing a l i with
  | zero =>
    cases h
    exact ha.num
  | succ n ih =>
    obtain ⟨b, hadd, hrest⟩ := addPages_succ h
    obtain ⟨a₁, hok, ha₁, hmax⟩ := ha.add (by omega) (q.grow i) (q.newPage i)
    obtain rfl := some.inj (hadd.symm.trans hok)
    have hnum := ih ha₁ (by simp only [length_append, length_singleton]; omega) hrest
    rw [hnum, length_append, length_singleton]
    omega

/-- It has `2 ^ (k + 1) - 2` slots when round `i` starts, the last ones from the last growth. -/
def Doubled (i max : Nat) : Prop := ∃ k, max + 2 = 2 ^ (k + 1) ∧ 2 ^ k ≤ i + 1 ∧ i ≤ max

theorem Doubled.full_iff {max : Nat} (h : Doubled i max) : (∃ k, i + 2 = 2 ^ k) ↔ i = max := by
  obtain ⟨k, hmax, hlow, hle⟩ := h
  constructor
  · rintro ⟨j, hj⟩
    have hlt : 2 ^ k < 2 ^ j := by omega
    have hkj : k < j := (Nat.pow_lt_pow_iff_right (by decide)).mp hlt
    have hpow : 2 ^ (k + 1) ≤ 2 ^ j := Nat.pow_le_pow_right (by decide) hkj
    omega
  · rintro rfl
    exact ⟨k + 1, hmax⟩

theorem Doubled.room {max : Nat} (h : Doubled i max) (hlt : i < max) : Doubled (i + 1) max := by
  obtain ⟨k, hmax, hlow, -⟩ := h
  exact ⟨k, hmax, by omega, hlt⟩

theorem Doubled.grow {max : Nat} (h : Doubled max max) : Doubled (max + 1) ((max + 1) * 2) := by
  obtain ⟨k, hmax, -, -⟩ := h
  refine ⟨k + 1, ?_, ?_, ?_⟩
  · omega
  · omega
  · omega

theorem addPages_num_iff (ha : a.Holds l) (hd : Doubled l.length a.max)
    (h : q.addPages n l.length a = some a') :
    a'.num = l.length + n ↔
      ∀ i, l.length ≤ i → i < l.length + n → (∃ k, i + 2 = 2 ^ k) → q.grow i = true := by
  induction n generalizing a l with
  | zero =>
    cases h
    have hnum := ha.num
    constructor
    · intro _ i h1 h2
      omega
    · intro _
      exact hnum
  | succ n ih =>
    obtain ⟨b, hadd, hrest⟩ := addPages_succ h
    -- what the rounds after this one say, once the page is in
    have hnext : ∀ a₁, a.add (q.grow l.length) (q.newPage l.length) = some (a₁, true) →
        a₁.Holds (l ++ [q.newPage l.length]) → Doubled (l.length + 1) a₁.max →
        (a'.num = l.length + (n + 1) ↔ ∀ i, l.length + 1 ≤ i → i < l.length + 1 + n →
          (∃ k, i + 2 = 2 ^ k) → q.grow i = true) := by
      intro a₁ hok ha₁ hd₁
      obtain rfl := some.inj (hadd.symm.trans hok)
      have := ih ha₁ (by simpa using hd₁) (by simpa using hrest)
      simp only [length_append, length_singleton] at this
      rw [← this]
      omega
    by_cases hfull : l.length = a.max
    · obtain ⟨⟨a₁, hok, ha₁, hmax⟩, hfail⟩ := ha.add_full hfull (q.newPage l.length)
      cases hg : q.grow l.length with
      | true =>
        have hnum : a.num = a.max := ha.num.trans hfull
        have hd₁ : Doubled (l.length + 1) a₁.max := by
          rw [hmax, hnum, Arr.newmax_full, hfull]
          exact (hfull ▸ hd : Doubled a.max a.max).grow
        rw [hnext a₁ (by rw [hg]; exact hok) ha₁ hd₁]
        constructor
        · intro hall i h1 h2 hk
          rcases Nat.eq_or_lt_of_le h1 with rfl | hlt
          · exact hg
          · exact hall i hlt (by omega) hk
        · intro hall i h1 h2
          exact hall i (by omega) (by omega)
      | false =>
        rw [hg] at hadd
        obtain rfl := some.inj (hadd.symm.trans hfail)
        have hle := addPages_num_le ha hrest
        constructor
        · intro hnum
          omega
        · intro hall
          have := hall l.length (le_rfl) (by omega) (hd.full_iff.mpr hfull)
          rw [hg] at this
          cases this
    · have hle : l.length ≤ a.max := ha.num ▸ ha.le
      have hlt : l.length < a.max := by omega
      obtain ⟨a₁, hok, ha₁, hmax⟩ := ha.add hlt (q.grow l.length) (q.newPage l.length)
      rw [hnext a₁ hok ha₁ (hmax ▸ hd.room hlt)]
      constructor
      · intro hall i h1 h2 hk
        rcases Nat.eq_or_lt_of_le h1 with rfl | hlt'
        · exact absurd (hd.full_iff.mp hk) hfull
        · exact hall i hlt' (by omega) hk
      · intro hall i h1 h2
        exact hall i (by omega) (by omega)

/-! ### One region -/

theorem covered_iff (q : Request) :
    q.base ≤ q.vaddr ∧ q.vaddr + q.sz ≤ q.base + q.npages * PAGE_SIZE ∧
        q.base + q.npages * PAGE_SIZE ≤ USERSTACK ↔ q.vaddr + q.sz ≤ USERSTACK := by
  unfold Request.base Request.npages regionBase regionPages PAGE_SIZE USERSTACK
  omega

theorem newPage_vaddr (h : q.vaddr + q.sz ≤ USERSTACK) (hi : i < q.npages) :
    (q.newPage i).vaddr = q.base + i * PAGE_SIZE := by
  have huser := ((covered_iff q).mpr h).2.2
  unfold PAGE_SIZE USERSTACK at huser
  simp only [Request.newPage, PAGE_SIZE]
  omega

structure Filled (q : Request) (r r' : Slot) : Prop where
  vbase : r'.vbase = q.base
  npages : r'.npages = q.npages
  rest : (r'.filesz, r'.off, r'.flag) = (q.f_sz, r.off, q.flag)
  useg : ∃ l, r'.useg.Holds l ∧ l.Sublist ((List.range q.npages).map q.newPage)
  num : r'.useg.num = q.npages ↔ q.Stocked

theorem fill_spec (hnew : r.useg = Arr.create) (h : q.fill r = some r') : Filled q r r' := by
  unfold Request.fill at h
  rw [hnew] at h
  have hcreate : (Arr.create : Arr Page).Holds [] := Arr.holds_create
  obtain ⟨a, hpre, ha, -, hmax⟩ := hcreate.preallocate_cases q.pre q.nguys
  rw [hpre, bind_some, map_eq_some_iff] at h
  obtain ⟨a', hadd, rfl⟩ := h
  refine ⟨rfl, rfl, rfl, ?_, ?_⟩
  · obtain ⟨l, hl, hsub⟩ := addPages_sublist ha hadd
    exact ⟨l, hl, by rwa [← range_eq_range'] at hsub⟩
  · by_cases hroom : q.pre = true ∧ q.npages * PAGE_SIZE < 2 ^ 31
    · -- one slot for each byte is more than enough
      have hguys : q.npages ≤ a.max := by
        have hle := Arr.le_newmax (Arr.create : Arr Page) q.nguys
        have hn : q.npages ≤ q.nguys := by
          unfold Request.nguys PAGE_SIZE
          rw [if_pos hroom.2]
          omega
        rw [hmax hroom.1]
        omega
      have hnum := addPages_num_of_room ha (by simpa using hguys) hadd
      simp only [length_nil, Nat.zero_add] at hnum
      exact ⟨fun _ => .inl hroom, fun _ => hnum⟩
    · have hzero : a.max = 0 := by
        cases hp : q.pre with
        | false =>
          rw [hp, hcreate.shows.preallocate_fail] at hpre
          cases hpre
          rfl
        | true =>
          have hguys : q.nguys = 0 := if_neg fun hlt => hroom ⟨hp, hlt⟩
          rw [hmax hp, hguys]
          rfl
      have hd : Doubled ([] : List Page).length a.max :=
        ⟨0, by rw [hzero]; rfl, Nat.le_refl _, Nat.zero_le _⟩
      have hiff := addPages_num_iff ha hd hadd
      simp only [length_nil, Nat.zero_add, Nat.zero_le, true_implies] at hiff
      rw [hiff]
      exact ⟨.inr, fun hs => hs.resolve_left hroom⟩

namespace Filled

theorem toList (h : Filled q r r') (hs : q.Stocked) :
    r'.useg.toList = (List.range q.npages).map q.newPage := by
  obtain ⟨l, hl, hsub⟩ := h.useg
  rw [hl.toList]
  apply hsub.eq_of_length
  rw [← hl.num, h.num.mpr hs]
  simp

theorem covers_iff (h : Filled q r r') : Covers r' q ↔ q.vaddr + q.sz ≤ USERSTACK ∧ q.Stocked := by
  constructor
  · intro hc
    refine ⟨(covered_iff q).mp ?_, h.num.mp (hc.count.trans h.npages)⟩
    have htop := hc.top
    have huser := hc.user
    rw [h.vbase, h.npages] at htop huser
    exact ⟨h.vbase ▸ hc.base, htop, huser⟩
  · rintro ⟨hlt, hs⟩
    obtain ⟨hbase, htop, huser⟩ := (covered_iff q).mpr hlt
    rw [← h.vbase, ← h.npages] at htop huser
    refine ⟨h.vbase ▸ hbase, htop, huser, (h.num.mpr hs).trans h.npages.symm, ?_⟩
    rw [h.toList hs, h.npages, h.vbase, List.map_map]
    apply map_congr_left
    intro i hi
    exact newPage_vaddr hlt (mem_range.mp hi)

end Filled

theorem step_code (h1 : as.r1.vbase = 0) :
    step as q = (q.fill as.r1).map fun r => { as with r1 := r } := by
  unfold step asDefineRegion
  rw [if_pos h1]
  cases q.fill as.r1 <;> rfl

theorem step_data (h1 : as.r1.vbase ≠ 0) (h2 : as.r2.vbase = 0) :
    step as q = (q.fill as.r2).map fun r => { as with r2 := r } := by
  unfold step asDefineRegion
  rw [if_neg h1, if_pos h2]
  cases q.fill as.r2 <;> rfl

/-! ### Memory that is always found

`Vm.asDefineRegion` takes the memory for granted; where it is found, and the region is in user
space, the two agree. -/

def Slot.toRegion (r : Slot) : Region := ⟨r.vbase, r.npages, r.filesz, r.off, r.flag, r.useg.toList⟩

def Space.toAddrspace (as : Space) (rest : Addrspace) : Addrspace :=
  { rest with r1 := as.r1.toRegion, r2 := as.r2.toRegion }

theorem Filled.toRegion (h : Filled q r r') (hnew : r.useg = Arr.create)
    (hu : q.vaddr + q.sz ≤ USERSTACK) (hs : q.Stocked) :
    r'.toRegion = r.toRegion.define q.base q.npages q.f_sz q.flag q.junk := by
  obtain ⟨hfilesz, hoff, hflag⟩ : r'.filesz = q.f_sz ∧ r'.off = r.off ∧ r'.flag = q.flag := by
    simpa using h.rest
  have hpages : (List.range q.npages).map q.newPage = (List.range q.npages).map fun i =>
      ⟨q.base + i * PAGE_SIZE, q.junk i, false, q.flag⟩ := by
    apply map_congr_left
    intro i hi
    rw [← newPage_vaddr hu (mem_range.mp hi)]
    rfl
  unfold Slot.toRegion Region.define
  rw [h.vbase, h.npages, hfilesz, hoff, hflag, h.toList hs, hpages, hnew]
  rfl

theorem step_refines (hc : ∀ k, (as.slot k).vbase = 0 → (as.slot k).useg = Arr.create)
    (hu : q.vaddr + q.sz ≤ USERSTACK) (hs : q.Stocked) (h : step as q = some as')
    (rest : Addrspace) :
    Vm.asDefineRegion (as.toAddrspace rest) q.vaddr q.sz q.f_sz q.flag q.junk =
      (as'.toAddrspace rest, none) := by
  rw [asDefineRegion_eq]
  by_cases h1 : as.r1.vbase = 0
  · rw [step_code h1, map_eq_some_iff] at h
    obtain ⟨r, hf, rfl⟩ := h
    have h1' : (as.toAddrspace rest).r1.vbase = 0 := h1
    rw [if_pos h1']
    simp only [Space.toAddrspace, (fill_spec (hc 0 h1) hf).toRegion (hc 0 h1) hu hs]
    rfl
  · by_cases h2 : as.r2.vbase = 0
    · rw [step_data h1 h2, map_eq_some_iff] at h
      obtain ⟨r, hf, rfl⟩ := h
      have h1' : ¬ (as.toAddrspace rest).r1.vbase = 0 := h1
      have h2' : (as.toAddrspace rest).r2.vbase = 0 := h2
      rw [if_neg h1', if_pos h2']
      simp only [Space.toAddrspace, (fill_spec (hc 1 h2) hf).toRegion (hc 1 h2) hu hs]
      rfl
    · unfold step asDefineRegion at h
      rw [if_neg h1, if_neg h2] at h
      cases h

/-! ### Two calls -/

theorem step_first (h : step (asCreate junk) q = some as) :
    Filled q (asCreate junk).r1 as.r1 ∧ as.r2 = (asCreate junk).r2 := by
  rw [step_code rfl, map_eq_some_iff] at h
  obtain ⟨r, hf, rfl⟩ := h
  exact ⟨fill_spec rfl hf, rfl⟩

theorem step_second (h1 : as.r1.vbase ≠ 0) (h2 : as.r2 = (asCreate junk).r2)
    (h : step as q = some as') : Filled q as.r2 as'.r2 ∧ as'.r1 = as.r1 := by
  rw [step_data h1 (by rw [h2]; rfl), map_eq_some_iff] at h
  obtain ⟨r, hf, rfl⟩ := h
  exact ⟨fill_spec (by rw [h2]; rfl) hf, rfl⟩

theorem step_again (h1 : as.r1.vbase = 0) (h : step as q = some as') : as'.r2 = as.r2 := by
  rw [step_code h1, map_eq_some_iff] at h
  obtain ⟨r, -, rfl⟩ := h
  rfl

theorem refused_iff :
    (∀ q, asDefineRegion as q = some (as, some .EUNIMP)) ↔ as.r1.vbase ≠ 0 ∧ as.r2.vbase ≠ 0 := by
  unfold asDefineRegion
  constructor
  · intro h
    have hq := h ⟨0, 0, 0, 0, by decide, by decide, true, fun _ => true, fun _ => true, fun _ => 0⟩
    constructor
    · intro h1
      simp [h1] at hq
    · intro h2
      split at hq <;> simp at hq
  · rintro ⟨h1, h2⟩ q
    rw [if_neg h1, if_neg h2]

theorem base_ne_zero : q.base ≠ 0 ↔ PAGE_SIZE ≤ q.vaddr := by
  have := @regionBase_eq_zero q.vaddr
  unfold Request.base
  omega

theorem defined_iff (hlen : qs.length ≤ 2) (hrun : run step (asCreate junk) qs = some as) :
    Defined junk qs as ↔ Fits qs := by
  rcases qs with _ | ⟨q₁, _ | ⟨q₂, _ | ⟨q₃, rest⟩⟩⟩
  · constructor
    · exact fun _ => ⟨by simp, by simp, by simp⟩
    · exact fun _ => ⟨by simp, by simp⟩
  · -- one call
    obtain ⟨as₁, hstep, hnil⟩ := run_cons_some hrun
    cases hnil
    obtain ⟨hfill, -⟩ := step_first hstep
    constructor
    · intro h
      obtain ⟨hc, -⟩ := h.covered 0 q₁ _ _ rfl rfl hstep
      obtain ⟨hu, hs⟩ := hfill.covers_iff.mp hc
      exact ⟨by simpa using hu, by simp, by simpa using hs⟩
    · intro h
      refine ⟨?_, by simp⟩
      intro k q before after hk hbefore hafter
      obtain ⟨rfl, rfl⟩ : k = 0 ∧ q₁ = q := by
        rcases k with _ | k
        · exact ⟨rfl, by simpa using hk⟩
        · simp at hk
      cases hbefore
      obtain rfl := some.inj (hstep.symm.trans hafter)
      exact ⟨hfill.covers_iff.mpr ⟨h.user _ (by simp), h.stocked _ (by simp)⟩, by simp⟩
  · obtain ⟨as₁, hstep₁, hrest⟩ := run_cons_some hrun
    obtain ⟨as₂, hstep₂, hnil⟩ := run_cons_some hrest
    cases hnil
    obtain ⟨hfill₁, hr2⟩ := step_first hstep₁
    have hone : run step (asCreate junk) [q₁] = some as₁ := by
      rw [run_cons, hstep₁]
      rfl
    constructor
    · intro h
      obtain ⟨hne1, hne2⟩ := refused_iff.mp (h.refused rfl)
      have hbase : as₁.r1.vbase ≠ 0 := by
        intro hz
        rw [step_again hz hstep₂, hr2] at hne2
        exact hne2 rfl
      obtain ⟨hfill₂, hr1⟩ := step_second hbase hr2 hstep₂
      obtain ⟨hu1, hs1⟩ := hfill₁.covers_iff.mp (h.covered 0 q₁ _ _ rfl rfl hstep₁).1
      obtain ⟨hu2, hs2⟩ := hfill₂.covers_iff.mp (h.covered 1 q₂ _ _ rfl hone hstep₂).1
      rw [hfill₁.vbase] at hbase
      rw [hfill₂.vbase] at hne2
      exact ⟨by simpa using ⟨hu1, hu2⟩,
        by simpa using ⟨base_ne_zero.mp hbase, base_ne_zero.mp hne2⟩, by simpa using ⟨hs1, hs2⟩⟩
    · intro h
      have hn := h.nonzero rfl
      have hbase : as₁.r1.vbase ≠ 0 := by
        rw [hfill₁.vbase]
        exact base_ne_zero.mpr (hn q₁ (by simp))
      obtain ⟨hfill₂, hr1⟩ := step_second hbase hr2 hstep₂
      refine ⟨?_, fun _ => refused_iff.mpr ⟨hr1 ▸ hbase, ?_⟩⟩
      · intro k q before after hk hbefore hafter
        rcases k with _ | _ | k
        · cases hk
          cases hbefore
          obtain rfl := some.inj (hstep₁.symm.trans hafter)
          exact ⟨hfill₁.covers_iff.mpr ⟨h.user _ (by simp), h.stocked _ (by simp)⟩, by simp⟩
        · cases hk
          obtain rfl := some.inj (hone.symm.trans hbefore)
          obtain rfl := some.inj (hstep₂.symm.trans hafter)
          refine ⟨hfill₂.covers_iff.mpr ⟨h.user _ (by simp), h.stocked _ (by simp)⟩, ?_⟩
          intro j hj
          obtain rfl : j = 0 := by omega
          exact hr1
        · simp at hk
      · rw [hfill₂.vbase]
        exact base_ne_zero.mpr (hn q₂ (by simp))
  · simp at hlen

def request (vaddr sz : Nat) (hv : vaddr < 2 ^ 32) (hs : sz < 2 ^ 32) : Request :=
  ⟨vaddr, sz, 0, 7, hv, hs, false, fun _ => true, fun _ => true, fun _ => 0⟩

def noSlot : Slot := ⟨0, 0, 0, 0, 0, Arr.create⟩

/-- A size of 2^32 - 1 is rounded up to nothing. -/
theorem define_wraps : ∃ as,
    run step (asCreate ⟨noSlot, noSlot⟩) [request 0x400000 0xffffffff (by decide) (by decide)] =
      some as ∧ as.r1.vbase = 0x400000 ∧ as.r1.npages = 0 ∧
    ¬ Defined ⟨noSlot, noSlot⟩ [request 0x400000 0xffffffff (by decide) (by decide)] as := by
  refine ⟨_, rfl, rfl, rfl, ?_⟩
  intro h
  have htop := (h.covered 0 _ _ _ rfl rfl rfl).1.top
  exact absurd htop (by decide)

def twoRequests : List Request :=
  [request 0x400000 100 (by decide) (by decide), request 0x10000fff 2 (by decide) (by decide)]

theorem defined_two_regions : ∃ as, run step (asCreate ⟨noSlot, noSlot⟩) twoRequests = some as ∧
    Defined ⟨noSlot, noSlot⟩ twoRequests as ∧ as.r2.npages = 2 := by
  have hrun : ∃ as ∈ run step (asCreate ⟨noSlot, noSlot⟩) twoRequests, as.r2.npages = 2 := by
    decide +kernel
  obtain ⟨as, has, hpages⟩ := hrun
  refine ⟨as, has, (defined_iff (by decide) has).mpr ⟨?_, ?_, ?_⟩, hpages⟩
  · simp [twoRequests, request, USERSTACK]
  · simp [twoRequests, request, PAGE_SIZE]
  · simp [twoRequests, request, Request.Stocked]

end Alloc

end Os161.Vm
