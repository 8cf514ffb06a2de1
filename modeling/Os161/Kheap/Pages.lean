import Os161.Kheap.Spec

/-!
# The parts of the subpage allocator

The blocks of a page, the bits of `pagerefs_inuse` and the loops over memory.
-/

open Function List

namespace Os161.Kheap

open Lib

theorem sizes_pos : ∀ b, 0 < sizes b := by decide

theorem sizes_dvd : ∀ b, sizes b ∣ PAGE_SIZE := by decide

theorem two_le_count : ∀ b, 2 ≤ PAGE_SIZE / sizes b := by decide

theorem count_mul_sizes (b : Fin NSIZES) : PAGE_SIZE / sizes b * sizes b = PAGE_SIZE :=
  Nat.div_mul_cancel (sizes_dvd b)

theorem blocktype_fits {sz : Nat} (h : sz ≤ 2048) : ∃ b, blocktype sz = some b ∧ sz ≤ sizes b := by
  cases hb : blocktype sz with
  | none =>
    have h7 := List.find?_eq_none.mp hb 7 (mem_finRange 7)
    exact absurd (decide_eq_true (show sz ≤ sizes 7 from h)) h7
  | some b => exact ⟨b, rfl, by simpa using List.find?_some hb⟩

theorem prPageaddr_aligned (h : Heap) (pr : Ref) : prPageaddr h pr % PAGE_SIZE = 0 :=
  Nat.mul_mod_left ..

variable {page a size ptr : Nat} {b : Fin NSIZES} {pr : Ref} {h : Heap}

theorem IsBlock.inside (h : IsBlock page (sizes b) a) :
    page ≤ a ∧ a + sizes b ≤ page + PAGE_SIZE := by
  obtain ⟨k, hk, rfl⟩ := h
  have hle : (k + 1) * sizes b ≤ PAGE_SIZE / sizes b * sizes b := Nat.mul_le_mul_right _ hk
  rw [count_mul_sizes, Nat.succ_mul] at hle
  omega

theorem IsBlock.apart {a' : Nat} (h : IsBlock page size a) (h' : IsBlock page size a')
    (hne : a ≠ a') : a + size ≤ a' ∨ a' + size ≤ a := by
  obtain ⟨k, -, rfl⟩ := h
  obtain ⟨k', -, rfl⟩ := h'
  have hk : k ≠ k' := by
    rintro rfl
    exact hne rfl
  rcases lt_or_gt_of_ne hk with hlt | hlt
  · have := Nat.mul_le_mul_right size (Nat.succ_le_of_lt hlt)
    rw [Nat.succ_mul] at this
    omega
  · have := Nat.mul_le_mul_right size (Nat.succ_le_of_lt hlt)
    rw [Nat.succ_mul] at this
    omega

theorem IsBlock.sub_mod (h : IsBlock page size a) : (a - page) % size = 0 := by
  obtain ⟨k, -, rfl⟩ := h
  rw [Nat.add_sub_cancel_left, Nat.mul_mod_left]

theorem IsBlock.outside {p p' : Nat} (ha : IsBlock p (sizes b) a)
    (hp : p % PAGE_SIZE = 0) (hp' : p' % PAGE_SIZE = 0) (hne : p ≠ p') :
    a + sizes b ≤ p' ∨ p' + PAGE_SIZE ≤ a := by
  have hin := ha.inside
  unfold PAGE_SIZE at *
  omega

theorem IsBlock.page_eq {p p' : Nat} {b' : Fin NSIZES} (ha : IsBlock p (sizes b) a)
    (hp : p % PAGE_SIZE = 0) (hp' : p' % PAGE_SIZE = 0) (ha' : IsBlock p' (sizes b') a) :
    p = p' := by
  by_contra hne
  have hout := ha.outside hp hp' hne
  have hin := ha'.inside
  have hb := sizes_pos b
  have hb' := sizes_pos b'
  omega

theorem ref_ext {q : Ref} (hw : wordOf pr = wordOf q) (hb : bitOf pr = bitOf q) : pr = q := by
  have hw' : pr.val / 32 = q.val / 32 := congrArg Fin.val hw
  unfold bitOf at hb
  apply Fin.ext
  omega

theorem bitOf_lt (pr : Ref) : bitOf pr < 32 := Nat.mod_lt _ (by decide)

theorem inuse_setWord (h : Heap) (pr q : Ref) (w : BitVec 32) : inuse (setWord h (wordOf pr) w) q =
      if wordOf q = wordOf pr then w.getLsbD (bitOf q) else inuse h q := by
  unfold inuse setWord
  by_cases hw : wordOf q = wordOf pr
  · simp [hw]
  · simp [hw]

theorem inuse_mark (h : Heap) (pr q : Ref) :
    inuse (setWord h (wordOf pr) (h.pagerefsInuse (wordOf pr) ||| BitVec.twoPow 32 (bitOf pr))) q =
      (inuse h q || decide (q = pr)) := by
  rw [inuse_setWord]
  by_cases hw : wordOf q = wordOf pr
  · rw [if_pos hw, BitVec.getLsbD_or, ← hw, ← inuse, BitVec.getLsbD_twoPow]
    have hq : q = pr ↔ bitOf pr = bitOf q := ⟨fun e => by rw [e], fun e => ref_ext hw e.symm⟩
    simp [hq, bitOf_lt]
  · have hq : q ≠ pr := fun e => hw (by rw [e])
    rw [if_neg hw, decide_eq_false hq, Bool.or_false]

theorem inuse_unmark (h : Heap) (pr q : Ref) : inuse (setWord h (wordOf pr)
        (h.pagerefsInuse (wordOf pr) &&& ~~~BitVec.twoPow 32 (bitOf pr))) q =
      (inuse h q && decide (q ≠ pr)) := by
  rw [inuse_setWord]
  by_cases hw : wordOf q = wordOf pr
  · rw [if_pos hw, BitVec.getLsbD_and, ← hw, ← inuse, BitVec.getLsbD_not, BitVec.getLsbD_twoPow]
    have hq : q = pr ↔ bitOf pr = bitOf q := ⟨fun e => by rw [e], fun e => ref_ext hw e.symm⟩
    simp [hq, bitOf_lt]
  · have hq : q ≠ pr := fun e => hw (by rw [e])
    rw [if_neg hw, decide_eq_true hq, Bool.and_true]

theorem exists_clear_bit {w : BitVec 32} (h : w ≠ BitVec.allOnes 32) :
    ∃ j : Fin 32, w.getLsbD j = false := by
  by_contra hn
  apply h
  apply BitVec.eq_of_getLsbD_eq
  intro i hi
  have hset := fun j : Fin 32 => Bool.eq_true_of_not_eq_false fun e => hn ⟨j, e⟩
  rw [BitVec.getLsbD_allOnes, decide_eq_true hi]
  exact hset ⟨i, hi⟩

theorem allocpageref_spec (h : Heap) : allocpageref h = some (h, none) ∨
    ∃ w pr, allocpageref h = some (setWord h (wordOf pr) w, some pr) ∧ inuse h pr = false ∧
      ∀ q, inuse (setWord h (wordOf pr) w) q = (inuse h q || decide (q = pr)) := by
  unfold allocpageref
  cases hi : (List.finRange 8).find? fun i => h.pagerefsInuse i != BitVec.allOnes 32 with
  | none => exact .inl rfl
  | some i =>
    have hfull : h.pagerefsInuse i ≠ BitVec.allOnes 32 := by simpa using List.find?_some hi
    cases hj : (List.finRange 32).find? fun j : Fin 32 => !(h.pagerefsInuse i).getLsbD j with
    | none =>
      obtain ⟨j, hclear⟩ := exists_clear_bit hfull
      have hset := List.find?_eq_none.mp hj j (mem_finRange j)
      exact absurd (by rw [hclear]; rfl) hset
    | some j =>
      have hclear : (h.pagerefsInuse i).getLsbD j = false := by simpa using List.find?_some hj
      obtain ⟨pr, hpr⟩ : ∃ pr : Ref, pr.val = i.val * 32 + j.val := ⟨⟨_, by omega⟩, rfl⟩
      obtain rfl : wordOf pr = i := Fin.ext (by simp only [wordOf]; omega)
      have hbit : bitOf pr = j := by simp only [bitOf]; omega
      refine .inr ⟨h.pagerefsInuse (wordOf pr) ||| BitVec.twoPow 32 (bitOf pr), pr, ?_, ?_,
        inuse_mark h pr⟩
      · have he : (⟨(wordOf pr).val * 32 + j.val, by omega⟩ : Ref) = pr := Fin.ext hpr.symm
        simp only [hj, hbit, he]
      · rw [inuse, hbit, hclear]

theorem freepageref_spec (h : Heap) (pr : Ref) (hp : inuse h pr) :
    ∃ w, freepageref h pr = some (setWord h (wordOf pr) w) ∧
      ∀ q, inuse (setWord h (wordOf pr) w) q = (inuse h q && decide (q ≠ pr)) := by
  exact ⟨_, kassert_pos hp, inuse_unmark h pr⟩

theorem threadBlocks_spec (fla : Nat) (hs : 0 < size) (n i fl : Nat) (mem : Nat → Nat)
    (hi : 1 ≤ i) :
    ∃ mem', threadBlocks fla size n i fl mem =
        some (if n = 0 then fl else fla + (i + n - 1) * size, mem') ∧
      (∀ k, i ≤ k → k < i + n → mem' (fla + k * size) = fla + (k - 1) * size) ∧
      ∀ a, (∀ k, i ≤ k → k < i + n → a ≠ fla + k * size) → mem' a = mem a := by
  induction n generalizing i fl mem with
  | zero =>
    refine ⟨mem, rfl, fun k hk hk' => ?_, fun a _ => rfl⟩
    omega
  | succ n ih =>
    obtain ⟨mem', heq, hin, hout⟩ := ih (i + 1) (fla + i * size)
      (update mem (fla + i * size) (fla + (i - 1) * size)) (by omega)
    have hne : fla + i * size ≠ fla + (i - 1) * size := by
      obtain ⟨m, rfl⟩ := Nat.exists_eq_add_of_le' hi
      rw [Nat.succ_mul, Nat.add_sub_cancel]
      omega
    refine ⟨mem', ?_, fun k hk hk' => ?_, fun a ha => ?_⟩
    · rw [threadBlocks, kassert_pos hne, heq]
      by_cases hn : n = 0
      · simp [hn]
      · have : i + 1 + n - 1 = i + (n + 1) - 1 := by omega
        simp [hn, this]
    · rcases Nat.lt_or_eq_of_le hk with hlt | rfl
      · exact hin k hlt (by omega)
      · -- the block of this round is not written again in the later ones
        rw [hout, update_self]
        intro k' hk' _ he
        have : i = k' := Nat.eq_of_mul_eq_mul_right hs (add_left_cancel he)
        omega
    · rw [hout a fun k hk hk' => ha k (by omega) (by omega)]
      exact update_of_ne (ha i le_rfl (by omega)) ..

theorem fillDeadbeef_of_lt_or_le (mem : Nat → Nat) (p a n : Nat) (h : a < p ∨ p + 4 * n ≤ a) :
    fillDeadbeef mem p n a = mem a := by
  induction n with
  | zero => rfl
  | succ n ih =>
    rw [fillDeadbeef, update_of_ne (by omega)]
    exact ih (by omega)

theorem chain_blocks {mem : Nat → Nat} {n : Nat} (hp : 0 < page) (h0 : mem page = 0)
    (hs : ∀ k, 1 ≤ k → k < n → mem (page + k * size) = page + (k - 1) * size) (m : Nat)
    (hm : m < n) :
    Chain (nextFree mem) (some (page + m * size))
      ((List.range (m + 1)).reverse.map fun k => page + k * size) := by
  induction m with
  | zero => simp [nextFree, h0]
  | succ m ih =>
    rw [range_succ, reverse_append, reverse_singleton, singleton_append, map_cons]
    refine ⟨rfl, ?_⟩
    have hnext : nextFree mem (page + (m + 1) * size) = some (page + m * size) := by
      rw [nextFree, hs (m + 1) (by omega) hm, Nat.add_sub_cancel, if_neg (by omega)]
    rw [hnext]
    exact ih (by omega)

theorem last_block_lt (b : Fin NSIZES) : (PAGE_SIZE / sizes b - 1) * sizes b < PAGE_SIZE := by
  have hall := count_mul_sizes b
  have hpos := sizes_pos b
  rw [Nat.sub_mul, hall, one_mul]
  exact Nat.sub_lt (by decide) hpos

theorem newPage_spec (h : Heap) (pr : Ref) (b : Fin NSIZES) {kpage : Nat} (hp : 0 < kpage) :
    ∃ mem, newPage h pr b kpage =
        some (linkPage h pr b kpage ((PAGE_SIZE / sizes b - 1) * sizes b) mem) ∧
      Chain (nextFree mem) (some (kpage + (PAGE_SIZE / sizes b - 1) * sizes b))
        ((List.range (PAGE_SIZE / sizes b)).reverse.map fun k => kpage + k * sizes b) ∧
      ∀ a, ¬ IsBlock kpage (sizes b) a → mem a = h.mem a := by
  have hcount := two_le_count b
  obtain ⟨mem, hthread, hin, hout⟩ := threadBlocks_spec kpage (sizes_pos b)
    (PAGE_SIZE / sizes b - 1) 1 kpage (update h.mem kpage 0) le_rfl
  rw [if_neg (by omega), Nat.add_sub_cancel_left] at hthread
  have hn : 1 + (PAGE_SIZE / sizes b - 1) = PAGE_SIZE / sizes b := by omega
  rw [hn] at hin hout
  refine ⟨mem, ?_, ?_, fun a ha => ?_⟩
  · unfold newPage
    simp only [hthread, Option.bind_some]
    rw [kassert_pos (Nat.add_sub_cancel_left ..), Nat.add_sub_cancel_left]
  · have h0 : mem kpage = 0 := by
      rw [hout, update_self]
      intro k hk _ he
      have := Nat.mul_pos hk (sizes_pos b)
      omega
    have hchain := chain_blocks hp h0 hin (PAGE_SIZE / sizes b - 1) (by omega)
    rwa [Nat.sub_add_cancel (by omega)] at hchain
  · rw [hout a fun k _ hk he => ha ⟨k, hk, he⟩]
    refine update_of_ne ?_ ..
    rintro rfl
    exact ha ⟨0, by omega, by omega⟩

theorem pushFree_mem
    (hp : prPageaddr h pr ≤ ptr) (ha : a < ptr ∨ ptr + sizes b ≤ a) :
    (pushFree h pr (sizes b) ptr).mem a = h.mem a := by
  have hpos := sizes_pos b
  simp only [pushFree]
  rw [update_of_ne (by omega)]
  exact fillDeadbeef_of_lt_or_le _ _ _ _ (by omega)

theorem firstFree_pushFree (hp : prPageaddr h pr ≤ ptr)
    (hlt : ptr < prPageaddr h pr + PAGE_SIZE) : firstFree (pushFree h pr size ptr) pr = some ptr := by
  simp only [firstFree, pushFree, update_self]
  rw [if_neg (by unfold PAGE_SIZE INVALID_OFFSET at *; omega)]
  exact congrArg some (Nat.add_sub_cancel' hp)

theorem nextFree_pushFree (h0 : 0 < prPageaddr h pr)
    (hp : prPageaddr h pr ≤ ptr) : nextFree (pushFree h pr size ptr).mem ptr = firstFree h pr := by
  have hptr : prPageaddr h pr + (ptr - prPageaddr h pr) = ptr := Nat.add_sub_cancel' hp
  simp only [pushFree, nextFree, firstFree, hptr, update_self]
  by_cases hoff : h.freelistOffset pr = INVALID_OFFSET
  · simp [hoff]
  · rw [if_neg hoff, if_neg hoff, if_neg (by omega)]

section linkPage

variable (h : Heap) (pr q : Ref) (b : Fin NSIZES) (kpage off : Nat) (mem : Nat → Nat)

theorem prPageaddr_linkPage (hal : kpage % PAGE_SIZE = 0) :
    prPageaddr (linkPage h pr b kpage off mem) q = if q = pr then kpage else prPageaddr h q := by
  unfold prPageaddr linkPage mkpab
  split
  · subst q
    simp only [update_self, PAGE_SIZE] at hal ⊢
    omega
  · rename_i hq
    simp [update_of_ne hq]

theorem prBlocktype_linkPage :
    prBlocktype (linkPage h pr b kpage off mem) q = if q = pr then b.val else prBlocktype h q := by
  have hb : b.val < 8 := b.isLt
  unfold prBlocktype linkPage mkpab
  split
  · subst q
    simp only [update_self, PAGE_SIZE]
    omega
  · rename_i hq
    simp [update_of_ne hq]

end linkPage

end Os161.Kheap
