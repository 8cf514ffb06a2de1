import Os161.Coremap.Spec
import Os161.Lib.Run

/-!
# When the page allocator is right

The scan counts on from what `count_pages` holds until it meets a used entry.
-/

open Os161.Lib

namespace Os161.Coremap

variable {cm : List Entry} {n i j count first last : Nat} {b : Bool}

theorem UsedIs.lt (h : UsedIs cm i b) : i < cm.length := by
  obtain ⟨e, he, -⟩ := h
  exact (List.getElem?_eq_some_iff.mp he).1

theorem UsedIs.unique {b' : Bool} (h : UsedIs cm i b) (h' : UsedIs cm i b') : b = b' := by
  obtain ⟨e, he, hb⟩ := h
  obtain ⟨e', he', hb'⟩ := h'
  rw [he] at he'
  cases he'
  exact hb.symm.trans hb'

@[simp] theorem setUsed_length (b : Bool) (j n : Nat) (cm : List Entry) :
    (setUsed b j n cm).length = cm.length := by simp [setUsed]

theorem setUsed_getElem? (b : Bool) (j n : Nat) (cm : List Entry) (i : Nat) :
    (setUsed b j n cm)[i]? =
      cm[i]?.map fun e => if j ≤ i ∧ i < j + n then { e with used := b } else e := by
  simp [setUsed, List.getElem?_mapIdx]

theorem usedIs_setUsed_modify {k : Nat} {f : Entry → Entry} {b' : Bool}
    (hf : ∀ e, (f e).used = e.used) (hlen : j + n ≤ cm.length) :
    UsedIs (setUsed b j n (cm.modify k f)) i b' ↔
      (j ≤ i ∧ i < j + n ∧ b' = b) ∨ (¬ (j ≤ i ∧ i < j + n) ∧ UsedIs cm i b') := by
  have hused : ∀ e, (if k = i then f e else e).used = e.used := by
    intro e
    split
    · exact hf e
    · rfl
  unfold UsedIs
  simp only [setUsed_getElem?, List.getElem?_modify, Option.map_eq_map, Option.map_map,
    Option.map_eq_some_iff, Function.comp_apply]
  by_cases hin : j ≤ i ∧ i < j + n
  · have hi : i < cm.length := by omega
    simp only [hin, and_self, if_true, true_and, not_true_eq_false, false_and, or_false]
    constructor
    · rintro ⟨e, ⟨x, -, rfl⟩, he⟩
      exact he.symm
    · rintro rfl
      exact ⟨_, ⟨cm[i], List.getElem?_eq_getElem hi, rfl⟩, rfl⟩
  · have hnot : ¬ (j ≤ i ∧ i < j + n ∧ b' = b) := fun h => hin ⟨h.1, h.2.1⟩
    simp only [hin, if_false, hnot, false_or, not_false_eq_true, true_and]
    constructor
    · rintro ⟨e, ⟨x, hx, rfl⟩, he⟩
      exact ⟨x, hx, (hused x).symm.trans he⟩
    · rintro ⟨e, he, hb⟩
      exact ⟨_, ⟨e, he, rfl⟩, (hused e).trans hb⟩

structure Scanned (cm : List Entry) (n i count : Nat) : Prop where
  le : count ≤ i
  lt : count < n
  room : Room cm (i - count) count
  none : ∀ j, j < i - count → ¬ Room cm j n

theorem Scanned.used (h : Scanned cm n i count) (hu : UsedIs cm i true) :
    Scanned cm n (i + 1) 0 where
  le := Nat.zero_le _
  lt := by have := h.lt; omega
  room := fun k h1 h2 => by omega
  none := fun j hj hroom => by
    by_cases hlt : j < i - count
    · exact h.none j hlt hroom
    · -- The run would go past entry `i`, which is used.
      have hn := h.lt
      have := (hroom i (by omega) (by omega)).unique hu
      cases this

theorem Scanned.unused (h : Scanned cm n i count) (hu : UsedIs cm i false)
    (hlt : count + 1 < n) : Scanned cm n (i + 1) (count + 1) where
  le := by have := h.le; omega
  lt := hlt
  room := fun k h1 h2 => by
    have hle := h.le
    by_cases hk : k = i
    · rw [hk]; exact hu
    · exact h.room k (by omega) (by omega)
  none := fun j hj => h.none j (by omega)

/-- The scan stops at the lowest run. -/
def ScanPost (cm : List Entry) (n : Nat) (r : Nat × Nat) : Prop :=
  (r.2 = n ∧ r.1 < cm.length ∧ n ≤ r.1 + 1 ∧ Room cm (r.1 + 1 - n) n ∧
    ∀ k < r.1 + 1 - n, ¬ Room cm k n) ∨ (r.2 ≠ n ∧ ∀ j, ¬ Room cm j n)

theorem scan_spec (hlen : cm.length < 2 ^ 32) (es : List Entry) (i count : Nat)
    (hes : cm.drop i = es) (hi : i ≤ cm.length) (h : Scanned cm n i count) :
    ScanPost cm n (scan n es i count) := by
  induction es generalizing i count with
  | nil =>
    have hend : cm.length ≤ i := List.drop_eq_nil_iff.mp hes
    have hlt := h.lt
    refine Or.inr ⟨by simp only [scan]; omega, fun j hroom => ?_⟩
    by_cases hj : j < i - count
    · exact h.none j hj hroom
    · have := (hroom (j + n - 1) (by omega) (by omega)).lt
      omega
  | cons e es ih =>
    have hget : cm[i]? = some e := by
      rw [← List.head?_drop, hes]; rfl
    have hlt : i < cm.length := (List.getElem?_eq_some_iff.mp hget).1
    have hdrop : cm.drop (i + 1) = es := by
      rw [← List.tail_drop, hes]; rfl
    have hle := h.le
    have hn := h.lt
    unfold scan
    by_cases hu : e.used = true
    · rw [if_pos hu]
      exact ih (i + 1) 0 hdrop hlt (h.used ⟨e, hget, hu⟩)
    · rw [if_neg hu]
      have huf : UsedIs cm i false := ⟨e, hget, by simpa using hu⟩
      have hmod : (count + 1) % 2 ^ 32 = count + 1 := Nat.mod_eq_of_lt (by omega)
      simp only [hmod]
      split
      · -- The run ends here.
        rename_i heq
        refine Or.inl ⟨heq, hlt, by simp only; omega, fun k h1 h2 => ?_,
          fun k hk => h.none k (by simp only at hk; omega)⟩
        by_cases hk : k = i
        · rw [hk]; exact huf
        · exact h.room k (by omega) (by omega)
      · exact ih (i + 1) (count + 1) hdrop hlt (h.unused huf (by omega))

theorem scan_start (hlen : cm.length < 2 ^ 32) (hn : 1 ≤ n)
    (h : count = 0 ∨ UsedIs cm 0 true) : ScanPost cm n (scan n cm 0 count) := by
  have hzero : Scanned cm n 0 0 := ⟨Nat.le_refl 0, hn, fun k h1 h2 => by omega, fun j hj => by omega⟩
  rcases h with rfl | ⟨e, he, hu⟩
  · exact scan_spec hlen cm 0 0 rfl (Nat.zero_le _) hzero
  · obtain ⟨es, rfl⟩ : ∃ es, cm = e :: es := by
      cases cm with
      | nil => cases he
      | cons x es => cases he; exact ⟨es, rfl⟩
    unfold scan
    rw [if_pos hu]
    exact scan_spec hlen es 1 0 rfl (by simp) (hzero.used ⟨e, rfl, hu⟩)

theorem scan_overrun (es : List Entry) (i count : Nat) (hes : ∀ e ∈ es, e.used = false)
    (hcount : n ≤ count) (hlen : count + es.length < 2 ^ 32) :
    scan n es i count = (i + es.length, count + es.length) := by
  induction es generalizing i count with
  | nil => rfl
  | cons e es ih =>
    simp only [List.length_cons] at hlen
    have hmod : (count + 1) % 2 ^ 32 = count + 1 := Nat.mod_eq_of_lt (by omega)
    have hused : e.used = false := hes e List.mem_cons_self
    simp only [scan, hused, Bool.false_eq_true, if_false, hmod]
    rw [if_neg (by omega), ih (i + 1) (count + 1) (fun x hx => hes x (List.mem_cons_of_mem e hx))
      (by omega) (by omega)]
    simp only [List.length_cons, Prod.mk.injEq]
    omega

theorem getppages_spec (hlen : cm.length < 2 ^ 32) (hn : 1 ≤ n) (c : Call)
    (hpage : ∀ (i : Nat) (e : Entry), cm[i]? = some e → pageFrame e.paddr = e.paddr)
    (h : c.countPages = 0 ∨ UsedIs cm 0 true) :
    (getppages cm n c = .none ∧ ∀ j, ¬ Room cm j n) ∨
      ∃ j e, cm[j]? = some e ∧ j + n ≤ cm.length ∧ Room cm j n ∧ (∀ k < j, ¬ Room cm k n) ∧
        getppages cm n c = .page e.paddr (setUsed true j n (cm.modify j (stampEntry n c))) := by
  unfold getppages
  dsimp only
  rcases scan_start hlen hn h with ⟨heq, hlt, hle, hroom, hlow⟩ | ⟨hne, hnone⟩
  · right
    have hj : (scan n cm 0 c.countPages).1 + 1 - n < cm.length := by omega
    have hget := List.getElem?_eq_getElem hj
    refine ⟨_, _, hget, by omega, hroom, hlow, ?_⟩
    rw [if_pos heq, if_neg (by omega), hget]
    dsimp only
    rw [if_pos (hpage _ _ hget)]
  · exact Or.inl ⟨if_neg hne, hnone⟩

/-! ## One page

A scan for a single page can only stop at an unused entry, whatever count it starts from. -/

theorem scan_one (es : List Entry) (i count : Nat) (h1 : (scan 1 es i count).2 = 1)
    (hlt : (scan 1 es i count).1 < i + es.length) :
    i ≤ (scan 1 es i count).1 ∧ ∃ e, es[(scan 1 es i count).1 - i]? = some e ∧ e.used = false := by
  induction es generalizing i count with
  | nil => simp [scan] at hlt
  | cons e es ih =>
    have hnext : ∀ count, (scan 1 es (i + 1) count).2 = 1 →
        (scan 1 es (i + 1) count).1 < i + (e :: es).length →
        i ≤ (scan 1 es (i + 1) count).1 ∧
          ∃ e', (e :: es)[(scan 1 es (i + 1) count).1 - i]? = some e' ∧ e'.used = false := by
      intro count h1 hlt
      obtain ⟨hle, e', he', hu⟩ := ih (i + 1) count h1 (by simp only [List.length_cons] at hlt; omega)
      refine ⟨by omega, e', ?_, hu⟩
      have hidx : (scan 1 es (i + 1) count).1 - i = (scan 1 es (i + 1) count).1 - (i + 1) + 1 := by
        omega
      rw [hidx, List.getElem?_cons_succ]
      exact he'
    unfold scan at h1 hlt ⊢
    by_cases hu : e.used = true
    · rw [if_pos hu] at h1 hlt ⊢
      exact hnext 0 h1 hlt
    · rw [if_neg hu] at h1 hlt ⊢
      by_cases hc : (count + 1) % 2 ^ 32 = 1
      · rw [if_pos hc] at h1 hlt ⊢
        exact ⟨Nat.le_refl i, e, by simp, by simpa using hu⟩
      · rw [if_neg hc] at h1 hlt ⊢
        exact hnext _ h1 hlt

theorem getppages_one {c : Call} {pa : Nat} {cm' : List Entry}
    (h : getppages cm 1 c = .page pa cm') :
    ∃ j e, cm[j]? = some e ∧ e.used = false ∧ e.paddr = pa ∧
      cm' = setUsed true j 1 (cm.modify j (stampEntry 1 c)) := by
  unfold getppages at h
  dsimp only at h
  split at h
  case isFalse => cases h
  case isTrue h1 =>
    split at h
    · cases h
    · obtain ⟨-, e, he, hu⟩ := scan_one cm 0 c.countPages h1 (by omega)
      rw [Nat.sub_zero] at he
      rw [Nat.add_sub_cancel, he] at h
      dsimp only at h
      split at h
      · cases h
        exact ⟨_, e, he, hu, rfl, rfl⟩
      · cases h

/-! ## Boot -/

structure Shape (firstaddr lastaddr : Nat) (cm : List Entry) : Prop where
  length : cm.length = lastaddr / pageSize
  paddr : ∀ i e, cm[i]? = some e → e.paddr = firstaddr + i * pageSize
  flag : ∀ i e, cm[i]? = some e → (e.flag = 1 ↔ i < fixedEntries lastaddr)

theorem Shape.length_lt (h : Shape first last cm) (hram : RamSize first last) :
    cm.length < 2 ^ 18 := by
  have := hram.last_le
  rw [h.length, pageSize]
  omega

theorem Shape.paddr_lt (h : Shape first last cm) (hram : RamSize first last)
    (hi : i < cm.length) : first + i * pageSize < kseg0 := by
  have := hram.last_le
  have := hram.first_lt
  have hl := h.length
  simp only [pageSize, kseg0] at *
  omega

theorem Shape.of_map {cm' : List Entry} (h : Shape first last cm)
    (hmap : cm'.map (fun e => (e.paddr, e.flag)) = cm.map fun e => (e.paddr, e.flag)) :
    Shape first last cm' := by
  have hget : ∀ (i : Nat) (e : Entry), cm'[i]? = some e →
      ∃ x : Entry, cm[i]? = some x ∧ x.paddr = e.paddr ∧ x.flag = e.flag := by
    intro i e he
    have := congrArg (·[i]?) hmap
    simp only [List.getElem?_map, he, Option.map_some] at this
    obtain ⟨x, hx, heq⟩ := Option.map_eq_some_iff.mp this.symm
    simp only [Prod.mk.injEq] at heq
    exact ⟨x, hx, heq⟩
  refine ⟨?_, fun i e he => ?_, fun i e he => ?_⟩
  · have := congrArg List.length hmap
    simpa [h.length] using this
  · obtain ⟨x, hx, hp, -⟩ := hget i e he
    rw [← hp]; exact h.paddr i x hx
  · obtain ⟨x, hx, -, hf⟩ := hget i e he
    rw [← hf]; exact h.flag i x hx

theorem map_setUsed_modify {k : Nat} {f : Entry → Entry} {α : Type} (g : Entry → α)
    (hf : ∀ e, g (f e) = g e) (hu : ∀ e b, g { e with used := b } = g e) :
    (setUsed b j n (cm.modify k f)).map g = cm.map g := by
  apply List.ext_getElem?
  intro i
  simp only [List.getElem?_map, setUsed_getElem?, List.getElem?_modify, Option.map_eq_map,
    Option.map_map]
  congr 1
  funext e
  split <;> split <;> simp [hf, hu]

theorem bootEntry_paddr (hram : RamSize first last) (hi : i < last / pageSize) :
    (bootEntry first last i).paddr = first + i * pageSize := by
  have hfirst := hram.first_lt
  have hlast := hram.last_le
  apply Nat.mod_eq_of_lt
  rw [pageSize] at hi ⊢
  omega

theorem bootEntry_flag : (bootEntry first last i).flag = 1 ↔ i < fixedEntries last := by
  unfold bootEntry
  by_cases hi : i < fixedEntries last
  · exact iff_of_true (if_pos hi) hi
  · dsimp only
    rw [if_neg hi]
    exact iff_of_false (by decide) hi

theorem getElem?_boot {e : Entry}
    (he : ((List.range n).map (bootEntry first last))[i]? = some e) :
    i < n ∧ e = bootEntry first last i := by
  rw [List.getElem?_map, Option.map_eq_some_iff] at he
  obtain ⟨k, hk, rfl⟩ := he
  obtain ⟨hlt, hk⟩ := List.getElem?_eq_some_iff.mp hk
  rw [List.getElem_range] at hk
  subst hk
  exact ⟨by simpa using hlt, rfl⟩

theorem vmBootstrap_spec (hram : RamSize first last) (h : vmBootstrap first last = some cm) :
    Shape first last cm ∧ ∀ i e, cm[i]? = some e → (e.used = true ↔ i < fixedEntries last) := by
  unfold vmBootstrap at h
  dsimp only at h
  split at h
  · cases h
  split at h
  swap
  · cases h
  cases h
  refine ⟨⟨by simp, fun i e he => ?_, fun i e he => ?_⟩, fun i e he => ?_⟩
  all_goals obtain ⟨hi, rfl⟩ := getElem?_boot he
  · exact bootEntry_paddr hram hi
  · exact bootEntry_flag
  · exact decide_eq_true_iff

theorem vmBootstrap_eq (hram : RamSize first last)
    (hroom : first + last / pageSize * sizeofCoremap ≠ last) :
    vmBootstrap first last = some ((List.range (last / pageSize)).map (bootEntry first last)) := by
  unfold vmBootstrap
  rw [if_neg hroom, if_pos]
  rw [List.all_eq_true]
  intro e he
  obtain ⟨i, hi, rfl⟩ := List.mem_map.mp he
  have hfirst := hram.first_page
  rw [decide_eq_true_eq, bootEntry_paddr hram (List.mem_range.mp hi)]
  unfold pageFrame pageSize at *
  omega

theorem bootEntry_last (hram : RamSize first last) :
    (bootEntry first last (last / pageSize - 1)).used = false ∧
      last ≤ (bootEntry first last (last / pageSize - 1)).paddr := by
  have hfirst := hram.first_lt
  have hpos := hram.first_pos
  have hpage := hram.first_page
  have hend := hram.last_page
  have hlt : last / pageSize - 1 < last / pageSize := by
    unfold pageSize at *
    omega
  constructor
  · unfold bootEntry fixedEntries
    rw [decide_eq_false_iff_not]
    unfold sizeofCoremap pageSize at *
    omega
  · rw [bootEntry_paddr hram hlt]
    unfold pageSize at *
    omega

/-- The last entry describes a frame that is not there. -/
theorem boot_exceeds_ram (hram : RamSize first last)
    (hroom : first + last / pageSize * sizeofCoremap < last) :
    ∃ cm, vmBootstrap first last = some cm ∧ ¬ FreeRam first last cm := by
  refine ⟨_, vmBootstrap_eq hram (Nat.ne_of_lt hroom), ?_⟩
  intro h
  obtain ⟨hused, hlast⟩ := bootEntry_last hram
  have hmem : bootEntry first last (last / pageSize - 1) ∈
      (List.range (last / pageSize)).map (bootEntry first last) := by
    apply List.mem_map_of_mem
    rw [List.mem_range]
    have hend := hram.last_page
    unfold pageSize at *
    omega
  have hinside := (h.inside _ hmem hused).2
  unfold pageSize at *
  omega

/-- The frame at 0x80000 is not there, and the one at 0x31000 holds the end of the coremap. -/
theorem boot_512k : ∃ cm ∈ vmBootstrap 0x30000 0x80000, ¬ FreeRam 0x30000 0x80000 cm ∧
    (∃ e ∈ cm, e.used = false ∧ e.paddr = 0x80000) ∧
    ∃ e ∈ cm, e.used = false ∧ e.paddr < 0x30000 + 0x80000 / pageSize * sizeofCoremap := by
  have hcm : ∃ cm ∈ vmBootstrap 0x30000 0x80000, (∃ e ∈ cm, e.used = false ∧ e.paddr = 0x80000) ∧
      ∃ e ∈ cm, e.used = false ∧ e.paddr < 0x30000 + 0x80000 / pageSize * sizeofCoremap := by
    decide +kernel
  obtain ⟨cm, hcm, ⟨e, he, hused, hpaddr⟩, htable⟩ := hcm
  refine ⟨cm, hcm, ?_, ⟨e, he, hused, hpaddr⟩, htable⟩
  intro h
  have hinside := (h.inside e he hused).2
  rw [hpaddr] at hinside
  exact absurd hinside (by decide)

theorem boot_exceeds_ram_512k : RamSize 0x30000 0x80000 ∧
    ∃ cm, vmBootstrap 0x30000 0x80000 = some cm ∧ ¬ FreeRam 0x30000 0x80000 cm := by
  have hram : RamSize 0x30000 0x80000 := ⟨by decide, by decide, by decide, by decide, by decide⟩
  exact ⟨hram, boot_exceeds_ram hram (by decide)⟩

section Runs

variable (hram : RamSize first last)
include hram

variable {i : Nat}

section

variable (h : Shape first last cm)
include h

theorem Shape.kvaddr {e : Entry} (he : cm[i]? = some e) :
    paddrToKvaddr e.paddr = first + i * pageSize + kseg0 := by
  have hlt := h.paddr_lt hram (List.getElem?_eq_some_iff.mp he).1
  rw [paddrToKvaddr, h.paddr i e he]
  simp only [kseg0] at *
  omega

theorem Shape.kseg0_lt {e : Entry} (he : cm[i]? = some e) : kseg0 < paddrToKvaddr e.paddr := by
  have := hram.first_pos
  rw [h.kvaddr hram he]
  omega

theorem Shape.pageFrame (i : Nat) (e : Entry) (he : cm[i]? = some e) :
    pageFrame e.paddr = e.paddr := by
  have := hram.first_page
  rw [h.paddr i e he]
  simp only [Coremap.pageFrame, pageSize] at *
  omega

theorem startsAt_iff {r : Run} (hr : 1 ≤ r.pages) :
    StartsAt cm r j ↔ j + r.pages ≤ cm.length ∧ r.addr = first + j * pageSize + kseg0 := by
  refine and_congr_right fun hlen => ⟨?_, fun ha => ?_⟩
  · rintro ⟨e, he, ha⟩
    rw [← ha]; exact h.kvaddr hram he
  · have hget := List.getElem?_eq_getElem (show j < cm.length by omega)
    exact ⟨_, hget, by rw [h.kvaddr hram hget, ha]⟩

theorem covers_iff {r : Run} (hr : 1 ≤ r.pages)
    (hj : StartsAt cm r j) : Covers cm r i ↔ j ≤ i ∧ i < j + r.pages := by
  refine ⟨?_, fun hi => ⟨j, hj, hi⟩⟩
  rintro ⟨k, hk, hi⟩
  have h1 := ((startsAt_iff hram h hr).mp hj).2
  have h2 := ((startsAt_iff hram h hr).mp hk).2
  have : k = j := by simp only [pageSize] at *; omega
  exact this ▸ hi

end

end Runs

/-! ## The invariant -/

structure LiveAt (cm : List Entry) (r : Run) (j : Nat) : Prop where
  pages : 1 ≤ r.pages
  starts : StartsAt cm r j
  len : ∃ e, cm[j]? = some e ∧ e.len = r.pages

structure Inv (first last : Nat) (s : State) : Prop where
  shape : Shape first last s.coremap
  live : ∀ r ∈ s.live, ∃ j, LiveAt s.coremap r j
  disjoint : s.live.Pairwise fun r q => ∀ i, ¬ (Covers s.coremap r i ∧ Covers s.coremap q i)
  used : ∀ i, i < s.coremap.length →
    (UsedIs s.coremap i true ↔ (∃ r ∈ s.live, Covers s.coremap r i) ∨ i < fixedEntries last)
  fixed : ∀ r ∈ s.live, ∀ i, Covers s.coremap r i → fixedEntries last ≤ i

theorem inv_boot (hram : RamSize first last) (h : vmBootstrap first last = some cm) :
    Inv first last ⟨cm, []⟩ := by
  obtain ⟨hshape, hused⟩ := vmBootstrap_spec hram h
  refine ⟨hshape, by simp, by simp, fun i hi => ?_, by simp⟩
  have hget := List.getElem?_eq_getElem hi
  constructor
  · rintro ⟨e, he, hu⟩
    exact Or.inr ((hused i e he).mp hu)
  · rintro (⟨r, hr, -⟩ | hi)
    · simp at hr
    · exact ⟨_, hget, (hused i _ hget).mpr hi⟩

section Change

variable {cm' : List Entry} {r q : Run} {b : Bool} {i j k : Nat} {f : Entry → Entry}

theorem Shape.change (h : Shape first last cm) (hp : ∀ e, (f e).paddr = e.paddr)
    (hf : ∀ e, (f e).flag = e.flag) :
    Shape first last (setUsed b j n (cm.modify k f)) :=
  h.of_map (map_setUsed_modify _ (fun e => by rw [hp, hf]) fun e b => rfl)

theorem covers_congr (hram : RamSize first last) (h : Shape first last cm)
    (h' : Shape first last cm') (hr : 1 ≤ r.pages) : Covers cm' r i ↔ Covers cm r i := by
  simp [Covers, startsAt_iff hram h hr, startsAt_iff hram h' hr, h.length, h'.length]

theorem len_change {e : Entry} (he : cm[i]? = some e) :
    ∃ x, (setUsed b j n (cm.modify k f))[i]? = some x ∧ x.len = (if k = i then f e else e).len := by
  rw [setUsed_getElem?, List.getElem?_modify, he]
  refine ⟨_, rfl, ?_⟩
  dsimp only
  split <;> rfl

theorem LiveAt.change (hram : RamSize first last) (h : Shape first last cm)
    (h' : Shape first last (setUsed b j n (cm.modify j f))) (hq : LiveAt cm q k) (hne : j ≠ k) :
    LiveAt (setUsed b j n (cm.modify j f)) q k where
  pages := hq.pages
  starts := by
    have hs := hq.starts
    rw [startsAt_iff hram h hq.pages] at hs
    rw [startsAt_iff hram h' hq.pages]
    simpa using hs
  len := by
    obtain ⟨e, he, hlen⟩ := hq.len
    obtain ⟨x, hx, hxlen⟩ := len_change he
    exact ⟨x, hx, by rw [hxlen, if_neg hne, hlen]⟩

theorem LiveAt.covers_start (h : LiveAt cm r j) : Covers cm r j :=
  ⟨j, h.starts, Nat.le_refl j, by have := h.pages; omega⟩

end Change

theorem Inv.get (hram : RamSize first last) {s : State} (hinv : Inv first last s) (hn : 1 ≤ n)
    (c : Call) {e : Entry} (he : s.coremap[j]? = some e)
    (hlen : j + n ≤ s.coremap.length) (hroom : Room s.coremap j n) :
    Inv first last ⟨setUsed true j n (s.coremap.modify j (stampEntry n c)),
      ⟨paddrToKvaddr e.paddr, n⟩ :: s.live⟩ := by
  have hshape := hinv.shape
  have hshape' : Shape first last (setUsed true j n (s.coremap.modify j (stampEntry n c))) :=
    hshape.change (fun _ => rfl) fun _ => rfl
  have hold : ∀ q ∈ s.live, ∀ i,
      Covers (setUsed true j n (s.coremap.modify j (stampEntry n c))) q i ↔ Covers s.coremap q i :=
    fun q hq i => by
      obtain ⟨k, hk⟩ := hinv.live q hq
      exact covers_congr hram hshape hshape' hk.pages
  have hstart : StartsAt s.coremap ⟨paddrToKvaddr e.paddr, n⟩ j := ⟨hlen, e, he, rfl⟩
  have hnew : ∀ i, Covers (setUsed true j n (s.coremap.modify j (stampEntry n c)))
      ⟨paddrToKvaddr e.paddr, n⟩ i ↔ j ≤ i ∧ i < j + n := fun i => by
    rw [covers_congr hram hshape hshape' hn, covers_iff hram hshape hn hstart]
  -- Entries of live runs and fixed entries are used, so the new run has none of them.
  have hfresh : ∀ i, j ≤ i → i < j + n → ¬ ((∃ q ∈ s.live, Covers s.coremap q i) ∨
      i < fixedEntries last) := fun i h1 h2 h => by
    have hi : i < s.coremap.length := by omega
    have := ((hinv.used i hi).mpr h).unique (hroom i h1 h2)
    cases this
  refine ⟨hshape', ?_, ?_, fun i hi => ?_, ?_⟩
  · intro r hr
    rcases List.mem_cons.mp hr with rfl | hr
    · refine ⟨j, hn, ?_, ?_⟩
      · rw [startsAt_iff hram hshape' hn]
        simpa using (startsAt_iff hram hshape hn).mp hstart
      · obtain ⟨x, hx, hxlen⟩ := len_change he
        exact ⟨x, hx, by rw [hxlen, if_pos rfl]; rfl⟩
    · obtain ⟨k, hk⟩ := hinv.live r hr
      refine ⟨k, hk.change hram hshape hshape' ?_⟩
      rintro rfl
      exact hfresh j (Nat.le_refl j) (by omega) (Or.inl ⟨r, hr, hk.covers_start⟩)
  · refine List.pairwise_cons.mpr ⟨fun q hq i => ?_, hinv.disjoint.imp_of_mem fun hr hq h i => ?_⟩
    · rw [hnew, hold q hq]
      rintro ⟨⟨h1, h2⟩, hc⟩
      exact hfresh i h1 h2 (Or.inl ⟨q, hq, hc⟩)
    · rw [hold _ hr, hold _ hq]
      exact h i
  · have hi : i < s.coremap.length := by simpa using hi
    have hmem : (∃ r ∈ s.live, Covers (setUsed true j n (s.coremap.modify j (stampEntry n c))) r i)
        ↔ ∃ r ∈ s.live, Covers s.coremap r i :=
      exists_congr fun r => and_congr_right fun hr => hold r hr i
    rw [usedIs_setUsed_modify (f := stampEntry n c) (fun _ => rfl) hlen]
    simp only [List.mem_cons, exists_eq_or_imp, hnew, hmem, or_assoc, and_true, hinv.used i hi]
    by_cases hin : j ≤ i ∧ i < j + n
    · simp [hin]
    · simp [hin]
  · intro r hr i hc
    rcases List.mem_cons.mp hr with rfl | hr
    · obtain ⟨h1, h2⟩ := (hnew i).mp hc
      exact Nat.le_of_not_lt fun h => hfresh i h1 h2 (Or.inr h)
    · exact hinv.fixed r hr i ((hold r hr i).mp hc)

theorem freeKpages_live (hram : RamSize first last) (h : Shape first last cm) {r : Run}
    (hr : LiveAt cm r j) (curpid : Option Int) :
    freeKpages cm r.addr curpid =
      .ok (setUsed false j r.pages (cm.modify j fun e => { e with len := -1 })) := by
  obtain ⟨e, he, hlen⟩ := hr.len
  obtain ⟨hle, haddr⟩ := (startsAt_iff hram h hr.pages).mp hr.starts
  have hkseg : kseg0 < r.addr := by
    have := hram.first_pos
    omega
  have hfind : cm.findIdx? (isEntryOf r.addr curpid) = some j := by
    have hj : j < cm.length := (List.getElem?_eq_some_iff.mp he).1
    rw [List.findIdx?_eq_some_iff_getElem]
    refine ⟨hj, ?_, fun k hk => ?_⟩
    · have := h.kvaddr hram (List.getElem?_eq_getElem hj)
      rw [haddr] at hkseg ⊢
      simp [isEntryOf, this, hkseg, decide_true, Bool.true_or, Bool.and_self]
    · -- An earlier entry has a smaller address.
      have := h.kvaddr hram (List.getElem?_eq_getElem (Nat.lt_trans hk hj))
      simp only [isEntryOf, this, haddr, Bool.and_eq_true, decide_eq_true_eq, not_and, pageSize]
      omega
  rw [freeKpages, hfind]
  dsimp only
  rw [he]
  dsimp only
  rw [if_neg (by omega), hlen, Int.toNat_natCast, if_neg (by omega)]

theorem Inv.free (hram : RamSize first last) {s : State} (hinv : Inv first last s) {r : Run}
    (hr : r ∈ s.live) (hj : LiveAt s.coremap r j) :
    Inv first last ⟨setUsed false j r.pages (s.coremap.modify j fun e => { e with len := -1 }),
      s.live.erase r⟩ := by
  have hshape := hinv.shape
  have hshape' : Shape first last
      (setUsed false j r.pages (s.coremap.modify j fun e => { e with len := -1 })) :=
    hshape.change (fun _ => rfl) fun _ => rfl
  have hle : j + r.pages ≤ s.coremap.length := hj.starts.1
  have hcov : ∀ i, Covers s.coremap r i ↔ j ≤ i ∧ i < j + r.pages :=
    fun i => covers_iff hram hshape hj.pages hj.starts
  have hmem : ∀ q ∈ s.live.erase r, q ∈ s.live := fun q hq => List.mem_of_mem_erase hq
  have hold : ∀ q ∈ s.live, ∀ i, Covers (setUsed false j r.pages
      (s.coremap.modify j fun e => { e with len := -1 })) q i ↔ Covers s.coremap q i :=
    fun q hq i => by
      obtain ⟨k, hk⟩ := hinv.live q hq
      exact covers_congr hram hshape hshape' hk.pages
  -- No other live run shares an entry with `r`.
  have hother : ∀ q ∈ s.live.erase r, ∀ i, ¬ (Covers s.coremap r i ∧ Covers s.coremap q i) := by
    have hperm := List.perm_cons_erase hr
    have hpw := (hperm.pairwise_iff fun {x y} h i hi => h i ⟨hi.2, hi.1⟩).mp hinv.disjoint
    exact (List.pairwise_cons.mp hpw).1
  refine ⟨hshape', fun q hq => ?_, ?_, fun i hi => ?_, fun q hq i hc => ?_⟩
  · obtain ⟨k, hk⟩ := hinv.live q (hmem q hq)
    refine ⟨k, hk.change hram hshape hshape' ?_⟩
    rintro rfl
    exact hother q hq j ⟨hj.covers_start, hk.covers_start⟩
  · refine (hinv.disjoint.sublist (List.erase_sublist)).imp_of_mem fun hx hy h i => ?_
    rw [hold _ (hmem _ hx), hold _ (hmem _ hy)]
    exact h i
  · have hi : i < s.coremap.length := by simpa using hi
    rw [usedIs_setUsed_modify (f := fun e => { e with len := -1 }) (fun _ => rfl) hle,
      hinv.used i hi, ← and_assoc, ← hcov i]
    constructor
    · rintro (⟨-, h⟩ | ⟨hnr, ⟨q, hq, hc⟩ | hf⟩)
      · cases h
      · have hne : q ≠ r := fun h => hnr (h ▸ hc)
        exact Or.inl ⟨q, (List.mem_erase_of_ne hne).mpr hq, (hold q hq i).mpr hc⟩
      · exact Or.inr hf
    · rintro (⟨q, hq, hc⟩ | hf)
      · have hc' := (hold q (hmem q hq) i).mp hc
        exact Or.inr ⟨fun h => hother q hq i ⟨h, hc'⟩, Or.inl ⟨q, hmem q hq, hc'⟩⟩
      · exact Or.inr ⟨fun h => Nat.not_lt.mpr (hinv.fixed r hr i h) hf, Or.inr hf⟩
  · exact hinv.fixed q (hmem q hq) i ((hold q (hmem q hq) i).mp hc)

section Fixed

variable {s s' : State}

theorem Inv.zero_used (hfix : 0 < fixedEntries last) (hinv : Inv first last s) :
    UsedIs s.coremap 0 true := by
  have hl := hinv.shape.length
  have hlen : 0 < s.coremap.length := by
    simp only [fixedEntries, pageSize, sizeofCoremap] at hfix hl
    omega
  exact (hinv.used 0 hlen).mpr (Or.inr hfix)

variable (hram : RamSize first last) (hfix : 0 < fixedEntries last)
include hram hfix

theorem Inv.getppages (hinv : Inv first last s) (hn : 1 ≤ n) (c : Call) :
    (getppages s.coremap n c = .none ∧ ∀ j, ¬ Room s.coremap j n) ∨
      ∃ j e, s.coremap[j]? = some e ∧ j + n ≤ s.coremap.length ∧ Room s.coremap j n ∧
        (∀ k < j, ¬ Room s.coremap k n) ∧ getppages s.coremap n c =
          .page e.paddr (setUsed true j n (s.coremap.modify j (stampEntry n c))) :=
  getppages_spec (by have := hinv.shape.length_lt hram; omega) hn c (hinv.shape.pageFrame hram)
    (Or.inr (hinv.zero_used hfix))

theorem Inv.allocKpages (hinv : Inv first last s) (hn : 1 ≤ n) (c : Call) :
    (allocKpages s.coremap n c = .none ∧ ∀ j, ¬ Room s.coremap j n) ∨
      ∃ j e, s.coremap[j]? = some e ∧ j + n ≤ s.coremap.length ∧ Room s.coremap j n ∧
        (∀ k < j, ¬ Room s.coremap k n) ∧ allocKpages s.coremap n c = .page (paddrToKvaddr e.paddr)
          (setUsed true j n (s.coremap.modify j (stampEntry n c))) := by
  rcases hinv.getppages hram hfix hn c with ⟨h, hnone⟩ | ⟨j, e, he, hle, hroom, hlow, h⟩
  · exact Or.inl ⟨by rw [Coremap.allocKpages, h], hnone⟩
  · refine Or.inr ⟨j, e, he, hle, hroom, hlow, ?_⟩
    rw [Coremap.allocKpages, h]
    exact if_pos (hinv.shape.kseg0_lt hram he)

theorem step_inv (a : Event) (hinv : Inv first last s) (h : step s a = some s') :
    Inv first last s' := by
  cases a with
  | getppages n c =>
    simp only [step] at h
    split at h
    · cases h
    rename_i hn
    rcases hinv.getppages hram hfix (Nat.pos_of_ne_zero hn) c with
      ⟨hg, -⟩ | ⟨j, e, he, hle, hroom, -, hg⟩
    all_goals
      rw [hg] at h
      cases h
    · exact hinv
    · exact hinv.get hram (Nat.pos_of_ne_zero hn) c he hle hroom
  | allocKpages n c =>
    simp only [step] at h
    split at h
    · cases h
    rename_i hn
    rcases hinv.allocKpages hram hfix (Nat.pos_of_ne_zero hn) c with
      ⟨hg, -⟩ | ⟨j, e, he, hle, hroom, -, hg⟩
    all_goals
      rw [hg] at h
      cases h
    · exact hinv
    · exact hinv.get hram (Nat.pos_of_ne_zero hn) c he hle hroom
  | freeKpages r curpid =>
    simp only [step] at h
    split at h
    swap
    · cases h
    rename_i hr
    obtain ⟨j, hj⟩ := hinv.live r hr
    rw [freeKpages_live hram hinv.shape hj] at h
    cases h
    exact hinv.free hram hr hj

theorem Inv.sound (hinv : Inv first last s) : Sound s where
  disjoint := hinv.disjoint
  used := fun i e he => by
    have hi := (List.getElem?_eq_some_iff.mp he).1
    rw [hinv.shape.flag i e he, ← hinv.used i hi]
    exact ⟨fun h => ⟨e, he, h⟩, fun h => h.unique ⟨e, he, rfl⟩ |>.symm⟩
  get := fun n c hn => by
    rcases hinv.getppages hram hfix hn c with ⟨hg, hnone⟩ | ⟨j, e, he, hle, hroom, -, hg⟩
    all_goals rw [hg]
    · exact hnone
    · exact ⟨j, ⟨e, he, rfl⟩, hroom, fun i h1 h2 =>
        (usedIs_setUsed_modify (f := stampEntry n c) (fun _ => rfl) hle).mpr
          (Or.inl ⟨h1, h2, rfl⟩)⟩
  free := fun r hr curpid => by
    obtain ⟨j, hj⟩ := hinv.live r hr
    rw [freeKpages_live hram hinv.shape hj]
    exact ⟨j, hj.starts, fun i b => usedIs_setUsed_modify (fun _ => rfl) hj.starts.1⟩

end Fixed

/-- The coremap fills a whole page, so that entry 0 stays used for good. -/
theorem sound_iff_fixed (hram : RamSize first last) (hboot : vmBootstrap first last = some cm) :
    (∀ evs s, run step ⟨cm, []⟩ evs = some s → Sound s) ↔ 0 < fixedEntries last := by
  refine ⟨fun h => ?_, fun hfix evs s hrun => ?_⟩
  · by_contra hzero
    -- With `count_pages` 1 at the start, the first unused entry brings the count to 2.
    have hget := (h [] ⟨cm, []⟩ rfl).get 1 ⟨1, (0, 0), none⟩ (Nat.le_refl 1)
    obtain ⟨hshape, hused⟩ := vmBootstrap_spec hram hboot
    have hunused : ∀ e ∈ cm, e.used = false := fun e he => by
      obtain ⟨i, hi⟩ := List.mem_iff_getElem?.mp he
      simpa using mt (hused i e hi).mp (by omega)
    have hlen := hshape.length_lt hram
    have hpos : 0 < cm.length := by
      have := hram.first_lt
      have := hram.last_page
      rw [hshape.length]
      simp only [pageSize] at *
      omega
    have hnone : getppages cm 1 ⟨1, (0, 0), none⟩ = .none := by
      rw [getppages, scan_overrun cm 0 1 hunused (Nat.le_refl 1) (by omega)]
      exact if_neg (by simp only; omega)
    rw [hnone] at hget
    refine hget 0 fun i h1 h2 => ?_
    exact ⟨_, List.getElem?_eq_getElem (show i < cm.length by omega), hunused _ (List.getElem_mem _)⟩
  · exact (run_inv (fun s a s' hs hstep => step_inv hram hfix a hs hstep)
      (inv_boot hram hboot) hrun).sound hram hfix

theorem getppages_fails_with_all_unused :
    ∃ cm ∈ vmBootstrap 0x30000 0x40000, getppages cm 1 ⟨1, (0, 0), none⟩ = .none ∧
      Room cm 0 1 ∧ ¬ ∀ evs s, run step ⟨cm, []⟩ evs = some s → Sound s := by
  have hrun : ∃ cm ∈ vmBootstrap 0x30000 0x40000,
      getppages cm 1 ⟨1, (0, 0), none⟩ = .none ∧ cm[0]?.map Entry.used = some false := by
    decide +kernel
  obtain ⟨cm, hcm, hnone, hzero⟩ := hrun
  have hroom : Room cm 0 1 := fun i _ h => by
    obtain rfl : i = 0 := by omega
    exact Option.map_eq_some_iff.mp hzero
  refine ⟨cm, hcm, hnone, hroom, fun h => ?_⟩
  have hget := (h [] ⟨cm, []⟩ rfl).get 1 ⟨1, (0, 0), none⟩ (Nat.le_refl 1)
  rw [hnone] at hget
  exact hget 0 hroom

theorem sound_iff_fixed_512k : ∃ cm ∈ vmBootstrap 0x30000 0x80000,
      (∀ evs s, run step ⟨cm, []⟩ evs = some s → Sound s) ∧
      (run step ⟨cm, []⟩ [.getppages 2 ⟨7, (0, 0), none⟩, .allocKpages 1 ⟨1, (0, 0), none⟩,
        .freeKpages ⟨0x80031000, 2⟩ none]).isSome := by
  have hrun : ∃ cm ∈ vmBootstrap 0x30000 0x80000,
      (run step ⟨cm, []⟩ [.getppages 2 ⟨7, (0, 0), none⟩, .allocKpages 1 ⟨1, (0, 0), none⟩,
        .freeKpages ⟨0x80031000, 2⟩ none]).isSome := by
    decide +kernel
  obtain ⟨cm, hcm, hsome⟩ := hrun
  exact ⟨cm, hcm, (sound_iff_fixed (by constructor <;> decide) hcm).mpr (by decide), hsome⟩

end Os161.Coremap
