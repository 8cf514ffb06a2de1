import Os161.Files.Spec

/-!
# When reference counts are exact

A fork leaves the child's own consoles behind, a program start that fails those it has opened, and
`_exit` all descriptors.
-/

open Os161.Lib Function Option

namespace Os161.Files

variable {s s' : State} {p f g : Nat} {fd : Fin maxFileOpen} {t : Table} {flag : Int} {o : Outcome}
variable {r : Except Int Unit} {os : Fin 3 → Outcome} {u : Table} {child : Nat}

@[simp] theorem mem_pointers {x : Nat × Fin maxFileOpen} :
    x ∈ pointers s f ↔ x.1 ∈ s.procs ∧ s.slot x.1 x.2 = some f := by
  simp [pointers]

theorem pointers_congr (h : ∀ q i, q ∈ s'.procs ∧ s'.slot q i = some f ↔
    q ∈ s.procs ∧ s.slot q i = some f) : pointers s' f = pointers s f := by
  ext x
  rw [mem_pointers, mem_pointers, h]

@[simp] theorem mem_openers {vn : Nat} : f ∈ openers s vn ↔ f ∈ s.live ∧ (s.file f).vn = vn := by
  simp [openers]

theorem slot_eq (ht : s.table p = some t) : s.slot p fd = t fd := by
  unfold State.slot
  rw [ht]
  rfl

theorem slot_setSlot (ht : s.table p = some t) (o : Option Nat) (q : Nat)
    (i : Fin maxFileOpen) :
    (s.setSlot p fd o).slot q i = if q = p ∧ i = fd then o else s.slot q i := by
  unfold State.slot State.setSlot
  by_cases hq : q = p
  · subst hq
    by_cases hi : i = fd
    · subst hi
      simp [ht]
    · simp [ht, hi]
  · simp [hq]

theorem freeSlot_none (h : freeSlot t = some fd) : t fd = none := by
  have := List.find?_some h
  simpa using this

structure Inv (s : State) : Prop where
  count : ∀ f ∈ s.live, (s.file f).refCount = 1
  single : ∀ f ∈ s.live, (pointers s f).card = 1
  points : ∀ p ∈ s.procs, ∀ fd f, s.slot p fd = some f → f ∈ s.live
  opencount : ∀ vn, s.opencount vn = (openers s vn).card

theorem inv_init (junk : Nat → File) : Inv (init junk) :=
  ⟨by simp [init], by simp [init], by simp [init], fun _ => rfl⟩

theorem Inv.exact (h : Inv s) : Exact s :=
  ⟨fun f hf => by simp [h.count f hf, h.single f hf], h.points, fun f hf => by simp [h.single f hf],
    h.opencount⟩

theorem Inv.congr (h : Inv s) (hlive : s'.live = s.live) (hfile : s'.file = s.file)
    (hopen : s'.opencount = s.opencount)
    (hslot : ∀ f q i, q ∈ s'.procs ∧ s'.slot q i = some f ↔ q ∈ s.procs ∧ s.slot q i = some f) :
    Inv s' := by
  refine ⟨?_, ?_, ?_, ?_⟩
  · intro f hf
    rw [hfile]
    exact h.count f (hlive ▸ hf)
  · intro f hf
    rw [pointers_congr (hslot f)]
    exact h.single f (hlive ▸ hf)
  · intro q hq i f hi
    obtain ⟨hq', hi'⟩ := (hslot f q i).mp ⟨hq, hi⟩
    rw [hlive]
    exact h.points q hq' i f hi'
  · intro vn
    have hsame : openers s' vn = openers s vn := by simp [openers, hlive, hfile]
    rw [hopen, hsame]
    exact h.opencount vn

theorem Inv.table (h : Inv s) (hlive : s'.live = s.live) (hfile : s'.file = s.file)
    (hopen : s'.opencount = s.opencount) (hother : ∀ q, q ≠ p → s'.table q = s.table q)
    (hprocs : ∀ q, q ≠ p → (q ∈ s'.procs ↔ q ∈ s.procs))
    (hold : p ∈ s.procs → ∀ i, s.slot p i = none) (hnew : p ∈ s'.procs → ∀ i, s'.slot p i = none) :
    Inv s' := by
  apply h.congr hlive hfile hopen
  intro f q i
  by_cases hq : q = p
  · subst hq
    constructor
    · rintro ⟨hq, hi⟩
      rw [hnew hq i] at hi
      cases hi
    · rintro ⟨hq, hi⟩
      rw [hold hq i] at hi
      cases hi
  · unfold State.slot
    rw [hother q hq, hprocs q hq]

/-! ## `fd_table_open` -/

theorem fdTableOpen_ok (h : fdTableOpen s p flag o = some (s', .ok fd)) :
    ∃ t f vn, s.table p = some t ∧ freeSlot t = some fd ∧ f ∉ s.live ∧ o.memory = some f ∧ o.vfs = .ok vn ∧
      s' = (s.opened f flag vn o.lock).setSlot p fd (some f) := by
  obtain ⟨t, ht, h⟩ := bind_eq_some_iff.mp h
  split at h
  · cases h
  · cases h
  · split at h <;> cases h
  · rename_i fd' f vn hslot hmem hvfs
    split at h
    · cases h
    · rename_i hf
      cases h
      exact ⟨t, f, vn, ht, hslot, hf, hmem, hvfs, rfl⟩

theorem fdTableOpen_error {e : Int} (h : fdTableOpen s p flag o = some (s', .error e)) :
    s' = s ∧ ∃ t, s.table p = some t ∧ (freeSlot t = none ∨ o.fails = true) := by
  obtain ⟨t, ht, h⟩ := bind_eq_some_iff.mp h
  split at h
  · next hfull =>
    cases h
    exact ⟨rfl, t, ht, .inl hfull⟩
  · next hmem =>
    cases h
    exact ⟨rfl, t, ht, .inr (by simp [Outcome.fails, hmem])⟩
  · next hvfs =>
    split at h <;> cases h
    exact ⟨rfl, t, ht, .inr (by simp [Outcome.fails, hvfs])⟩
  · split at h <;> cases h

section Open

variable {t : Table} {flag : Int} {vn : Nat} {lock : Bool}

theorem pointers_opened_self (h : Inv s) (hp : p ∈ s.procs) (ht : s.table p = some t)
    (hf : f ∉ s.live) : pointers ((s.opened f flag vn lock).setSlot p fd (some f)) f = {(p, fd)} := by
  ext ⟨q, i⟩
  rw [mem_pointers, slot_setSlot (show (s.opened f flag vn lock).table p = some t from ht)]
  constructor
  · rintro ⟨hq, hi⟩
    by_cases heq : q = p ∧ i = fd
    · simp [heq.1, heq.2]
    · rw [if_neg heq] at hi
      exact absurd (h.points q hq i f hi) hf
  · intro hx
    obtain ⟨rfl, rfl⟩ : q = p ∧ i = fd := by simpa using hx
    exact ⟨hp, by simp⟩

theorem pointers_opened_other (ht : s.table p = some t) (hfd : freeSlot t = some fd) (hg : g ≠ f) :
    pointers ((s.opened f flag vn lock).setSlot p fd (some f)) g = pointers s g := by
  apply pointers_congr
  intro q i
  rw [slot_setSlot (show (s.opened f flag vn lock).table p = some t from ht)]
  by_cases heq : q = p ∧ i = fd
  · obtain ⟨rfl, rfl⟩ := heq
    have hnone : s.slot q i = none := (slot_eq ht).trans (freeSlot_none hfd)
    simp [hnone, hg.symm]
  · rw [if_neg heq]
    rfl

theorem Inv.open (h : Inv s) (hp : p ∈ s.procs) (ht : s.table p = some t)
    (hfd : freeSlot t = some fd) (hf : f ∉ s.live) : Inv ((s.opened f flag vn lock).setSlot p fd (some f)) := by
  have hself : pointers ((s.opened f flag vn lock).setSlot p fd (some f)) f = {(p, fd)} :=
    pointers_opened_self h hp ht hf
  have hother : ∀ g ∈ s.live, pointers ((s.opened f flag vn lock).setSlot p fd (some f)) g =
      pointers s g := fun g hg =>
    pointers_opened_other ht hfd fun heq : g = f => hf (heq ▸ hg)
  have hfile : ∀ g ∈ s.live, (s.opened f flag vn lock).file g = s.file g := fun g hg =>
    update_of_ne (fun heq : g = f => hf (heq ▸ hg)) ..
  refine ⟨?_, ?_, ?_, ?_⟩
  · intro g hg
    rcases Finset.mem_insert.mp hg with rfl | hg
    · simp [State.setSlot, State.opened]
    · exact (congrArg File.refCount (hfile g hg)).trans (h.count g hg)
  · intro g hg
    rcases Finset.mem_insert.mp hg with rfl | hg
    · simp [hself]
    · rw [hother g hg]
      exact h.single g hg
  · intro q hq i g hi
    rw [slot_setSlot (show (s.opened f flag vn lock).table p = some t from ht)] at hi
    split at hi
    · cases hi
      exact Finset.mem_insert_self ..
    · exact Finset.mem_insert_of_mem (h.points q hq i g hi)
  · intro v
    have hold := h.opencount v
    have hmem : openers ((s.opened f flag vn lock).setSlot p fd (some f)) v =
        if vn = v then insert f (openers s v) else openers s v := by
      ext g
      by_cases hg : g = f
      · subst hg
        by_cases hv : vn = v <;> simp [State.setSlot, State.opened, hv, hf]
      · by_cases hv : vn = v <;> simp [State.setSlot, State.opened, hv, hg]
    rw [hmem]
    by_cases hv : vn = v
    · subst hv
      rw [if_pos rfl, Finset.card_insert_of_notMem (fun h => hf (mem_openers.mp h).1)]
      simp [State.setSlot, State.opened, hold]
    · rw [if_neg hv]
      simpa [State.setSlot, State.opened, Ne.symm hv] using hold

end Open

section

variable (h : Inv s) (hp : p ∈ s.procs)
include h hp

theorem Inv.pointer (hslot : s.slot p fd = some f) : pointers s f = {(p, fd)} := by
  obtain ⟨x, hx⟩ := Finset.card_eq_one.mp (h.single f (h.points p hp fd f hslot))
  have hmem : (p, fd) ∈ pointers s f := mem_pointers.mpr ⟨hp, hslot⟩
  rw [hx, Finset.mem_singleton] at hmem
  rw [hx, hmem]

theorem Inv.close (ht : s.table p = some t)
    (hfd : t fd = some f) : Inv (((s.addRef f (-1)).closed f).setSlot p fd none) := by
  have hslot : s.slot p fd = some f := (slot_eq ht).trans hfd
  have hptr := h.pointer hp hslot
  have hset : ∀ q i, (((s.addRef f (-1)).closed f).setSlot p fd none).slot q i =
      if q = p ∧ i = fd then none else s.slot q i :=
    slot_setSlot (show ((s.addRef f (-1)).closed f).table p = some t from ht) none
  have hother : ∀ g, g ≠ f → pointers (((s.addRef f (-1)).closed f).setSlot p fd none) g =
      pointers s g := by
    intro g hg
    apply pointers_congr
    intro q i
    rw [hset]
    split
    · rename_i heq
      obtain ⟨rfl, rfl⟩ := heq
      simp [hslot, hg.symm]
    · rfl
  have hfile : ∀ g, g ≠ f → (s.addRef f (-1)).file g = s.file g := fun g hg => update_of_ne hg ..
  have hlive : ∀ g, g ∈ ((s.addRef f (-1)).closed f).live ↔ g ≠ f ∧ g ∈ s.live :=
    fun g => Finset.mem_erase
  refine ⟨?_, ?_, ?_, ?_⟩
  · intro g hg
    obtain ⟨hne, hg⟩ := (hlive g).mp hg
    exact (congrArg File.refCount (hfile g hne)).trans (h.count g hg)
  · intro g hg
    obtain ⟨hne, hg⟩ := (hlive g).mp hg
    rw [hother g hne]
    exact h.single g hg
  · intro q hq i g hi
    rw [hset] at hi
    split at hi
    · cases hi
    rename_i hne
    refine (hlive g).mpr ⟨?_, h.points q hq i g hi⟩
    -- Another slot with the same file would be a second pointer.
    rintro rfl
    have hmem : (q, i) ∈ pointers s g := mem_pointers.mpr ⟨hq, hi⟩
    rw [hptr, Finset.mem_singleton, Prod.mk.injEq] at hmem
    exact hne hmem
  · intro v
    have hold := h.opencount v
    have hf : f ∈ s.live := h.points p hp fd f hslot
    have hmem : openers (((s.addRef f (-1)).closed f).setSlot p fd none) v =
        (openers s v).erase f := by
      ext g
      by_cases hg : g = f
      · subst hg
        simp [State.setSlot, State.closed]
      · simp [State.setSlot, State.closed, State.addRef, hg]
    rw [hmem]
    by_cases hv : (s.file f).vn = v
    · subst hv
      have hmem' : f ∈ openers s (s.file f).vn := mem_openers.mpr ⟨hf, rfl⟩
      have hcard := Finset.card_erase_add_one hmem'
      simp only [State.setSlot, State.closed, State.addRef, update_self, hold]
      omega
    · rw [Finset.erase_eq_of_notMem (fun h => hv (mem_openers.mp h).2)]
      simpa [State.setSlot, State.closed, State.addRef, Ne.symm hv] using hold

theorem Inv.fdTableClose {i : Int}
    (hc : fdTableClose s p i = some (s', r)) : Inv s' := by
  obtain ⟨t, ht, hc⟩ := bind_eq_some_iff.mp hc
  split at hc
  · cases hc
    exact h
  rename_i fd f hget
  have hfd : t fd = some f := by
    unfold fdTableGet at hget
    split at hget
    · dsimp only at hget
      split at hget
      · cases hget
      · cases hget
        assumption
    · cases hget
  have hcount := h.count f (h.points p hp fd f ((slot_eq ht).trans hfd))
  have hzero : ((s.addRef f (-1)).file f).refCount = 0 := by
    simp [State.addRef, hcount]
  simp only [hzero, if_true] at hc
  split at hc
  · cases hc
    exact h.close hp ht hfd
  · cases hc

end

structure Opens (s s' : State) (p : Nat) : Prop where
  procs : s'.procs = s.procs
  table : ∀ q, q ≠ p → s'.table q = s.table q
  live : ∀ f ∈ s.live, f ∈ s'.live
  some : (s.table p).isSome → (s'.table p).isSome

theorem Opens.refl (s : State) (p : Nat) : Opens s s p :=
  ⟨rfl, fun _ _ => rfl, fun _ h => h, fun h => h⟩

theorem Opens.trans {s₁ s₂ s₃ : State} (h : Opens s₁ s₂ p) (h' : Opens s₂ s₃ p) : Opens s₁ s₃ p :=
  ⟨h'.procs.trans h.procs, fun q hq => (h'.table q hq).trans (h.table q hq),
    fun f hf => h'.live f (h.live f hf), fun hp => h'.some (h.some hp)⟩

theorem opens_setSlot (o : Option Nat) : Opens s (s.setSlot p fd o) p :=
  ⟨rfl, fun _ hq => update_of_ne hq .., fun _ h => h, by simp [State.setSlot]⟩

theorem fdTableOpen_opens {r : Except Int (Fin maxFileOpen)}
    (h : fdTableOpen s p flag o = some (s', r)) : Opens s s' p := by
  cases r with
  | error e =>
    rw [(fdTableOpen_error h).1]
    exact Opens.refl s p
  | ok fd =>
    obtain ⟨t, f, vn, ht, -, -, -, -, rfl⟩ := fdTableOpen_ok h
    have hnew : Opens s (s.opened f flag vn o.lock) p :=
      ⟨rfl, fun _ _ => rfl, fun g hg => Finset.mem_insert_of_mem hg, fun h => h⟩
    exact hnew.trans (opens_setSlot _)

theorem Inv.fdTableOpen (h : Inv s) (hp : p ∈ s.procs)
    {r : Except Int (Fin maxFileOpen)} (ho : fdTableOpen s p flag o = some (s', r)) : Inv s' := by
  cases r with
  | error e =>
    rw [(fdTableOpen_error ho).1]
    exact h
  | ok fd =>
    obtain ⟨t, f, vn, ht, hfd, hf, -, -, rfl⟩ := fdTableOpen_ok ho
    exact h.open hp ht hfd hf

theorem openConsoles_opens {os : List (Int × Outcome)}
    (h : openConsoles s p os = some (s', r)) : Opens s s' p := by
  induction os generalizing s with
  | nil =>
    cases h
    exact Opens.refl ..
  | cons o os ih =>
    obtain ⟨⟨s₁, r₁⟩, ho, h⟩ := bind_eq_some_iff.mp h
    have hopens := fdTableOpen_opens ho
    cases r₁ with
    | error e =>
      cases h
      exact hopens
    | ok fd => exact hopens.trans (ih h)

theorem Inv.openConsoles {os : List (Int × Outcome)} (hinv : Inv s)
    (hp : p ∈ s.procs) (h : openConsoles s p os = some (s', r)) : Inv s' := by
  induction os generalizing s with
  | nil =>
    cases h
    exact hinv
  | cons o os ih =>
    obtain ⟨⟨s₁, r₁⟩, ho, h⟩ := bind_eq_some_iff.mp h
    have hinv₁ := hinv.fdTableOpen hp ho
    cases r₁ with
    | error e =>
      cases h
      exact hinv₁
    | ok fd =>
      refine ih hinv₁ ?_ h
      rw [(fdTableOpen_opens ho).procs]
      exact hp

theorem Inv.addProcess {procs : Finset Nat} (h : Inv s) (hp : p ∉ s.procs) (u : Option Table)
    (hprocs : ∀ q, q ≠ p → (q ∈ procs ↔ q ∈ s.procs))
    (hu : p ∈ procs → ∀ i, u.bind (fun t => t i) = none) :
    Inv { s.addProcess p with procs := procs, table := update (s.addProcess p).table p u } := by
  refine h.table (p := p) ?_ ?_ ?_ ?_ hprocs ?_ ?_
  · rfl
  · rfl
  · rfl
  · intro q hq
    simp [State.addProcess, hq]
  · exact fun h => absurd h hp
  · intro hmem i
    simpa [State.slot] using hu hmem i

theorem Inv.fdTableCreate (h : Inv s) (hp : p ∉ s.procs) {memory : Bool}
    (hc : fdTableCreate (s.addProcess p) p memory os = some (s', r)) :
    Inv s' := by
  have hprocs : ∀ q, q ≠ p → (q ∈ insert p s.procs ↔ q ∈ s.procs) := fun q hq => by simp [hq]
  unfold Files.fdTableCreate at hc
  split at hc
  · exact (h.addProcess hp _ hprocs fun _ _ => rfl).openConsoles (Finset.mem_insert_self ..) hc
  · cases hc
    simpa [State.addProcess] using h.addProcess hp none hprocs fun _ _ => rfl

theorem not_exact_of_lost (hf : f ∈ s.live)
    (h : ∀ q ∈ s.procs, ∀ i, s.slot q i ≠ some f) : ¬ Exact s := by
  intro hex
  obtain ⟨x, hx⟩ := Finset.card_pos.mp (hex.released f hf)
  obtain ⟨hq, hi⟩ := mem_pointers.mp hx
  exact h x.1 hq x.2 hi

theorem copySlot_frame (t : Table) (child : Nat) (i : Fin maxFileOpen)
    (hu : s.table child = some u) :
    Opens s (copySlot t child s i) child ∧
      (copySlot t child s i).table child = some (update u i (t i)) := by
  unfold copySlot
  split
  · rename_i hi
    exact ⟨opens_setSlot _, by simp [State.setSlot, hu, hi]⟩
  · rename_i f hi
    have hset : Opens s (s.setSlot child i (some f)) child := opens_setSlot _
    exact ⟨⟨hset.procs, hset.table, hset.live, hset.some⟩, by
      simp [State.setSlot, State.addRef, hu, hi]⟩

theorem foldl_copySlot (t : Table) (child : Nat) (l : List (Fin maxFileOpen))
    (hu : s.table child = some u) :
    Opens s (l.foldl (copySlot t child) s) child ∧
      ∃ w, (l.foldl (copySlot t child) s).table child = some w ∧
        ∀ i, w i = if i ∈ l then t i else u i := by
  induction l generalizing s u with
  | nil => exact ⟨Opens.refl s child, u, hu, by simp⟩
  | cons i l ih =>
    obtain ⟨hopens, htab⟩ := copySlot_frame t child i hu
    obtain ⟨hopens', w, hw, hall⟩ := ih htab
    refine ⟨hopens.trans hopens', w, hw, fun j => ?_⟩
    rw [hall j]
    by_cases hj : j ∈ l
    · simp [hj]
    · by_cases hji : j = i
      · subst hji
        simp [hj]
      · simp [hj, hji]

theorem copyTable_spec (t : Table) (child : Nat) (hu : s.table child = some u) :
    Opens s (copyTable s t child) child ∧ (copyTable s t child).table child = some t := by
  obtain ⟨hopens, w, hw, hall⟩ := foldl_copySlot t child (List.finRange maxFileOpen) hu
  refine ⟨hopens, hw.trans (congrArg some (funext fun i => ?_))⟩
  rw [hall i, if_pos (List.mem_finRange i)]

theorem fails_of_ok (h : fdTableOpen s p flag o = some (s', .ok fd)) : o.fails = false := by
  obtain ⟨t, f, vn, -, -, -, hmem, hvfs, -⟩ := fdTableOpen_ok h
  simp [Outcome.fails, hmem, hvfs]

theorem freeSlot_lowest {i j : Fin maxFileOpen} (h : freeSlot t = some i) (hj : j < i) :
    t j ≠ none := by
  obtain ⟨-, k, hk, rfl, hbefore⟩ := List.find?_eq_some_iff_getElem.mp h
  rw [List.getElem_finRange] at hj
  have hsome : (t j).isSome = true := by simpa using hbefore j.val hj
  exact ne_none_iff_isSome.mpr hsome

theorem openConsoles_ok {os : List (Int × Outcome)} (h : openConsoles s p os = some (s', .ok ())) :
    ∀ x ∈ os, x.2.fails = false := by
  induction os generalizing s with
  | nil => simp
  | cons o os ih =>
    obtain ⟨⟨s₁, r₁⟩, ho, h⟩ := bind_eq_some_iff.mp h
    cases r₁ with
    | error e => cases h
    | ok fd => exact List.forall_mem_cons.mpr ⟨fails_of_ok ho, ih h⟩

/-- The slots from `k` on are free, enough for all consoles. -/
theorem openConsoles_error {os : List (Int × Outcome)} {e : Int} {k : Nat} (ht : s.table p = some t)
    (hfree : ∀ i : Fin maxFileOpen, k ≤ i → t i = none) (hk : k + os.length ≤ maxFileOpen)
    (h : openConsoles s p os = some (s', .error e)) : ∃ x ∈ os, x.2.fails = true := by
  induction os generalizing s t k with
  | nil => cases h
  | cons o os ih =>
    rw [List.length_cons] at hk
    have hlt : k < maxFileOpen := by omega
    have hnone := hfree ⟨k, hlt⟩ (Nat.le_refl k)
    obtain ⟨⟨s₁, r₁⟩, ho, h⟩ := bind_eq_some_iff.mp h
    cases r₁ with
    | error e' =>
      obtain ⟨-, t', ht', hcause⟩ := fdTableOpen_error ho
      cases ht'.symm.trans ht
      refine ⟨o, List.mem_cons_self, hcause.resolve_left fun hfull => ?_⟩
      have hused := List.find?_eq_none.mp hfull ⟨k, hlt⟩ (List.mem_finRange _)
      simp [hnone] at hused
    | ok fd =>
      obtain ⟨t', f, vn, ht', hslot, -, -, -, rfl⟩ := fdTableOpen_ok ho
      cases ht'.symm.trans ht
      have hfd : fd.val ≤ k := Nat.le_of_not_lt fun hj =>
        freeSlot_lowest hslot (j := ⟨k, hlt⟩) hj hnone
      have htable : ((s.opened f o.1 vn o.2.lock).setSlot p fd (some f)).table p =
          some (update t fd (some f)) := by
        simp [State.setSlot, State.opened, ht]
      obtain ⟨x, hx, hfails⟩ := ih htable (k := k + 1) (fun i hi => by
        rw [update_of_ne (by rintro rfl; omega)]
        exact hfree i (by omega)) (by omega) h
      exact ⟨x, List.mem_cons_of_mem _ hx, hfails⟩

theorem zip_consoles (os : Fin 3 → Outcome) : consoles.zip (List.ofFn os) =
    [(O_RDONLY, os 0), (O_WRONLY, os 1), (O_WRONLY, os 2)] := rfl

theorem fdTableCreate_ok {memory : Bool}
    (h : fdTableCreate s p memory os = some (s', .ok ())) :
    memory = true ∧ ∀ i, (os i).fails = false := by
  unfold fdTableCreate at h
  split at h
  · next hmem =>
    have hall := openConsoles_ok h
    rw [zip_consoles] at hall
    simp only [List.forall_mem_cons] at hall
    obtain ⟨h0, h1, h2, -⟩ := hall
    exact ⟨hmem, fun | 0 => h0 | 1 => h1 | 2 => h2⟩
  · cases h

theorem fdTableCreate_console
    (h : fdTableCreate (s.addProcess child) child true os = some (s', r))
    (hos : (os 0).fails = false) :
    (∃ f, f ∉ s.live ∧ f ∈ s'.live) ∧ (∃ u, s'.table child = some u) ∧
      s'.procs = insert child s.procs ∧ ∀ q, q ≠ child → s'.table q = s.table q := by
  unfold fdTableCreate at h
  rw [if_pos rfl, zip_consoles] at h
  obtain ⟨⟨s₁, r₁⟩, ho, h⟩ := bind_eq_some_iff.mp h
  cases r₁ with
  | error e =>
    obtain ⟨-, t, ht, hcause⟩ := fdTableOpen_error ho
    cases ht.symm.trans (update_self ..)
    simp [hos, show freeSlot (fun _ => none) ≠ none by decide] at hcause
  | ok fd =>
    have hopens := (fdTableOpen_opens ho).trans (openConsoles_opens h)
    obtain ⟨t, f, vn, -, -, hf, -, -, rfl⟩ := fdTableOpen_ok ho
    refine ⟨⟨f, hf, ?_⟩, ?_, hopens.procs, fun q hq => ?_⟩
    · exact (openConsoles_opens h).live f (Finset.mem_insert_self ..)
    · exact isSome_iff_exists.mp (hopens.some (by simp))
    · rw [hopens.table q hq]
      simp [State.addProcess, hq]

/-- The first console of a process that is gone is in no table. -/
theorem newProcess_lost (hex : Exact s) {e : Int} (hos : (os 0).fails = false)
    (h : newProcess s p true os = some (s', .error e)) : ¬ Exact s' := by
  obtain ⟨⟨s₁, r⟩, hc, h⟩ := map_eq_some_iff.mp h
  obtain ⟨⟨f, hf, hf₁⟩, -, hprocs, htable⟩ := fdTableCreate_console hc hos
  cases r with
  | ok => cases h
  | error e' =>
    cases h
    refine not_exact_of_lost hf₁ fun q hq i hi => ?_
    obtain ⟨hne, hq⟩ := Finset.mem_erase.mp hq
    rw [hprocs, Finset.mem_insert] at hq
    unfold State.slot at hi
    rw [htable q hne] at hi
    exact hf (hex.points q (hq.resolve_left hne) i f hi)

theorem mdForkentry_bad (hex : Exact s)
    (hp : p ∈ s.procs) (ht : s.table p = some t)
    (hos : (os 0).fails = false) (h : mdForkentry s t child true os = some s') : ¬ Exact s' := by
  obtain ⟨⟨s₁, r⟩, hn, h⟩ := map_eq_some_iff.mp h
  cases r with
  | error e =>
    subst h
    exact newProcess_lost hex hos hn
  | ok =>
    subst h
    obtain ⟨⟨s₂, r⟩, hc, hr⟩ := map_eq_some_iff.mp hn
    obtain ⟨⟨f, hf, hf₂⟩, ⟨u, hu⟩, hprocs, htable⟩ := fdTableCreate_console hc hos
    cases r with
    | error => cases hr
    | ok =>
      cases hr
      obtain ⟨hopens, htab⟩ := copyTable_spec t child hu
      refine not_exact_of_lost (hopens.live f hf₂) fun q hq i hi => ?_
      rw [hopens.procs, hprocs, Finset.mem_insert] at hq
      unfold State.slot at hi
      by_cases hne : q = child
      · -- The child's slots are now those of its parent.
        subst hne
        rw [htab, bind_some] at hi
        exact hf (hex.points p hp i f (by simp [State.slot, ht, hi]))
      · rw [hopens.table q hne, htable q hne] at hi
        exact hf (hex.points q (hq.resolve_left hne) i f hi)

theorem Inv.newProcess {memory : Bool} (hinv : Inv s) (hp : p ∉ s.procs)
    (hos : memory = true → (os 0).fails = false → ∀ i, (os i).fails = false)
    (h : newProcess s p memory os = some (s', r)) : Inv s' := by
  obtain ⟨⟨s₁, r₁⟩, hc, h⟩ := map_eq_some_iff.mp h
  cases r₁ with
  | ok =>
    cases h
    exact hinv.fdTableCreate hp hc
  | error e =>
    cases h
    -- The process is gone, and its table never had a descriptor.
    have hgone : ∀ u : Option Table, Inv { s.addProcess p with
        procs := (s.addProcess p).procs.erase p
        table := update (s.addProcess p).table p u } := fun u =>
      hinv.addProcess hp u (fun q hq => by simp [State.addProcess, hq]) fun h => by simp at h
    unfold Files.fdTableCreate at hc
    split at hc
    · rename_i hmem
      cases hfirst : (os 0).fails with
      | true =>
        rw [zip_consoles] at hc
        obtain ⟨⟨s₂, r₂⟩, ho, hc⟩ := bind_eq_some_iff.mp hc
        cases r₂ with
        | ok fd =>
          rw [fails_of_ok ho] at hfirst
          cases hfirst
        | error e =>
          cases hc
          rw [(fdTableOpen_error ho).1]
          exact hgone (some fun _ => none)
      | false =>
        rw [zip_consoles] at hc
        obtain ⟨x, hx, hfails⟩ := openConsoles_error (k := 0) (update_self ..) (fun _ _ => rfl)
          (by simp [maxFileOpen]) hc
        have hall := hos hmem hfirst
        simp only [List.mem_cons, List.not_mem_nil, or_false] at hx
        obtain rfl | rfl | rfl := hx <;> rw [hall] at hfails <;> cases hfails
    · cases hc
      simpa [State.addProcess] using hgone none

theorem Inv.mdForkentry {memory : Bool}
    (hinv : Inv s) (hchild : child ∉ s.procs) (hos : memory = true → (os 0).fails = true)
    (h : mdForkentry s t child memory os = some s') : Inv s' := by
  obtain ⟨⟨s₁, r⟩, hn, h⟩ := map_eq_some_iff.mp h
  have hinv₁ := hinv.newProcess hchild (fun hmem hfirst => by simp [hos hmem] at hfirst) hn
  cases r with
  | error e =>
    subst h
    exact hinv₁
  | ok =>
    obtain ⟨⟨s₂, r⟩, hc, hr⟩ := map_eq_some_iff.mp hn
    cases r with
    | error => cases hr
    | ok =>
      obtain ⟨hmem, hall⟩ := fdTableCreate_ok hc
      have := hos hmem
      rw [hall 0] at this
      cases this

theorem step_inv (e : Event) (hinv : Inv s) (htidy : Tidy s e) (h : step s e = some s') : Inv s' := by
  cases e with
  | runprogram p memory os =>
    obtain ⟨hp, h⟩ := ite_none_left_eq_some.mp h
    obtain ⟨⟨s₁, r⟩, hn, rfl⟩ := map_eq_some_iff.mp h
    exact hinv.newProcess hp htidy hn
  | sysOpen p flag o =>
    obtain ⟨hp, h⟩ := ite_none_right_eq_some.mp h
    obtain ⟨⟨s₁, r⟩, ho, rfl⟩ := map_eq_some_iff.mp h
    exact hinv.fdTableOpen hp ho
  | sysClose p fd =>
    obtain ⟨hp, h⟩ := ite_none_right_eq_some.mp h
    obtain ⟨⟨s₁, r⟩, hc, rfl⟩ := map_eq_some_iff.mp h
    exact hinv.fdTableClose hp hc
  | fork p child memory os =>
    obtain ⟨⟨-, hchild⟩, h⟩ := ite_none_right_eq_some.mp h
    obtain ⟨t, -, h⟩ := bind_eq_some_iff.mp h
    exact hinv.mdForkentry hchild htidy h
  | exit p =>
    obtain ⟨-, rfl⟩ := ite_some_none_eq_some.mp h
    refine hinv.table (p := p) ?_ ?_ ?_ ?_ ?_ ?_ ?_
    · rfl
    · rfl
    · rfl
    · exact fun _ _ => rfl
    · intro q hq
      simp [hq]
    · exact fun _ => htidy
    · intro hp
      simp at hp

theorem step_bad (e : Event) (hinv : Inv s) (htidy : ¬ Tidy s e) (h : step s e = some s') :
    ¬ Exact s' := by
  cases e with
  | runprogram p memory os =>
    obtain ⟨-, h⟩ := ite_none_left_eq_some.mp h
    obtain ⟨⟨s₁, r⟩, hn, rfl⟩ := map_eq_some_iff.mp h
    simp only [Tidy, Classical.not_imp] at htidy
    obtain ⟨rfl, hfirst, hlater⟩ := htidy
    cases r with
    | error e => exact newProcess_lost hinv.exact hfirst hn
    | ok =>
      obtain ⟨⟨s₂, r⟩, hc, hr⟩ := map_eq_some_iff.mp hn
      cases r with
      | error => cases hr
      | ok => exact absurd (fdTableCreate_ok hc).2 hlater
  | sysOpen p flag o => exact absurd trivial htidy
  | sysClose p fd => exact absurd trivial htidy
  | fork p child memory os =>
    obtain ⟨⟨hp, -⟩, h⟩ := ite_none_right_eq_some.mp h
    obtain ⟨t, ht, h⟩ := bind_eq_some_iff.mp h
    simp only [Tidy, Classical.not_imp, Bool.not_eq_true] at htidy
    obtain ⟨rfl, hos⟩ := htidy
    exact mdForkentry_bad hinv.exact hp ht hos h
  | exit p =>
    obtain ⟨hp, rfl⟩ := ite_some_none_eq_some.mp h
    simp only [Tidy, not_forall] at htidy
    obtain ⟨fd, hfd⟩ := htidy
    obtain ⟨f, hf⟩ := ne_none_iff_exists'.mp hfd
    refine not_exact_of_lost (hinv.exact.points p hp fd f hf) fun q hq i hi => ?_
    -- The one descriptor of the file was in the table that is gone.
    obtain ⟨hne, hq⟩ := Finset.mem_erase.mp hq
    have hmem : (q, i) ∈ pointers s f := mem_pointers.mpr ⟨hq, hi⟩
    rw [hinv.pointer hp hf, Finset.mem_singleton, Prod.mk.injEq] at hmem
    exact hne hmem.1

theorem exact_iff_tidy (junk : Nat → File) (es : List Event) (s : State)
    (h : run step (init junk) es = some s) :
    Always step Exact (init junk) es ↔ Meets step Tidy (init junk) es := by
  have hstep : ∀ s e s', Inv s → Tidy s e → step s e = some s' → Inv s' :=
    fun _ e _ hinv ht h => step_inv e hinv ht h
  constructor
  · exact meets_of_always hstep (fun _ e _ hinv ht h => step_bad e hinv ht h) (inv_init junk) h
  · exact always_of_meets hstep (fun _ hinv => hinv.exact) (inv_init junk)

def console (f : Nat) : Outcome := ⟨some f, .ok 0, true⟩

def forkRun : List Event :=
  [.runprogram 1 true fun i => console i, .fork 1 2 true fun i => console (3 + i)]

def zeroed : Nat → File := fun _ => ⟨0, 0, 0, 0⟩

theorem fork_loses_consoles :
    ∃ s, run step (init zeroed) forkRun = some s ∧ 3 ∈ s.live ∧ (s.file 3).refCount = 1 ∧
      (pointers s 3).card = 0 ∧ ¬ Always step Exact (init zeroed) forkRun := by
  have hrun : ∃ s ∈ run step (init zeroed) forkRun, 3 ∈ s.live ∧ (s.file 3).refCount = 1 ∧
      (pointers s 3).card = 0 := by decide +kernel
  obtain ⟨s, hs, hlive, hcount, hcard⟩ := hrun
  refine ⟨s, hs, hlive, hcount, hcard, fun h => ?_⟩
  have := (h.last hs).released 3 hlive
  omega

theorem exact_iff_tidy_close :
    let es : List Event := [.runprogram 2 true fun i => ⟨none, .ok 0, i = 0⟩,
      .runprogram 1 true fun i => console i, .sysOpen 1 0 ⟨some 7, .ok 5, true⟩, .sysClose 1 3,
      .sysClose 1 0, .sysOpen 1 0 ⟨some 7, .ok 0, true⟩, .sysClose 1 0]
    ∃ s, run step (init zeroed) es = some s ∧ Always step Exact (init zeroed) es := by
  intro es
  obtain ⟨s, hs⟩ := isSome_iff_exists.mp
    (show (run step (init zeroed) es).isSome by decide +kernel)
  exact ⟨s, hs, (exact_iff_tidy zeroed es s hs).mpr (by decide +kernel)⟩

end Os161.Files
