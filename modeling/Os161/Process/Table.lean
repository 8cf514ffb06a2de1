import Os161.Process.Spec

/-!
# The process table

What holds of the table between any two steps, and what each operation on it leaves alone for the
threads of other processes.
-/

open Function List Option

namespace Os161.Process

variable {tab tab' : Tab} {p q cv : Nat} {i pid : Int} {me parent : Option Nat}

structure Tab.Ok (tab : Tab) : Prop where
  slot : ∀ i p, tab.proctable i = some p → i ∈ slots ∧ tab.allocated p = true ∧ (tab.heap p).pid = i
  home : ∀ p, tab.allocated p = true → tab.proctable (tab.heap p).pid = some p
  uid_lt : ∀ p, tab.allocated p = true → (tab.heap p).uid < tab.nextUid
  uid_inj : ∀ p q, tab.allocated p = true → tab.allocated q = true →
    (tab.heap p).uid = (tab.heap q).uid → p = q
  parent : ∀ p q, tab.allocated p = true → (tab.heap p).parent = some q →
    tab.allocated q = true ∧ (tab.heap q).exit = false ∧ (tab.heap q).uid < (tab.heap p).uid ∧
      tab.kin (tab.heap p).uid = some ((tab.heap q).uid, (tab.heap p).pid)
  code : ∀ p, tab.allocated p = true → (tab.heap p).exit = true →
    tab.passed (tab.heap p).uid = some (tab.heap p).exitCode
  removals : ∀ p, tab.allocated p = true → tab.removals (tab.heap p).uid = 0
  fresh : ∀ u, tab.nextUid ≤ u → tab.removals u = 0 ∧ tab.signalled u = false
  cv : ∀ p, tab.allocated p = true → (tab.heap p).exit = false →
    tab.cvs (tab.heap p).exitCv = some (tab.heap p).uid
  sig : ∀ p, tab.allocated p = true → tab.signalled (tab.heap p).uid = true →
    (tab.heap p).exit = true

structure Exiting (tab : Tab) (p : Nat) : Prop where
  allocated : tab.allocated p = true
  exit : (tab.heap p).exit = true
  parent : (tab.heap p).parent ≠ none
  cv : tab.cvs (tab.heap p).exitCv = some (tab.heap p).uid

structure Keeps (tab tab' : Tab) (me : Option Nat) : Prop where
  own : ∀ p, me = some p → tab.allocated p = true → (tab.heap p).exit = false →
    tab'.allocated p = true ∧ (tab'.heap p).exit = false ∧ (tab'.heap p).uid = (tab.heap p).uid ∧
      tab'.passed (tab.heap p).uid = tab.passed (tab.heap p).uid
  kid : ∀ k, tab.allocated k = true → (tab.heap k).parent = me → me ≠ none →
    tab'.allocated k = true ∧ (tab'.heap k).parent = me ∧ (tab'.heap k).pid = (tab.heap k).pid ∧
      (tab'.heap k).exitCv = (tab.heap k).exitCv ∧ (tab'.heap k).uid = (tab.heap k).uid ∧
      ((tab.heap k).exit = true →
        (tab'.heap k).exit = true ∧ (tab'.heap k).exitCode = (tab.heap k).exitCode)
  stale : ∀ k, (tab'.heap k).parent = me → me ≠ none → (tab.heap k).parent = me
  done : ∀ u, tab.removals u = 1 →
    tab'.removals u = 1 ∧ tab'.passed u = tab.passed u ∧ tab'.kin u = tab.kin u

/-- Nobody exits and nobody signals. `gone` is the process that is removed. -/
structure Steady (tab tab' : Tab) (gone : Option Nat) : Prop where
  signalled : tab'.signalled = tab.signalled
  exiting : ∀ p, Exiting tab p → gone ≠ some p → Exiting tab' p ∧ tab'.heap p = tab.heap p
  exited : ∀ k, tab'.allocated k = true → (tab'.heap k).exit = true →
    tab.allocated k = true ∧ tab'.heap k = tab.heap k

theorem Keeps.refl (tab : Tab) (me : Option Nat) : Keeps tab tab me :=
  ⟨fun _ _ ha he => ⟨ha, he, rfl, rfl⟩, fun _ ha hp _ => ⟨ha, hp, rfl, rfl, rfl, fun h => ⟨h, rfl⟩⟩,
    fun _ h _ => h, fun _ h => ⟨h, rfl, rfl⟩⟩

theorem Steady.refl (tab : Tab) (gone : Option Nat) : Steady tab tab gone :=
  ⟨rfl, fun _ h _ => ⟨h, rfl⟩, fun _ h _ => ⟨h, rfl⟩⟩

theorem Keeps.trans {mid : Tab} (h₁ : Keeps tab mid me) (h₂ : Keeps mid tab' me) :
    Keeps tab tab' me where
  own := fun p hp ha he => by
    obtain ⟨ha₁, he₁, hu₁, hc₁⟩ := h₁.own p hp ha he
    obtain ⟨ha₂, he₂, hu₂, hc₂⟩ := h₂.own p hp ha₁ he₁
    rw [hu₁] at hc₂
    exact ⟨ha₂, he₂, hu₂.trans hu₁, hc₂.trans hc₁⟩
  kid := fun k ha hk hne => by
    obtain ⟨ha₁, hk₁, hpid₁, hcv₁, hu₁, he₁⟩ := h₁.kid k ha hk hne
    obtain ⟨ha₂, hk₂, hpid₂, hcv₂, hu₂, he₂⟩ := h₂.kid k ha₁ hk₁ hne
    refine ⟨ha₂, hk₂, hpid₂.trans hpid₁, hcv₂.trans hcv₁, hu₂.trans hu₁, fun he => ?_⟩
    exact ⟨(he₂ (he₁ he).1).1, (he₂ (he₁ he).1).2.trans (he₁ he).2⟩
  stale := fun k hk hne => h₁.stale k (h₂.stale k hk hne) hne
  done := fun u hu => by
    obtain ⟨hu₁, hp₁, hk₁⟩ := h₁.done u hu
    obtain ⟨hu₂, hp₂, hk₂⟩ := h₂.done u hu₁
    exact ⟨hu₂, hp₂.trans hp₁, hk₂.trans hk₁⟩

theorem Steady.trans {mid : Tab} (h₁ : Steady tab mid none) (h₂ : Steady mid tab' none) :
    Steady tab tab' none where
  signalled := h₂.signalled.trans h₁.signalled
  exiting := fun p hx _ => by
    obtain ⟨hx₁, hheap₁⟩ := h₁.exiting p hx nofun
    obtain ⟨hx₂, hheap₂⟩ := h₂.exiting p hx₁ nofun
    exact ⟨hx₂, hheap₂.trans hheap₁⟩
  exited := fun k ha he => by
    obtain ⟨ha₂, hheap₂⟩ := h₂.exited k ha he
    rw [hheap₂] at he
    obtain ⟨ha₁, hheap₁⟩ := h₁.exited k ha₂ he
    exact ⟨ha₁, hheap₂.trans hheap₁⟩

section Passed

variable (hok : tab.Ok) (hp : tab.allocated p = true) (hexit : (tab.heap p).exit = false) (code : Int)
include hok hp

theorem Tab.Ok.pass (hexit : (tab.heap p).exit = false) : Tab.Ok { tab with
    passed := update tab.passed (tab.heap p).uid (some code) } :=
  { hok with
    code := fun q hq he => by
      have hne : (tab.heap q).uid ≠ (tab.heap p).uid := fun h => by
        rw [hok.uid_inj q p hq hp h, hexit] at he
        cases he
      simp only [update_of_ne hne]
      exact hok.code q hq he }

theorem keeps_pass (hme : me ≠ some p) : Keeps tab { tab with
    passed := update tab.passed (tab.heap p).uid (some code) } me where
  own := fun q hq ha he => by
    have hne : (tab.heap q).uid ≠ (tab.heap p).uid := fun h => by
      rw [hok.uid_inj q p ha hp h] at hq
      exact hme hq
    exact ⟨ha, he, rfl, update_of_ne hne ..⟩
  kid := (Keeps.refl tab me).kid
  stale := (Keeps.refl tab me).stale
  done := fun u hu => by
    have hne : u ≠ (tab.heap p).uid := fun h => by
      rw [h, hok.removals p hp] at hu
      cases hu
    exact ⟨hu, update_of_ne hne .., rfl⟩

end Passed

/-! ## `exit_process` -/

def Orphans (tab : Tab) (pid : Int) (h : Nat → Proc) (i : Int) (q : Nat) : Prop :=
  tab.proctable i = some q ∧ i ≠ pid ∧ ∃ r, (h q).parent = some r ∧ (h r).pid = pid

theorem tellChild_cases (tab : Tab) (pid : Int) (h : Nat → Proc) (i : Int) (q : Nat) :
    (tellChild tab pid h i q = h q ∧ ¬ Orphans tab pid h i q) ∨
      (tellChild tab pid h i q = { h q with parent := none } ∧ Orphans tab pid h i q) := by
  cases hi : tab.proctable i with
  | none => simp [tellChild, Orphans, hi]
  | some x =>
    cases hx : (h x).parent with
    | none =>
      refine Or.inl ⟨by simp [tellChild, hi, hx], ?_⟩
      rintro ⟨hq, -, r, hr, -⟩
      obtain rfl : x = q := some.inj (hi.symm.trans hq)
      rw [hx] at hr
      cases hr
    | some r =>
      simp only [tellChild, hi, hx]
      split
      · rename_i hcond
        by_cases hq : q = x
        · subst hq
          exact Or.inr ⟨update_self .., hi, hcond.1, r, hx, hcond.2⟩
        · refine Or.inl ⟨update_of_ne hq .., fun h => ?_⟩
          exact hq (some.inj (h.1.symm.trans hi))
      · rename_i hcond
        refine Or.inl ⟨rfl, ?_⟩
        rintro ⟨hq, hne, r', hr', hpid⟩
        obtain rfl : x = q := some.inj (hi.symm.trans hq)
        obtain rfl : r = r' := some.inj (hx.symm.trans hr')
        exact hcond ⟨hne, hpid⟩

theorem tellChild_pid (h : Nat → Proc) (i : Int) (q : Nat) :
    (tellChild tab pid h i q).pid = (h q).pid := by
  rcases tellChild_cases tab pid h i q with ⟨heq, -⟩ | ⟨heq, -⟩ <;> rw [heq]

theorem foldl_tellChild (tab : Tab) (pid : Int) (l : List Int) (h : Nat → Proc) (q : Nat) :
    (l.foldl (tellChild tab pid) h q = h q ∧ ∀ i ∈ l, ¬ Orphans tab pid h i q) ∨
      (l.foldl (tellChild tab pid) h q = { h q with parent := none } ∧
        ∃ i ∈ l, Orphans tab pid h i q) := by
  induction l generalizing h with
  | nil => exact Or.inl ⟨rfl, by simp⟩
  | cons i l ih =>
    rw [foldl_cons]
    -- The tests of later turns read fields that this turn has not changed, but for the parent.
    have hsame : tellChild tab pid h i q = h q → ∀ j, Orphans tab pid (tellChild tab pid h i) j q ↔
        Orphans tab pid h j q := fun heq j => by
      simp [Orphans, heq, tellChild_pid]
    rcases tellChild_cases tab pid h i q with ⟨heq, hno⟩ | ⟨heq, hyes⟩
    · rcases ih (tellChild tab pid h i) with ⟨hl, hn⟩ | ⟨hl, j, hj, ho⟩
      · refine Or.inl ⟨hl.trans heq, fun j hj => ?_⟩
        rcases mem_cons.mp hj with rfl | hj
        · exact hno
        · exact mt (hsame heq j).mpr (hn j hj)
      · exact Or.inr ⟨by rw [hl, heq], j, mem_cons_of_mem i hj, (hsame heq j).mp ho⟩
    · refine Or.inr ⟨?_, i, mem_cons_self, hyes⟩
      rcases ih (tellChild tab pid h i) with ⟨hl, -⟩ | ⟨hl, -⟩ <;> rw [hl, heq]

structure ExitHeap (tab : Tab) (p : Nat) (code : Int) (h : Nat → Proc) : Prop where
  self : h p = { tab.heap p with exitCode := code, exit := true }
  other : ∀ q, q ≠ p →
    (h q = tab.heap q ∧ ¬ (tab.allocated q = true ∧ (tab.heap q).parent = some p)) ∨
    (h q = { tab.heap q with parent := none } ∧
      tab.allocated q = true ∧ (tab.heap q).parent = some p)

theorem exitProcess_spec (hok : tab.Ok) (hp : tab.allocated p = true)
    (hpar : (tab.heap p).parent ≠ none) (code : Int) :
    ∃ h, exitProcess tab (tab.heap p).pid code = some { tab with heap := h } ∧
      ExitHeap tab p code h := by
  have hhome := hok.home p hp
  simp only [exitProcess, hhome, map_some, update_self]
  rw [if_pos (isSome_iff_ne_none.mpr hpar)]
  refine ⟨_, rfl, ?_⟩
  set h₀ := update tab.heap p { tab.heap p with exitCode := code, exit := true } with hh₀
  have hpid : ∀ q, (h₀ q).pid = (tab.heap q).pid := fun q => by
    by_cases hq : q = p
    · subst hq
      simp [hh₀]
    · rw [hh₀, update_of_ne hq]
  have hparent : ∀ q, (h₀ q).parent = (tab.heap q).parent := fun q => by
    by_cases hq : q = p
    · subst hq
      simp [hh₀]
    · rw [hh₀, update_of_ne hq]
  -- The loop finds the children of `p`: no other process has its pid.
  have horph : ∀ q, (∃ i ∈ slots, Orphans tab (tab.heap p).pid h₀ i q) ↔
      q ≠ p ∧ tab.allocated q = true ∧ (tab.heap q).parent = some p := by
    intro q
    constructor
    · rintro ⟨i, -, hi, hne, r, hr, hrp⟩
      obtain ⟨-, ha, hqi⟩ := hok.slot i q hi
      rw [hparent] at hr
      obtain ⟨hra, -⟩ := hok.parent q r ha hr
      have hrhome := hok.home r hra
      rw [← hpid r, hrp, hhome] at hrhome
      obtain rfl : p = r := some.inj hrhome
      refine ⟨?_, ha, hr⟩
      rintro rfl
      exact hne hqi.symm
    · rintro ⟨hne, ha, hpq⟩
      have hq := hok.home q ha
      refine ⟨_, (hok.slot _ q hq).1, hq, fun heq => ?_, p, by rw [hparent, hpq], hpid p⟩
      rw [heq, hhome] at hq
      exact hne (some.inj hq).symm
  have hcases := foldl_tellChild tab (tab.heap p).pid slots h₀
  constructor
  · rcases hcases p with ⟨heq, -⟩ | ⟨-, h⟩
    · rw [heq, hh₀, update_self]
    · exact absurd rfl ((horph p).mp h).1
  · intro q hq
    have hq₀ : h₀ q = tab.heap q := update_of_ne hq ..
    rcases hcases q with ⟨heq, hno⟩ | ⟨heq, hyes⟩
    · refine Or.inl ⟨heq.trans hq₀, fun h => ?_⟩
      obtain ⟨i, hi, ho⟩ := (horph q).mpr ⟨hq, h⟩
      exact hno i hi ho
    · exact Or.inr ⟨by rw [heq, hq₀], ((horph q).mp hyes).2⟩

section Exit

variable {code : Int} {h : Nat → Proc}

theorem ExitHeap.fields (hx : ExitHeap tab p code h) (q : Nat) :
    (h q).pid = (tab.heap q).pid ∧ (h q).uid = (tab.heap q).uid ∧
      (h q).exitCv = (tab.heap q).exitCv := by
  by_cases hq : q = p
  · subst hq
    simp [hx.self]
  · rcases hx.other q hq with ⟨heq, -⟩ | ⟨heq, -⟩ <;> simp [heq]

theorem ExitHeap.exit_of_ne (hx : ExitHeap tab p code h) (hq : q ≠ p) :
    (h q).exit = (tab.heap q).exit ∧ (h q).exitCode = (tab.heap q).exitCode := by
  rcases hx.other q hq with ⟨heq, -⟩ | ⟨heq, -⟩ <;> simp [heq]

theorem ExitHeap.parent_some (hx : ExitHeap tab p code h) {r : Nat} (hr : (h q).parent = some r) :
    (tab.heap q).parent = some r ∧ (q ≠ p → tab.allocated q = true → r ≠ p) := by
  by_cases hq : q = p
  · subst hq
    rw [hx.self] at hr
    exact ⟨hr, fun h => absurd rfl h⟩
  · rcases hx.other q hq with ⟨heq, hno⟩ | ⟨heq, -⟩
    · rw [heq] at hr
      exact ⟨hr, fun _ ha hrp => hno ⟨ha, hrp ▸ hr⟩⟩
    · rw [heq] at hr
      cases hr

theorem Tab.Ok.exit (hok : tab.Ok) (hp : tab.allocated p = true)
    (hpass : tab.passed (tab.heap p).uid = some code) (hx : ExitHeap tab p code h) :
    Tab.Ok { tab with heap := h } where
  slot := fun i q hi => by
    rw [(hx.fields q).1]
    exact hok.slot i q hi
  home := fun q hq => by
    rw [(hx.fields q).1]
    exact hok.home q hq
  uid_lt := fun q hq => by
    rw [(hx.fields q).2.1]
    exact hok.uid_lt q hq
  uid_inj := fun q r hq hr he => by
    simp only [(hx.fields q).2.1, (hx.fields r).2.1] at he
    exact hok.uid_inj q r hq hr he
  parent := fun q r hq hr => by
    obtain ⟨hqr, hne⟩ := hx.parent_some hr
    obtain ⟨ha, he, hlt, hkin⟩ := hok.parent q r hq hqr
    have hrp : r ≠ p := by
      by_cases hqp : q = p
      · rintro rfl
        subst hqp
        exact lt_irrefl _ hlt
      · exact hne hqp hq
    simp only [(hx.fields q).1, (hx.fields q).2.1, (hx.fields r).2.1, (hx.exit_of_ne hrp).1]
    exact ⟨ha, he, hlt, hkin⟩
  code := fun q hq he => by
    by_cases hqp : q = p
    · subst hqp
      simp only [hx.self]
      exact hpass
    · rw [(hx.exit_of_ne hqp).1] at he
      simp only [(hx.exit_of_ne hqp).2, (hx.fields q).2.1]
      exact hok.code q hq he
  removals := fun q hq => by
    rw [(hx.fields q).2.1]
    exact hok.removals q hq
  fresh := hok.fresh
  cv := fun q hq he => by
    have hqp : q ≠ p := by
      rintro rfl
      simp only [hx.self] at he
      cases he
    rw [(hx.exit_of_ne hqp).1] at he
    rw [(hx.fields q).2.1, (hx.fields q).2.2]
    exact hok.cv q hq he
  sig := fun q hq hs => by
    rw [(hx.fields q).2.1] at hs
    by_cases hqp : q = p
    · simp [hqp, hx.self]
    · rw [(hx.exit_of_ne hqp).1]
      exact hok.sig q hq hs

theorem keeps_exit (hx : ExitHeap tab p code h) (hexit : (tab.heap p).exit = false)
    (hme : me ≠ some p) : Keeps tab { tab with heap := h } me where
  own := fun q hq ha he => by
    have hqp : q ≠ p := fun h => hme (h ▸ hq)
    exact ⟨ha, (hx.exit_of_ne hqp).1.trans he, (hx.fields q).2.1, rfl⟩
  kid := fun k ha hk hne => by
    refine ⟨ha, ?_, (hx.fields k).1, (hx.fields k).2.2, (hx.fields k).2.1, fun he => ?_⟩
    · by_cases hkp : k = p
      · rw [hkp] at hk ⊢
        simp only [hx.self]
        exact hk
      · rcases hx.other k hkp with ⟨heq, -⟩ | ⟨-, -, hpar⟩
        · simp only [heq]
          exact hk
        · exact absurd (hk.symm.trans hpar) hme
    · have hkp : k ≠ p := by
        rintro rfl
        rw [hexit] at he
        cases he
      rw [(hx.exit_of_ne hkp).1, (hx.exit_of_ne hkp).2]
      exact ⟨he, rfl⟩
  stale := fun k hk hne => by
    obtain ⟨r, rfl⟩ := ne_none_iff_exists'.mp hne
    exact (hx.parent_some hk).1
  done := (Keeps.refl tab me).done

theorem exiting_exit (hok : tab.Ok) (hp : tab.allocated p = true) (hexit : (tab.heap p).exit = false)
    (hpar : (tab.heap p).parent ≠ none) (hx : ExitHeap tab p code h) :
    Exiting { tab with heap := h } p where
  allocated := hp
  exit := by simp [hx.self]
  parent := by
    simp only [hx.self]
    exact hpar
  cv := by
    simp only [hx.self]
    exact hok.cv p hp hexit

theorem Tab.Ok.signal (hok : tab.Ok) (hx : Exiting tab p) :
    Tab.Ok { tab with signalled := update tab.signalled (tab.heap p).uid true } := by
  refine { hok with fresh := fun u hu => ⟨(hok.fresh u hu).1, ?_⟩, sig := fun r hr hs => ?_ }
  · have hne : u ≠ (tab.heap p).uid := (lt_of_lt_of_le (hok.uid_lt p hx.allocated) hu).ne'
    exact (update_of_ne hne ..).trans (hok.fresh u hu).2
  · by_cases hrp : (tab.heap r).uid = (tab.heap p).uid
    · rw [hok.uid_inj r p hr hx.allocated hrp]
      exact hx.exit
    · exact hok.sig r hr ((update_of_ne hrp ..).symm.trans hs)

theorem Tab.Ok.destroyCv (hok : tab.Ok) (hx : Exiting tab p) :
    Tab.Ok { tab with cvs := update tab.cvs (tab.heap p).exitCv none } := by
  refine { hok with cv := fun r hr he => ?_ }
  have hrcv := hok.cv r hr he
  have hne : (tab.heap r).exitCv ≠ (tab.heap p).exitCv := by
    intro heq
    rw [heq, hx.cv] at hrcv
    have hsame := hok.uid_inj p r hx.allocated hr (some.inj hrcv)
    subst hsame
    rw [hx.exit] at he
    cases he
  exact (update_of_ne hne ..).trans hrcv

end Exit

def Tab.without (tab : Tab) (k : Nat) : Tab := { tab with
    proctable := update tab.proctable (tab.heap k).pid none
    allocated := update tab.allocated k false
    removals := update tab.removals (tab.heap k).uid
      (tab.removals (tab.heap k).uid + 1) }

section Remove

variable {k : Nat} (hok : tab.Ok) (hk : tab.allocated k = true)
include hok hk

theorem removeProcess_eq : removeProcess tab (tab.heap k).pid = some (tab.without k) := by
  simp [removeProcess, hok.home k hk, map_some, Tab.without]

omit hok hk in
theorem without_allocated : (tab.without k).allocated q = true ↔ tab.allocated q = true ∧ q ≠ k := by
  by_cases hq : q = k
  · subst hq
    simp [Tab.without]
  · simp [Tab.without, hq]

theorem without_removals (hq : tab.allocated q = true) (hne : q ≠ k) :
    (tab.without k).removals (tab.heap q).uid = tab.removals (tab.heap q).uid :=
  update_of_ne (fun h => hne (hok.uid_inj q k hq hk h)) ..

theorem removals_without : (tab.without k).removals (tab.heap k).uid = 1 := by
  simp [Tab.without, hok.removals k hk]

theorem Tab.Ok.remove_childless
    (hchild : ∀ q, tab.allocated q = true → (tab.heap q).parent ≠ some k) : (tab.without k).Ok where
  slot := fun i q hi => by
    have hne : i ≠ (tab.heap k).pid := by
      rintro rfl
      simp [Tab.without] at hi
    simp only [Tab.without, update_of_ne hne] at hi
    obtain ⟨hs, ha, hq⟩ := hok.slot i q hi
    refine ⟨hs, without_allocated.mpr ⟨ha, ?_⟩, hq⟩
    rintro rfl
    exact hne hq.symm
  home := fun q hq => by
    obtain ⟨ha, hne⟩ := without_allocated.mp hq
    have hpid : (tab.heap q).pid ≠ (tab.heap k).pid := fun h => by
      have := hok.home q ha
      rw [h, hok.home k hk] at this
      exact hne (some.inj this).symm
    simp only [Tab.without, update_of_ne hpid]
    exact hok.home q ha
  uid_lt := fun q hq => hok.uid_lt q (without_allocated.mp hq).1
  uid_inj := fun q r hq hr =>
    hok.uid_inj q r (without_allocated.mp hq).1 (without_allocated.mp hr).1
  parent := fun q r hq hr => by
    have hqa := (without_allocated.mp hq).1
    obtain ⟨ha, he, hlt, hkin⟩ := hok.parent q r hqa hr
    refine ⟨without_allocated.mpr ⟨ha, ?_⟩, he, hlt, hkin⟩
    rintro rfl
    exact hchild q hqa hr
  code := fun q hq => hok.code q (without_allocated.mp hq).1
  removals := fun q hq => by
    obtain ⟨ha, hne⟩ := without_allocated.mp hq
    exact (without_removals hok hk ha hne).trans (hok.removals q ha)
  fresh := fun u hu => by
    have hne : u ≠ (tab.heap k).uid := fun h => by
      have := hok.uid_lt k hk
      rw [← h] at this
      exact not_lt.mpr hu this
    exact ⟨(update_of_ne hne ..).trans (hok.fresh u hu).1, (hok.fresh u hu).2⟩
  cv := fun q hq => hok.cv q (without_allocated.mp hq).1
  sig := fun q hq => hok.sig q (without_allocated.mp hq).1

theorem Tab.Ok.remove (hexit : (tab.heap k).exit = true) : (tab.without k).Ok := by
  apply hok.remove_childless hk
  intro q hq hparent
  -- A parent has not exited.
  have hrunning := (hok.parent q k hq hparent).2.1
  rw [hexit] at hrunning
  cases hrunning

theorem keeps_remove (hexit : (tab.heap k).exit = true) (hpar : (tab.heap k).parent ≠ me ∨ me = none) :
    Keeps tab (tab.without k) me where
  own := fun q _ ha he => by
    refine ⟨without_allocated.mpr ⟨ha, ?_⟩, he, rfl, rfl⟩
    rintro rfl
    rw [hexit] at he
    cases he
  kid := fun x ha hx hne => by
    refine ⟨without_allocated.mpr ⟨ha, ?_⟩, hx, rfl, rfl, rfl, fun h => ⟨h, rfl⟩⟩
    rintro rfl
    rcases hpar with h | h
    · exact h hx
    · exact hne h
  stale := fun _ h _ => h
  done := fun u hu => by
    have hne : u ≠ (tab.heap k).uid := fun h => by
      rw [h, hok.removals k hk] at hu
      cases hu
    exact ⟨(update_of_ne hne ..).trans hu, rfl, rfl⟩

omit hok hk in
theorem steady_remove : Steady tab (tab.without k) (some k) where
  signalled := rfl
  exiting := fun p hx hp => by
    refine ⟨⟨without_allocated.mpr ⟨hx.allocated, ?_⟩, hx.exit, hx.parent, hx.cv⟩, rfl⟩
    rintro rfl
    exact hp rfl
  exited := fun q hq _ => ⟨(without_allocated.mp hq).1, rfl⟩

omit hok hk in
theorem steady_orphan (hpar : (tab.heap k).parent = none) : Steady tab (tab.without k) none where
  signalled := rfl
  exiting := fun p hx _ => by
    apply steady_remove.exiting p hx
    rintro ⟨⟩
    exact hx.parent hpar
  exited := steady_remove.exited

end Remove

/-! ## Creation -/

section Create

variable {parent : Option Nat} {cv : Nat} (hfree : tab.allocated p = false)
include hfree

theorem ne_of_allocated (hq : tab.allocated q = true) : q ≠ p := by
  rintro rfl
  rw [hfree] at hq
  cases hq

omit hfree in
theorem newProcess_heap (hq : q ≠ p) : (newProcess tab i parent p cv).heap q = tab.heap q :=
  update_of_ne hq ..

theorem newProcess_kept (hq : tab.allocated q = true) :
    (newProcess tab i parent p cv).heap q = tab.heap q :=
  newProcess_heap (ne_of_allocated hfree hq)

omit hfree in
theorem newProcess_allocated :
    (newProcess tab i parent p cv).allocated q = true ↔ q = p ∨ tab.allocated q = true := by
  by_cases hq : q = p
  · subst hq
    simp [newProcess]
  · simp [newProcess, hq]

theorem Tab.Ok.create (hok : tab.Ok) (hi : i ∈ slots) (hslot : tab.proctable i = none)
    (hcv : tab.cvs cv = none)
    (hparent : ∀ q, parent = some q → tab.allocated q = true ∧ (tab.heap q).exit = false) :
    (newProcess tab i parent p cv).Ok where
  slot := fun j q hj => by
    by_cases hji : j = i
    · subst hji
      obtain rfl : p = q := by simpa [newProcess] using hj
      exact ⟨hi, newProcess_allocated.mpr (Or.inl rfl), by simp [newProcess]⟩
    · obtain ⟨hs, ha, hpid⟩ := hok.slot j q (by simpa [newProcess, hji] using hj)
      rw [newProcess_kept hfree ha]
      exact ⟨hs, newProcess_allocated.mpr (Or.inr ha), hpid⟩
  home := fun q hq => by
    rcases newProcess_allocated.mp hq with rfl | ha
    · simp [newProcess]
    · have hhome := hok.home q ha
      have hne : (tab.heap q).pid ≠ i := fun h => by
        rw [h, hslot] at hhome
        cases hhome
      rw [newProcess_kept hfree ha]
      simpa [newProcess, hne] using hhome
  uid_lt := fun q hq => by
    rcases newProcess_allocated.mp hq with rfl | ha
    · simp [newProcess]
    · rw [newProcess_kept hfree ha]
      exact Nat.lt_succ_of_lt (hok.uid_lt q ha)
  uid_inj := fun q r hq hr he => by
    rcases newProcess_allocated.mp hq with rfl | hqa <;>
      rcases newProcess_allocated.mp hr with rfl | hra
    · rfl
    · rw [newProcess_kept hfree hra] at he
      have := hok.uid_lt r hra
      simp only [newProcess, update_self] at he
      omega
    · rw [newProcess_kept hfree hqa] at he
      have := hok.uid_lt q hqa
      simp only [newProcess, update_self] at he
      omega
    · rw [newProcess_kept hfree hqa, newProcess_kept hfree hra] at he
      exact hok.uid_inj q r hqa hra he
  parent := fun q r hq hr => by
    rcases newProcess_allocated.mp hq with rfl | hqa
    · have hpr : parent = some r := by simpa [newProcess] using hr
      obtain ⟨hra, hre⟩ := hparent r hpr
      have hlt := hok.uid_lt r hra
      rw [newProcess_kept hfree hra]
      refine ⟨newProcess_allocated.mpr (Or.inr hra), hre, ?_, ?_⟩
      · simpa [newProcess] using hlt
      · simp [newProcess, hpr]
    · rw [newProcess_kept hfree hqa] at hr
      obtain ⟨hra, hre, hlt, hkin⟩ := hok.parent q r hqa hr
      rw [newProcess_kept hfree hqa, newProcess_kept hfree hra]
      have hne : (tab.heap q).uid ≠ tab.nextUid := ne_of_lt (hok.uid_lt q hqa)
      refine ⟨newProcess_allocated.mpr (Or.inr hra), hre, hlt, ?_⟩
      simpa [newProcess, hne] using hkin
  code := fun q hq he => by
    rcases newProcess_allocated.mp hq with rfl | hqa
    · simp [newProcess] at he
    · rw [newProcess_kept hfree hqa] at he ⊢
      exact hok.code q hqa he
  removals := fun q hq => by
    rcases newProcess_allocated.mp hq with rfl | hqa
    · simpa [newProcess] using (hok.fresh tab.nextUid (le_rfl)).1
    · rw [newProcess_kept hfree hqa]
      exact hok.removals q hqa
  fresh := fun u hu => hok.fresh u (Nat.le_of_succ_le hu)
  cv := fun q hq he => by
    rcases newProcess_allocated.mp hq with rfl | hqa
    · simp [newProcess]
    · rw [newProcess_kept hfree hqa] at he ⊢
      have hqcv := hok.cv q hqa he
      have hne : (tab.heap q).exitCv ≠ cv := fun h => by
        rw [h, hcv] at hqcv
        cases hqcv
      simpa [newProcess, hne] using hqcv
  sig := fun q hq hs => by
    rcases newProcess_allocated.mp hq with rfl | hqa
    · simp [newProcess, (hok.fresh tab.nextUid (le_rfl)).2] at hs
    · rw [newProcess_kept hfree hqa] at hs ⊢
      exact hok.sig q hqa hs

theorem keeps_create (hok : tab.Ok) (hme : parent ≠ me ∨ me = none) :
    Keeps tab (newProcess tab i parent p cv) me where
  own := fun q _ ha he => by
    rw [newProcess_kept hfree ha]
    exact ⟨newProcess_allocated.mpr (Or.inr ha), he, rfl, rfl⟩
  kid := fun k ha hk _ => by
    rw [newProcess_kept hfree ha]
    exact ⟨newProcess_allocated.mpr (Or.inr ha), hk, rfl, rfl, rfl, fun h => ⟨h, rfl⟩⟩
  stale := fun k hk hne => by
    by_cases hkp : k = p
    · subst hkp
      simp only [newProcess, update_self] at hk
      rcases hme with h | h
      · exact absurd hk h
      · exact absurd h hne
    · rwa [newProcess_heap hkp] at hk
  done := fun u hu => by
    have hne : u ≠ tab.nextUid := by
      rintro rfl
      rw [(hok.fresh tab.nextUid (le_rfl)).1] at hu
      cases hu
    exact ⟨hu, rfl, update_of_ne hne ..⟩

theorem steady_create (hcv : tab.cvs cv = none) :
    Steady tab (newProcess tab i parent p cv) none where
  signalled := rfl
  exiting := fun q hx _ => by
    have hheap : (newProcess tab i parent p cv).heap q = tab.heap q :=
      newProcess_kept hfree hx.allocated
    have hne : (tab.heap q).exitCv ≠ cv := fun h => by
      have := hx.cv
      rw [h, hcv] at this
      cases this
    refine ⟨⟨newProcess_allocated.mpr (Or.inr hx.allocated), ?_, ?_, ?_⟩, hheap⟩
    · rw [hheap]
      exact hx.exit
    · rw [hheap]
      exact hx.parent
    · rw [hheap]
      exact (update_of_ne hne ..).trans hx.cv
  exited := fun k ha he => by
    rcases newProcess_allocated.mp ha with rfl | hk
    · simp [newProcess] at he
    · exact ⟨hk, newProcess_kept hfree hk⟩

end Create

structure Created (tab tab' : Tab) (parent : Option Nat) (p : Nat) : Prop where
  ok : tab'.Ok
  self : tab'.allocated p = true ∧ (tab'.heap p).exit = false
  alive : ∀ q, tab.allocated q = true → (tab.heap q).exit = false →
    q ≠ p ∧ tab'.allocated q = true ∧ (tab'.heap q).exit = false
  keeps : ∀ me, parent ≠ me ∨ me = none → Keeps tab tab' me
  steady : Steady tab tab' none
  old : ∀ k, tab'.allocated k = true → k ≠ p → tab.allocated k = true ∧ tab'.heap k = tab.heap k

theorem reusable_orphan (hok : tab.Ok) (hp : tab.allocated p = true) (h : reusable tab p = true) :
    (tab.heap p).exit = true ∧ (tab.heap p).parent = none := by
  simp only [reusable, Bool.and_eq_true] at h
  obtain ⟨hexit, h⟩ := h
  refine ⟨hexit, ?_⟩
  cases hpar : (tab.heap p).parent with
  | none => rfl
  | some q =>
    simp only [hpar, (hok.parent p q hp hpar).2.1] at h
    cases h

theorem created_newProcess (hok : tab.Ok) (hi : i ∈ slots)
    (hslot : tab.proctable i = none) (hfree : tab.allocated p = false) (hcv : tab.cvs cv = none)
    (hparent : ∀ q, parent = some q → tab.allocated q = true ∧ (tab.heap q).exit = false) :
    Created tab (newProcess tab i parent p cv) parent p where
  ok := hok.create hfree hi hslot hcv hparent
  self := ⟨newProcess_allocated.mpr (Or.inl rfl), by simp [newProcess]⟩
  alive := fun q hq he => by
    have hne := ne_of_allocated hfree hq
    rw [newProcess_heap hne]
    exact ⟨hne, newProcess_allocated.mpr (Or.inr hq), he⟩
  keeps := fun me hme => keeps_create hfree hok hme
  steady := steady_create hfree hcv
  old := fun k hk hne => ⟨(newProcess_allocated.mp hk).resolve_left hne, newProcess_heap hne⟩

theorem addProcess_cases (hok : tab.Ok)
    (h : addProcess tab parent p cv = some tab') :
    ∃ i mid, findSlot tab = some i ∧ i ∈ slots ∧
      (tab.proctable i = none ∧ mid = tab ∨ ∃ k, tab.proctable i = some k ∧ tab.allocated k = true ∧
        (tab.heap k).pid = i ∧ (tab.heap k).exit = true ∧ (tab.heap k).parent = none ∧
        mid = tab.without k) ∧
      mid.allocated p = false ∧ mid.cvs cv = none ∧ tab' = newProcess mid i parent p cv := by
  obtain ⟨i, hfind, h⟩ := bind_eq_some_iff.mp h
  obtain ⟨mid, hclear, h⟩ := bind_eq_some_iff.mp h
  obtain ⟨⟨hfree, hcv⟩, rfl⟩ := ite_some_none_eq_some.mp h
  refine ⟨i, mid, hfind, mem_of_find?_eq_some hfind, ?_, hfree, hcv, rfl⟩
  have htest := List.find?_some hfind
  cases hslot : tab.proctable i with
  | none =>
    simp only [clearSlot, hslot, some.injEq] at hclear
    exact .inl ⟨rfl, hclear.symm⟩
  | some k =>
    simp only [hslot] at htest
    obtain ⟨-, hk, hpid⟩ := hok.slot i k hslot
    obtain ⟨hexit, horphan⟩ := reusable_orphan hok hk htest
    simp only [clearSlot, hslot, removeProcess_eq hok hk, some.injEq] at hclear
    exact .inr ⟨k, rfl, hk, hpid, hexit, horphan, hclear.symm⟩

theorem addProcess_spec (hok : tab.Ok)
    (hparent : ∀ q, parent = some q → tab.allocated q = true ∧ (tab.heap q).exit = false)
    (h : addProcess tab parent p cv = some tab') : Created tab tab' parent p := by
  obtain ⟨i, mid, -, hi, hmid, hfree, hcv, rfl⟩ := addProcess_cases hok h
  rcases hmid with ⟨hslot, rfl⟩ | ⟨k, -, hk, hpid, hexit, horphan, rfl⟩
  · exact created_newProcess hok hi hslot hfree hcv hparent
  · have hmid := hok.remove hk hexit
    have hkeep : ∀ me, Keeps tab (tab.without k) me := fun me => by
      refine keeps_remove hok hk hexit ?_
      rw [horphan]
      exact (eq_or_ne none me).symm.imp_right Eq.symm
    have hcreate := created_newProcess (i := i) hmid hi (by simp [Tab.without, hpid]) hfree hcv
      fun q hq => by
        obtain ⟨ha, he⟩ := hparent q hq
        refine ⟨without_allocated.mpr ⟨ha, ?_⟩, he⟩
        rintro rfl
        rw [hexit] at he
        cases he
    exact {
      ok := hcreate.ok
      self := hcreate.self
      alive := fun q hq he => hcreate.alive q (((hkeep (some q)).own q rfl hq he).1) he
      keeps := fun me hme => (hkeep me).trans (hcreate.keeps me hme)
      steady := (steady_orphan horphan).trans hcreate.steady
      old := fun x hx hne =>
        ⟨(without_allocated.mp (hcreate.old x hx hne).1).1, (hcreate.old x hx hne).2⟩ }

end Os161.Process
