import Os161.Synch.Many
import Os161.Synch.Lock

/-! # Locks exclude and semaphores count -/

open Os161.Thread Os161.Lib Function List Option

namespace Os161.Synch.Many

section Asleep

variable {T A : Type} {s : Sys T A} {a b : A} {t c : T}

theorem AsleepOn.of_threadWakeup [DecidableEq A] (h : AsleepOn (threadWakeup a s) b t) :
    AsleepOn s b t ∧ b ≠ a := by
  obtain ⟨hmem, haddr⟩ := h
  obtain ⟨hmem, hne⟩ := threadWakeup_sleepers hmem
  refine ⟨⟨hmem, haddr⟩, ?_⟩
  rintro rfl
  exact hne haddr

variable [DecidableEq T]

theorem AsleepOn.of_threadYield (hc : s.curthread = some c) (h : AsleepOn (threadYield s) b t) :
    AsleepOn s b t := by
  simpa [AsleepOn, threadYield_eq hc] using h

theorem AsleepOn.of_threadExit (hc : s.curthread = some c) (h : AsleepOn (threadExit s) b t) :
    AsleepOn s b t := by
  simpa [AsleepOn, threadExit_eq hc] using h

theorem AsleepOn.of_scheduler (h : AsleepOn (scheduler s) b t) : AsleepOn s b t := by
  simpa [AsleepOn] using h

theorem AsleepOn.of_threadResume (hc : s.curthread = some c) (h : AsleepOn (threadResume s) b t) :
    AsleepOn s b t := by
  obtain ⟨hmem, haddr⟩ := h
  rw [threadResume_eq hc] at hmem haddr
  have hne : t ≠ c := by
    rintro rfl
    simp at haddr
  simp only [update_of_ne hne] at haddr
  exact ⟨hmem, haddr⟩

theorem AsleepOn.of_threadSleep (hc : s.curthread = some c) (h : AsleepOn (threadSleep a s) b t) :
    AsleepOn s b t ∨ b = a := by
  obtain ⟨hmem, haddr⟩ := h
  rw [threadSleep_eq hc] at hmem haddr
  simp only [scheduler_sleepers, scheduler_sleepaddr, mem_append, mem_singleton] at hmem haddr
  by_cases hne : t = c
  · subst hne
    rw [update_self] at haddr
    exact Or.inr (some.inj haddr).symm
  · rw [update_of_ne hne] at haddr
    exact Or.inl ⟨hmem.resolve_right hne, haddr⟩

end Asleep

variable {n : Int} {T L S B : Type} {c : S → Int} {s s' : State T L S B} {t u : T} {p : Pc L S B}

theorem wrap_of_lt (h : -2 ^ 31 ≤ n) (h' : n < 2 ^ 31) : wrap n = n := by
  unfold wrap
  omega

theorem takeCount_pos (h : 0 < n) (hn : n < 2 ^ 31) : takeCount n = some (n - 1) := by
  rw [takeCount, if_pos h, wrap_of_lt (by omega) (by omega)]

theorem addCount_cases (h : 0 ≤ n) (hn : n < 2 ^ 31) :
    addCount n = none ∧ n = 2 ^ 31 - 1 ∨ addCount n = some (n + 1) ∧ n + 1 < 2 ^ 31 := by
  by_cases htop : n = 2 ^ 31 - 1
  · subst htop
    exact Or.inl (by decide)
  · refine Or.inr ⟨?_, by omega⟩
    rw [addCount, wrap_of_lt (by omega) (by omega), if_pos (by omega)]

/-! ## The invariant -/

def Pc.alive (p : Pc L S B) : Prop := p ≠ .gone ∧ p ≠ .exited

def Pc.sleepsOn : Pc L S B → Option (Addr L S B)
  | .lockSleep l => some (.lock l)
  | .semSleep x => some (.sem x)
  | .otherSleep b => some (.other b)
  | _ => none

def Pc.inHandler : Pc L S B → Bool
  | .handler _ => true
  | _ => false

def code (L S B : Type) : Code (Pc L S B) (Addr L S B) := ⟨Pc.alive, Pc.sleepsOn, fun _ => False⟩

abbrev Here (s : State T L S B) : Prop := LockOk (code L S B) ⟨s.sys, none⟩ s.pc

structure LocksOk (s : State T L S B) : Prop where
  owner : ∀ l t, s.myOwner l = some t ↔ s.inside t l = true
  free : ∀ l t, s.myOwner l = none → ¬ AsleepOn s.sys (.lock l) t

structure SemsOk (c : S → Int) (s : State T L S B) : Prop where
  exact : ∀ x, s.count x = c x + s.vs x - s.ps x
  nonneg : ∀ x, 0 ≤ s.count x
  small : ∀ x, s.count x < 2 ^ 31
  free : ∀ x t, 0 < s.count x → ¬ AsleepOn s.sys (.sem x) t
  called : s.panicked = false → ∀ x, s.called x = s.vs x
  overflow : s.panicked = true → ∃ x, 2 ^ 31 ≤ c x + s.called x - s.ps x

structure IrqOk (s : State T L S B) : Prop where
  cur : ∀ t, s.sys.curthread = some t → s.inInterrupt = (s.pc t).inHandler
  saved : ∀ t, s.sys.curthread ≠ some t → (s.pc t).alive → s.pcb t = (s.pc t).inHandler
  old : ∀ t o, s.pc t = .handler o → o = false

structure Inv (c : S → Int) (s : State T L S B) : Prop where
  here : Here s
  locks : LocksOk s
  sems : SemsOk c s
  irq : IrqOk s

theorem LocksOk.frame (h : LocksOk s) (hown : s'.myOwner = s.myOwner) (hin : s'.inside = s.inside)
    (hsleep : ∀ l t, AsleepOn s'.sys (.lock l) t →
      AsleepOn s.sys (.lock l) t ∨ s.myOwner l ≠ none) : LocksOk s' where
  owner := by
    rw [hown, hin]
    exact h.owner
  free := fun l t hnone ht => by
    rw [hown] at hnone
    rcases hsleep l t ht with ht | hbusy
    · exact h.free l t hnone ht
    · exact hbusy hnone

theorem SemsOk.frame (h : SemsOk c s) (hcount : s'.count = s.count) (hvs : s'.vs = s.vs)
    (hps : s'.ps = s.ps) (hcalled : s'.called = s.called) (hpanic : s'.panicked = s.panicked)
    (hsleep : ∀ x t, AsleepOn s'.sys (.sem x) t →
      AsleepOn s.sys (.sem x) t ∨ s.count x = 0) : SemsOk c s' where
  exact := by
    rw [hcount, hvs, hps]
    exact h.exact
  nonneg := by
    rw [hcount]
    exact h.nonneg
  small := by
    rw [hcount]
    exact h.small
  free := fun x t hpos ht => by
    rw [hcount] at hpos
    rcases hsleep x t ht with ht | hzero
    · exact h.free x t hpos ht
    · omega
  called := by
    rw [hpanic, hcalled, hvs]
    exact h.called
  overflow := by
    rw [hpanic, hcalled, hps]
    exact h.overflow

theorem Inv.flag (h : Inv c s) (hcur : s.sys.curthread = some t)
    (ht : (s.pc t).inHandler = false) : s.inInterrupt = false := by
  rw [h.irq.cur t hcur, ht]

section Count

variable [DecidableEq S]

variable {x : S}

theorem SemsOk.take (h : SemsOk c s) (hpos : 0 < s.count x) (hrun : s.panicked = false) :
    SemsOk c { s with
      count := update s.count x (s.count x - 1)
      ps := update s.ps x (s.ps x + 1) } where
  exact := fun y => by
    by_cases hy : y = x
    · subst hy
      have := h.exact y
      simp only [update_self]
      omega
    · simpa [hy] using h.exact y
  nonneg := fun y => by
    by_cases hy : y = x
    · subst hy
      simp only [update_self]
      omega
    · simpa [hy] using h.nonneg y
  small := fun y => by
    by_cases hy : y = x
    · subst hy
      have := h.small y
      simp only [update_self]
      omega
    · simpa [hy] using h.small y
  free := fun y u hcount => by
    by_cases hy : y = x
    · subst hy
      exact h.free y u hpos
    · simp only [update_of_ne hy] at hcount
      exact h.free y u hcount
  called := h.called
  overflow := fun hp => absurd hp (by simp [hrun])

theorem SemsOk.give [DecidableEq L] [DecidableEq B] (h : SemsOk c s)
    (hrun : s.panicked = false) (hlt : s.count x + 1 < 2 ^ 31) :
    SemsOk c { s with
      sys := threadWakeup (.sem x) s.sys
      count := update s.count x (s.count x + 1)
      called := update s.called x (s.called x + 1)
      vs := update s.vs x (s.vs x + 1) } where
  exact := fun y => by
    by_cases hy : y = x
    · subst hy
      have := h.exact y
      simp only [update_self]
      omega
    · simpa [hy] using h.exact y
  nonneg := fun y => by
    by_cases hy : y = x
    · subst hy
      have := h.nonneg y
      simp only [update_self]
      omega
    · simpa [hy] using h.nonneg y
  small := fun y => by
    by_cases hy : y = x
    · subst hy
      simpa using hlt
    · simpa [hy] using h.small y
  free := fun y u hcount hu => by
    obtain ⟨hu, hne⟩ := AsleepOn.of_threadWakeup hu
    have hy : y ≠ x := by
      rintro rfl
      exact hne rfl
    simp only [update_of_ne hy] at hcount
    exact h.free y u hcount hu
  called := fun _ y => by
    by_cases hy : y = x
    · subst hy
      simp [h.called hrun]
    · simp [hy, h.called hrun]
  overflow := fun hp => absurd hp (by simp [hrun])

theorem SemsOk.overflows (h : SemsOk c s) (hrun : s.panicked = false)
    (htop : s.count x = 2 ^ 31 - 1) :
    SemsOk c (panic { s with called := update s.called x (s.called x + 1) }) where
  exact := h.exact
  nonneg := h.nonneg
  small := h.small
  free := h.free
  called := fun hp => by cases hp
  overflow := fun _ => by
    have hexact := h.exact x
    have hcalled := h.called hrun x
    refine ⟨x, ?_⟩
    simp only [panic, update_self]
    omega

end Count

variable [DecidableEq T]

section Switch

variable {sys : Sys T (Addr L S B)}

@[simp] theorem mdSwitch_sys : (mdSwitch s t sys).sys = sys := by unfold mdSwitch; split <;> rfl

@[simp] theorem mdSwitch_myOwner : (mdSwitch s t sys).myOwner = s.myOwner := by
  unfold mdSwitch; split <;> rfl

@[simp] theorem mdSwitch_inside : (mdSwitch s t sys).inside = s.inside := by
  unfold mdSwitch; split <;> rfl

@[simp] theorem mdSwitch_pc : (mdSwitch s t sys).pc = s.pc := by unfold mdSwitch; split <;> rfl

theorem SemsOk.mdSwitch (h : SemsOk c s) (hsleep : ∀ x u, AsleepOn sys (.sem x) u →
    AsleepOn s.sys (.sem x) u ∨ s.count x = 0) : SemsOk c (mdSwitch s t sys) := by
  have hs : ∀ x u, AsleepOn (Many.mdSwitch s t sys).sys (.sem x) u →
      AsleepOn s.sys (.sem x) u ∨ s.count x = 0 := by simpa using hsleep
  unfold Many.mdSwitch at hs ⊢
  split <;> rename_i hcur <;> simp only [hcur, if_true, if_false] at hs
  · exact h.frame rfl rfl rfl rfl rfl hs
  · exact h.frame rfl rfl rfl rfl rfl hs

theorem IrqOk.mdSwitch (h : IrqOk s) (hcur : s.sys.curthread = some t)
    (halive : ∀ u, sys.curthread = some u → (s.pc u).alive) : IrqOk (mdSwitch s t sys) := by
  unfold Many.mdSwitch
  split
  · rename_i hsame
    refine ⟨fun u hu => h.cur u ?_, fun u hu => h.saved u ?_, h.old⟩
    · rw [hcur, ← hsame]
      exact hu
    · rw [hcur, ← hsame]
      exact hu
  · rename_i hne
    refine ⟨fun u hu => ?_, fun u hu ha => ?_, h.old⟩
    · have hut : u ≠ t := by
        rintro rfl
        exact hne hu
      simp only at hu
      simp only [hu, map_some, getD_some, update_of_ne hut]
      exact h.saved u (by simpa [hcur] using Ne.symm hut) (halive u hu)
    · by_cases hut : u = t
      · subst hut
        simpa using h.cur u hcur
      · simp only [update_of_ne hut]
        exact h.saved u (by simpa [hcur] using Ne.symm hut) ha

theorem IrqOk.move {b : Bool} (h : IrqOk s) (hcur : s.sys.curthread = some t)
    (hp : p.inHandler = b) (hold : ∀ o, p = .handler o → o = false) :
    IrqOk (goto { s with inInterrupt := b } t p) := by
  have hother : ∀ u, s.sys.curthread ≠ some u → u ≠ t := by
    rintro u hu rfl
    exact hu hcur
  refine ⟨fun u hu => ?_, fun u hu ha => ?_, fun u o ho => ?_⟩
  · obtain rfl : t = u := some.inj (hcur.symm.trans hu)
    simp [Many.goto, hp]
  · simp only [Many.goto, update_of_ne (hother u hu)] at ha ⊢
    exact h.saved u hu ha
  · by_cases hut : u = t
    · subst hut
      exact hold o (by simpa [Many.goto] using ho)
    · exact h.old u o (by simpa [Many.goto, hut] using ho)

end Switch

/-! ## What each function keeps -/

@[simp] theorem goto_pc : (goto s t p).pc = update s.pc t p := rfl

section

variable (h : Inv c s) (hcur : s.sys.curthread = some t)
include h hcur

theorem Inv.goto (hal : (s.pc t).alive ↔ p.alive)
    (hp : p.inHandler = (s.pc t).inHandler) (hold : ∀ o, p = .handler o → o = false) :
    Inv c (goto s t p) where
  here := h.here.stay hcur hal Iff.rfl
  locks := h.locks.frame rfl rfl fun _ _ h => Or.inl h
  sems := h.sems.frame rfl rfl rfl rfl rfl fun _ _ h => Or.inl h
  irq := h.irq.move hcur (hp.trans (h.irq.cur t hcur).symm) hold

theorem Inv.mdSwitch {sys : Sys T (Addr L S B)}
    (hhere : LockOk (code L S B) ⟨sys, none⟩ s.pc)
    (hsleep : ∀ a u, AsleepOn sys a u → AsleepOn s.sys a u) : Inv c (mdSwitch s t sys) where
  here := by simpa [Here] using hhere
  locks := h.locks.frame (by simp) (by simp) fun l u hu => Or.inl (hsleep _ u (by simpa using hu))
  sems := h.sems.mdSwitch fun x u hu => Or.inl (hsleep _ u hu)
  irq := h.irq.mdSwitch hcur fun _ hu => hhere.placed.cur_alive hu

theorem Inv.resume : Inv c (resume s) where
  here := h.here.woken hcur
  locks := h.locks.frame rfl rfl fun _ _ hu => Or.inl (AsleepOn.of_threadResume hcur hu)
  sems := h.sems.frame rfl rfl rfl rfl rfl fun _ _ hu => Or.inl (AsleepOn.of_threadResume hcur hu)
  irq := by
    have hsame : (Many.resume s).sys.curthread = s.sys.curthread := threadResume_curthread
    exact ⟨fun u hu => h.irq.cur u (hsame ▸ hu), fun u hu => h.irq.saved u (hsame ▸ hu), h.irq.old⟩

end

theorem Pc.of_sleepsOn {addr : Addr L S B} (h : p.sleepsOn = some addr) :
    p.alive ∧ p.inHandler = false := by
  cases p <;> simp_all [Pc.sleepsOn, Pc.alive, Pc.inHandler]

theorem Inv.sleep {addr : Addr L S B} (h : Inv c s) (hcur : s.sys.curthread = some t)
    (ht : (s.pc t).inHandler = false) (hp : p.sleepsOn = some addr)
    (hlock : ∀ l, addr = .lock l → s.myOwner l ≠ none) (hsem : ∀ x, addr = .sem x → s.count x = 0) :
    Inv c (sleep s t addr p) := by
  obtain ⟨halive, hhandler⟩ := Pc.of_sleepsOn hp
  have hcode : (code L S B).alive (s.pc t) := h.here.placed.cur_alive hcur
  have hhere : LockOk (code L S B) ⟨threadSleep addr s.sys, none⟩ (update s.pc t p) :=
    h.here.sleep hcur (iff_of_true hcode halive) Iff.rfl hp
  simp only [Many.sleep, h.flag hcur ht, Bool.false_eq_true, if_false]
  refine ⟨by simpa [Here] using hhere, ?_, ?_, ?_⟩
  · refine h.locks.frame (by simp [Many.goto]) (by simp [Many.goto]) fun l u hu => ?_
    rw [mdSwitch_sys] at hu
    exact (AsleepOn.of_threadSleep hcur hu).imp_right fun ha => hlock l ha.symm
  · have hgoto : SemsOk c (Many.goto s t p) :=
      h.sems.frame rfl rfl rfl rfl rfl fun _ _ h => Or.inl h
    exact hgoto.mdSwitch fun x u hu =>
      (AsleepOn.of_threadSleep hcur hu).imp_right fun ha => hsem x ha.symm
  · have hgoto : IrqOk (Many.goto s t p) := by
      refine h.irq.move hcur (hhandler.trans (h.flag hcur ht).symm) fun o ho => ?_
      rw [ho] at hhandler
      cases hhandler
    exact hgoto.mdSwitch hcur fun _ hu => hhere.placed.cur_alive hu

theorem Pc.alive_out : (Pc.out : Pc L S B).alive := by simp [Pc.alive]

theorem Inv.toOut (h : Inv c s) (hcur : s.sys.curthread = some t)
    (ht : (s.pc t).inHandler = false) : Inv c (Many.goto s t .out) :=
  h.goto hcur (iff_of_true (h.here.placed.cur_alive hcur) Pc.alive_out) ht.symm fun _ h => by cases h

section Locks

variable [DecidableEq L]

variable {l : L}

theorem LocksOk.take (h : LocksOk s) (hfree : s.myOwner l = none) : LocksOk { s with
      myOwner := update s.myOwner l (some t)
      inside := update s.inside t (update (s.inside t) l true) } where
  owner := fun m u => by
    by_cases hm : m = l
    · subst hm
      have hno : ∀ v, s.inside v m = false := fun v => by
        rw [← Bool.not_eq_true, ← h.owner, hfree]
        simp
      by_cases hu : u = t
      · subst hu
        simp
      · simp [hu, hno u, Ne.symm hu]
    · by_cases hu : u = t
      · subst hu
        simp [hm, h.owner]
      · simp [hm, hu, h.owner]
  free := fun m u hnone => by
    by_cases hm : m = l
    · subst hm
      simp at hnone
    · simp only [update_of_ne hm] at hnone
      exact h.free m u hnone

theorem Inv.acquire (h : Inv c s) (hcur : s.sys.curthread = some t)
    (ht : (s.pc t).inHandler = false) : Inv c (acquire s t l) := by
  unfold Many.acquire
  split
  · rename_i hfree
    have htake := h.locks.take (t := t) hfree
    exact Inv.toOut ⟨h.here, htake, h.sems.frame rfl rfl rfl rfl rfl fun _ _ h => Or.inl h,
      ⟨h.irq.cur, h.irq.saved, h.irq.old⟩⟩ hcur ht
  · rename_i o hown
    refine h.sleep hcur ht rfl (fun m hm => ?_) fun x hx => ?_
    · cases hm
      rw [hown]
      simp
    · cases hx

theorem LocksOk.give [DecidableEq S] [DecidableEq B] (h : LocksOk s)
    (ht : s.inside t l = true) :
    LocksOk { s with
      sys := threadWakeup (.lock l) s.sys
      myOwner := update s.myOwner l none
      inside := update s.inside t (update (s.inside t) l false) } where
  owner := fun m u => by
    by_cases hm : m = l
    · subst hm
      by_cases hu : u = t
      · subst hu
        simp
      · have hno : s.inside u m = false := by
          rw [← Bool.not_eq_true, ← h.owner, (h.owner m t).mpr ht]
          simpa using Ne.symm hu
        simp [hu, hno]
    · by_cases hu : u = t
      · subst hu
        simp [hm, h.owner]
      · simp [hm, hu, h.owner]
  free := fun m u hnone hu => by
    obtain ⟨hu, hne⟩ := AsleepOn.of_threadWakeup hu
    have hm : m ≠ l := by
      rintro rfl
      exact hne rfl
    simp only [update_of_ne hm] at hnone
    exact h.free m u hnone hu

theorem Inv.release [DecidableEq S] [DecidableEq B] (h : Inv c s)
    (hcur : s.sys.curthread = some t) (ht : s.inside t l = true) : Inv c (release s t l) := by
  have hown : s.myOwner l = some t := (h.locks.owner l t).mpr ht
  have hrel : lockRelease (.lock l) ⟨s.sys, s.myOwner l⟩ =
      some ⟨threadWakeup (.lock l) s.sys, none⟩ := by
    simp [lockRelease, lockDoIHold, hcur, hown]
  simp only [Many.release, hrel]
  refine ⟨h.here.wake _ _, h.locks.give ht, ?_, ⟨h.irq.cur, h.irq.saved, h.irq.old⟩⟩
  exact h.sems.frame rfl rfl rfl rfl rfl fun x u hu => Or.inl (AsleepOn.of_threadWakeup hu).1

end Locks

section Semaphores

variable [DecidableEq S]

theorem Inv.semP {x : S} (h : Inv c s) (hcur : s.sys.curthread = some t)
    (ht : (s.pc t).inHandler = false) (hrun : s.panicked = false) : Inv c (semP s t x) := by
  unfold Many.semP
  by_cases hzero : s.count x = 0
  · simp only [hzero, if_true]
    refine h.sleep hcur ht rfl (fun l hl => ?_) fun y hy => ?_
    · cases hl
    · cases hy
      exact hzero
  · have hpos : 0 < s.count x := by
      have := h.sems.nonneg x
      omega
    simp only [hzero, if_false, takeCount_pos hpos (h.sems.small x)]
    exact Inv.toOut ⟨h.here, h.locks.frame rfl rfl fun _ _ h => Or.inl h, h.sems.take hpos hrun,
      ⟨h.irq.cur, h.irq.saved, h.irq.old⟩⟩ hcur ht

omit [DecidableEq T] in
theorem Inv.semV [DecidableEq L] [DecidableEq B] (x : S) (h : Inv c s)
    (hrun : s.panicked = false) : Inv c (semV s x) := by
  unfold Many.semV
  rcases addCount_cases (h.sems.nonneg x) (h.sems.small x) with ⟨hadd, htop⟩ | ⟨hadd, hlt⟩
  · simp only [hadd]
    exact ⟨h.here, ⟨h.locks.owner, h.locks.free⟩, h.sems.overflows hrun htop,
      ⟨h.irq.cur, h.irq.saved, h.irq.old⟩⟩
  · simp only [hadd]
    refine ⟨h.here.wake _ _, ?_, h.sems.give hrun hlt, ⟨h.irq.cur, h.irq.saved, h.irq.old⟩⟩
    exact h.locks.frame rfl rfl fun l u hu => Or.inl (AsleepOn.of_threadWakeup hu).1

end Semaphores

theorem Inv.fork (h : Inv c s) (ht : s.pc t = .gone) : Inv c (Many.goto { s with
      sys := threadFork t s.sys
      pcb := update s.pcb t false } t .out) where
  here := by apply h.here.fork <;> simp [code, ht, Pc.alive, Pc.sleepsOn]
  locks := h.locks.frame rfl rfl fun _ _ h => Or.inl h
  sems := h.sems.frame rfl rfl rfl rfl rfl fun _ _ h => Or.inl h
  irq := by
    have hother : ∀ u, s.sys.curthread = some u → u ≠ t := by
      rintro u hu rfl
      exact (h.here.placed.cur_alive hu).1 ht
    refine ⟨fun u hu => ?_, fun u hu ha => ?_, fun u o ho => ?_⟩
    · simpa [Many.goto, hother u hu] using h.irq.cur u hu
    · by_cases hut : u = t
      · subst hut
        simp [Many.goto, Pc.inHandler]
      · simp only [Many.goto, update_of_ne hut] at ha ⊢
        exact h.irq.saved u hu ha
    · by_cases hut : u = t
      · subst hut
        simp [Many.goto] at ho
      · exact h.irq.old u o (by simpa [Many.goto, hut] using ho)

theorem Inv.exit (h : Inv c s) (hcur : s.sys.curthread = some t) (ht : s.pc t = .out) :
    Inv c (Many.mdSwitch (Many.goto s t .exited) t (threadExit s.sys)) := by
  have hhere : LockOk (code L S B) ⟨threadExit s.sys, none⟩ (update s.pc t .exited) := by
    apply h.here.exit hcur <;> simp [code, Pc.alive]
  have hflag : s.inInterrupt = false := h.flag hcur (by simp [ht, Pc.inHandler])
  have hirq : IrqOk (Many.goto s t .exited) := h.irq.move hcur hflag.symm fun o ho => by cases ho
  refine ⟨by simpa [Here] using hhere, ?_, ?_, ?_⟩
  · refine h.locks.frame (by simp [Many.goto]) (by simp [Many.goto]) fun l u hu => Or.inl ?_
    rw [mdSwitch_sys] at hu
    exact AsleepOn.of_threadExit hcur hu
  · have hgoto : SemsOk c (Many.goto s t .exited) :=
      h.sems.frame rfl rfl rfl rfl rfl fun _ _ h => Or.inl h
    exact hgoto.mdSwitch fun x u hu => Or.inl (AsleepOn.of_threadExit hcur hu)
  · exact hirq.mdSwitch hcur fun _ hu => hhere.placed.cur_alive hu

theorem Inv.timer (h : Inv c s) (hcur : s.sys.curthread = some t) (ht : s.pc t = .out) :
    Inv c (timer s t) := by
  have halive : (code L S B).alive (s.pc t) := h.here.placed.cur_alive hcur
  have hflag : s.inInterrupt = false := h.flag hcur (by simp [ht, Pc.inHandler])
  -- In the handler, before the switch.
  have hin : Inv c (Many.goto { s with inInterrupt := true } t (.handler s.inInterrupt)) := by
    refine ⟨h.here.stay hcur (iff_of_true halive (by simp [code, Pc.alive])) Iff.rfl,
      h.locks.frame rfl rfl fun _ _ h => Or.inl h,
      h.sems.frame rfl rfl rfl rfl rfl fun _ _ h => Or.inl h, ?_⟩
    exact h.irq.move hcur rfl fun o ho => (Pc.handler.inj ho).symm.trans hflag
  exact hin.mdSwitch hcur (hin.here.yield hcur) fun _ _ hu => AsleepOn.of_threadYield hcur hu

theorem Inv.dispatch (h : Inv c s) (hcur : s.sys.curthread = none) : Inv c (dispatch s) where
  here := h.here.dispatch hcur
  locks := h.locks.frame rfl rfl fun _ _ hu => Or.inl (AsleepOn.of_scheduler hu)
  sems := h.sems.frame rfl rfl rfl rfl rfl fun _ _ hu => Or.inl (AsleepOn.of_scheduler hu)
  irq := by
    refine ⟨fun u hu => ?_, fun u _ ha => h.irq.saved u (by simp [hcur]) ha, h.irq.old⟩
    have halive := (h.here.dispatch hcur).placed.cur_alive hu
    simp only [Many.dispatch] at hu ⊢
    rw [hu, map_some, getD_some]
    exact h.irq.saved u (by simp [hcur]) halive

section Steps

variable [DecidableEq L] [DecidableEq S] [DecidableEq B]

omit [DecidableEq T] in
theorem Inv.wake (b : B) (h : Inv c s) : Inv c { s with sys := threadWakeup (.other b) s.sys } where
  here := h.here.wake _ _
  locks := h.locks.frame rfl rfl fun _ _ hu => Or.inl (AsleepOn.of_threadWakeup hu).1
  sems := h.sems.frame rfl rfl rfl rfl rfl fun _ _ hu => Or.inl (AsleepOn.of_threadWakeup hu).1
  irq := ⟨h.irq.cur, h.irq.saved, h.irq.old⟩

theorem act_inv (a : Label T L S B) (h : Inv c s) (hrun : s.panicked = false)
    (hcur : s.sys.curthread = some t) (ht : s.pc t = .out) (hact : act s t a = some s') :
    Inv c s' := by
  have hhandler : (s.pc t).inHandler = false := by rw [ht]; rfl
  cases a with
  | threadFork u =>
    obtain ⟨hu, rfl⟩ := ite_some_none_eq_some.mp hact
    exact h.fork hu
  | threadExit =>
    cases hact
    exact h.exit hcur ht
  | threadYield =>
    cases hact
    exact h.mdSwitch hcur (h.here.yield hcur) fun _ _ hu => AsleepOn.of_threadYield hcur hu
  | threadSleep b =>
    cases hact
    refine h.sleep hcur hhandler rfl (fun l hl => ?_) fun x hx => ?_
    · cases hl
    · cases hx
  | threadWakeup b =>
    cases hact
    exact h.wake b
  | lockAcquire l =>
    obtain ⟨-, hact⟩ := ite_none_left_eq_some.mp hact
    cases hact
    exact h.acquire hcur hhandler
  | lockRelease l =>
    obtain ⟨hl, rfl⟩ := ite_some_none_eq_some.mp hact
    exact h.release hcur hl
  | semP x =>
    simp only [act, h.flag hcur hhandler, Bool.false_eq_true, if_false, some.injEq] at hact
    subst hact
    exact h.semP hcur hhandler hrun
  | semV x =>
    cases hact
    exact h.semV x hrun
  | timer => cases hact
  | interruptV x => cases hact
  | interrupt b => cases hact
  | dispatch => cases hact
  | next => cases hact

omit [DecidableEq B] in
theorem goOn_inv (h : Inv c s) (hrun : s.panicked = false) (hcur : s.sys.curthread = some t)
    (hgo : goOn s t = some s') : Inv c s' := by
  have hres : Inv c (resume s) := h.resume hcur
  have hcur' : (resume s).sys.curthread = some t := by
    rw [← hcur]
    exact threadResume_curthread
  unfold goOn at hgo
  split at hgo <;> cases hgo
  all_goals rename_i hpc
  · exact hres.acquire hcur' (by simp [resume, hpc, Pc.inHandler])
  · exact hres.semP hcur' (by simp [resume, hpc, Pc.inHandler]) hrun
  · exact hres.toOut hcur' (by simp [resume, hpc, Pc.inHandler])
  · rename_i old
    obtain rfl : old = false := h.irq.old t old hpc
    refine ⟨?_, h.locks.frame rfl rfl fun _ _ h => Or.inl h,
      h.sems.frame rfl rfl rfl rfl rfl fun _ _ h => Or.inl h, ?_⟩
    · exact h.here.stay hcur (iff_of_true (h.here.placed.cur_alive hcur) Pc.alive_out) Iff.rfl
    · exact h.irq.move hcur rfl fun o ho => by cases ho

theorem step_inv (a : Label T L S B) (h : Inv c s) (hstep : step s a = some s') : Inv c s' := by
  unfold step at hstep
  split at hstep
  · cases hstep
  rename_i hrun
  rw [Bool.not_eq_true] at hrun
  split at hstep
  · rename_i t hcur
    obtain ⟨hout, rfl⟩ := ite_some_none_eq_some.mp hstep
    exact h.timer hcur (by simpa [interruptible, hcur] using hout)
  · obtain ⟨-, rfl⟩ := ite_some_none_eq_some.mp hstep
    exact h.semV _ hrun
  · obtain ⟨-, rfl⟩ := ite_some_none_eq_some.mp hstep
    exact h.wake _
  · rename_i hcur
    cases hstep
    exact h.dispatch hcur
  · rename_i t hcur
    exact goOn_inv h hrun hcur hstep
  · rename_i t hcur
    obtain ⟨hout, hact⟩ := ite_none_right_eq_some.mp hstep
    exact act_inv _ h hrun hcur hout hact
  · cases hstep

end Steps

theorem inv_init {ts : List T} (hts : ts.Nodup) (hc : ∀ x, 0 ≤ c x ∧ c x < 2 ^ 31) :
    Inv c (init ts c : State T L S B) where
  here := by
    refine ⟨⟨by simpa [Sys.threads, init] using hts, fun t => ?_, by simp [init]⟩, fun t => ?_⟩
    · simp only [Sys.threads, init, toList_none, nil_append, append_nil]
      by_cases ht : t ∈ ts <;> simp [code, Pc.alive, ht]
    · simp [code]
  locks := ⟨by simp [init], by simp [init, AsleepOn]⟩
  sems := ⟨by simp [init], fun x => (hc x).1, fun x => (hc x).2, by simp [init, AsleepOn],
    by simp [init], by simp [init]⟩
  irq := by
    refine ⟨by simp [init], fun t _ _ => ?_, fun t o ho => ?_⟩ <;> by_cases ht : t ∈ ts
    · simp [init, ht, Pc.inHandler]
    · simp [init, ht, Pc.inHandler]
    · simp [init, ht] at ho
    · simp [init, ht] at ho

omit [DecidableEq T] in
theorem Inv.excludes (h : Inv c s) (l : L) : Excludes s l where
  one := fun t u ht hu => by
    have hown := (h.locks.owner l t).mpr ht
    rw [(h.locks.owner l u).mpr hu] at hown
    exact (some.inj hown).symm
  owner := h.locks.owner l
  handsOver := fun hnone t => h.locks.free l t hnone

omit [DecidableEq T] in
theorem Inv.counts (h : Inv c s) (x : S) : Counts c s x :=
  ⟨h.sems.exact x, h.sems.nonneg x, fun hpos t => h.sems.free x t hpos⟩

omit [DecidableEq T] in
theorem Inv.assertsHold (h : Inv c s) : AssertsHold c s := fun hlt => by
  rw [← Bool.not_eq_true]
  intro hp
  obtain ⟨x, hx⟩ := h.sems.overflow hp
  have := hlt x
  omega

section Runs

variable [DecidableEq L] [DecidableEq S] [DecidableEq B]

/-- No thread is left asleep on a lock that is free. -/
theorem locks_exclude {ts : List T} (hts : ts.Nodup) (hc : ∀ x, 0 ≤ c x ∧ c x < 2 ^ 31)
    (as : List (Label T L S B)) :
    Always step (fun s => ∀ l, Excludes s l) (init ts c) as :=
  always_of_inv (fun _ a _ h hs => step_inv a h hs) (fun _ h l => h.excludes l) (inv_init hts hc) as

end Runs

theorem locks_exclude_two_threads :
    let as : List (Label (Fin 2) Unit Unit Unit) := [.dispatch, .lockAcquire (), .timer,
      .lockAcquire (), .next, .lockRelease (), .threadYield, .next, .lockRelease ()]
    (run step (init [0, 1] fun _ => 0) as).isSome ∧
      Always step (fun s => ∀ l, Excludes s l) (init [0, 1] fun _ => 0) as := by
  intro as
  exact ⟨by decide, locks_exclude (by decide) (by decide) as⟩

section Runs

variable [DecidableEq L] [DecidableEq S] [DecidableEq B]

/-- No assertion fails before a counter overflows. -/
theorem semaphores_count {ts : List T} (hts : ts.Nodup) (hc : ∀ x, 0 ≤ c x ∧ c x < 2 ^ 31)
    (as : List (Label T L S B)) :
    Always step (fun s => (∀ x, Counts c s x) ∧ AssertsHold c s) (init ts c) as :=
  always_of_inv (fun _ a _ h hs => step_inv a h hs) (fun _ h => ⟨h.counts, h.assertsHold⟩)
    (inv_init hts hc) as

end Runs

theorem semaphores_count_two_threads :
    let as : List (Label (Fin 2) Unit Unit Unit) := [.dispatch, .semP (), .interruptV (), .semP (),
      .semV (), .threadYield, .next]
    (run step (init [0, 1] fun _ => 0) as).isSome ∧
      Always step (fun s => (∀ x, Counts (fun _ => 0) s x) ∧ AssertsHold (fun _ => 0) s)
        (init [0, 1] fun _ => 0) as := by
  intro as
  exact ⟨by decide, semaphores_count (by decide) (by decide) as⟩

end Os161.Synch.Many
