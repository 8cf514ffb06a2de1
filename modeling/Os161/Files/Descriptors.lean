import Os161.Files.Modes

/-!
# Descriptors after a fork

`fd_table_close` clears a descriptor only together with the last reference to its file, and then it
destroys the `rw_lock` of the vnode, whoever else has the vnode open.
-/

open Os161.Lib Os161.Kern Os161.Userprog Function Option

namespace Os161.Files

abbrev Marks := Finset (Nat × Fin maxFileOpen)

structure World where
  files : State
  closed : Marks

inductive Act where
  | event (e : Event)
  | access (p : Nat) (fd : Int) (a : Access)

def mark (s : State) (closed : Marks) : Event → Marks
  | .sysOpen p flag o =>
    match fdTableOpen s p flag o with
    | some (_, .ok fd) => closed.erase (p, fd)
    | _ => closed
  | .sysClose p fd =>
    match (s.table p).map fun t => fdTableGet t fd with
    | some (.ok (i, _)) => insert (p, i) closed
    | _ => closed
  | .runprogram p _ _ => closed.filter fun x => x.1 ≠ p
  | .fork _ child _ _ => closed.filter fun x => x.1 ≠ child
  | .exit _ => closed

def World.step (w : World) : Act → Option World
  | .event e => (Files.step w.files e).map fun s => ⟨s, mark w.files w.closed e⟩
  | .access p fd a =>
    if p ∈ w.files.procs then (access p fd w.files a).map fun r => ⟨r.state, w.closed⟩ else none

/-- Every descriptor but `fd` of `p` has its file, at its offset. Without its `rw_lock` the file could
not be closed any more. -/
structure Untouched (s s' : State) (p : Nat) (fd : Fin maxFileOpen) : Prop where
  slot : ∀ q ∈ s.procs, ∀ i, (q, i) ≠ (p, fd) → s'.slot q i = s.slot q i
  file : ∀ q ∈ s.procs, ∀ i, (q, i) ≠ (p, fd) → ∀ f, s.slot q i = some f →
    f ∈ s'.live ∧ (s'.file f).offset = (s.file f).offset ∧
      s'.rwLock (s'.file f).vn = s.rwLock (s.file f).vn

def World.isClosed (w : World) (p : Nat) (fd : Int) : Prop :=
  ∃ i : Fin maxFileOpen, fd = (i : Nat) ∧ (p, i) ∈ w.closed

/-- An open returns the lowest free descriptor, a close touches no other, and a closed one is EBADF.
-/
def Proper (w : World) : Act → Prop
  | .event (.sysOpen p flag o) => ∀ s' fd, fdTableOpen w.files p flag o = some (s', .ok fd) →
    w.files.slot p fd = none ∧ ∀ i < fd, w.files.slot p i ≠ none
  | .event (.sysClose p fd) => ∀ s' r, fdTableClose w.files p fd = some (s', r) →
    (w.isClosed p fd → r = .error EBADF) ∧
    (r = .ok () → ∃ i : Fin maxFileOpen, fd = (i : Nat) ∧ s'.slot p i = none ∧
      Untouched w.files s' p i)
  | .access p fd a => ∀ r, access p fd w.files a = some r → w.isClosed p fd → r.ret = .error .EBADF
  | _ => True

/-- The file has one reference, and no other descriptor has a file of the same vnode. -/
def SoleFile (s : State) (p : Nat) (fd : Int) (f : Nat) : Prop := (s.file f).refCount = 1 ∧
  ∀ q ∈ s.procs, ∀ i : Fin maxFileOpen, ∀ g ∈ s.slot q i, (s.file g).vn = (s.file f).vn →
    q = p ∧ fd = (i : Nat)

def Sole (w : World) : Act → Prop
  | .event (.sysClose p fd) => ∀ f ∈ w.files.fileAt p fd, SoleFile w.files p fd f
  | .access p fd a => w.isClosed p fd → a.rw = .UIO_READ → a.buf ≠ 0
  | _ => True

instance (w : World) (p : Nat) (fd : Int) : Decidable (w.isClosed p fd) :=
  inferInstanceAs (Decidable (∃ _, _))

instance (s : State) (p : Nat) (fd : Int) (f : Nat) : Decidable (SoleFile s p fd f) :=
  inferInstanceAs (Decidable (_ ∧ _))

instance (w : World) : ∀ a, Decidable (Sole w a)
  | .event (.sysClose _ _) => inferInstanceAs (Decidable (∀ _ ∈ _, SoleFile _ _ _ _))
  | .access _ _ _ => inferInstanceAs (Decidable (_ → _ → _))
  | .event (.runprogram _ _ _) | .event (.sysOpen _ _ _) | .event (.fork _ _ _ _)
  | .event (.exit _) => inferInstanceAs (Decidable True)

def Points (s : State) : Prop := ∀ p ∈ s.procs, ∀ i f, s.slot p i = some f → f ∈ s.live

structure Marked (w : World) : Prop where
  points : Points w.files
  closed : ∀ x ∈ w.closed, x.1 ∈ w.files.procs → w.files.slot x.1 x.2 = none

section Points

variable {s s' : State} {p : Nat} {fd : Fin maxFileOpen} {t : Table}

section

variable (h : Points s)
include h

theorem Points.setSlot (ht : s.table p = some t) {o : Option Nat}
    (ho : ∀ f, o = some f → f ∈ s.live) : Points (s.setSlot p fd o) := by
  intro q hq i f hf
  rw [slot_setSlot ht] at hf
  split at hf
  · exact ho f hf
  · exact h q hq i f hf

theorem Points.fdTableOpen {flag : Int} {o : Outcome} {r : Except Int (Fin maxFileOpen)}
    (ho : fdTableOpen s p flag o = some (s', r)) : Points s' := by
  cases r with
  | error e =>
    rw [(fdTableOpen_error ho).1]
    exact h
  | ok fd =>
    obtain ⟨t, f, vn, ht, -, -, -, -, rfl⟩ := fdTableOpen_ok ho
    have hopened : Points (s.opened f flag vn o.lock) :=
      fun q hq i g hg => Finset.mem_insert_of_mem (h q hq i g hg)
    exact hopened.setSlot ht fun g hg => some.inj hg ▸ Finset.mem_insert_self ..

theorem Points.openConsoles {os : List (Int × Outcome)} {r : Except Int Unit}
    (hc : openConsoles s p os = some (s', r)) : Points s' := by
  induction os generalizing s with
  | nil =>
    cases hc
    exact h
  | cons o os ih =>
    obtain ⟨⟨s₁, r₁⟩, ho, hc⟩ := bind_eq_some_iff.mp hc
    cases r₁ with
    | error e =>
      cases hc
      exact h.fdTableOpen ho
    | ok fd => exact ih (h.fdTableOpen ho) hc

theorem Points.addProcess {u : Option Table} (hu : ∀ t, u = some t → ∀ i, t i = none) :
    Points { s.addProcess p with table := update (s.addProcess p).table p u } := by
  intro q hq i f hf
  obtain ⟨t, ht, hf⟩ := bind_eq_some_iff.mp hf
  change update (update s.table p none) p u q = some t at ht
  rw [update_idem] at ht
  by_cases hqp : q = p
  · rw [hqp, update_self] at ht
    rw [hu t ht i] at hf
    cases hf
  · rw [update_of_ne hqp] at ht
    exact h q (Finset.mem_of_mem_insert_of_ne hq hqp) i f ((slot_eq ht).trans hf)

end

structure Creates (s s' : State) (p : Nat) : Prop where
  points : Points s'
  procs : ∀ q ∈ s'.procs, q ≠ p → q ∈ s.procs
  table : ∀ q, q ≠ p → s'.table q = s.table q
  live : ∀ f ∈ s.live, f ∈ s'.live

theorem Points.fdTableCreate (h : Points s) {memory : Bool} {os : Fin 3 → Outcome}
    {r : Except Int Unit} (hc : fdTableCreate (s.addProcess p) p memory os = some (s', r)) :
    Creates s s' p ∧ (r = .ok () → ∃ t, s'.table p = some t) := by
  have hprocs : ∀ q ∈ insert p s.procs, q ≠ p → q ∈ s.procs :=
    fun q hq hqp => Finset.mem_of_mem_insert_of_ne hq hqp
  have htable : ∀ u q, q ≠ p → update (s.addProcess p).table p u q = s.table q :=
    fun u q hq => (update_of_ne hq ..).trans (update_of_ne hq ..)
  unfold Files.fdTableCreate at hc
  split at hc
  · have hopens := openConsoles_opens hc
    refine ⟨⟨?_, hopens.procs ▸ hprocs, fun q hq => ?_, hopens.live⟩, fun _ => ?_⟩
    · apply Points.openConsoles (h.addProcess _) hc
      rintro t ⟨⟩ i
      rfl
    · rw [hopens.table q hq]
      exact htable _ q hq
    · apply isSome_iff_exists.mp
      apply hopens.some
      simp
  · cases hc
    have hsame : update (s.addProcess p).table p none = (s.addProcess p).table := update_idem ..
    have hnone := h.addProcess (p := p) (u := none) nofun
    have hother := htable none
    rw [hsame] at hnone hother
    exact ⟨⟨hnone, hprocs, hother, fun f hf => hf⟩, nofun⟩

theorem Points.copyTable (h : Points s) (hp : s.table p = some t) {u : Table}
    (hu : ∀ i f, u i = some f → f ∈ s.live) : Points (copyTable s u p) := by
  unfold Files.copyTable
  generalize List.finRange maxFileOpen = l
  induction l generalizing s t with
  | nil => exact h
  | cons i l ih =>
    obtain ⟨hopens, htab⟩ := copySlot_frame u p i hp
    refine ih ?_ htab fun j f hj => hopens.live f (hu j f hj)
    unfold copySlot
    split
    · exact h.setSlot hp nofun
    · next f hf =>
      exact h.setSlot hp fun g hg => some.inj hg ▸ hu i f hf

theorem Points.newProcess (h : Points s) {memory : Bool} {os : Fin 3 → Outcome}
    {r : Except Int Unit} (hn : newProcess s p memory os = some (s', r)) :
    Creates s s' p ∧ (r = .ok () → ∃ t, s'.table p = some t) := by
  obtain ⟨⟨s₁, r₁⟩, hc, hn⟩ := map_eq_some_iff.mp hn
  obtain ⟨hnew, hsome⟩ := h.fdTableCreate hc
  cases r₁ with
  | error e =>
    cases hn
    exact ⟨⟨fun q hq => hnew.points q (Finset.mem_of_mem_erase hq),
      fun q hq => hnew.procs q (Finset.mem_of_mem_erase hq), hnew.table, hnew.live⟩, nofun⟩
  | ok =>
    cases hn
    exact ⟨hnew, fun _ => hsome rfl⟩

theorem Points.mdForkentry (h : Points s) (hp : p ∈ s.procs) (ht : s.table p = some t)
    {child : Nat} {memory : Bool} {os : Fin 3 → Outcome}
    (hf : mdForkentry s t child memory os = some s') : Creates s s' child := by
  obtain ⟨⟨s₁, r⟩, hn, hf⟩ := map_eq_some_iff.mp hf
  obtain ⟨hnew, hsome⟩ := h.newProcess hn
  cases r with
  | error e =>
    cases hf
    exact hnew
  | ok =>
    cases hf
    obtain ⟨u, hu⟩ := hsome rfl
    obtain ⟨hopens, -⟩ := copyTable_spec t child hu
    refine ⟨hnew.points.copyTable hu fun i f hi => ?_, hopens.procs ▸ hnew.procs, fun q hq => ?_,
      fun f hf => hopens.live f (hnew.live f hf)⟩
    · exact hnew.live f (h p hp i f ((slot_eq ht).trans hi))
    · rw [hopens.table q hq, hnew.table q hq]

/-- What is left when the last reference goes. -/
theorem untouched_iff {f : Nat} (h : Points s) (ht : s.table p = some t)
    (hlock : s.rwLock (s.file f).vn = true)
    (hs : s' = ((s.addRef f (-1)).closed f).setSlot p fd none) :
    Untouched s s' p fd ↔ ∀ q ∈ s.procs, ∀ i : Fin maxFileOpen, ∀ g ∈ s.slot q i,
      (s.file g).vn = (s.file f).vn → q = p ∧ ((fd : Nat) : Int) = (i : Nat) := by
  have hfile : ∀ g, (s'.file g).vn = (s.file g).vn ∧ (s'.file g).offset = (s.file g).offset := by
    intro g
    by_cases hg : g = f
    · simp [hs, hg, State.setSlot, State.closed, State.addRef]
    · simp [hs, hg, State.setSlot, State.closed, State.addRef]
  have hrw : s'.rwLock = update s.rwLock (s.file f).vn false := by
    simp [hs, State.setSlot, State.closed, State.addRef]
  constructor
  · intro hunt q hq i g hg hsame
    by_contra hne
    have hother : (q, i) ≠ (p, fd) := by
      rintro ⟨⟩
      exact hne ⟨rfl, rfl⟩
    obtain ⟨-, -, hkept⟩ := hunt.file q hq i hother g hg
    rw [hrw, (hfile g).1, hsame, update_self, hlock] at hkept
    cases hkept
  · intro halone
    have hne : ∀ q ∈ s.procs, ∀ i, (q, i) ≠ (p, fd) → ∀ g, s.slot q i = some g →
        (s.file g).vn ≠ (s.file f).vn := by
      intro q hq i hother g hg hsame
      obtain ⟨rfl, hi⟩ := halone q hq i g hg hsame
      exact hother (Prod.ext rfl (Fin.ext (Int.ofNat.inj hi).symm))
    refine ⟨fun q hq i hother => ?_, fun q hq i hother g hg => ⟨?_, (hfile g).2, ?_⟩⟩
    · rw [hs, slot_setSlot (s := (s.addRef f (-1)).closed f) ht]
      exact if_neg fun heq => hother (Prod.ext heq.1 heq.2)
    · rw [hs]
      refine Finset.mem_erase_of_ne_of_mem ?_ (h q hq i g hg)
      rintro rfl
      exact hne q hq i hother g hg rfl
    · rw [hrw, (hfile g).1, update_of_ne (hne q hq i hother g hg)]

end Points

section Calls

variable {s s' : State} {p : Nat} {fd : Int} {t : Table} {a : Access} {r : Result}

theorem fdTableClose_cases (ht : s.table p = some t) (fd : Int) :
    s.fileAt p fd = none ∧ fdTableGet t fd = .error EBADF ∧
        fdTableClose s p fd = some (s, .error EBADF) ∨
      ∃ (i : Fin maxFileOpen) (f : Nat), fd = (i : Nat) ∧ t i = some f ∧
        fdTableGet t fd = .ok (i, f) ∧
        fdTableClose s p fd = if (s.file f).refCount = 1 then
            if s.rwLock (s.file f).vn then
              some (((s.addRef f (-1)).closed f).setSlot p i none, .ok ()) else none
          else some (s.addRef f (-1), .ok ()) := by
  by_cases hfd : 0 ≤ fd ∧ fd < maxFileOpen
  · cases hf : t ⟨fd.toNat, toNat_lt hfd⟩ with
    | none =>
      have hget : fdTableGet t fd = .error EBADF := by simp [fdTableGet, hfd, hf]
      exact .inl ⟨by rw [fileAt_eq ht hfd, hf], hget, by simp [fdTableClose, ht, hget]⟩
    | some f =>
      have hget : fdTableGet t fd = .ok (⟨fd.toNat, toNat_lt hfd⟩, f) := by
        simp [fdTableGet, hfd, hf]
      have hone : (s.file f).refCount + -1 = 0 ↔ (s.file f).refCount = 1 := by omega
      refine .inr ⟨_, f, (Int.toNat_of_nonneg hfd.1).symm, hf, hget, ?_⟩
      simp [fdTableClose, ht, hget, State.addRef, hone]
  · have hget : fdTableGet t fd = .error EBADF := by simp [fdTableGet, hfd]
    exact .inl ⟨dif_neg hfd, hget, by simp [fdTableClose, ht, hget]⟩

theorem access_free (h : s.fileAt p fd = none) (hfd : 0 ≤ fd ∧ fd < maxFileOpen)
    (hr : access p fd s a = some r) : r.ret = .error .EBADF ↔ (a.rw = .UIO_READ → a.buf ≠ 0) := by
  unfold access at hr
  cases hrw : a.rw with
  | UIO_READ =>
    rw [hrw] at hr
    by_cases hbuf : a.buf = 0
    · rw [show _ = _ from read_null hfd hbuf] at hr
      cases hr
      simp [hbuf, refuse]
    · have hright : Rw.UIO_READ = .UIO_READ → a.buf ≠ 0 := fun _ => hbuf
      cases ht : s.table p with
      | none =>
        unfold read at hr
        rw [dif_pos hfd, if_neg hbuf, ht] at hr
        cases hr
      | some t =>
        rw [show _ = _ from read_closed ht h fun hz => hbuf hz.2] at hr
        cases hr
        exact iff_of_true rfl hright
  | UIO_WRITE =>
    rw [hrw] at hr
    cases ht : s.table p with
    | none => simp [write, hfd, ht] at hr
    | some t =>
      rw [show _ = _ from write_closed ht h] at hr
      cases hr
      simp [refuse]

end Calls

/-! ## Runs -/

section Runs

variable {w w' : World} {a : Act} {s' : State} {p : Nat} {fd : Int}

theorem Marked.creates (h : Marked w) (hnew : Creates w.files s' p) :
    Marked ⟨s', w.closed.filter fun x => x.1 ≠ p⟩ := by
  refine ⟨hnew.points, fun x hx hq => ?_⟩
  obtain ⟨hx, hne⟩ := Finset.mem_filter.mp hx
  change s'.slot x.1 x.2 = none
  unfold State.slot
  rw [hnew.table x.1 hne]
  exact h.closed x hx (hnew.procs x.1 hq hne)

section

variable (h : Marked w)
include h

theorem Marked.open {flag : Int} {o : Outcome} {r : Except Int (Fin maxFileOpen)}
    (ho : fdTableOpen w.files p flag o = some (s', r)) :
    Marked ⟨s', mark w.files w.closed (.sysOpen p flag o)⟩ := by
  refine ⟨h.points.fdTableOpen ho, fun x hx hp => ?_⟩
  simp only [mark, ho] at hx
  dsimp only at hp ⊢
  cases r with
  | error e =>
    rw [(fdTableOpen_error ho).1] at hp ⊢
    exact h.closed x hx hp
  | ok i =>
    obtain ⟨t, f, vn, ht, -, -, -, -, rfl⟩ := fdTableOpen_ok ho
    obtain ⟨hne, hx⟩ := Finset.mem_erase.mp hx
    rw [slot_setSlot (s := w.files.opened f flag vn o.lock) ht]
    rw [if_neg fun heq => hne (Prod.ext heq.1 heq.2)]
    exact h.closed x hx hp

theorem Marked.close {r : Except Int Unit}
    (hsole : Sole w (.event (.sysClose p fd)))
    (hc : fdTableClose w.files p fd = some (s', r)) :
    Marked ⟨s', mark w.files w.closed (.sysClose p fd)⟩ := by
  obtain ⟨t, ht, -⟩ := bind_eq_some_iff.mp hc
  simp only [mark, ht, map_some]
  obtain ⟨-, hget, hclose⟩ | ⟨i, f, rfl, hf, hget, hclose⟩ := fdTableClose_cases ht fd
  · rw [hclose] at hc
    cases hc
    rw [hget]
    exact h
  · obtain ⟨hone, halone⟩ := hsole f (by rw [fileAt_fin, slot_eq ht, hf]; rfl)
    rw [hclose, if_pos hone] at hc
    obtain ⟨hlock, hc⟩ := ite_none_right_eq_some.mp hc
    cases hc
    rw [hget]
    have hunt := (untouched_iff h.points ht hlock rfl).mpr halone
    have hmine : (((w.files.addRef f (-1)).closed f).setSlot p i none).slot p i = none :=
      (slot_setSlot (s := (w.files.addRef f (-1)).closed f) ht none p i).trans (if_pos ⟨rfl, rfl⟩)
    refine ⟨fun q hq j g hg => ?_, fun x hx hq => ?_⟩
    · have hne : (q, j) ≠ (p, i) := by
        rintro ⟨⟩
        cases hmine.symm.trans hg
      exact (hunt.file q hq j hne g ((hunt.slot q hq j hne).symm.trans hg)).1
    · by_cases hxi : x = (p, i)
      · subst hxi
        exact hmine
      · exact (hunt.slot x.1 hq x.2 hxi).trans
          (h.closed x (Finset.mem_of_mem_insert_of_ne hx hxi) hq)

theorem Marked.event {e : Event} (hsole : Sole w (.event e))
    (hstep : Files.step w.files e = some s') : Marked ⟨s', mark w.files w.closed e⟩ := by
  cases e with
  | runprogram p memory os =>
    obtain ⟨-, hstep⟩ := ite_none_left_eq_some.mp hstep
    obtain ⟨⟨s₁, r⟩, hn, rfl⟩ := map_eq_some_iff.mp hstep
    exact h.creates (h.points.newProcess hn).1
  | sysOpen p flag o =>
    obtain ⟨-, hstep⟩ := ite_none_right_eq_some.mp hstep
    obtain ⟨⟨s₁, r⟩, ho, rfl⟩ := map_eq_some_iff.mp hstep
    exact h.open ho
  | sysClose p fd =>
    obtain ⟨-, hstep⟩ := ite_none_right_eq_some.mp hstep
    obtain ⟨⟨s₁, r⟩, hc, rfl⟩ := map_eq_some_iff.mp hstep
    exact h.close hsole hc
  | fork p child memory os =>
    obtain ⟨⟨hp, -⟩, hstep⟩ := ite_none_right_eq_some.mp hstep
    obtain ⟨t, ht, hf⟩ := bind_eq_some_iff.mp hstep
    exact h.creates (h.points.mdForkentry hp ht hf)
  | exit p =>
    obtain ⟨-, rfl⟩ := ite_some_none_eq_some.mp hstep
    exact ⟨fun q hq => h.points q (Finset.mem_of_mem_erase hq),
      fun x hx hq => h.closed x hx (Finset.mem_of_mem_erase hq)⟩

theorem Marked.step (hsole : Sole w a) (hstep : w.step a = some w') : Marked w' := by
  cases a with
  | event e =>
    obtain ⟨s', hevent, rfl⟩ := map_eq_some_iff.mp hstep
    exact h.event hsole hevent
  | access p fd c =>
    obtain ⟨-, hstep⟩ := ite_none_right_eq_some.mp hstep
    obtain ⟨r, hr, rfl⟩ := map_eq_some_iff.mp hstep
    obtain hsame | ⟨f, offset, hseek⟩ := access_state hr
    · rw [hsame]
      exact h
    · rw [hseek]
      exact ⟨h.points, h.closed⟩

theorem Marked.fileAt (hp : p ∈ w.files.procs) (hclosed : w.isClosed p fd) :
    (0 ≤ fd ∧ fd < maxFileOpen) ∧ w.files.fileAt p fd = none := by
  obtain ⟨i, rfl, hi⟩ := hclosed
  refine ⟨⟨Int.natCast_nonneg _, Int.ofNat_lt.mpr i.isLt⟩, ?_⟩
  rw [fileAt_fin]
  exact h.closed (p, i) hi hp

theorem proper_close_iff {r : Except Int Unit}
    (hp : p ∈ w.files.procs) (hc : fdTableClose w.files p fd = some (s', r)) :
    Proper w (.event (.sysClose p fd)) ↔ Sole w (.event (.sysClose p fd)) := by
  obtain ⟨t, ht, -⟩ := bind_eq_some_iff.mp hc
  obtain ⟨hnone, -, hclose⟩ | ⟨i, f, rfl, hf, -, hclose⟩ := fdTableClose_cases ht fd
  · refine iff_of_true ?_ ?_
    · intro s₁ r₁ heq
      rw [hclose] at heq
      cases heq
      exact ⟨fun _ => rfl, fun hok => by cases hok⟩
    · intro f hf
      rw [hnone] at hf
      cases hf
  · have hslot : w.files.slot p i = some f := (slot_eq ht).trans hf
    have hopen : ¬ w.isClosed p (i : Nat) := by
      intro hclosed
      have := (h.fileAt hp hclosed).2
      rw [fileAt_fin, hslot] at this
      cases this
    have hfin : ∀ j : Fin maxFileOpen, ((i : Nat) : Int) = (j : Nat) → j = i :=
      fun j hij => (Fin.ext (Int.ofNat.inj hij)).symm
    simp only [Proper, Sole, hc, fileAt_fin, hslot, mem_some_iff, some.injEq, forall_eq',
      Prod.mk.injEq, and_imp]
    by_cases hone : (w.files.file f).refCount = 1
    · rw [hclose, if_pos hone] at hc
      obtain ⟨hlock, hc⟩ := ite_none_right_eq_some.mp hc
      cases hc
      have hiff : Untouched w.files _ p i ↔ _ := untouched_iff h.points ht hlock rfl
      constructor
      · intro hproper
        obtain ⟨j, hij, -, hunt⟩ := (hproper _ _ rfl rfl).2 rfl
        exact ⟨hone, hiff.mp (hfin j hij ▸ hunt)⟩
      · rintro ⟨-, halone⟩ _ _ rfl rfl
        refine ⟨fun hclosed => absurd hclosed hopen, fun _ => ⟨i, rfl, ?_, hiff.mpr halone⟩⟩
        rw [slot_setSlot (s := (w.files.addRef f (-1)).closed f) ht, if_pos ⟨rfl, rfl⟩]
    · -- the descriptor is not cleared
      rw [hclose, if_neg hone] at hc
      cases hc
      refine iff_of_false (fun hproper => ?_) fun hsole => hone hsole.1
      obtain ⟨j, hij, hgone, -⟩ := (hproper _ _ rfl rfl).2 rfl
      rw [hfin j hij] at hgone
      cases hslot.symm.trans hgone

theorem proper_iff_sole (hstep : w.step a = some w') : Proper w a ↔ Sole w a := by
  cases a with
  | event e =>
    obtain ⟨s', hstep, -⟩ := map_eq_some_iff.mp hstep
    cases e with
    | sysOpen p flag o =>
      refine iff_of_true (fun s' fd ho => ?_) trivial
      obtain ⟨t, f, vn, ht, hfree, -⟩ := fdTableOpen_ok ho
      simp only [slot_eq ht]
      exact ⟨freeSlot_none hfree, fun j hj => freeSlot_lowest hfree hj⟩
    | sysClose p fd =>
      obtain ⟨hp, hstep⟩ := ite_none_right_eq_some.mp hstep
      obtain ⟨⟨s₁, r⟩, hc, -⟩ := map_eq_some_iff.mp hstep
      exact proper_close_iff h hp hc
    | runprogram | fork | exit => exact Iff.rfl
  | access p fd c =>
    obtain ⟨hp, hstep⟩ := ite_none_right_eq_some.mp hstep
    obtain ⟨r, hr, -⟩ := map_eq_some_iff.mp hstep
    simp only [Proper, Sole, hr, some.injEq, forall_eq']
    refine forall_congr' fun hclosed => ?_
    obtain ⟨hfd, hfree⟩ := h.fileAt hp hclosed
    exact access_free hfree hfd hr

end

theorem marked_init (junk : Nat → File) : Marked ⟨init junk, ∅⟩ :=
  ⟨by simp [Points, init], by simp⟩

theorem descriptors_proper_iff (junk : Nat → File) (acts : List Act) (w : World)
    (h : run World.step ⟨init junk, ∅⟩ acts = some w) :
    Meets World.step Proper ⟨init junk, ∅⟩ acts ↔ Meets World.step Sole ⟨init junk, ∅⟩ acts :=
  meets_iff (fun _ _ _ hi hc ht => Marked.step hi hc ht) (fun _ _ _ hi ht => proper_iff_sole hi ht)
    (marked_init junk) h

end Runs

theorem close_after_fork :
    (∃ w ∈ run World.step ⟨init zeroed, ∅⟩ (forkRun.map .event), ∃ x ∈ fdTableClose w.files 2 0,
      x.2 = .ok () ∧ x.1.slot 2 ⟨0, fd_zero_lt⟩ = some 0 ∧ ¬ Proper w (.event (.sysClose 2 0))) ∧
    ∃ w ∈ run World.step ⟨init zeroed, ∅⟩
        (forkRun.map .event ++ [.event (.sysClose 2 0), .event (.sysClose 2 0)]),
      1 ∈ w.files.procs ∧ w.files.slot 1 ⟨0, fd_zero_lt⟩ = some 0 ∧ 0 ∉ w.files.live := by
  refine ⟨?_, by decide +kernel⟩
  have hclose : ∃ w ∈ run World.step ⟨init zeroed, ∅⟩ (forkRun.map .event),
      ∃ x ∈ fdTableClose w.files 2 0, x.2 = .ok () ∧ x.1.slot 2 ⟨0, fd_zero_lt⟩ = some 0 := by
    decide +kernel
  obtain ⟨w, hw, ⟨s', r⟩, hx, hok, hslot⟩ := hclose
  refine ⟨w, hw, _, hx, hok, hslot, fun hproper => ?_⟩
  obtain ⟨i, hi, hgone, -⟩ := (hproper s' r hx).2 hok
  have : i = ⟨0, fd_zero_lt⟩ := Fin.ext (Int.ofNat.inj hi).symm
  rw [this, hslot] at hgone
  cases hgone

theorem descriptors_proper_reopen :
    let acts : List Act := [.event (.runprogram 1 true fun i => console i),
      .event (.sysOpen 1 0 ⟨some 7, .ok 5, true⟩), .event (.sysClose 1 3),
      .access 1 3 (Call.idle ⟨.UIO_READ, 0x1000, 1⟩), .event (.sysClose 1 3),
      .event (.sysOpen 1 0 ⟨some 8, .ok 5, true⟩)]
    ∃ w, run World.step ⟨init zeroed, ∅⟩ acts = some w ∧
      Meets World.step Proper ⟨init zeroed, ∅⟩ acts := by
  intro acts
  obtain ⟨w, hw⟩ := isSome_iff_exists.mp
    (show (run World.step ⟨init zeroed, ∅⟩ acts).isSome by decide +kernel)
  exact ⟨w, hw, (descriptors_proper_iff zeroed acts w hw).mpr (by decide +kernel)⟩

end Os161.Files
