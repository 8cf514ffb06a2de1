import Mathlib.Data.Fintype.Basic
import Os161.Vnode.Spec

/-! # Which vnodes survive a reclaim -/

open Function List Option

namespace Os161.Vnode

open Lib

variable {T I : Type} {fs : Fs} {s s' : State T I} {t u : T} {v w : Nat} {i : I} {ok : Bool}
variable {r : Option (State T I)}
  {pc : Pc I}

structure Reclaim (fs : Fs) (s : State T I) (t : T) (v : Nat) : Prop where
  live : s.live v = true
  count : s.refcount v = s.held v + 1
  pc : (s.pc t).reclaims = some v
  only : ∀ u, (s.pc u).reclaims = some v → u = t
  mem : v ∈ s.table ↔ s.pc t ≠ .removed v
  alone : fs = .emufs → s.pc t ≠ .decided v → s.held v = 0

inductive Phase (fs : Fs) (s : State T I) (v : Nat) : Prop where
  | absent : s.live v = false → s.held v = 0 → v ∉ s.table →
    (∀ u, (s.pc u).reclaims ≠ some v ∧ (s.pc u).finds ≠ some v) → Phase fs s v
  | used : s.live v = true → 0 < s.held v → s.refcount v = s.held v → v ∈ s.table →
    (∀ u, (s.pc u).reclaims ≠ some v) → Phase fs s v
  | reclaim (t : T) : Reclaim fs s t v → Phase fs s v

structure Inv (fs : Fs) (s : State T I) : Prop where
  phase : ∀ v, Phase fs s v
  nodup : s.table.Nodup
  fresh : ∀ v, s.fresh ≤ v → s.live v = false
  locked : fs = .emufs → ∀ t v, s.pc t = .writing v → s.lock = some t
  atomic : fs = .emufs → ∀ t, (s.pc t).finds = none

theorem inv_start (ino : Nat → I) : Inv fs (start ino : State T I) :=
  ⟨fun _ => .absent rfl rfl (not_mem_nil) fun _ => ⟨nofun, nofun⟩, nodup_nil,
    fun _ _ => rfl, fun _ _ _ => nofun, fun _ _ => rfl⟩

theorem Phase.live_of_held (h : Phase fs s v) (hv : 0 < s.held v) : s.live v = true := by
  cases h with
  | absent _ hzero => omega
  | used hlive => exact hlive
  | reclaim _ hr => exact hr.live

theorem Inv.exact (h : Inv fs s) : Exact s := by
  constructor
  · intro v hlive hnone
    cases h.phase v with
    | absent hdead =>
      rw [hlive] at hdead
      cases hdead
    | used _ _ hcount => exact hcount
    | reclaim t hr => exact absurd hr.pc (hnone t)
  · intro t v ht
    cases h.phase v with
    | absent _ _ _ hnone => exact absurd ht (hnone t).1
    | used _ _ _ _ hnone => exact absurd ht (hnone t)
    | reclaim _ hr => exact hr.count
  · intro t u v ht hu
    cases h.phase v with
    | absent _ _ _ hnone => exact absurd ht (hnone t).1
    | used _ _ _ _ hnone => exact absurd ht (hnone t)
    | reclaim x hr => rw [hr.only t ht, hr.only u hu]
  · intro v hv
    exact (h.phase v).live_of_held hv
  · intro v hlive hzero
    cases h.phase v with
    | absent hdead =>
      rw [hlive] at hdead
      cases hdead
    | used _ hpos => omega
    | reclaim t hr => exact ⟨t, hr.pc⟩
  · intro v hmem
    cases h.phase v with
    | absent _ _ hout => exact absurd hmem hout
    | used hlive => exact hlive
    | reclaim _ hr => exact hr.live
  · intro t v ht
    cases h.phase v with
    | absent _ _ _ hnone => exact absurd ht (hnone t).2
    | used hlive => exact hlive
    | reclaim _ hr => exact hr.live

theorem Inv.reclaim (h : Inv fs s) (hpc : s.pc t = pc) (ht : pc.reclaims = some v) :
    Reclaim fs s t v := by
  subst hpc
  cases h.phase v with
  | absent _ _ _ hnone => exact absurd ht (hnone t).1
  | used _ _ _ _ hnone => exact absurd ht (hnone t)
  | reclaim x hr =>
    obtain rfl := hr.only t ht
    exact hr

@[simp] def Pc.vnode : Pc I → Option Nat
  | .found v | .decided v | .writing v | .removed v => some v
  | _ => none

theorem Pc.vnode_of_reclaims (h : pc.reclaims = some v) : pc.vnode = some v := by
  cases pc <;> simp_all

theorem Pc.vnode_of_finds (h : pc.finds = some v) : pc.vnode = some v := by
  cases pc <;> simp_all

theorem Phase.frame (h : Phase fs s w) (hcount : s'.refcount w = s.refcount w)
    (hheld : s'.held w = s.held w) (hlive : s'.live w = s.live w)
    (htable : w ∈ s'.table ↔ w ∈ s.table)
    (hpc : ∀ u, s'.pc u = s.pc u ∨ (s.pc u).vnode ≠ some w ∧ (s'.pc u).vnode ≠ some w) :
    Phase fs s' w := by
  have hback : ∀ u, (s'.pc u).vnode = some w → s'.pc u = s.pc u :=
    fun u hu => (hpc u).resolve_right fun hne => hne.2 hu
  cases h with
  | absent hdead hzero hout hnone =>
    refine .absent (hlive.trans hdead) (hheld.trans hzero) (mt htable.mp hout) ?_
    intro u
    constructor
    · intro hu
      rw [hback u (Pc.vnode_of_reclaims hu)] at hu
      exact (hnone u).1 hu
    · intro hu
      rw [hback u (Pc.vnode_of_finds hu)] at hu
      exact (hnone u).2 hu
  | used halive hpos hsame hin hnone =>
    refine .used (hlive.trans halive) (hheld ▸ hpos) (by rw [hcount, hheld, hsame])
      (htable.mpr hin) ?_
    intro u hu
    rw [hback u (Pc.vnode_of_reclaims hu)] at hu
    exact hnone u hu
  | reclaim t hr =>
    have hsame : s'.pc t = s.pc t :=
      (hpc t).resolve_right fun hne => hne.1 (Pc.vnode_of_reclaims hr.pc)
    refine .reclaim t ⟨hlive.trans hr.live, ?_, hsame ▸ hr.pc, ?_, ?_, ?_⟩
    · rw [hcount, hheld, hr.count]
    · intro u hu
      rw [hback u (Pc.vnode_of_reclaims hu)] at hu
      exact hr.only u hu
    · rw [htable, hsame]
      exact hr.mem
    · rw [hsame, hheld]
      exact hr.alone

/-! ## References -/

theorem Inv.create (h : Inv fs s) (i : I) : Inv fs (vnodeInit s i) := by
  have hnew := h.phase s.fresh
  refine ⟨?_, ?_, ?_, h.locked, h.atomic⟩
  · intro w
    by_cases hw : w = s.fresh
    · subst hw
      cases hnew with
      | absent _ _ _ hnone =>
        refine .used ?_ ?_ ?_ ?_ fun u => (hnone u).1
        · exact update_self ..
        · simp [vnodeInit]
        · simp [vnodeInit]
        · simp [vnodeInit]
      | used hlive =>
        rw [h.fresh _ (le_rfl)] at hlive
        cases hlive
      | reclaim _ hr =>
        have hlive := hr.live
        rw [h.fresh _ (le_rfl)] at hlive
        cases hlive
    · apply (h.phase w).frame
      · exact update_of_ne hw ..
      · exact update_of_ne hw ..
      · exact update_of_ne hw ..
      · simp [vnodeInit, hw]
      · exact fun u => .inl rfl
  · have hout : s.fresh ∉ s.table := by
      intro hmem
      have hlive := h.exact.table _ hmem
      rw [h.fresh _ (le_rfl)] at hlive
      cases hlive
    exact nodup_append.mpr ⟨h.nodup, nodup_singleton _, by
      rintro a ha b hb rfl
      obtain rfl := mem_singleton.mp hb
      exact hout ha⟩
  · intro w hw
    unfold vnodeInit at hw ⊢
    dsimp only at hw ⊢
    rw [update_of_ne (by omega)]
    exact h.fresh w (by omega)

theorem Inv.incref (h : Inv fs s) (hlive : s.live v = true)
    (halone : fs = .emufs → ∀ t, (s.pc t).reclaims = some v → s.pc t = .decided v) :
    ∃ s', vnodeIncref s v = some s' ∧ s'.pc = s.pc ∧ s'.lock = s.lock ∧ Inv fs s' := by
  unfold vnodeIncref
  rw [if_pos hlive]
  refine ⟨_, rfl, rfl, rfl, ?_, h.nodup, h.fresh, h.locked, h.atomic⟩
  intro w
  by_cases hw : w = v
  · subst hw
    cases h.phase w with
    | absent hdead =>
      rw [hlive] at hdead
      cases hdead
    | used _ hpos hsame hin hnone =>
      refine .used hlive ?_ ?_ hin hnone
      · simp
      · simp [hsame]
    | reclaim t hr =>
      refine .reclaim t { hr with count := ?_, alone := ?_ }
      · simp [hr.count]
      · intro hemu hne
        exact absurd (halone hemu t hr.pc) hne
  · apply (h.phase w).frame
    · exact update_of_ne hw ..
    · exact update_of_ne hw ..
    · rfl
    · exact Iff.rfl
    · exact fun u => .inl rfl

theorem Inv.drop (h : Inv fs s) (hlive : s.live v = true) (hheld : 0 < s.held v)
    (hmany : 1 < s.refcount v) :
    Inv fs { s with
      held := update s.held v (s.held v - 1)
      refcount := update s.refcount v (s.refcount v - 1) } := by
  refine ⟨?_, h.nodup, h.fresh, h.locked, h.atomic⟩
  intro w
  by_cases hw : w = v
  · subst hw
    cases h.phase w with
    | absent _ hzero => omega
    | used _ _ hsame hin hnone =>
      refine .used hlive ?_ ?_ hin hnone
      · simp only [update_self]
        omega
      · simp only [update_self]
        omega
    | reclaim x hr =>
      have hmore := hr.count
      refine .reclaim x { hr with count := ?_, alone := ?_ }
      · simp only [update_self]
        omega
      · intro hemu hne
        have hzero := hr.alone hemu hne
        omega
  · apply (h.phase w).frame
    · exact update_of_ne hw ..
    · exact update_of_ne hw ..
    · rfl
    · exact Iff.rfl
    · exact fun u => .inl rfl

variable [DecidableEq T]

@[simp] theorem goto_self (s : State T I) (t : T) (pc : Pc I) : (goto s t pc).pc t = pc :=
  update_self ..

theorem goto_of_ne (h : u ≠ t) : (goto s t pc).pc u = s.pc u := update_of_ne h ..

theorem only_goto (honly : ∀ u, (s.pc u).reclaims = some w → u = t) (u : T)
    (hu : ((goto s t pc).pc u).reclaims = some w) : u = t := by
  by_contra hne
  rw [goto_of_ne hne] at hu
  exact hne (honly u hu)

theorem none_goto (honly : ∀ u, (s.pc u).reclaims = some w → u = t) (hpc : pc.reclaims ≠ some w)
    (u : T) : ((goto s t pc).pc u).reclaims ≠ some w := by
  intro hu
  rw [only_goto honly u hu, goto_self] at hu
  exact hpc hu

theorem frame_goto (hold : (s.pc t).vnode ≠ some w) (hnew : pc.vnode ≠ some w) (u : T) :
    update s.pc t pc u = s.pc u ∨
      (s.pc u).vnode ≠ some w ∧ (update s.pc t pc u).vnode ≠ some w := by
  by_cases hu : u = t
  · subst hu
    rw [update_self]
    exact .inr ⟨hold, hnew⟩
  · exact .inl (update_of_ne hu ..)

theorem Inv.advance (h : Inv fs s) (hpc : s'.pc = s.pc) (hphase : ∀ w, Phase fs (goto s' t pc) w)
    (hnodup : s'.table.Nodup) (hfresh : ∀ w, s'.fresh ≤ w → s'.live w = false)
    (hlock : fs = .emufs → (∀ v, pc = .writing v → s'.lock = some t) ∧
      ∀ u v, u ≠ t → s.pc u = .writing v → s'.lock = some u)
    (hfind : pc.finds = none) : Inv fs (goto s' t pc) := by
  refine ⟨hphase, hnodup, hfresh, ?_, ?_⟩
  · intro hemu u w hu
    by_cases hut : u = t
    · rw [hut, goto_self] at hu
      rw [hut]
      exact (hlock hemu).1 w hu
    · rw [goto_of_ne hut, hpc] at hu
      exact (hlock hemu).2 u w hut hu
  · intro hemu u
    by_cases hut : u = t
    · rw [hut, goto_self]
      exact hfind
    · rw [goto_of_ne hut, hpc]
      exact h.atomic hemu u

theorem Inv.goto (h : Inv fs s) (hold : (s.pc t).reclaims = none) (hnew : pc.reclaims = none)
    (hfind : ∀ v, pc.finds = some v → fs = .sfs ∧ s.live v = true) :
    Inv fs (Vnode.goto s t pc) := by
  have hreclaims : ∀ u, ((Vnode.goto s t pc).pc u).reclaims = (s.pc u).reclaims := by
    intro u
    by_cases hu : u = t
    · rw [hu, goto_self, hold, hnew]
    · rw [goto_of_ne hu]
  have hfinds : ∀ u v, ((Vnode.goto s t pc).pc u).finds = some v →
      fs = .sfs ∧ s.live v = true ∨ (s.pc u).finds = some v := by
    intro u v
    by_cases hu : u = t
    · rw [hu, goto_self]
      exact fun hv => .inl (hfind v hv)
    · rw [goto_of_ne hu]
      exact .inr
  refine ⟨?_, h.nodup, h.fresh, ?_, ?_⟩
  · intro w
    cases h.phase w with
    | absent hdead hzero hout hnone =>
      refine .absent hdead hzero hout fun u => ⟨?_, ?_⟩
      · rw [hreclaims]
        exact (hnone u).1
      · intro hu
        rcases hfinds u w hu with ⟨-, hlive⟩ | hu
        · rw [hdead] at hlive
          cases hlive
        · exact (hnone u).2 hu
    | used hlive hpos hsame hin hnone =>
      refine .used hlive hpos hsame hin fun u => ?_
      rw [hreclaims]
      exact hnone u
    | reclaim x hr =>
      have hxt : x ≠ t := by
        rintro rfl
        exact nomatch hold.symm.trans hr.pc
      have hsame : (Vnode.goto s t pc).pc x = s.pc x := goto_of_ne hxt
      refine .reclaim x ⟨hr.live, hr.count, hsame ▸ hr.pc, ?_, hsame ▸ hr.mem, hsame ▸ hr.alone⟩
      intro u hu
      rw [hreclaims] at hu
      exact hr.only u hu
  · intro hemu u v hu
    by_cases hut : u = t
    · rw [hut, goto_self] at hu
      rw [hu] at hnew
      cases hnew
    · rw [goto_of_ne hut] at hu
      exact h.locked hemu u v hu
  · intro hemu u
    rw [eq_none_iff_forall_ne_some]
    intro v hu
    rcases hfinds u v hu with ⟨hsfs, -⟩ | hu
    · rw [hsfs] at hemu
      cases hemu
    · rw [h.atomic hemu u] at hu
      cases hu

theorem Inv.dropLast (h : Inv fs s) (hidle : s.pc t = .idle) (hlive : s.live v = true)
    (hheld : 0 < s.held v) (hlast : s.refcount v = 1) :
    Inv fs (Vnode.goto { s with held := update s.held v (s.held v - 1) } t
      (.decided v)) := by
  refine h.advance rfl ?_ h.nodup h.fresh ?_ rfl
  · intro w
    by_cases hw : w = v
    · subst hw
      cases h.phase w with
      | absent _ hzero => omega
      | used _ _ hsame hin hnone =>
        refine .reclaim t ⟨hlive, ?_, by rw [goto_self]; rfl, ?_, ?_, ?_⟩
        · change s.refcount w = update s.held w (s.held w - 1) w + 1
          rw [update_self]
          omega
        · exact only_goto fun u hu => absurd hu (hnone u)
        · rw [goto_self]
          exact iff_of_true hin nofun
        · rw [goto_self]
          exact fun _ hne => absurd rfl hne
      | reclaim _ hr =>
        have hmore := hr.count
        omega
    · have hold : (s.pc t).vnode ≠ some w := by
        rw [hidle]
        nofun
      apply (h.phase w).frame
      · rfl
      · exact update_of_ne hw ..
      · rfl
      · exact Iff.rfl
      · exact frame_goto hold fun heq => hw (some.inj heq).symm
  · exact fun hemu => ⟨nofun, fun u w _ hu => h.locked hemu u w hu⟩

theorem Inv.decref (h : Inv fs s) (hidle : s.pc t = .idle) (hheld : 0 < s.held v) :
    ∃ s', vnodeDecref s t v = some s' ∧ Inv fs s' := by
  have hlive := (h.phase v).live_of_held hheld
  have hpos : 0 < s.refcount v := by
    cases h.phase v with
    | absent _ hzero => omega
    | used _ _ hsame => omega
    | reclaim _ hr =>
      have hmore := hr.count
      omega
  unfold vnodeDecref
  rw [if_pos ⟨hlive, hpos⟩]
  split
  · exact ⟨_, rfl, h.drop hlive hheld ‹_›⟩
  · exact ⟨_, rfl, h.dropLast hidle hlive hheld (by omega)⟩

section

variable (h : Inv fs s)
include h

theorem Inv.frame_reclaim (hr : Reclaim fs s t v)
    (hpc : pc.vnode = some v ∨ pc.vnode = none) (hsame : s'.pc = s.pc) (hw : w ≠ v)
    (hcount : s'.refcount w = s.refcount w) (hheld : s'.held w = s.held w)
    (hlive : s'.live w = s.live w) (htable : w ∈ s'.table ↔ w ∈ s.table) :
    Phase fs (Vnode.goto s' t pc) w := by
  have hold : (s.pc t).vnode ≠ some w := by
    rw [Pc.vnode_of_reclaims hr.pc]
    exact fun heq => hw (some.inj heq).symm
  have hnew : pc.vnode ≠ some w := by
    rcases hpc with hpc | hpc
    · rw [hpc]
      exact fun heq => hw (some.inj heq).symm
    · rw [hpc]
      nofun
  refine (h.phase w).frame hcount hheld hlive htable ?_
  intro u
  unfold Vnode.goto
  rw [hsame]
  exact frame_goto hold hnew u

theorem Inv.test {lock : Option T} (hpc : s.pc t = .decided v)
    (hone : s.refcount v = 1) (hlock : fs = .emufs → s.lock = none ∧ lock = some t) :
    Inv fs (Vnode.goto { s with lock } t (.writing v)) := by
  have hr := h.reclaim hpc rfl
  refine h.advance rfl ?_ h.nodup h.fresh ?_ rfl
  · intro w
    by_cases hw : w = v
    · subst hw
      refine .reclaim t ⟨hr.live, hr.count, by rw [goto_self]; rfl, only_goto hr.only, ?_, ?_⟩
      · rw [goto_self]
        exact iff_of_true (hr.mem.mpr (by rw [hpc]; nofun)) nofun
      · intro _ _
        have hcount := hr.count
        change s.held w = 0
        omega
    · exact h.frame_reclaim hr (.inl rfl) rfl hw rfl rfl rfl Iff.rfl
  · intro hemu
    refine ⟨fun _ _ => (hlock hemu).2, ?_⟩
    intro u w _ hu
    have htaken := h.locked hemu u w hu
    rw [(hlock hemu).1] at htaken
    cases htaken

theorem Inv.busy (hpc : s.pc t = .decided v) (hmany : 1 < s.refcount v) : Inv fs (Vnode.goto
      { s with refcount := update s.refcount v (s.refcount v - 1) } t .idle) := by
  have hr := h.reclaim hpc rfl
  have hcount := hr.count
  refine h.advance rfl ?_ h.nodup h.fresh ?_ rfl
  · intro w
    by_cases hw : w = v
    · subst hw
      refine .used hr.live ?_ ?_ (hr.mem.mpr (by rw [hpc]; nofun)) (none_goto hr.only nofun)
      · change 0 < s.held w
        omega
      · change update s.refcount w (s.refcount w - 1) w = s.held w
        rw [update_self]
        omega
    · exact h.frame_reclaim hr (.inr rfl) rfl hw (update_of_ne hw ..) rfl rfl Iff.rfl
  · exact fun hemu => ⟨nofun, fun u w _ hu => h.locked hemu u w hu⟩

theorem Inv.remove (hpc : s.pc t = .writing v) (lock : Option T) :
    ∃ s', Vnode.remove { s with lock } t v = some s' ∧ Inv fs s' := by
  have hr := h.reclaim hpc rfl
  have hmem : v ∈ s.table := hr.mem.mpr (by rw [hpc]; nofun)
  unfold Vnode.remove
  rw [if_pos hmem]
  refine ⟨_, rfl, h.advance rfl ?_ (h.nodup.erase v) h.fresh ?_ rfl⟩
  · intro w
    by_cases hw : w = v
    · subst hw
      refine .reclaim t ⟨hr.live, hr.count, by rw [goto_self]; rfl, only_goto hr.only, ?_, ?_⟩
      · rw [goto_self]
        exact iff_of_false (fun hin => (h.nodup.mem_erase_iff.mp hin).1 rfl) (not_not_intro rfl)
      · intro hemu _
        exact hr.alone hemu (by rw [hpc]; nofun)
    · refine h.frame_reclaim hr (.inl rfl) rfl hw rfl rfl rfl ?_
      exact mem_erase_of_ne hw
  · intro hemu
    refine ⟨nofun, ?_⟩
    intro u w hut hu
    -- only one thread has the lock
    have hmine := h.locked hemu t v hpc
    rw [h.locked hemu u w hu] at hmine
    exact absurd (some.inj hmine) hut

theorem Inv.kill (hpc : s.pc t = .removed v) (hzero : s.held v = 0)
    (hnobody : ∀ u, (s.pc u).finds ≠ some v) :
    ∃ s', vnodeKill s t v = some s' ∧ Inv fs s' := by
  have hr := h.reclaim hpc rfl
  have hcount := hr.count
  unfold vnodeKill
  rw [if_pos (by omega)]
  refine ⟨_, rfl, h.advance rfl ?_ h.nodup ?_ ?_ rfl⟩
  · intro w
    by_cases hw : w = v
    · subst hw
      refine .absent (update_self ..) hzero (fun hin => hr.mem.mp hin hpc) ?_
      intro u
      by_cases hut : u = t
      · rw [hut, goto_self]
        exact ⟨nofun, nofun⟩
      · rw [goto_of_ne hut]
        exact ⟨fun hu => hut (hr.only u hu), hnobody u⟩
    · exact h.frame_reclaim hr (.inr rfl) rfl hw (update_of_ne hw ..) rfl
        (update_of_ne hw ..) Iff.rfl
  · intro w hw
    dsimp only
    by_cases hwv : w = v
    · rw [hwv]
      exact update_self ..
    · rw [update_of_ne hwv]
      exact h.fresh w hw
  · exact fun hemu => ⟨nofun, fun u w _ hu => h.locked hemu u w hu⟩

end

/-! ## One step -/

theorem abandoned {lock : Option T} (hr : Reclaim fs s t v) :
    ¬ Exact (Vnode.goto { s with lock } t .idle) := by
  have hcount := hr.count
  intro hexact
  have hsame := hexact.counted v hr.live (none_goto hr.only nofun)
  change s.refcount v = s.held v at hsame
  omega

/-- Undisturbed, the invariant; otherwise a wrong count, a freed vnode, or a failed assert. -/
def Outcome (fs : Fs) (undisturbed : Prop) (r : Option (State T I)) : Prop :=
  undisturbed ∧ (∃ s', r = some s' ∧ Inv fs s') ∨ ¬ undisturbed ∧ ¬ Survives r

theorem next_decided (h : Inv fs s) (hpc : s.pc t = .decided v)
    (hnext : next fs s t ok = some r) : Outcome fs ((Pc.decided v).undisturbed fs s ok) r := by
  have hr := h.reclaim hpc rfl
  have hcount := hr.count
  unfold next at hnext
  rw [hpc] at hnext
  cases fs with
  | sfs =>
    obtain rfl := some.inj hnext
    refine .inl ⟨trivial, ?_⟩
    unfold sfsReclaim
    by_cases hone : s.refcount v = 1
    · rw [if_neg (not_not_intro hone)]
      exact ⟨_, rfl, h.test hpc hone nofun⟩
    · rw [if_pos hone, if_pos (by omega)]
      exact ⟨_, rfl, h.busy hpc (by omega)⟩
  | emufs =>
    obtain ⟨hlock, hnext⟩ := ite_none_right_eq_some.mp hnext
    obtain rfl := some.inj hnext
    unfold emufsReclaim
    by_cases hzero : s.held v = 0
    · have hone : s.refcount v = 1 := by omega
      rw [if_neg (not_not_intro hone)]
      exact .inl ⟨hzero, _, rfl, h.test hpc hone fun _ => ⟨hlock, rfl⟩⟩
    · rw [if_pos (by omega)]
      exact .inr ⟨hzero, abandoned hr⟩

theorem next_writing (h : Inv fs s) (hpc : s.pc t = .writing v)
    (hnext : next fs s t ok = some r) : Outcome fs ((Pc.writing v).undisturbed fs s ok) r := by
  -- emufs releases its lock here, and SFS has none
  obtain ⟨lock, hr⟩ : ∃ lock, r =
      if ok then remove { s with lock } t v else some (goto { s with lock } t .idle) := by
    unfold next at hnext
    rw [hpc] at hnext
    cases fs with
    | sfs => exact ⟨s.lock, (some.inj hnext).symm⟩
    | emufs => exact ⟨none, (some.inj hnext).symm⟩
  rw [hr]
  cases ok with
  | false => exact .inr ⟨Bool.false_ne_true, abandoned (h.reclaim hpc rfl)⟩
  | true =>
    obtain ⟨s', hgo, hinv⟩ := h.remove hpc lock
    exact .inl ⟨rfl, s', hgo, hinv⟩

theorem next_removed (h : Inv fs s) (hpc : s.pc t = .removed v)
    (hnext : next fs s t ok = some r) : Outcome fs ((Pc.removed v).undisturbed fs s ok) r := by
  have hr := h.reclaim hpc rfl
  have hcount := hr.count
  have hkill : r = vnodeKill s t v := by
    unfold next at hnext
    rw [hpc] at hnext
    exact (some.inj hnext).symm
  rw [hkill]
  cases fs with
  | emufs =>
    have hzero := hr.alone rfl (by rw [hpc]; nofun)
    refine .inl ⟨trivial, h.kill hpc hzero ?_⟩
    intro u
    rw [h.atomic rfl u]
    nofun
  | sfs =>
    by_cases hfine : s.held v = 0 ∧ ∀ u, (s.pc u).finds ≠ some v
    · exact .inl ⟨hfine, h.kill hpc hfine.1 hfine.2⟩
    · refine .inr ⟨hfine, ?_⟩
      unfold vnodeKill
      by_cases hzero : s.held v = 0
      · -- somebody is about to use a vnode that is freed now
        rw [if_pos (by omega)]
        intro hexact
        rw [not_and, not_forall] at hfine
        obtain ⟨u, hu⟩ := hfine hzero
        rw [not_not] at hu
        have hut : u ≠ t := by
          rintro rfl
          rw [hpc] at hu
          cases hu
        have hlive := hexact.found u v (by rw [goto_of_ne hut]; exact hu)
        unfold goto at hlive
        dsimp only at hlive
        rw [update_self] at hlive
        cases hlive
      · rw [if_neg (by omega)]
        exact id

theorem next_outcome (h : Inv fs s) (hnext : next fs s t ok = some r) :
    Outcome fs ((s.pc t).undisturbed fs s ok) r := by
  cases hpc : s.pc t with
  | idle =>
    unfold next at hnext
    rw [hpc] at hnext
    cases hnext
  | found v =>
    unfold next at hnext
    rw [hpc] at hnext
    obtain rfl := some.inj hnext
    have hlive := h.exact.found t v (by rw [hpc]; rfl)
    have hsfs : fs ≠ .emufs := by
      intro hemu
      have hnone := h.atomic hemu t
      rw [hpc] at hnone
      cases hnone
    obtain ⟨s', hincref, hsame, -, hinv⟩ := h.incref hlive fun hemu => absurd hemu hsfs
    rw [hincref]
    refine .inl ⟨trivial, _, rfl, hinv.goto ?_ rfl nofun⟩
    rw [hsame, hpc]
    rfl
  | missed i =>
    unfold next at hnext
    rw [hpc] at hnext
    obtain rfl := some.inj hnext
    have hold : (s.pc t).reclaims = none := by
      rw [hpc]
      rfl
    refine .inl ⟨trivial, _, rfl, ?_⟩
    cases ok with
    | false => exact h.goto hold rfl nofun
    | true => exact (h.create i).goto hold rfl nofun
  | decided v => exact next_decided h hpc hnext
  | writing v => exact next_writing h hpc hnext
  | removed v => exact next_removed h hpc hnext

variable [DecidableEq I]

omit [DecidableEq T] in
theorem lookup_live (h : Inv fs s) (hv : lookup s i = some v) : v ∈ s.table ∧ s.live v = true := by
  have hmem := mem_of_find?_eq_some hv
  exact ⟨hmem, h.exact.table v hmem⟩

omit [DecidableEq T] [DecidableEq I] in
theorem Inv.decided_of_unlocked (h : Inv .emufs s) (hlock : s.lock = none) (hmem : v ∈ s.table)
    (hu : (s.pc u).reclaims = some v) : s.pc u = .decided v := by
  have hr := h.reclaim rfl hu
  cases hpc : s.pc u with
  | writing w =>
    have htaken := h.locked rfl u w hpc
    rw [hlock] at htaken
    cases htaken
  | removed w =>
    rw [hpc] at hu
    obtain rfl : w = v := some.inj hu
    exact absurd hpc (hr.mem.mp hmem)
  | decided w =>
    rw [hpc] at hu
    obtain rfl : w = v := some.inj hu
    rfl
  | idle | found | missed =>
    rw [hpc] at hu
    cases hu

theorem step_outcome {l : Label T I} (h : Inv fs s)
    (hstep : step fs (some s) l = some r) : Outcome fs (Undisturbed fs (some s) l) r := by
  cases l with
  | load t i ok =>
    refine .inl ⟨trivial, ?_⟩
    obtain ⟨hidle, hstep⟩ := ite_none_right_eq_some.mp hstep
    cases fs with
    | sfs =>
      obtain rfl := some.inj hstep
      have hold : (s.pc t).reclaims = none := by
        rw [hidle]
        rfl
      refine ⟨_, rfl, ?_⟩
      unfold sfsLoadvnode
      cases hv : lookup s i with
      | none => exact h.goto hold rfl nofun
      | some v =>
        refine h.goto hold rfl ?_
        rintro w ⟨⟩
        exact ⟨rfl, (lookup_live h hv).2⟩
    | emufs =>
      obtain ⟨hlock, hstep⟩ := ite_none_right_eq_some.mp hstep
      obtain rfl := some.inj hstep
      unfold emufsLoadvnode
      cases hv : lookup s i with
      | none =>
        refine ⟨_, rfl, ?_⟩
        cases ok with
        | false => exact h
        | true => exact h.create i
      | some v =>
        obtain ⟨hmem, hlive⟩ := lookup_live h hv
        obtain ⟨s', hincref, -, -, hinv⟩ := h.incref hlive fun _ _ hu =>
          h.decided_of_unlocked hlock hmem hu
        exact ⟨s', hincref, hinv⟩
  | incref t v =>
    obtain ⟨⟨-, hheld⟩, hstep⟩ := ite_none_right_eq_some.mp hstep
    obtain rfl := some.inj hstep
    have hlive := (h.phase v).live_of_held hheld
    obtain ⟨s', hincref, -, -, hinv⟩ := h.incref hlive fun hemu u hu => by
      by_contra hne
      have hzero := (h.reclaim rfl hu).alone hemu hne
      omega
    exact .inl ⟨trivial, s', hincref, hinv⟩
  | decref t v =>
    obtain ⟨⟨hidle, hheld⟩, hstep⟩ := ite_none_right_eq_some.mp hstep
    obtain rfl := some.inj hstep
    exact .inl ⟨trivial, h.decref hidle hheld⟩
  | next t ok => exact next_outcome h hstep

def Fine (fs : Fs) : Option (State T I) → Prop
  | none => False
  | some s => Inv fs s

end Os161.Vnode
