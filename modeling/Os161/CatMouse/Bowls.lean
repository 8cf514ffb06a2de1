import Os161.CatMouse.Proofs
import Os161.Container.Queue

/-!
# The bowls

`FreeBowlsList` is a ring of `lib/queue.c`. The second part puts it under the list, with the memory
that `q_addtail` may ask for.
-/

open Os161.Lib Function List Option

namespace Os161.CatMouse

/-- Between `q_remhead` and `q_addtail`. -/
def Pc.holds : Pc → Bool
  | .releaseFree | .callEat | .pMutexStart | .eatStart | .vMutexStart | .eating | .pMutexFinish
  | .eatFinish | .vMutexFinish | .acquireFreeAgain | .putBowl => true
  | _ => false

/-- Between `P(MaxBowlCount)` and `V(MaxBowlCount)`. -/
def Pc.seated : Pc → Bool
  | .acquireFree | .takeBowl | .releaseFreeAgain | .acquireWaitAgain | .leave | .releaseWaitAgain
  | .vBowlCount => true
  | p => p.holds

theorem Pc.seated_of_holds {p : Pc} (h : p.holds = true) : p.seated = true := by
  cases p <;> first | rfl | cases h

def heldBy (s : State) (t : Nat) : Option Nat := if (s.pc t).holds then some (s.bowl t) else none

def heldBowls (c : Config) (s : State) : List Nat := collect c.animals (heldBy s)

def seatedCount (c : Config) (s : State) : Nat := tally c.animals fun t => (s.pc t).seated

/-- The free bowls and those with the animals are `1 .. numBowls`, each once. -/
structure BowlsOk (c : Config) (s : State) : Prop where
  exact : (s.freeBowlsList ++ heldBowls c s).Perm (List.range' 1 c.numBowls)
  nonempty : ∀ t < c.animals, s.pc t = .takeBowl → s.freeBowlsList ≠ []
  range : ∀ t < c.animals, (s.pc t).holds = true → 1 ≤ s.bowl t ∧ s.bowl t ≤ c.numBowls
  asserts : s.panic ≠ some .assertBowl ∧ s.panic ≠ some .invalidBowl

structure Leaves (s s' : State) (t : Nat) : Prop where
  list : s'.freeBowlsList = s.freeBowlsList
  count : s'.maxBowlCount = s.maxBowlCount
  bowl : s'.bowl = s.bowl
  holds : (s'.pc t).holds = (s.pc t).holds
  seated : (s'.pc t).seated = (s.pc t).seated

inductive Moves (s s' : State) (t : Nat) : Prop where
  | leaves (h : Leaves s s' t)
  | sitDown (hold : s.pc t = .pBowlCount) (hnew : s'.pc t = .acquireFree)
      (hlist : s'.freeBowlsList = s.freeBowlsList) (hbowl : s'.bowl = s.bowl)
      (hcount : s.maxBowlCount = s'.maxBowlCount + 1)
  | take (b : Nat) (rest : List Nat) (hold : s.pc t = .takeBowl) (hnew : s'.pc t = .releaseFree)
      (hlist : s.freeBowlsList = b :: rest) (hlist' : s'.freeBowlsList = rest)
      (hbowl : s'.bowl = update s.bowl t b) (hcount : s'.maxBowlCount = s.maxBowlCount)
  | miss (hold : s.pc t = .takeBowl) (hlist : s.freeBowlsList = [])
  | put (hold : s.pc t = .putBowl) (hnew : s'.pc t = .releaseFreeAgain)
      (hlist : s'.freeBowlsList = s.freeBowlsList ++ [s.bowl t]) (hbowl : s'.bowl = s.bowl)
      (hcount : s'.maxBowlCount = s.maxBowlCount)
  | getUp (hold : s.pc t = .vBowlCount) (hnew : s'.pc t = .sleep ∨ s'.pc t = .done)
      (hlist : s'.freeBowlsList = s.freeBowlsList) (hbowl : s'.bowl = s.bowl)
      (hcount : s'.maxBowlCount = s.maxBowlCount + 1)

def Undisturbed (s s' : State) (t : Nat) : Prop :=
  ∀ i, i ≠ t → (s'.pc i).holds = (s.pc i).holds ∧ (s'.pc i).seated = (s.pc i).seated

def Asserts (c : Config) (s s' : State) (t : Nat) : Prop :=
  s'.panic = some .assertBowl ∨ s'.panic = some .invalidBowl →
    s.pc t = .callEat ∧ ¬ (1 ≤ s.bowl t ∧ s.bowl t ≤ c.numBowls)

variable {c : Config} {s s' : State} {t : Nat} {sp : Species}

theorem undisturbed_goto {p : Pc} (h : s'.pc = (s.goto t p).pc) : Undisturbed s s' t := by
  intro i hi
  rw [h, State.goto_pc_ne s t p hi]
  exact ⟨rfl, rfl⟩

theorem asserts_of_none (h : s'.panic = none) : Asserts c s s' t := by
  intro hp
  simp [h] at hp

theorem cvBroadcast_undisturbed (c : Config) (sp : Species) (pc : Nat → Pc) (i : Nat) :
    (cvBroadcast c sp pc i).holds = (pc i).holds ∧ (cvBroadcast c sp pc i).seated = (pc i).seated := by
  unfold cvBroadcast
  cases pc i
  case cvWait b => dsimp only; split <;> exact ⟨rfl, rfl⟩
  all_goals exact ⟨rfl, rfl⟩

theorem leaves_goto {p q : Pc} (hpc : s.pc t = q) (h : s'.pc = (s.goto t p).pc)
    (hlist : s'.freeBowlsList = s.freeBowlsList) (hcount : s'.maxBowlCount = s.maxBowlCount)
    (hbowl : s'.bowl = s.bowl) (hp : s'.panic = none) (hh : p.holds = q.holds)
    (hs : p.seated = q.seated) : Undisturbed s s' t ∧ Moves s s' t ∧ Asserts c s s' t := by
  refine ⟨undisturbed_goto h, .leaves ⟨hlist, hcount, hbowl, ?_, ?_⟩, asserts_of_none hp⟩
  · rw [h, State.goto_pc_self, hpc, hh]
  · rw [h, State.goto_pc_self, hpc, hs]

theorem leaves_fail {x : Panic} (hx : x ≠ .assertBowl ∧ x ≠ .invalidBowl) :
    Undisturbed s (s.fail x) t ∧ Moves s (s.fail x) t ∧ Asserts c s (s.fail x) t := by
  refine ⟨fun _ _ => ⟨rfl, rfl⟩, .leaves ⟨rfl, rfl, rfl, rfl, rfl⟩, ?_⟩
  intro h
  simp [State.fail, hx.1, hx.2] at h

theorem arrive_moves (hpc : s.pc t = .arrive) (hp : s.panic = none) :
    Undisturbed s (arrive s t sp) t ∧ Moves s (arrive s t sp) t ∧ Asserts c s (arrive s t sp) t := by
  unfold arrive
  dsimp only
  split_ifs
  all_goals exact leaves_goto hpc rfl rfl rfl rfl hp rfl rfl

theorem eatStart_moves (hpc : s.pc t = .eatStart) (hp : s.panic = none) :
    Undisturbed s (eatStart s t sp) t ∧ Moves s (eatStart s t sp) t ∧
      Asserts c s (eatStart s t sp) t := by
  unfold eatStart
  dsimp only
  split_ifs
  · exact leaves_fail (by decide)
  · exact leaves_fail (by decide)
  · exact leaves_fail (by decide)
  · exact leaves_goto hpc rfl rfl rfl rfl hp rfl rfl

theorem eatFinish_moves (hpc : s.pc t = .eatFinish) (hp : s.panic = none) :
    Undisturbed s (eatFinish s t sp) t ∧ Moves s (eatFinish s t sp) t ∧
      Asserts c s (eatFinish s t sp) t := by
  unfold eatFinish
  dsimp only
  split_ifs
  · exact leaves_goto hpc rfl rfl rfl rfl hp rfl rfl
  · exact leaves_fail (by decide)

theorem leave_moves (hpc : s.pc t = .leave) (hp : s.panic = none) :
    Undisturbed s (leave c s t sp) t ∧ Moves s (leave c s t sp) t ∧ Asserts c s (leave c s t sp) t := by
  unfold leave
  dsimp only
  split
  · -- the broadcast moves sleepers of the other species only
    refine ⟨fun i hi => ?_, .leaves ⟨rfl, rfl, rfl, ?_, ?_⟩, asserts_of_none hp⟩
    · have := cvBroadcast_undisturbed c sp.other (s.goto t .releaseWaitAgain).pc i
      rw [State.goto_pc_ne s t _ hi] at this
      exact this
    · simp [cvBroadcast, hpc, Pc.holds]
    · simp [cvBroadcast, hpc, Pc.seated]
  · exact leaves_goto hpc rfl rfl rfl rfl hp rfl rfl

theorem simulation_moves (hp : s.panic = none) (h : simulation c sp s t = some s') :
    Undisturbed s s' t ∧ Moves s s' t ∧ Asserts c s s' t := by
  unfold simulation acquire at h
  cases hpc : s.pc t <;> simp only [hpc] at h
  case arrive => cases h; exact arrive_moves hpc hp
  case eatStart => cases h; exact eatStart_moves hpc hp
  case eatFinish => cases h; exact eatFinish_moves hpc hp
  case leave => cases h; exact leave_moves hpc hp
  case cvWait b => cases h
  case gone => cases h
  case recheck b =>
    cases h
    split
    · exact leaves_goto hpc rfl rfl rfl rfl hp rfl rfl
    · exact leaves_goto hpc rfl rfl rfl rfl hp rfl rfl
  case pBowlCount =>
    split at h
    · cases h
      refine ⟨undisturbed_goto rfl, .sitDown hpc (by simp) rfl rfl ?_, asserts_of_none hp⟩
      dsimp only
      omega
    · cases h
  case takeBowl =>
    split at h
    · rename_i hlist
      cases h
      exact ⟨undisturbed_goto rfl, .miss hpc hlist, asserts_of_none hp⟩
    · rename_i b rest hlist
      cases h
      exact ⟨undisturbed_goto rfl, .take b rest hpc (by simp) hlist rfl rfl rfl, asserts_of_none hp⟩
  case callEat =>
    split at h
    · rename_i hbad
      cases h
      exact ⟨fun _ _ => ⟨rfl, rfl⟩, .leaves ⟨rfl, rfl, rfl, rfl, rfl⟩, fun _ => ⟨hpc, hbad⟩⟩
    · split at h
      · omega
      · cases h
        exact leaves_goto hpc rfl rfl rfl rfl hp rfl rfl
  case putBowl =>
    cases h
    exact ⟨undisturbed_goto rfl, .put hpc (by simp) rfl rfl rfl, asserts_of_none hp⟩
  case vBowlCount =>
    cases h
    refine ⟨undisturbed_goto rfl, .getUp hpc ?_ rfl rfl rfl, asserts_of_none hp⟩
    rw [State.goto_pc_self]
    split
    · exact .inl rfl
    · exact .inr rfl
  -- the remaining steps are one call each, and those that can block are taken when they do not
  all_goals
    (try split at h) <;> cases h
    exact leaves_goto hpc rfl rfl rfl rfl hp rfl rfl

structure BowlsInv (c : Config) (s : State) : Prop where
  exact : (s.freeBowlsList ++ heldBowls c s).Perm (List.range' 1 c.numBowls)
  seats : s.maxBowlCount + seatedCount c s = c.numBowls
  asserts : s.panic ≠ some .assertBowl ∧ s.panic ≠ some .invalidBowl

theorem length_heldBowls (c : Config) (s : State) :
    (heldBowls c s).length = tally c.animals fun t => (s.pc t).holds := by
  unfold heldBowls
  rw [length_collect]
  apply tally_congr
  intro t _
  unfold heldBy
  split <;> simp_all

namespace BowlsInv

theorem nonempty (h : BowlsInv c s) (ht : t < c.animals) (hpc : s.pc t = .takeBowl) :
    s.freeBowlsList ≠ [] := by
  intro hnil
  have hlen := h.exact.length_eq
  have hlt : tally c.animals (fun i => (s.pc i).holds) < seatedCount c s :=
    tally_lt (fun i _ hi => Pc.seated_of_holds hi) ht (by simp [hpc, Pc.holds])
      (by simp [hpc, Pc.seated])
  have hseats := h.seats
  rw [hnil, nil_append, length_heldBowls, length_range'] at hlen
  omega

theorem range (h : BowlsInv c s) (ht : t < c.animals) (hh : (s.pc t).holds = true) :
    1 ≤ s.bowl t ∧ s.bowl t ≤ c.numBowls := by
  have hmem : s.bowl t ∈ heldBowls c s := mem_collect ht (by simp [heldBy, hh])
  have hin := h.exact.mem_iff.mp (mem_append_right _ hmem)
  rw [mem_range'_1] at hin
  omega

theorem ok (h : BowlsInv c s) : BowlsOk c s :=
  ⟨h.exact, fun _ ht hpc => h.nonempty ht hpc, fun _ ht hh => h.range ht hh, h.asserts⟩

theorem asserts_step (h : BowlsInv c s) (ht : t < c.animals) (ha : Asserts c s s' t) :
    s'.panic ≠ some .assertBowl ∧ s'.panic ≠ some .invalidBowl := by
  have hno : ¬ (s'.panic = some .assertBowl ∨ s'.panic = some .invalidBowl) := by
    intro hp
    obtain ⟨hpc, hbad⟩ := ha hp
    exact hbad (h.range ht (by simp [hpc, Pc.holds]))
  exact not_or.mp hno

end BowlsInv

theorem heldBy_eq_none (h : (s.pc t).holds = false) : heldBy s t = none := by simp [heldBy, h]

theorem heldBy_eq_some (h : (s.pc t).holds = true) : heldBy s t = some (s.bowl t) := by
  simp [heldBy, h]

section change

variable (ht : t < c.animals) (hu : Undisturbed s s' t)
include ht hu

theorem heldBowls_change (hb : ∀ i, i ≠ t → s'.bowl i = s.bowl i) :
    ∃ rest, (heldBowls c s).Perm (rest ++ (heldBy s t).toList) ∧
      (heldBowls c s').Perm (rest ++ (heldBy s' t).toList) := by
  apply collect_change ht
  intro i hi
  unfold heldBy
  rw [(hu i hi).1, hb i hi]

theorem heldBowls_same (hb : s'.bowl = s.bowl) (hsame : heldBy s' t = heldBy s t) :
    (heldBowls c s').Perm (heldBowls c s) := by
  obtain ⟨rest, hold, hnew⟩ := heldBowls_change ht hu fun i _ => by rw [hb]
  rw [hsame] at hnew
  exact hnew.trans hold.symm

theorem seatedCount_change :
    seatedCount c s' + (s.pc t).seated.toNat = seatedCount c s + (s'.pc t).seated.toNat :=
  tally_change ht fun i hi => ((hu i hi).2).symm

end change

theorem BowlsInv.step (h : BowlsInv c s) (hs : CatMouse.step c s t = some s') : BowlsInv c s' := by
  obtain ⟨hp, ht, hsim⟩ := step_eq hs
  obtain ⟨hu, hm, ha⟩ := simulation_moves hp hsim
  have hseats := h.seats
  have hchange := seatedCount_change ht hu
  cases hm with
  | leaves hl =>
    have hsame : heldBy s' t = heldBy s t := by
      unfold heldBy
      rw [hl.holds, hl.bowl]
    refine ⟨?_, ?_, h.asserts_step ht ha⟩
    · rw [hl.list]
      exact ((heldBowls_same ht hu hl.bowl hsame).append_left _).trans h.exact
    · rw [hl.seated] at hchange
      rw [hl.count]
      omega
  | sitDown hold hnew hlist hbowl hcount =>
    have hsame : heldBy s' t = heldBy s t := by
      rw [heldBy_eq_none (by rw [hnew]; rfl), heldBy_eq_none (by rw [hold]; rfl)]
    have hseat : (s.pc t).seated.toNat = 0 ∧ (s'.pc t).seated.toNat = 1 := by
      rw [hold, hnew]
      exact ⟨rfl, rfl⟩
    refine ⟨?_, by omega, h.asserts_step ht ha⟩
    rw [hlist]
    exact ((heldBowls_same ht hu hbowl hsame).append_left _).trans h.exact
  | take b left hold hnew hlist hlist' hbowl hcount =>
    obtain ⟨rest, hrest, hrest'⟩ := heldBowls_change ht hu fun i hi => by
      rw [hbowl, update_of_ne hi]
    rw [heldBy_eq_none (by rw [hold]; rfl), toList_none, append_nil] at hrest
    rw [heldBy_eq_some (by rw [hnew]; rfl), hbowl, update_self,
      toList_some] at hrest'
    have hseat : (s.pc t).seated = (s'.pc t).seated := by
      rw [hold, hnew]
      rfl
    rw [hseat] at hchange
    refine ⟨?_, by omega, h.asserts_step ht ha⟩
    -- the first bowl of the list goes to the animal
    have hex := h.exact
    rw [hlist] at hex
    rw [hlist']
    refine .trans ?_ hex
    calc left ++ heldBowls c s'
        _ |>.Perm (left ++ (rest ++ [b])) := hrest'.append_left left
        _ |>.Perm (left ++ (b :: rest)) := (perm_append_singleton b rest).append_left left
        _ |>.Perm (b :: (left ++ rest)) := perm_middle
        _ |>.Perm (b :: left ++ heldBowls c s) := (hrest.symm.append_left left).cons b
  | miss hold hlist => exact absurd hlist (h.nonempty ht hold)
  | put hold hnew hlist hbowl hcount =>
    obtain ⟨rest, hrest, hrest'⟩ := heldBowls_change ht hu fun i _ => by rw [hbowl]
    rw [heldBy_eq_some (by rw [hold]; rfl), toList_some] at hrest
    rw [heldBy_eq_none (by rw [hnew]; rfl), toList_none, append_nil] at hrest'
    have hseat : (s.pc t).seated = (s'.pc t).seated := by
      rw [hold, hnew]
      rfl
    rw [hseat] at hchange
    refine ⟨?_, by omega, h.asserts_step ht ha⟩
    rw [hlist, append_assoc]
    refine .trans ?_ h.exact
    apply List.Perm.append_left
    -- the bowl of the animal goes to the end of the list
    exact (hrest'.append_left [s.bowl t]).trans
      ((perm_append_singleton _ rest).symm.trans hrest.symm)
  | getUp hold hnew hlist hbowl hcount =>
    have hnone : (s'.pc t).holds = false ∧ (s'.pc t).seated.toNat = 0 := by
      rcases hnew with hnew | hnew <;> (rw [hnew]; exact ⟨rfl, rfl⟩)
    have hsame : heldBy s' t = heldBy s t := by
      rw [heldBy_eq_none hnone.1, heldBy_eq_none (by rw [hold]; rfl)]
    have hseat : (s.pc t).seated.toNat = 1 := by
      rw [hold]
      rfl
    refine ⟨?_, by omega, h.asserts_step ht ha⟩
    rw [hlist]
    exact ((heldBowls_same ht hu hbowl hsame).append_left _).trans h.exact

/-- The threads with the ring behind `FreeBowlsList`. -/
structure Kitchen where
  st : State
  ring : Queue Nat

/-- Thread `t` takes a step; `mem` tells whether `q_addtail` finds memory. -/
def Kitchen.step (c : Config) (x : Kitchen) : Nat × Bool → Option Kitchen := fun (t, mem) =>
  if x.st.panic.isSome ∨ c.animals ≤ t then none
  else if x.st.pc t = .takeBowl then
    if x.ring.empty then some ⟨x.st.goto t .releaseFree, x.ring⟩
    else x.ring.remhead.map fun (ring, bowl) =>
      ⟨{ x.st.goto t .releaseFree with
          bowl := update x.st.bowl t bowl, freeBowlsList := ring.toList }, ring⟩
  else if x.st.pc t = .putBowl then
    (x.ring.addtail mem (x.st.bowl t)).map fun (ring, _) =>
      ⟨{ x.st.goto t .releaseFreeAgain with freeBowlsList := ring.toList }, ring⟩
  else (CatMouse.step c x.st t).map fun s => ⟨s, x.ring⟩

def addBowls (mem : Nat → Bool) : List Nat → Queue Nat → Option (Queue Nat)
  | [], ring => some ring
  | iBowl :: rest, ring =>
    (ring.addtail (mem iBowl) iBowl).bind fun (ring, _) => addBowls mem rest ring

/-- `mem b` tells whether there is memory when bowl `b` needs it. -/
def setUp (c : Config) (mem : Nat → Bool) : Option (Queue Nat) :=
  addBowls mem (List.range' 1 c.numBowls) (Queue.create c.numBowls)

def Kitchen.start (c : Config) (garbage : Nat → Nat) (ring : Queue Nat) : Kitchen :=
  ⟨{ init c garbage with freeBowlsList := ring.toList }, ring⟩

structure KitchenInv (c : Config) (x : Kitchen) : Prop where
  bowls : BowlsInv c x.st
  ring : x.ring.Holds x.st.freeBowlsList
  room : c.numBowls < x.ring.size

section ring

variable {x x' : Kitchen} {mem : Bool}

theorem step_list (h : CatMouse.step c s t = some s') (htake : s.pc t ≠ .takeBowl)
    (hput : s.pc t ≠ .putBowl) : s'.freeBowlsList = s.freeBowlsList := by
  obtain ⟨hp, -, hsim⟩ := step_eq h
  obtain ⟨-, hm, -⟩ := simulation_moves hp hsim
  cases hm with
  | leaves hl => exact hl.list
  | sitDown _ _ hlist => exact hlist
  | take _ _ hold => exact absurd hold htake
  | miss hold => exact absurd hold htake
  | put hold => exact absurd hold hput
  | getUp _ _ hlist => exact hlist

theorem step_of_simulation (hp : s.panic = none) (ht : t < c.animals)
    (h : ∀ sp, simulation c sp s t = some s') : CatMouse.step c s t = some s' := by
  unfold CatMouse.step
  simp only [hp, isSome_none, Bool.false_eq_true, if_false, if_pos ht]
  split
  · exact h .cat
  · exact h .mouse

theorem BowlsInv.length_lt (h : BowlsInv c s) (ht : t < c.animals) (hh : (s.pc t).holds = true) :
    s.freeBowlsList.length < c.numBowls := by
  have hlen := h.exact.length_eq
  rw [length_append, length_range'] at hlen
  have hmem : s.bowl t ∈ heldBowls c s := mem_collect ht (heldBy_eq_some hh)
  have hpos := length_pos_of_mem hmem
  omega

section

variable (h : KitchenInv c x)
include h

theorem takeBowl_refines (hp : x.st.panic = none) (ht : t < c.animals)
    (hpc : x.st.pc t = .takeBowl) (hs : Kitchen.step c x (t, mem) = some x') :
    CatMouse.step c x.st t = some x'.st ∧ x'.ring.Holds x'.st.freeBowlsList ∧
      x'.ring.size = x.ring.size := by
  unfold Kitchen.step at hs
  simp only [hp, isSome_none, Bool.false_eq_true, false_or, not_le.mpr ht, if_false, hpc,
    if_true] at hs
  obtain ⟨b, rest, hlist⟩ := exists_cons_of_ne_nil (h.bowls.nonempty ht hpc)
  have hholds := h.ring
  rw [hlist] at hholds
  obtain ⟨ring, hrem, hring, hsize⟩ := hholds.remhead
  rw [hholds.empty, hrem] at hs
  cases hs
  refine ⟨step_of_simulation hp ht fun sp => ?_, ?_, hsize⟩
  · unfold simulation
    simp [hpc, hlist, hring.toList]
  · simp only [hring.toList]
    exact hring

theorem putBowl_refines (hp : x.st.panic = none) (ht : t < c.animals)
    (hpc : x.st.pc t = .putBowl) (hs : Kitchen.step c x (t, mem) = some x') :
    CatMouse.step c x.st t = some x'.st ∧ x'.ring.Holds x'.st.freeBowlsList ∧
      x'.ring.size = x.ring.size := by
  have hroom := h.room
  have hlen := h.bowls.length_lt ht (by rw [hpc]; rfl)
  obtain ⟨ring, hadd, hring, hsize⟩ := h.ring.addtail (by omega) mem (x.st.bowl t)
  unfold Kitchen.step at hs
  simp only [hp, isSome_none, Bool.false_eq_true, false_or, not_le.mpr ht, if_false, hpc,
    reduceCtorEq, if_true, hadd, map_some, some.injEq] at hs
  subst hs
  refine ⟨step_of_simulation hp ht fun sp => ?_, ?_, hsize⟩
  · unfold simulation
    simp [hpc, hring.toList]
  · simp only [hring.toList]
    exact hring

theorem Kitchen.step_refines (hs : Kitchen.step c x (t, mem) = some x') :
    CatMouse.step c x.st t = some x'.st ∧ x'.ring.Holds x'.st.freeBowlsList ∧
      x'.ring.size = x.ring.size := by
  have hguard : x.st.panic = none ∧ t < c.animals := by
    unfold Kitchen.step at hs
    dsimp only at hs
    split at hs
    · cases hs
    · rename_i hok
      rw [not_or, Bool.not_eq_true, isSome_eq_false_iff, isNone_iff_eq_none,
        not_le] at hok
      exact hok
  obtain ⟨hp, ht⟩ := hguard
  by_cases htake : x.st.pc t = .takeBowl
  · exact takeBowl_refines h hp ht htake hs
  by_cases hput : x.st.pc t = .putBowl
  · exact putBowl_refines h hp ht hput hs
  unfold Kitchen.step at hs
  simp only [hp, isSome_none, Bool.false_eq_true, false_or, not_le.mpr ht, if_false,
    htake, hput, map_eq_some_iff] at hs
  obtain ⟨s', hstep, rfl⟩ := hs
  refine ⟨hstep, ?_, rfl⟩
  rw [step_list hstep htake hput]
  exact h.ring

theorem KitchenInv.step (hs : Kitchen.step c x (t, mem) = some x') :
    KitchenInv c x' := by
  obtain ⟨hstep, hring, hsize⟩ := Kitchen.step_refines h hs
  exact ⟨h.bowls.step hstep, hring, hsize ▸ h.room⟩

end

end ring

section setUp

variable {mem : Nat → Bool} {ring : Queue Nat} {l as bs : List Nat}

theorem addBowls_append :
    addBowls mem (as ++ bs) ring = (addBowls mem as ring).bind (addBowls mem bs) := by
  induction as generalizing ring with
  | nil => rfl
  | cons b as ih =>
    simp only [cons_append, addBowls, bind_assoc]
    congr 1
    funext r
    exact ih

theorem addBowls_room (mem : Nat → Bool) (h : ring.Holds l)
    (hroom : l.length + bs.length < ring.size) :
    ∃ ring', addBowls mem bs ring = some ring' ∧ ring'.Holds (l ++ bs) ∧
      ring'.size = ring.size := by
  induction bs generalizing l ring with
  | nil => exact ⟨ring, rfl, by rwa [append_nil], rfl⟩
  | cons b bs ih =>
    rw [length_cons] at hroom
    obtain ⟨r, hadd, hr, hsize⟩ := h.addtail (by omega) (mem b) b
    have hroom' : (l ++ [b]).length + bs.length < r.size := by
      rw [length_append, length_singleton]
      omega
    obtain ⟨r', hrest, hr', hsize'⟩ := ih hr hroom'
    refine ⟨r', ?_, by rwa [append_assoc] at hr', by omega⟩
    unfold addBowls
    rw [hadd]
    exact hrest

theorem setUp_spec {n : Nat} (hn : c.numBowls = n + 1) (mem : Nat → Bool) :
    ∃ ring, setUp c mem = some ring ∧
      (mem c.numBowls = true → ring.Holds (List.range' 1 c.numBowls) ∧ c.numBowls < ring.size) ∧
      (mem c.numBowls = false → ring.Holds (List.range' 1 n)) := by
  have hroom : ([] : List Nat).length + (List.range' 1 n).length < n + 1 := by
    rw [length_range', length_nil]
    omega
  obtain ⟨r, hadd, hr, hsize⟩ := addBowls_room mem (.create (Nat.succ_pos n)) hroom
  have hfull : (List.range' 1 n).length + 1 = r.size := by
    rw [length_range', hsize]
    rfl
  have hsetUp : setUp c mem = (r.addtail (mem (n + 1)) (n + 1)).map (·.1) := by
    unfold setUp
    rw [hn, List.range'_1_concat, addBowls_append, hadd, add_comm 1 n]
    exact (map_eq_bind ..).symm
  obtain ⟨⟨r', hgrown, hr', hsize'⟩, hsame⟩ := hr.addtail_full hfull (n + 1)
  rw [hn, hsetUp]
  cases mem (n + 1) with
  | true =>
    rw [hgrown]
    refine ⟨r', rfl, fun _ => ⟨?_, ?_⟩, (fun h => nomatch h)⟩
    · rw [List.range'_1_concat, add_comm 1 n]
      exact hr'
    · have hle : r.size + 1 ≤ r.newsize (r.size + 1) :=
        Queue.le_doubled (by omega) (Nat.le_add_left ..)
      rw [length_range'] at hfull
      omega
  | false =>
    rw [hsame]
    exact ⟨r, rfl, (fun h => nomatch h), fun _ => hr⟩

theorem heldBowls_start (c : Config) (garbage : Nat → Nat) (ring : Queue Nat) :
    heldBowls c (Kitchen.start c garbage ring).st = [] := by
  apply eq_nil_of_length_eq_zero
  rw [length_heldBowls]
  simp [Kitchen.start, init, tally, Pc.holds]

theorem kitchenInv_start (h : ring.Holds (List.range' 1 c.numBowls)) (hroom : c.numBowls < ring.size)
    (garbage : Nat → Nat) : KitchenInv c (Kitchen.start c garbage ring) where
  bowls :=
    { exact := by
        rw [heldBowls_start, append_nil]
        exact .of_eq h.toList
      seats := by simp [Kitchen.start, init, seatedCount, tally, Pc.seated, Pc.holds]
      asserts := ⟨nofun, nofun⟩ }
  ring := by
    have hlist : (Kitchen.start c garbage ring).st.freeBowlsList = List.range' 1 c.numBowls :=
      h.toList
    rw [hlist]
    exact h
  room := hroom

end setUp

/-- The ring is made one slot too small for the last bowl. -/
theorem bowls_exact_iff (c : Config) (hbowls : 1 ≤ c.numBowls) (mem : Nat → Bool) :
    ∃ ring, setUp c mem = some ring ∧ ∀ (garbage : Nat → Nat) (ls : List (Nat × Bool)),
      (Always (Kitchen.step c) (fun x => BowlsOk c x.st) (Kitchen.start c garbage ring) ls ↔
        mem c.numBowls = true) := by
  obtain ⟨n, hn⟩ := Nat.exists_eq_add_one_of_ne_zero (ne_of_gt hbowls)
  obtain ⟨ring, hring, hgood, hbad⟩ := setUp_spec hn mem
  refine ⟨ring, hring, fun garbage ls => ⟨fun halways => ?_, fun hmem => ?_⟩⟩
  · -- a ring that could not grow has one bowl less, and no animal holds it
    by_contra hmem
    have hlist := (hbad (Bool.eq_false_iff.mpr hmem)).toList
    have hlen := halways.head.exact.length_eq
    rw [heldBowls_start, append_nil, length_range', hn] at hlen
    change ring.toList.length = n + 1 at hlen
    rw [hlist, length_range'] at hlen
    omega
  · obtain ⟨hholds, hroom⟩ := hgood hmem
    exact always_of_inv (fun _ _ _ hi hs => hi.step hs) (fun _ hi => hi.bowls.ok)
      (kitchenInv_start hholds hroom garbage) ls

theorem bowl_lost :
    ∃ ring, setUp ⟨1, 1, 0, 1⟩ (fun _ => false) = some ring ∧
      (run (Kitchen.step ⟨1, 1, 0, 1⟩) (Kitchen.start ⟨1, 1, 0, 1⟩ (fun _ => 0) ring)
        (List.replicate 9 (0, true))).map (fun x => x.st.panic) = some (some .assertBowl) ∧
      ¬ Always (Kitchen.step ⟨1, 1, 0, 1⟩) (fun x => BowlsOk ⟨1, 1, 0, 1⟩ x.st)
        (Kitchen.start ⟨1, 1, 0, 1⟩ (fun _ => 0) ring) (List.replicate 9 (0, true)) := by
  have hrun : (run (Kitchen.step ⟨1, 1, 0, 1⟩)
      (Kitchen.start ⟨1, 1, 0, 1⟩ (fun _ => 0) (Queue.create 1))
      (List.replicate 9 (0, true))).map (fun x => x.st.panic) = some (some .assertBowl) := by
    decide +kernel
  refine ⟨Queue.create 1, rfl, hrun, fun halways => ?_⟩
  obtain ⟨x, hx, hpanic⟩ := map_eq_some_iff.mp hrun
  exact (halways.last hx).asserts.1 hpanic

theorem bowls_exact_iff_two_bowls :
    1 ≤ (⟨2, 1, 1, 3⟩ : Config).numBowls ∧
      ∃ ring, setUp ⟨2, 1, 1, 3⟩ (fun _ => true) = some ring ∧
        ∀ (garbage : Nat → Nat) (ls : List (Nat × Bool)),
          Always (Kitchen.step ⟨2, 1, 1, 3⟩) (fun x => BowlsOk ⟨2, 1, 1, 3⟩ x.st)
            (Kitchen.start ⟨2, 1, 1, 3⟩ garbage ring) ls := by
  refine ⟨by decide, ?_⟩
  obtain ⟨ring, hring, hiff⟩ := bowls_exact_iff ⟨2, 1, 1, 3⟩ (by decide) fun _ => true
  exact ⟨ring, hring, fun garbage ls => (hiff garbage ls).mpr rfl⟩

end Os161.CatMouse
