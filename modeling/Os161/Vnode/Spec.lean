import Mathlib.Data.Fintype.Defs
import Os161.Lib.Run

/-!
# References to vnodes

`vnode_incref` and `vnode_decref`, with the code of SFS and of emufs that finds vnodes in the table
and reclaims them. A section under a lock is one step. SFS has no lock: its search, increment, test,
writes and `VOP_KILL` are single steps.
-/

open Function

namespace Os161.Vnode

inductive Fs where
  | sfs
  | emufs

/-- Where a thread is in the code. Vnodes are numbers, never used twice. -/
inductive Pc (I : Type) where
  | idle
  | found (v : Nat)                                -- `sfs_loadvnode`, before `VOP_INCREF`
  | missed (i : I)                                 -- `sfs_loadvnode`, nothing in the table
  | decided (v : Nat)                              -- `vnode_decref`, before `VOP_RECLAIM`
  | writing (v : Nat)                              -- reclaim, after the test of `vn_refcount`
  | removed (v : Nat)                              -- reclaim, before `VOP_KILL`
  deriving DecidableEq

/-- `ino` is `sv_ino` or `ev_handle`, and `lock` has `e_lock`. `live` and `held` are history. -/
structure State (T I : Type) where
  table : List Nat
  ino : Nat → I
  refcount : Nat → Nat
  live : Nat → Bool
  held : Nat → Nat
  fresh : Nat
  lock : Option T
  pc : T → Pc I

/-- `ok` tells whether memory is found and the device does its work. -/
inductive Label (T I : Type) where
  | load (t : T) (i : I) (ok : Bool)
  | incref (t : T) (v : Nat)
  | decref (t : T) (v : Nat)
  | next (t : T) (ok : Bool)

variable {T I : Type}

/-- `VOP_INIT` of a new vnode, and its place in the table. -/
def vnodeInit (s : State T I) (i : I) : State T I := { s with
    table := s.table ++ [s.fresh]
    ino := update s.ino s.fresh i
    refcount := update s.refcount s.fresh 1
    live := update s.live s.fresh true
    held := update s.held s.fresh 1
    fresh := s.fresh + 1 }

/-- `none` is a failed assert: a freed vnode has no lock. -/
def vnodeIncref (s : State T I) (v : Nat) : Option (State T I) := if s.live v then
    some { s with
      refcount := update s.refcount v (s.refcount v + 1)
      held := update s.held v (s.held v + 1) }
  else none

section Machine

variable [DecidableEq T] [DecidableEq I]

def goto (s : State T I) (t : T) (pc : Pc I) : State T I := { s with pc := update s.pc t pc }

/-- The last reference is not counted down but left to `VOP_RECLAIM`. -/
def vnodeDecref (s : State T I) (t : T) (v : Nat) : Option (State T I) :=
  if s.live v ∧ 0 < s.refcount v then
    let s' := { s with held := update s.held v (s.held v - 1) }
    if 1 < s.refcount v then
      some { s' with refcount := update s.refcount v (s.refcount v - 1) }
    else some (goto s' t (.decided v))
  else none

def vnodeKill (s : State T I) (t : T) (v : Nat) : Option (State T I) := if s.refcount v = 1 then
    some (goto { s with
      refcount := update s.refcount v 0
      live := update s.live v false } t .idle)
  else none

def lookup (s : State T I) (i : I) : Option Nat := s.table.find? fun v => s.ino v = i

/-- `array_remove` of the vnode, or a panic if it is not in the table. -/
def remove (s : State T I) (t : T) (v : Nat) : Option (State T I) :=
  if v ∈ s.table then some (goto { s with table := s.table.erase v } t (.removed v)) else none

def sfsLoadvnode (s : State T I) (t : T) (i : I) : State T I := match lookup s i with
  | some v => goto s t (.found v)
  | none => goto s t (.missed i)

/-- `emufs_loadvnode`, all of it under `e_lock`. -/
def emufsLoadvnode (s : State T I) (i : I) (ok : Bool) : Option (State T I) := match lookup s i with
  | some v => vnodeIncref s v
  | none => some (if ok then vnodeInit s i else s)

def sfsReclaim (s : State T I) (t : T) (v : Nat) : Option (State T I) := if s.refcount v ≠ 1 then
    if 1 < s.refcount v then
      some (goto { s with refcount := update s.refcount v (s.refcount v - 1) } t .idle)
    else none
  else some (goto s t (.writing v))

/-- The section at the start of `emufs_reclaim`. If it goes on it keeps `e_lock`. -/
def emufsReclaim (s : State T I) (t : T) (v : Nat) : State T I :=
  if s.refcount v ≠ 1 then goto s t .idle else goto { s with lock := some t } t (.writing v)

/-- The outer `none` waits for `e_lock`, the inner one is a machine that has stopped. -/
def next (fs : Fs) (s : State T I) (t : T) (ok : Bool) : Option (Option (State T I)) :=
  match s.pc t, fs with
  | .idle, _ => none
  | .found v, _ => some ((vnodeIncref s v).map (goto · t .idle))
  | .missed i, _ => some (some (goto (if ok then vnodeInit s i else s) t .idle))
  | .decided v, .sfs => some (sfsReclaim s t v)
  | .decided v, .emufs => if s.lock = none then some (some (emufsReclaim s t v)) else none
  -- the truncation and the write of the inode in SFS, `emu_close` in emufs
  | .writing v, .sfs => some (if ok then remove s t v else some (goto s t .idle))
  | .writing v, .emufs =>
    let s' := { s with lock := none }
    some (if ok then remove s' t v else some (goto s' t .idle))
  | .removed v, _ => some (vnodeKill s t v)

/-- References are taken and dropped by threads that hold one. -/
def step (fs : Fs) : Option (State T I) → Label T I → Option (Option (State T I))
  | none, _ => none
  | some s, .load t i ok =>
    if s.pc t = .idle then
      match fs with
      | .sfs => some (some (sfsLoadvnode s t i))
      | .emufs => if s.lock = none then some (emufsLoadvnode s i ok) else none
    else none
  | some s, .incref t v =>
    if s.pc t = .idle ∧ 0 < s.held v then some (vnodeIncref s v) else none
  | some s, .decref t v =>
    if s.pc t = .idle ∧ 0 < s.held v then some (vnodeDecref s t v) else none
  | some s, .next t ok => next fs s t ok

end Machine

def start (ino : Nat → I) : State T I :=
  ⟨[], ino, fun _ => 0, fun _ => false, fun _ => 0, 0, none, fun _ => .idle⟩

@[simp] def Pc.reclaims : Pc I → Option Nat
  | .decided v | .writing v | .removed v => some v
  | _ => none

@[simp] def Pc.finds : Pc I → Option Nat
  | .found v => some v
  | _ => none

/-- A vnode is freed when nobody holds a reference and not before. -/
structure Exact (s : State T I) : Prop where
  counted : ∀ v, s.live v = true → (∀ t, (s.pc t).reclaims ≠ some v) → s.refcount v = s.held v
  reclaimed : ∀ t v, (s.pc t).reclaims = some v → s.refcount v = s.held v + 1
  once : ∀ t u v, (s.pc t).reclaims = some v → (s.pc u).reclaims = some v → t = u
  held : ∀ v, 0 < s.held v → s.live v = true
  freed : ∀ v, s.live v = true → s.held v = 0 → ∃ t, (s.pc t).reclaims = some v
  table : ∀ v ∈ s.table, s.live v = true
  found : ∀ t v, (s.pc t).finds = some v → s.live v = true

def Survives : Option (State T I) → Prop
  | none => False
  | some s => Exact s

/-- In emufs the test must find no other reference, in SFS nobody may have found the vnode
meanwhile. In both the device must do its work. -/
def Pc.undisturbed (fs : Fs) (s : State T I) (ok : Bool) : Pc I → Prop
  | .decided v =>
    match fs with
    | .sfs => True
    | .emufs => s.held v = 0
  | .writing _ => ok = true
  | .removed v =>
    match fs with
    | .sfs => s.held v = 0 ∧ ∀ u, (s.pc u).finds ≠ some v
    | .emufs => True
  | _ => True

def Undisturbed (fs : Fs) : Option (State T I) → Label T I → Prop
  | some s, .next t ok => (s.pc t).undisturbed fs s ok
  | _, _ => True

instance [Fintype T] (s : State T I) (ok : Bool) :
    ∀ (fs : Fs) (pc : Pc I), Decidable (pc.undisturbed fs s ok)
  | .sfs, .decided _ => inferInstanceAs (Decidable True)
  | .emufs, .decided v => inferInstanceAs (Decidable (s.held v = 0))
  | _, .writing _ => inferInstanceAs (Decidable (ok = true))
  | .sfs, .removed _ => inferInstanceAs (Decidable (_ ∧ ∀ _, _))
  | .emufs, .removed _ => inferInstanceAs (Decidable True)
  | _, .idle | _, .found _ | _, .missed _ => inferInstanceAs (Decidable True)

instance [Fintype T] (fs : Fs) :
    ∀ (s : Option (State T I)) (l : Label T I), Decidable (Undisturbed fs s l)
  | some s, .next t ok => inferInstanceAs (Decidable ((s.pc t).undisturbed fs s ok))
  | some _, .load _ _ _ | some _, .incref _ _ | some _, .decref _ _ | none, _ =>
    inferInstanceAs (Decidable True)

end Os161.Vnode
