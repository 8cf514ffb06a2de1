import Os161.Files.Modes
import Os161.Vfs.Grammar

/-!
# `sys_open`

The name of the file is copied to the kernel with all checks, and then the copy is forgotten:
`fd_table_open` gets the pointer of the user.
-/

open Os161.Lib Os161.Kern Os161.Userprog Option

namespace Os161.Files.SysOpen

open Strings (copyinstr fetchstr fetchstr_ok loadByte stringAt stringFrom)
open Vfs (Paths.OpenFlags)
open Vfs.InPlace

abbrev PATH_MAX : Nat := 1024

structure Run where
  cur : Thread
  filename : Addr
  mem : Memory
  later : Memory

def Run.copied (r : Run) : Except Errno (List UInt8) := copyinstr r.cur r.mem r.filename PATH_MAX

def Run.afterwards (r : Run) : Memory := fun a => if a.toNat < USERTOP then r.later a else r.mem a

structure Opened where
  files : State
  vfs : Vfs.Paths.State
  mem : Memory
  ret : Except Int (Fin maxFileOpen)

def room (s : State) (p : Nat) (memory : Option Nat) : Bool :=
  ((s.table p).bind freeSlot).isSome && memory.isSome

def sysOpen (s : State) (p : Nat) (flags : BitVec 32) (memory : Option Nat) (k : Host)
    (v : Vfs.Paths.State) (r : Run) : Option Opened :=
  match r.copied with
  | .error e => some ⟨s, v, r.afterwards, .error e.code⟩
  | .ok _ =>
    if room s p memory then
      (vfsOpen r.cur k r.filename (openFlags flags) ⟨r.afterwards, v⟩).bind fun (vn, w) =>
        (fdTableOpen s p flags.toInt ⟨memory, vn.mapError Errno.code, true⟩).map fun (s, ret) =>
          ⟨s, w.vfs, w.mem, ret⟩
    else
      (fdTableOpen s p flags.toInt ⟨memory, .error 0, true⟩).map fun (s, ret) =>
        ⟨s, v, r.afterwards, ret⟩

def Opened.effect (o : Opened) : State × Vfs.Paths.State × Except Int (Fin maxFileOpen) :=
  (o.files, o.vfs, o.ret)

/-- A call that copies the same string changes no user memory and has the same result. -/
structure CopyOnly (s : State) (p : Nat) (flags : BitVec 32) (memory : Option Nat) (r : Run) :
    Prop where
  unchanged : ∀ k v r' o, r'.copied = r.copied → sysOpen s p flags memory k v r' = some o →
    ∀ a : Addr, a.toNat < USERTOP → o.mem a = r'.later a
  agree : ∀ k v r', r'.copied = r.copied → (sysOpen s p flags memory k v r').map Opened.effect =
    (sysOpen s p flags memory k v r).map Opened.effect

def PathUnused (s : State) (p : Nat) (flags : BitVec 32) (memory : Option Nat) (r : Run) : Prop :=
  (∃ e, r.copied = .error e) ∨ room s p memory = false ∨ (openFlags flags).how = .other

def barren : Host where
  knowndevs := []
  vnFs := fun _ => none
  bootfsVnode := none
  getroot := fun _ _ => 0
  lookup := fun _ _ _ => .error .ENOENT
  lookparent := fun _ _ _ => .error .ENOENT
  creat := fun _ _ _ _ => .error .ENOENT
  gettype := fun _ _ => .ok true
  answer := fun _ _ => none
  cut := fun _ _ => none

def inside : Vfs.Paths.State := ⟨fun _ => 1, fun _ => 0, some 0, 0, fun _ => 0⟩

section Empty

variable {cur : Thread} {a : Addr} {mem : Memory} {v : Vfs.Paths.State}

def visited : Vfs.Paths.State := { inside with refcount := Function.update inside.refcount 0 2 }

theorem getdevice_nul (h : StrAt cur mem a []) :
    getdevice cur barren a ⟨mem, inside⟩ = some (.ok (0, a), ⟨mem, visited⟩) :=
  getdevice_curdir barren h nofun (by simp)

theorem vfsLookup_nul (h : StrAt cur mem a []) :
    vfsLookup cur barren a ⟨mem, inside⟩ = some (.ok 0, ⟨mem, visited⟩) := by
  simp only [vfsLookup, bind, StateT.bind, getdevice_nul h, bind_some, path_eq h]
  rfl

theorem openCreate_nul (h : StrAt cur mem a []) (excl : Bool) :
    ∃ w, openCreate cur barren a excl ⟨mem, inside⟩ = some (.error .EINVAL, w) := by
  simp only [openCreate, vfsLookparent, bind, StateT.bind, getdevice_nul h, bind_some, path_eq h]
  exact ⟨_, rfl⟩

theorem openVnode_visited (flags : Vfs.Paths.OpenFlags) :
    ∃ res v, Vfs.Paths.openVnode barren.toKernel 0 flags visited = some (res, v) ∧
      (res = .ok 0 ∨ res = .error .EINVAL) := by
  unfold Vfs.Paths.openVnode Vfs.Paths.openTruncate
  by_cases htrunc : flags.trunc = true
  · by_cases hwrite : flags.canwrite = true
    · rw [if_pos htrunc, if_pos hwrite]
      exact ⟨_, _, rfl, .inl rfl⟩
    · rw [if_pos htrunc, if_neg hwrite]
      exact ⟨_, _, rfl, .inr rfl⟩
  · rw [if_neg htrunc]
    exact ⟨_, _, rfl, .inl rfl⟩

theorem vfsOpen_nul {flags : Vfs.Paths.OpenFlags} (hhow : flags.how ≠ .other)
    (h : StrAt cur mem a []) :
    ∃ res w, vfsOpen cur barren a flags ⟨mem, inside⟩ = some (res, w) ∧
      (res = .ok 0 ∨ res = .error .EINVAL) := by
  unfold vfsOpen
  rw [if_neg hhow]
  by_cases hcreat : flags.creat = true
  · obtain ⟨w, hcreate⟩ := openCreate_nul h flags.excl
    simp only [bind, StateT.bind, if_pos hcreat, hcreate]
    exact ⟨_, _, rfl, .inr rfl⟩
  · obtain ⟨res, v, hopen, hres⟩ := openVnode_visited flags
    simp only [bind, StateT.bind, if_neg hcreat, vfsLookup_nul h, bind_some, quiet, hopen, map_some]
    exact ⟨_, _, rfl, hres⟩

end Empty

/-! ## A path from the root, when nothing is booted -/

section Slash

variable {cur : Thread} {a : Addr} {mem : Memory}

theorem getdevice_slash (hfault : cur.faults a = false) (hslash : mem a = SLASH) :
    getdevice cur barren a ⟨mem, inside⟩ = some (.error .ENOENT, ⟨mem, inside⟩) := by
  have hmark : findMark cur (2 ^ 32) a ⟨mem, inside⟩ = some (some (a, SLASH), ⟨mem, inside⟩) := by
    obtain ⟨n, hn⟩ : ∃ n, 2 ^ 32 = n + 1 := ⟨2 ^ 32 - 1, rfl⟩
    rw [hn]
    simp only [findMark, load, loadByte, bind, StateT.bind, hfault, hslash]
    rfl
  simp only [getdevice, fromRoot, bind, StateT.bind, hmark, bind_some, if_pos]
  rfl

theorem vfsOpen_slash {flags : Vfs.Paths.OpenFlags} (hhow : flags.how ≠ .other)
    (hfault : cur.faults a = false) (hslash : mem a = SLASH) :
    vfsOpen cur barren a flags ⟨mem, inside⟩ = some (.error .ENOENT, ⟨mem, inside⟩) := by
  have hdevice := getdevice_slash hfault hslash
  unfold vfsOpen
  rw [if_neg hhow]
  by_cases hcreat : flags.creat = true
  · simp only [bind, StateT.bind, if_pos hcreat, openCreate, vfsLookparent, hdevice, bind_some]
    rfl
  · simp only [bind, StateT.bind, if_neg hcreat, vfsLookup, hdevice, bind_some]
    rfl

end Slash

/-! ## The call -/

section Call

variable {s : State} {p f : Nat} {flags : BitVec 32} {memory : Option Nat} {r : Run}
  {str : List UInt8} {k : Host} {v : Vfs.Paths.State}

theorem copied_start (h : r.copied = .ok str) :
    r.filename.toNat < USERTOP ∧ r.cur.faults r.filename = false := by
  unfold Run.copied copyinstr at h
  split at h
  · cases h
  · next hcheck => exact ⟨copycheck_ok hcheck, fetchstr_ok h⟩

theorem sysOpen_reached (hcopied : r.copied = .ok str) (hroom : room s p memory = true) :
    sysOpen s p flags memory k v r =
      (vfsOpen r.cur k r.filename (openFlags flags) ⟨r.afterwards, v⟩).bind fun (vn, w) =>
        (fdTableOpen s p flags.toInt ⟨memory, vn.mapError Errno.code, true⟩).map fun (s, ret) =>
          ⟨s, w.vfs, w.mem, ret⟩ := by
  unfold sysOpen
  rw [hcopied, if_pos hroom]

theorem fdTableOpen_room (hroom : room s p memory = true) (hfresh : ∀ f ∈ memory, f ∉ s.live)
    (flag : Int) (vfs : Except Int Nat) :
    ∃ s' ret, fdTableOpen s p flag ⟨memory, vfs, true⟩ = some (s', ret) ∧
      ∀ e, ret = .error e ↔ vfs = .error e := by
  unfold room at hroom
  rw [Bool.and_eq_true, isSome_iff_exists, isSome_iff_exists] at hroom
  obtain ⟨⟨fd, hfd⟩, f, rfl⟩ := hroom
  obtain ⟨t, ht, hslot⟩ := bind_eq_some_iff.mp hfd
  cases vfs with
  | error e =>
    refine ⟨s, .error e, ?_, fun e' => by simp⟩
    simp [fdTableOpen, ht, hslot, hfresh f rfl]
  | ok vn =>
    refine ⟨(s.opened f flag vn true).setSlot p fd (some f), .ok fd, ?_, fun e' => by simp⟩
    simp [fdTableOpen, ht, hslot, hfresh f rfl]

def Run.rewritten (r : Run) (ch : UInt8) : Run := { r with later := fun _ => ch }

theorem sysOpen_rewritten {c : UInt8} {res : Except Errno Nat} {w : Context}
    (hcopied : r.copied = .ok str) (hroom : room s p memory = true)
    (hfresh : ∀ f ∈ memory, f ∉ s.live) (hopen : vfsOpen r.cur barren r.filename (openFlags flags)
      ⟨(r.rewritten c).afterwards, inside⟩ = some (res, w)) :
    ∃ o, sysOpen s p flags memory barren inside (r.rewritten c) = some o ∧
      ∀ e, o.ret = .error e ↔ res.mapError Errno.code = .error e := by
  obtain ⟨s', ret, htable, hret⟩ := fdTableOpen_room hroom hfresh flags.toInt (res.mapError Errno.code)
  refine ⟨⟨s', w.vfs, w.mem, ret⟩, ?_, hret⟩
  rw [sysOpen_reached (r := r.rewritten c) hcopied hroom]
  change (vfsOpen r.cur barren r.filename _ _).bind _ = _
  rw [hopen, bind_some]
  dsimp only
  rw [htable]
  rfl

theorem sysOpen_unused (h : PathUnused s p flags memory r) :
    ∃ out : Option (State × Except Int (Fin maxFileOpen)), ∀ k v r', r'.copied = r.copied →
      sysOpen s p flags memory k v r' = out.map fun (s', ret) => ⟨s', v, r'.afterwards, ret⟩ := by
  cases hstr : r.copied with
  | error e =>
    refine ⟨some (s, .error e.code), fun k v r' hsame => ?_⟩
    unfold sysOpen
    rw [hsame]
    rfl
  | ok str =>
    by_cases hroom : room s p memory = true
    · have hhow : (openFlags flags).how = .other := by
        obtain ⟨e, he⟩ | hfull | hhow := h
        · rw [hstr] at he
          cases he
        · rw [hroom] at hfull
          cases hfull
        · exact hhow
      refine ⟨fdTableOpen s p flags.toInt ⟨memory, .error Errno.EINVAL.code, true⟩, fun k v r' hsame => ?_⟩
      rw [sysOpen_reached hsame hroom]
      unfold vfsOpen
      rw [if_pos hhow]
      rfl
    · refine ⟨fdTableOpen s p flags.toInt ⟨memory, .error 0, true⟩, fun k v r' hsame => ?_⟩
      unfold sysOpen
      rw [hsame]
      rw [if_neg hroom]

theorem copyOnly_iff_pathUnused (s : State) (p : Nat) (flags : BitVec 32) (memory : Option Nat)
    (r : Run) (hfresh : ∀ f ∈ memory, f ∉ s.live) :
    CopyOnly s p flags memory r ↔ PathUnused s p flags memory r := by
  constructor
  · intro h
    by_contra hused
    unfold PathUnused at hused
    push Not at hused
    obtain ⟨hcopied, hroom, hhow⟩ := hused
    have hroom := eq_true_of_ne_false hroom
    cases hstr : r.copied with
    | error e => exact hcopied e hstr
    | ok str =>
      -- the name is now empty, or begins with a slash
      obtain ⟨huser, hfault⟩ := copied_start hstr
      have hnow : ∀ ch, (r.rewritten ch).afterwards r.filename = ch := fun ch => if_pos huser
      obtain ⟨res, w, hopen, hres⟩ := vfsOpen_nul hhow ⟨hfault, hnow 0⟩
      obtain ⟨o, hempty, hret⟩ := sysOpen_rewritten (c := 0) hstr hroom hfresh hopen
      obtain ⟨o', hslash, hret'⟩ := sysOpen_rewritten (c := SLASH) hstr hroom hfresh
        (vfsOpen_slash hhow hfault (hnow SLASH))
      have hsame := (h.agree barren inside (r.rewritten 0) rfl).trans
        (h.agree barren inside (r.rewritten SLASH) rfl).symm
      rw [hempty, hslash, map_some, map_some, some.injEq] at hsame
      have heq : o.ret = o'.ret := congrArg (fun x => x.2.2) hsame
      have hnone := (hret _).mp (heq.trans ((hret' _).mpr rfl))
      obtain rfl | rfl := hres <;> exact absurd hnone (by decide)
  · intro h
    obtain ⟨out, hout⟩ := sysOpen_unused h
    constructor
    · intro k v r' o hsame ho a ha
      rw [hout k v r' hsame] at ho
      obtain ⟨x, -, rfl⟩ := map_eq_some_iff.mp ho
      exact if_pos ha
    · intro k v r' hsame
      rw [hout k v r' hsame, hout k v r rfl, map_map, map_map]
      rfl

end Call

def oneProcess : State :=
  ⟨{0}, fun _ => some fun _ => none, ∅, fun _ => ⟨0, 0, 0, 0⟩, fun _ => 0, fun _ => false⟩

def runWith (str : List UInt8) : Run where
  cur := ⟨some 0, fun _ => false⟩
  filename := 0x401000
  mem := Memory.store (fun _ => 0) 0x401000 str
  later := Memory.store (fun _ => 0) 0x401000 str

theorem copied_runWith (str : List UInt8) :
    (runWith str).copied = fetchstr (runWith str).cur (runWith str).mem 1024 1024 0x401000 := by
  have hcheck : copycheck (runWith str).filename.toNat PATH_MAX = .ok PATH_MAX := by
    change copycheck 0x401000 1024 = .ok 1024
    exact copycheck_eq (by decide) (by decide)
  unfold Run.copied copyinstr
  rw [hcheck]
  rfl

theorem copyOnly_mode_three :
    (runWith [100]).copied = .ok [100] ∧ CopyOnly oneProcess 0 3 (some 0) (runWith [100]) := by
  refine ⟨copied_runWith [100], ?_⟩
  exact (copyOnly_iff_pathUnused oneProcess 0 3 (some 0) (runWith [100])
    (fun _ _ => Finset.notMem_empty _)).mpr (.inr (.inr rfl))

/-- `d:x` loses its colon, and `d/x` its slash when `emufs` is asked to create it. -/
theorem path_overwritten :
    (∃ o, sysOpen oneProcess 0 0 (some 0) barren inside (runWith [100, 58, 120]) = some o ∧
      (runWith [100, 58, 120]).later 0x401001 = 58 ∧ o.mem 0x401001 = 0) ∧
    (∃ o, sysOpen oneProcess 0 5 (some 0) { barren with cut := fun _ => emufsCut } inside
        (runWith [100, 47, 120]) = some o ∧
      (runWith [100, 47, 120]).later 0x401001 = 47 ∧ o.mem 0x401001 = 0) ∧
    ∃ o o', sysOpen oneProcess 0 0 (some 0) barren inside (runWith [100]) = some o ∧
      sysOpen oneProcess 0 0 (some 0) barren inside ((runWith [100]).rewritten 0) = some o' ∧
      o.ret = .error Errno.ENOENT.code ∧ ∃ fd, o'.ret = .ok fd := by
  refine ⟨⟨_, sysOpen_reached (copied_runWith _) rfl, rfl, rfl⟩,
    ⟨_, sysOpen_reached (copied_runWith _) rfl, rfl, rfl⟩,
    ⟨_, _, sysOpen_reached (copied_runWith _) rfl, sysOpen_reached (copied_runWith _) rfl, rfl,
      ⟨_, rfl⟩⟩⟩

end Os161.Files.SysOpen
