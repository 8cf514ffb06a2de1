import Os161.Userprog.Strings
import Os161.Vm.Executable

/-!
# `execv`

The strings are read through the user's pointers and copied to blocks of the kernel. A block at NULL
is a page of the program, if it has one; else the store is a panic.
-/

open Os161.Lib Os161.Kern

namespace Os161.Userprog.Execv

open Strings
open Vm (Addrspace asCreate asDefineStack)
open Vm.Executable (Load vfsOpen vfsClose setSpace readElf vfsClose_vmspace)

/-- `spaces` counts the calls of `as_create`. `blocks` are those of `execv` not freed. -/
structure State where
  kern : Vm.Executable.State
  spaces : Nat
  process : Bool
  mem : Memory
  blocks : List Addr

/-- `kmalloc n` is the answer to call number `n`, and `vfsOpen` what `vfs_open` leaves and answers.
-/
structure Call where
  cur : Thread
  progname : Addr
  argvO : Addr
  kmalloc : Nat → Addr
  vfsOpen : Memory → Memory × Except Errno Load
  /-- The new address space: where it faults, and what its pages have. -/
  next : Thread
  user : Memory
  /-- `add_process_new` finds a slot; `fd_table_create` answers with an error or 0. -/
  slot : Bool
  table : Option Errno

inductive Exit where
  | error (e : Errno)
  | usermode (argc : Nat) (stackptr : Addr)

abbrev TOP : Addr := 0x40000000

def check (c : Call) (mem : Memory) : Option (Option Errno) :=
  if c.progname = 0 ∨ TOP ≤ c.progname then some (some .EFAULT)
  else (strlen c.cur mem c.progname).map fun len =>
    if len = 0 then some .EINVAL
    else if c.argvO = 0 ∨ TOP ≤ c.argvO then some .EFAULT
    else none

def countArgs (cur : Thread) (mem : Memory) : Nat → Addr → Option Nat
  | 0, _ => none
  | n + 1, a => do
    let arg ← loadWord cur mem a
    if arg = 0 then return 0
    return (← countArgs cur mem n (a + 4)) + 1

structure Copies where
  mem : Memory
  blocks : List Addr

def Copies.allocate (r : Copies) (block : Addr) : Copies :=
  if block = 0 then r else { r with blocks := block :: r.blocks }

def copyArg (c : Call) (r : Copies) (k : Nat) : Option Copies := do
  let _ ← strlen c.cur r.mem (← loadWord c.cur r.mem (entry c.argvO k))
  let block := c.kmalloc (k + 1)
  let r := r.allocate block
  let mem ← storeWord c.cur r.mem (entry (c.kmalloc 0) k) block
  let mem ← strcpy c.cur mem block (← loadWord c.cur mem (entry c.argvO k))
  return { r with mem := mem }

def copyArgs (c : Call) (r : Copies) : Option (Nat × Copies) := do
  let argc ← countArgs c.cur r.mem (2 ^ 32) c.argvO
  let r ← run (copyArg c) (r.allocate (c.kmalloc 0)) (List.range argc)
  let mem ← storeWord c.cur r.mem (entry (c.kmalloc 0) argc) 0
  return (argc, { r with mem := mem })

structure Stack where
  mem : Memory
  stackptr : Addr

/-- One round of the first loop. An error of `copyoutstr` is printed. -/
def putString (c : Call) (argc : Nat) (s : Stack) (i : Nat) : Option Stack := do
  let j := argc - (i + 1)
  let str ← loadWord c.next s.mem (entry (c.kmalloc 0) j)
  let argvlen := (← strlen c.next s.mem str) + 1
  let stackptr := s.stackptr - BitVec.ofNat 32 (argvlen + (4 - argvlen % 4))
  let (mem, _) := Strings.copyoutstr c.next s.mem str stackptr argvlen
  return ⟨← storeWord c.next mem (entry (c.kmalloc 0) j) stackptr, stackptr⟩

/-- An error of `copyout` is printed; a fault on the entry of `argv` is one too. -/
def putWord (c : Call) (argc : Nat) (s : Stack) (i : Nat) : Stack := let stackptr := s.stackptr - 4
  let src := entry (c.kmalloc 0) (argc - i)
  if wordable c.next src then ⟨(copyout c.next s.mem (s.mem.load src 4) stackptr).1, stackptr⟩
  else ⟨s.mem, stackptr⟩

def passArgs (c : Call) (argc : Nat) (mem : Memory) : Option Stack := do
  let s ← run (putString c argc) ⟨mem, BitVec.ofNat 32 Vm.USERSTACK⟩ (List.range argc)
  return (List.range (argc + 1)).foldl (putWord c argc) s

/-- The exit code is read through `t_process`, which is NULL. -/
def enterProcess (s : State) (c : Call) : Option (State × Option Errno) :=
  if s.process then some (s, none)
  else if !c.slot then some (s, some .EAGAIN)
  else (loadWord c.next s.mem 4).map fun _ => ({ s with process := true }, c.table)

def start (s : State) (c : Call) (argc : Nat) : Option (State × Exit) := do
  let (s, err) ← enterProcess s c
  match err with
  | some e => return (s, .error e)
  | none =>
    let stack ← passArgs c argc s.mem
    return ({ s with mem := stack.mem }, .usermode argc stack.stackptr)

/-- The pages of the new address space take the place of the old ones. -/
def State.activate (s : State) (c : Call) : State := { s with
    spaces := s.spaces + 1
    mem := fun a => if a.toNat < USERTOP then c.user a else s.mem a }

/-- After `vfs_open`: the old address space is destroyed, and the new one is loaded. -/
def replace (s : State) (i : Nat) (c : Call) (argc : Nat) (l : Load) : Option (State × Exit) := do
  let kern := setSpace (vfsOpen s.kern l.v l.lock) i none
  match l.space with
  | none => return ({ s with kern := ← vfsClose kern l.v }, .error .ENOMEM)
  | some junk =>
    let s := s.activate c
    match readElf (asCreate junk) l.v l.elf with
    | (as, some e) =>
      return ({ s with kern := ← vfsClose (setSpace kern i (some as)) l.v }, .error e)
    | (as, none) =>
      let kern ← vfsClose (setSpace kern i (some (asDefineStack as l.stack))) l.v
      start { s with kern := kern } c argc

def openProgram (s : State) (i : Nat) (c : Call) (argc : Nat) : Option (State × Exit) :=
  match c.vfsOpen s.mem with
  | (mem, .error e) => some ({ s with mem := mem }, .error e)
  | (mem, .ok l) => replace { s with mem := mem } i c argc l

/-- `none` is a panic, a failed assertion or a loop without an end. -/
def execv (s : State) (i : Nat) (c : Call) : Option (State × Exit) := do
  match ← check c s.mem with
  | some e => return (s, .error e)
  | none =>
    let (argc, r) ← copyArgs c ⟨s.mem, s.blocks⟩
    openProgram { s with mem := r.mem, blocks := r.blocks } i c argc

/-! ## What a failed call leaves -/

/-- It runs its old program, in its own address space, and nothing is left of the call. -/
structure Kept (i : Nat) (as : Addrspace) (s s' : State) : Prop where
  space : s'.spaces = s.spaces ∧ s'.kern.vmspace i = some as
  contents : ∀ a : Addr, a.toNat < USERTOP → s'.mem a = s.mem a
  executable : 0 < s.kern.opens as.v → 0 < s'.kern.opens as.v
  freed : s'.blocks = s.blocks

def Rejected (c : Call) (mem : Memory) : Prop :=
  c.progname = 0 ∨ TOP ≤ c.progname ∨ strlen c.cur mem c.progname = some 0 ∨
    c.argvO = 0 ∨ TOP ≤ c.argvO

/-- No memory for `argv` and the copies, a page at NULL, and what is stored there was there before.
-/
def Nowhere (c : Call) (s : State) : Prop :=
  ∃ argc r mem e, copyArgs c ⟨s.mem, s.blocks⟩ = some (argc, r) ∧ (∀ n ≤ argc, c.kmalloc n = 0) ∧
    c.vfsOpen r.mem = (mem, .error e) ∧ ∀ a : Addr, a.toNat < USERTOP → mem a = s.mem a

variable {s s' : State} {c : Call} {i argc : Nat} {e : Errno} {as : Addrspace} {mem : Memory}
  {r r' : Copies} {x : Exit} {l : List Addr}

theorem check_rejected {err : Option Errno} (h : check c mem = some err) :
    err.isSome = true ↔ Rejected c mem := by
  unfold check at h
  unfold Rejected
  by_cases hname : c.progname = 0 ∨ TOP ≤ c.progname
  · rw [if_pos hname] at h
    cases h
    exact ⟨fun _ => hname.imp_right .inl, fun _ => rfl⟩
  · rw [if_neg hname] at h
    obtain ⟨len, hlen, rfl⟩ := Option.map_eq_some_iff.mp h
    rw [← or_assoc, or_iff_right hname, hlen, Option.some.injEq]
    split_ifs with hempty hargv
    · exact ⟨fun _ => .inl hempty, fun _ => rfl⟩
    · exact ⟨fun _ => .inr hargv, fun _ => rfl⟩
    · exact ⟨nofun, fun hor => absurd hor (not_or.mpr ⟨hempty, hargv⟩)⟩

def allocated (c : Call) (n : Nat) : List Addr :=
  (((List.range n).map c.kmalloc).filter (· ≠ 0)).reverse

theorem allocated_succ (n : Nat) : allocated c (n + 1) =
    if c.kmalloc n = 0 then allocated c n else c.kmalloc n :: allocated c n := by
  unfold allocated
  rw [List.range_succ, List.map_append, List.filter_append, List.reverse_append, List.map_singleton]
  split_ifs with hnull
  · rw [List.filter_cons_of_neg (by simp [hnull])]
    rfl
  · rw [List.filter_cons_of_pos (by simpa using hnull)]
    rfl

theorem allocate_blocks (n : Nat) (h : r.blocks = allocated c n ++ l) :
    (r.allocate (c.kmalloc n)).blocks = allocated c (n + 1) ++ l := by
  rw [allocated_succ]
  unfold Copies.allocate
  split_ifs with hnull
  · exact h
  · exact congrArg _ h

theorem copyArg_blocks {k : Nat} (h : copyArg c r k = some r') :
    r'.blocks = (r.allocate (c.kmalloc (k + 1))).blocks := by
  unfold copyArg at h
  simp only [Option.bind_eq_bind, Option.bind_eq_some_iff, Option.pure_def, Option.some.injEq] at h
  obtain ⟨-, -, -, -, mem, -, -, -, mem', -, rfl⟩ := h
  rfl

theorem copyArgs_blocks (h : copyArgs c r = some (argc, r')) :
    r'.blocks = allocated c (argc + 1) ++ r.blocks := by
  unfold copyArgs at h
  simp only [Option.bind_eq_bind, Option.bind_eq_some_iff, Option.pure_def, Option.some.injEq,
    Prod.mk.injEq] at h
  obtain ⟨argc, -, r₁, hrun, mem, -, rfl, rfl⟩ := h
  refine run_range_inv (I := fun k r₁ => r₁.blocks = allocated c (k + 1) ++ r.blocks)
    (fun k r₁ r₂ hk hstep => ?_) ?_ hrun
  · rw [copyArg_blocks hstep]
    exact allocate_blocks (k + 1) hk
  · exact allocate_blocks 0 rfl

theorem allocated_eq_nil_iff (n : Nat) : allocated c n = [] ↔ ∀ k < n, c.kmalloc k = 0 := by
  simp [allocated]

theorem start_spaces (h : start s c argc = some (s', x)) : s'.spaces = s.spaces ∧ s'.kern = s.kern := by
  obtain ⟨⟨s₁, err⟩, henter, h⟩ := Option.bind_eq_some_iff.mp h
  have hs₁ : s₁.spaces = s.spaces ∧ s₁.kern = s.kern := by
    unfold enterProcess at henter
    split_ifs at henter
    · cases henter
      exact ⟨rfl, rfl⟩
    · cases henter
      exact ⟨rfl, rfl⟩
    · obtain ⟨w, -, hw⟩ := Option.map_eq_some_iff.mp henter
      cases hw
      exact ⟨rfl, rfl⟩
  cases err with
  | some e =>
    cases h
    exact hs₁
  | none =>
    obtain ⟨stack, -, h⟩ := Option.bind_eq_some_iff.mp h
    cases h
    exact hs₁

theorem replace_kern {ld : Load} (h : replace s i c argc ld = some (s', x)) :
    Vm.Executable.execv s.kern i ld = some s'.kern ∧
      (s'.kern.vmspace i = none ∨ s'.spaces = s.spaces + 1) := by
  unfold replace at h
  unfold Vm.Executable.execv
  cases hnew : ld.space with
  | none =>
    simp only [hnew] at h ⊢
    obtain ⟨kern, hclose, h⟩ := Option.bind_eq_some_iff.mp h
    cases h
    refine ⟨hclose, .inl ?_⟩
    rw [vfsClose_vmspace hclose]
    exact Function.update_self ..
  | some junk =>
    simp only [hnew] at h ⊢
    generalize readElf (asCreate junk) ld.v ld.elf = loaded at h ⊢
    obtain ⟨as, err⟩ := loaded
    cases err with
    | some e =>
      obtain ⟨kern, hclose, h⟩ := Option.bind_eq_some_iff.mp h
      cases h
      exact ⟨hclose, .inr rfl⟩
    | none =>
      obtain ⟨kern, hclose, h⟩ := Option.bind_eq_some_iff.mp h
      obtain ⟨hspaces, hkern⟩ := start_spaces h
      exact ⟨hkern ▸ hclose, .inr hspaces⟩

theorem execv_step (hspace : s.kern.vmspace i = some as) (h : execv s i c = some (s', x)) :
    ∃ load, Vm.Executable.step s.kern (.execv i load) = some s'.kern := by
  obtain ⟨err, -, h⟩ := Option.bind_eq_some_iff.mp h
  cases err with
  | some e =>
    cases h
    exact ⟨none, by simp [Vm.Executable.step, hspace]⟩
  | none =>
    obtain ⟨⟨argc, r⟩, -, h⟩ := Option.bind_eq_some_iff.mp h
    unfold openProgram at h
    dsimp only at h
    generalize c.vfsOpen r.mem = answer at h
    obtain ⟨mem, opened⟩ := answer
    cases opened with
    | error e =>
      cases h
      exact ⟨none, by simp [Vm.Executable.step, hspace]⟩
    | ok ld => exact ⟨some ld, by simpa [Vm.Executable.step, hspace] using (replace_kern h).1⟩

theorem kept_iff_nowhere (hspace : s.kern.vmspace i = some as)
    (hcopy : copyArgs c ⟨s.mem, s.blocks⟩ = some (argc, r)) (hopen : c.vfsOpen r.mem = (mem, .error e)) :
    Kept i as s { s with mem := mem, blocks := r.blocks } ↔ Nowhere c s := by
  have hblocks := copyArgs_blocks hcopy
  have hnull : r.blocks = s.blocks ↔ ∀ n ≤ argc, c.kmalloc n = 0 := by
    rw [hblocks, List.append_left_eq_self, allocated_eq_nil_iff]
    simp only [Nat.lt_succ_iff]
  constructor
  · intro hkept
    exact ⟨argc, r, mem, e, hcopy, hnull.mp hkept.freed, hopen, hkept.contents⟩
  · rintro ⟨_, _, _, _, hcopy', hnone, hopen', hsame⟩
    rw [hcopy] at hcopy'
    cases hcopy'
    rw [hopen] at hopen'
    cases hopen'
    exact ⟨⟨rfl, hspace⟩, hsame, id, hnull.mpr hnone⟩

/-- The arguments do not pass the checks, or nothing could be allocated or has been changed. -/
theorem failed_execv_kept_iff (s s' : State) (i : Nat) (c : Call) (as : Addrspace) (e : Errno)
    (hspace : s.kern.vmspace i = some as) (h : execv s i c = some (s', .error e)) :
    Kept i as s s' ↔ Rejected c s.mem ∨ Nowhere c s := by
  obtain ⟨err, hcheck, h⟩ := Option.bind_eq_some_iff.mp h
  have hrejected := check_rejected hcheck
  cases err with
  | some e =>
    cases h
    exact ⟨fun _ => .inl (hrejected.mp rfl), fun _ => ⟨⟨rfl, hspace⟩, fun _ _ => rfl, id, rfl⟩⟩
  | none =>
    obtain ⟨⟨argc, r⟩, hcopy, h⟩ := Option.bind_eq_some_iff.mp h
    rw [or_iff_right (fun hr => Bool.false_ne_true (hrejected.mpr hr))]
    unfold openProgram at h
    dsimp only at h
    cases hopen : c.vfsOpen r.mem with
    | mk mem opened =>
      rw [hopen] at h
      cases opened with
      | error e =>
        cases h
        exact kept_iff_nowhere hspace hcopy hopen
      | ok ld =>
        -- the old address space is gone, whatever happens then
        constructor
        · intro hkept
          obtain hgone | hnew := (replace_kern h).2
          · rw [hkept.space.2] at hgone
            cases hgone
          · rw [hkept.space.1] at hnew
            exact absurd hnew (ne_of_lt (Nat.lt_succ_self _))
        · rintro ⟨_, _, _, _, hcopy', -, hopen', -⟩
          rw [hcopy] at hcopy'
          cases hcopy'
          rw [hopen] at hopen'
          cases hopen'

def oldSpace : Addrspace :=
  ⟨⟨0x400000, 1, 4096, 0, 5, [⟨0x400000, 0, false, 5⟩]⟩, ⟨0, 0, 0, 0, 0, []⟩, [], 5⟩

def caller : State where
  kern := ⟨1, fun _ => some oldSpace, fun v => if v = 5 then 1 else 0, fun v => v = 5⟩
  spaces := 0
  process := true
  mem := Memory.store (fun _ => 0) 0x401000 [97]
  blocks := []

def callFor (argvO : Addr) (opened : Except Errno Load) : Call where
  cur := ⟨some 0, fun _ => false⟩
  progname := 0x401000
  argvO := argvO
  kmalloc := fun _ => 0x80010000
  vfsOpen := fun mem => (mem, opened)
  next := ⟨some 0, fun _ => false⟩
  user := fun _ => 0
  slot := true
  table := none

def noProgram : Load := ⟨7, true, some oldSpace, ⟨[⟨.other, 0, 0, 0, 0, 0⟩], [], fun _ => 0⟩, fun _ => 0⟩

theorem execv_step_caller : ∃ s' x, execv caller 0 (callFor 0x402000 (.ok noProgram)) = some (s', x) ∧
    ∃ load, Vm.Executable.step caller.kern (.execv 0 load) = some s'.kern :=
  ⟨_, _, rfl, execv_step (c := callFor 0x402000 (.ok noProgram)) rfl rfl⟩

/-- Without such a file the array stays; with one that is no program the pages are gone. -/
theorem execv_fails_halfway :
    (∃ s', execv caller 0 (callFor 0x402000 (.error .ENOENT)) = some (s', .error .ENOENT) ∧
      s'.blocks = [0x80010000] ∧ ¬ Kept 0 oldSpace caller s') ∧
    ∃ s', execv caller 0 (callFor 0x402000 (.ok noProgram)) = some (s', .error .ENOEXEC) ∧
      s'.kern.vmspace 0 = some (asCreate oldSpace) ∧ ¬ Kept 0 oldSpace caller s' := by
  refine ⟨⟨_, rfl, rfl, fun hkept => ?_⟩, ⟨_, rfl, rfl, fun hkept => ?_⟩⟩
  · cases hkept.freed
  · cases hkept.space.1

theorem failed_execv_kept_argv :
    ∃ s', execv caller 0 (callFor 0 (.error .ENOENT)) = some (s', .error .EFAULT) ∧
      Rejected (callFor 0 (.error .ENOENT)) caller.mem ∧ Kept 0 oldSpace caller s' := by
  have hrejected : Rejected (callFor 0 (.error .ENOENT)) caller.mem := .inr (.inr (.inr (.inl rfl)))
  refine ⟨caller, rfl, hrejected, ?_⟩
  exact (failed_execv_kept_iff _ _ _ _ _ _ rfl rfl).mpr (.inl hrejected)

end Os161.Userprog.Execv
