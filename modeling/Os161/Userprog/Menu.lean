import Os161.Kern.Errno
import Os161.Libc.Strtok

/-!
# Programs of the menu

`cmd_dispatch` of `kern/main/menu.c` and what it calls for a program, down to the end of `runprogram`,
with each access to `args`. Only `cmd_dispatch` checks the number of words.
-/

open List Os161.Kern
open Os161.Libc.Strtok (MAXMENUARGS argsOf words blanks)

namespace Os161.Userprog.Menu

inductive Access where
  | read (index : Nat)
  | write (index : Nat)
  deriving DecidableEq

def Access.index : Access → Nat
  | read i => i
  | write i => i

/-- What the calls that touch no argument return. -/
structure Kernel where
  threadFork : Option Errno
  vfsOpen : Option Errno
  asCreate : Bool
  loadElf : Option Errno
  asDefineStack : Option Errno
  addProcessNew : Bool
  fdTableCreate : Option Errno

/-- The accesses, and the error that is returned. -/
abbrev Logged := List Access × Option Errno

def ascii (s : String) : List UInt8 := s.toList.map fun c => .ofNat c.toNat

/-! ## The program

`argv` and `args` are positions in the array of `cmd_dispatch`, and `name` is the string at `args[0]`. -/

def putString (argv argc i : Nat) : List Access :=
  let j := argc - (i + 1)
  -- `calc_align_length`, `copyoutstr` and `strlen`
  [.read (argv + j), .read (argv + j), .read (argv + j), .write (argv + j)]

def putWord (argv argc i : Nat) : Access := let j := argc - i
  .read (argv + j)

def passArgs (argv argc : Nat) : List Access :=
  (range argc).flatMap (putString argv argc) ++
    .write (argv + argc) :: (range (argc + 1)).map (putWord argv argc)

def prepare (k : Kernel) : Option Errno :=
  k.vfsOpen <|> (if k.asCreate then none else some .ENOMEM) <|> k.loadElf <|> k.asDefineStack <|>
    (if k.addProcessNew then none else some .EAGAIN) <|> k.fdTableCreate

/-- Without an error the thread is in user mode. -/
def runprogram (k : Kernel) (argv argc : Nat) : Logged :=
  match prepare k with
  | some e => ([], some e)
  | none => (passArgs argv argc, none)

/-- The assertion on the length reads the name, and so do `strcpy` and the message of a failure. -/
def cmdProgthread (k : Kernel) (name : List UInt8) (args nargs : Nat) : List Access :=
  if 128 ≤ name.length then [.read args]
  else
    let (log, result) := runprogram k args nargs
    [.read args, .read args] ++ log ++ if result.isSome then [.read args] else []

def commonProg (k : Kernel) (name : List UInt8) (nargs args : Nat) : Logged :=
  if k.threadFork.isSome then ([.read args], k.threadFork)
  else (.read args :: cmdProgthread k name args nargs, none)

def cmdProg (k : Kernel) : List (List UInt8) → Logged
  | _ :: name :: rest => commonProg k name (rest.length + 1) 1
  | _ => ([], some .EINVAL)

def cmdShell (k : Kernel) (args : List (List UInt8)) : Logged :=
  if args.length ≠ 1 then ([], some .EINVAL)
  else
    let (log, result) := commonProg k (ascii "/bin/sh") 1 0
    (.write 0 :: log, result)

inductive Func where
  | shell | prog | other

/-- The other commands start no program, and are not followed. -/
def Func.call (k : Kernel) (args : List (List UInt8)) : Func → Logged
  | shell => cmdShell k args
  | prog => cmdProg k args
  | other => ([], none)

def cmdtable : List (String × Func) :=
  ["?", "h", "help", "?o", "?t"].map (·, .other) ++ [("s", .shell), ("p", .prog)] ++
  ["mount", "unmount", "bootfs", "pf", "cd", "pwd", "sync", "panic", "q", "exit", "halt", "kh", "at",
    "bt", "qt", "km1", "km2", "tt1", "tt2", "tt3", "sy1", "sy2", "sy3", "fs1", "fs2", "fs3", "fs4",
    "fs5"].map (·, .other)

def command (word : List UInt8) : Option (String × Func) := cmdtable.find? fun e => word == ascii e.1

/-- Each comparison reads `args[0]`, and so does the message that there is no such command. -/
def cmdDispatch (k : Kernel) (cmd : List UInt8) : Logged :=
  match argsOf cmd with
  | none => ((range MAXMENUARGS).map .write, some .E2BIG)
  | some [] => ([], none)
  | some (word :: rest) =>
    let i := cmdtable.findIdx fun e => word == ascii e.1
    let (log, result) := (command word).elim ([], some .EINVAL) fun e => e.2.call k (word :: rest)
    ((range (rest.length + 1)).map .write ++ replicate (i + 1) (.read 0) ++ log, result)

def Inside (log : List Access) : Prop := ∀ a ∈ log, a.index < MAXMENUARGS

/-- A program that gets as far as its arguments, of a line with as many words as there may be. -/
def Full (k : Kernel) (cmd : List UInt8) : Prop :=
  ∃ name rest, words blanks cmd = ascii "p" :: name :: rest ∧ rest.length + 2 = MAXMENUARGS ∧
    k.threadFork = none ∧ name.length < 128 ∧ prepare k = none

variable {k : Kernel} {name : List UInt8} {args nargs : Nat} {l l' : List Access} {a : Access}

@[simp]
theorem inside_nil : Inside [] := by simp [Inside]

@[simp]
theorem inside_cons : Inside (a :: l) ↔ a.index < MAXMENUARGS ∧ Inside l := by simp [Inside]

@[simp]
theorem inside_append : Inside (l ++ l') ↔ Inside l ∧ Inside l' := forall_mem_append

theorem inside_writes {n : Nat} (h : n ≤ MAXMENUARGS) : Inside ((range n).map .write) := by
  intro a ha
  obtain ⟨i, hi, rfl⟩ := mem_map.mp ha
  exact Nat.lt_of_lt_of_le (mem_range.mp hi) h

/-- The element behind the arguments is the last that is used. -/
theorem inside_passArgs : Inside (passArgs args nargs) ↔ args + nargs < MAXMENUARGS := by
  unfold passArgs
  rw [inside_append, inside_cons]
  refine ⟨fun h => h.2.1, fun h => ⟨?_, h, ?_⟩⟩
  · intro a ha
    obtain ⟨i, hi, ha⟩ := mem_flatMap.mp ha
    have hindex : a.index = args + (nargs - (i + 1)) := by
      simp only [putString, mem_cons, not_mem_nil, or_false] at ha
      obtain rfl | rfl | rfl | rfl := ha <;> rfl
    omega
  · intro a ha
    obtain ⟨i, hi, rfl⟩ := mem_map.mp ha
    change args + (nargs - i) < MAXMENUARGS
    omega

theorem inside_cmdProgthread (hargs : args < MAXMENUARGS) : Inside (cmdProgthread k name args nargs) ↔
    (name.length < 128 → prepare k = none → args + nargs < MAXMENUARGS) := by
  unfold cmdProgthread runprogram
  by_cases hname : name.length < 128
  · cases hp : prepare k <;> simp [hname, Nat.not_le_of_lt hname, Access.index, hargs, inside_passArgs]
  · simp [hname, Nat.le_of_not_lt hname, Access.index, hargs]

theorem inside_commonProg (hargs : args < MAXMENUARGS) : Inside (commonProg k name nargs args).1 ↔
    (k.threadFork = none → name.length < 128 → prepare k = none → args + nargs < MAXMENUARGS) := by
  unfold commonProg
  cases hf : k.threadFork <;> simp [Access.index, hargs, inside_cmdProgthread]

theorem inside_cmdShell (args : List (List UInt8)) : Inside (cmdShell k args).1 := by
  unfold cmdShell
  split
  · exact inside_nil
  · exact inside_cons.mpr ⟨by decide, (inside_commonProg (by decide)).mpr fun _ _ _ => by decide⟩

/-- Only `p` has its arguments behind another word. -/
theorem inside_call {word : List UInt8} {e : String × Func} (he : command word = some e)
    (hp : word ≠ ascii "p") (args : List (List UInt8)) : Inside (e.2.call k args).1 := by
  have hfunc : ∀ e ∈ cmdtable, e.2 = .prog → e.1 = "p" := by simp [cmdtable]
  have hword : word = ascii e.1 := by simpa using find?_some he
  cases hf : e.2 with
  | shell => exact inside_cmdShell args
  | prog => exact absurd (hfunc e (mem_of_find?_eq_some he) hf ▸ hword) hp
  | other => exact inside_nil

/-- Outside can only be what the command does. -/
theorem inside_cmdDispatch {cmd word : List UInt8} {rest : List (List UInt8)}
    (hargs : argsOf cmd = some (word :: rest)) (hlen : rest.length + 1 ≤ MAXMENUARGS) :
    Inside (cmdDispatch k cmd).1 ↔ ∀ e, command word = some e → Inside (e.2.call k (word :: rest)).1 := by
  have hreads (n : Nat) : Inside (replicate n (.read 0)) := fun a ha => by
    rw [eq_of_mem_replicate ha]
    decide
  unfold cmdDispatch
  cases hc : command word <;> simp [hargs, hc, inside_writes hlen, hreads]

theorem inside_cmdProg {word : List UInt8} {rest : List (List UInt8)} (hlen : rest.length + 2 ≤ MAXMENUARGS) :
    Inside (cmdProg k (word :: name :: rest)).1 ↔
      ¬ (rest.length + 2 = MAXMENUARGS ∧ k.threadFork = none ∧ name.length < 128 ∧ prepare k = none) := by
  unfold cmdProg
  rw [inside_commonProg (by decide)]
  refine ⟨fun h hfull => ?_, fun h hf hn hp => ?_⟩
  · have hin := h hfull.2.1 hfull.2.2.1 hfull.2.2.2
    omega
  · have hne : rest.length + 2 ≠ MAXMENUARGS := fun heq => h ⟨heq, hf, hn, hp⟩
    omega

theorem dispatch_inside_iff (k : Kernel) (cmd : List UInt8) :
    Inside (cmdDispatch k cmd).1 ↔ ¬ Full k cmd := by
  unfold Full
  by_cases hlen : (words blanks cmd).length ≤ MAXMENUARGS
  · have hargs : argsOf cmd = some (words blanks cmd) := if_pos hlen
    rcases hw : words blanks cmd with _ | ⟨word, rest⟩
    · simp [cmdDispatch, hargs, hw]
    · rw [hw] at hargs hlen
      rw [inside_cmdDispatch hargs hlen]
      by_cases hp : word = ascii "p"
      · subst hp
        have hc : command (ascii "p") = some ("p", .prog) := rfl
        rcases rest with _ | ⟨name, rest⟩
        · simp [hc, Func.call, cmdProg]
        · simp only [hc, Option.some.injEq, forall_eq', Func.call, inside_cmdProg hlen]
          simp
      · simp only [cons.injEq, hp, false_and, exists_false, not_false_eq_true, iff_true]
        exact fun e he => inside_call he hp _
  · have hargs : argsOf cmd = none := if_neg hlen
    simp only [cmdDispatch, hargs, inside_writes (Nat.le_refl _), true_iff]
    rintro ⟨name, rest, hw, hrest, -⟩
    rw [hw] at hlen
    exact hlen (Nat.le_of_eq hrest)

/-- `p` and 15 words, where everything succeeds. -/
theorem sixteen_words : Access.write 16 ∈
    (cmdDispatch ⟨none, none, true, none, none, true, none⟩ (ascii "p a b c d e f g h i j k l m n o")).1 := by
  decide

end Os161.Userprog.Menu
