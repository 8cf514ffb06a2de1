import Os161.Lib.Bytes
import Os161.Lib.Run
import Os161.Userprog.Copyinout
import Os161.Vm.Spec

/-!
# The arguments of a program

The end of `execv` and of `runprogram`, with the copies of `kern/lib/copyinout.c`. A store to user
memory may fault for good; the two functions then go on.
-/

open Os161.Lib Os161.Kern
open Os161.Vm (USERSTACK STACKPAGES PAGE_SIZE)

namespace Os161.Userprog

structure CString where
  chars : List UInt8
  nonzero : ∀ ch ∈ chars, ch ≠ 0

def CString.strlen (str : CString) : Nat := str.chars.length

def CString.bytes (str : CString) : List UInt8 := str.chars ++ [0]

def calcAlignLength (argv : CString) : Nat := let argvlen := argv.strlen + 1
  let paddinglen := 4 - argvlen % 4
  argvlen + paddinglen

abbrev Mem := Nat → UInt8

/-- A string has its NUL, so `src` does not end before the loop does. -/
def copystr (faults : Nat → Bool) (mem : Mem) (dest : Nat) :
    (src : List UInt8) → (maxlen stoplen : Nat) → Mem × Option Errno
  | ch :: src, maxlen + 1, stoplen + 1 =>
    if faults dest then (mem, some .EFAULT)
    else if ch = 0 then (splice mem dest [ch], none)
    else copystr faults (splice mem dest [ch]) (dest + 1) src maxlen stoplen
  | _, maxlen, stoplen => (mem, some (if stoplen < maxlen then .EFAULT else .ENAMETOOLONG))

def copyoutstr (faults : Nat → Bool) (mem : Mem) (src : CString) (userdest len : Nat) :
    Mem × Option Errno :=
  match copycheck userdest len with
  | .error e => (mem, some e)
  | .ok stoplen => copystr faults mem userdest src.bytes len stoplen

def wordBytes (w : Nat) : List UInt8 := slice (ofWords fun _ => w) 0 4

/-- `copyout` of an aligned word, which `memcpy` copies with one store. -/
def copyoutWord (faults : Nat → Bool) (mem : Mem) (w : Nat) (userdest : Nat) : Mem × Option Errno :=
  match copycheck userdest 4 with
  | .error e => (mem, some e)
  | .ok stoplen =>
    if stoplen ≠ 4 then (mem, some .EFAULT)
    else if faults userdest then (mem, some .EFAULT)
    else (splice mem userdest (wordBytes w), none)

/-- An entry of `argv`: a string of the kernel, or the address that replaces it. -/
inductive Slot where
  | str (str : CString)
  | user (ptr : Nat)

structure State where
  argv : Nat → Slot
  stackptr : Nat
  mem : Mem

/-- Copy number `n` of a run finds the faults `faults n`. -/
abbrev Faults := Nat → Nat → Bool

/-- `none` is an entry that is no string any more. -/
def putString (faults : Faults) (argc : Nat) (s : State) (i : Nat) : Option State :=
  let j := argc - (i + 1)
  match s.argv j with
  | .user _ => none
  | .str str =>
    let stackptr := sub32 s.stackptr (calcAlignLength str)
    let (mem, _) := copyoutstr (faults i) s.mem str stackptr (str.strlen + 1)
    some ⟨Function.update s.argv j (.user stackptr), stackptr, mem⟩

/-- One round of the second loop. `none` stands for an entry that is still a string. -/
def putWord (faults : Faults) (argc : Nat) (s : State) (i : Nat) : Option State := let j := argc - i
  match s.argv j with
  | .str _ => none
  | .user ptr =>
    let stackptr := sub32 s.stackptr 4
    let (mem, _) := copyoutWord (faults (argc + i)) s.mem ptr stackptr
    some ⟨s.argv, stackptr, mem⟩

def putStrings (faults : Faults) (argc : Nat) (s : State) : Option State :=
  run (putString faults argc) s (List.range argc)

def putWords (faults : Faults) (argc : Nat) (s : State) : Option State :=
  run (putWord faults argc) s (List.range (argc + 1))

def slots (argv : List CString) (last : Slot) : Nat → Slot := fun j => (argv[j]?.map Slot.str).getD last

/-- `execv` has put NULL behind the arguments before. -/
def execv (faults : Faults) (argv : List CString) (mem : Mem) : Option State :=
  (putStrings faults argv.length ⟨slots argv (.user 0), USERSTACK, mem⟩).bind
    (putWords faults argv.length)

/-- `runprogram` does so between the loops. -/
def runprogram (faults : Faults) (argv : List CString) (last : Slot) (mem : Mem) : Option State :=
  (putStrings faults argv.length ⟨slots argv last, USERSTACK, mem⟩).bind fun s =>
    putWords faults argv.length
      { s with argv := Function.update s.argv argv.length (.user 0) }

end Os161.Userprog
