import Os161.Userprog.Strings
import Os161.Vfs.Paths

/-!
# Paths in memory

`vfs_open` gets a pointer, and `kern/fs/vfs/vfslookup.c` changes the string there. `Paths` has the
same functions on strings that nobody else sees.
-/

open Os161.Lib Os161.Kern Os161.Userprog

namespace Os161.Vfs.InPlace

open Paths (Kernel Path OpenFlags getstart vopLookup vopLookparent vopCreat decref openVnode)
open Strings (loadByte storeByte stringAt)

structure Context where
  mem : Memory
  vfs : Paths.State

abbrev InMem := StateT Context Option

/-- `cut dir path` is the byte of its path that `VOP_LOOKPARENT` overwrites. -/
structure Host extends Kernel where
  cut : Nat → Path → Option Nat

/-- `emufs_lookparent` cuts at the last slash. -/
def emufsCut (path : Path) : Option Nat :=
  (path.reverse.findIdx? (· = '/')).map fun n => path.length - 1 - n

def quiet {α : Type} (f : Paths.Act α) : InMem α := fun w =>
  (f w.vfs).map fun (a, v) => (a, { w with vfs := v })

def load (cur : Thread) (a : Addr) : InMem UInt8 := fun w =>
  (loadByte cur w.mem a).map fun ch => (ch, w)

def store (cur : Thread) (a : Addr) (ch : UInt8) : InMem Unit := fun w =>
  (storeByte cur w.mem a ch).map fun mem => ((), { w with mem := mem })

def toPath (str : List UInt8) : Path := str.map fun ch => Char.ofNat ch.toNat

def path (cur : Thread) (a : Addr) : InMem Path := fun w =>
  (stringAt cur w.mem a).map fun str => (toPath str, w)

abbrev COLON : UInt8 := 58

abbrev SLASH : UInt8 := 47

def findMark (cur : Thread) : Nat → Addr → InMem (Option (Addr × UInt8))
  | 0, _ => fun _ => none
  | n + 1, a => do
    let ch ← load cur a
    if ch = 0 then return none
    if ch = COLON ∨ ch = SLASH then return some (a, ch)
    findMark cur n (a + 1)

def skipSlashes (cur : Thread) : Nat → Addr → InMem Addr
  | 0, _ => fun _ => none
  | n + 1, a => do
    if (← load cur a) = SLASH then skipSlashes cur n (a + 1) else return a

def fromRoot (cur : Thread) (k : Host) (start : Paths.Start) (a : Addr) :
    InMem (Except Errno (Nat × Addr)) := do
  match ← quiet (getstart k.toKernel start) with
  | .error e => return .error e
  | .ok startvn => return .ok (startvn, ← skipSlashes cur (2 ^ 32) (a + 1))

def fromCurdir (k : Host) (a : Addr) : InMem (Except Errno (Nat × Addr)) := do
  match ← quiet (getstart k.toKernel .curdir) with
  | .error e => return .error e
  | .ok startvn => return .ok (startvn, a)

def fromDevice (cur : Thread) (k : Host) (a colon : Addr) : InMem (Except Errno (Nat × Addr)) := do
  store cur colon 0
  let subpath ← skipSlashes cur (2 ^ 32) (colon + 1)
  match ← quiet (getstart k.toKernel (.device (← path cur a))) with
  | .error e => return .error e
  | .ok startvn => return .ok (startvn, subpath)

def getdevice (cur : Thread) (k : Host) (a : Addr) : InMem (Except Errno (Nat × Addr)) := do
  match ← findMark cur (2 ^ 32) a with
  | none => fromCurdir k a
  | some (mark, ch) =>
    if mark = a then fromRoot cur k (if ch = SLASH then .bootfs else .curfs) a
    else if ch = COLON then fromDevice cur k a mark
    else fromCurdir k a

def cutPath (cur : Thread) (a : Addr) : Option Nat → InMem Unit
  | none => return ()
  | some n => store cur (a + BitVec.ofNat 32 n) 0

def vfsLookparent (cur : Thread) (k : Host) (a : Addr) : InMem (Except Errno (Nat × Names.Name)) := do
  match ← getdevice cur k a with
  | .error e => return .error e
  | .ok (startvn, a) =>
    let subpath ← path cur a
    if subpath = [] then
      quiet (decref k.toKernel startvn)
      return .error .EINVAL
    cutPath cur a (k.cut startvn subpath)
    let result ← quiet (vopLookparent k.toKernel startvn subpath)
    quiet (decref k.toKernel startvn)
    return result

def vfsLookup (cur : Thread) (k : Host) (a : Addr) : InMem (Except Errno Nat) := do
  match ← getdevice cur k a with
  | .error e => return .error e
  | .ok (startvn, a) =>
    let subpath ← path cur a
    if subpath = [] then return .ok startvn
    let result ← quiet (vopLookup k.toKernel startvn subpath)
    quiet (decref k.toKernel startvn)
    return result

def openCreate (cur : Thread) (k : Host) (a : Addr) (excl : Bool) : InMem (Except Errno Nat) := do
  match ← vfsLookparent cur k a with
  | .error e => return .error e
  | .ok (dir, name) =>
    let result ← quiet (vopCreat k.toKernel dir name excl)
    quiet (decref k.toKernel dir)
    return result

def vfsOpen (cur : Thread) (k : Host) (a : Addr) (flags : OpenFlags) : InMem (Except Errno Nat) :=
  if flags.how = .other then return .error .EINVAL
  else do
    match ← (if flags.creat then openCreate cur k a flags.excl else vfsLookup cur k a) with
    | .error e => return .error e
    | .ok vn => quiet (openVnode k.toKernel vn flags)

end Os161.Vfs.InPlace
