import Os161.Lib.Triple
import Os161.Vfs.Names
import Os161.Vfs.OpenClose
import Mathlib.Algebra.Group.Int.Defs

/-!
# References to vnodes

The operations on path names in `vfspath.c`, `vfslookup.c` and `vfscwd.c`, with the counts of
`vnode.c`. Vnodes are numbers. A call runs alone; a failed assert or a panic ends it.
-/

open Os161.Lib Os161.Kern Function

namespace Os161.Vfs.Paths

open Names (Name Fs Knowndev)
open OpenClose (AccMode)

abbrev Path := List Char

structure OpenFlags where
  how : AccMode
  creat : Bool
  excl : Bool
  trunc : Bool
  deriving DecidableEq

def OpenFlags.canwrite (flags : OpenFlags) : Bool := flags.how = .wronly || flags.how = .rdwr

/-- Operations that answer with an error or 0. -/
inductive Op where
  | open (vn : Nat) (flags : OpenFlags)
  | close (vn : Nat)
  | reclaim (vn : Nat)
  | readlink (vn : Nat)
  | truncate (vn : Nat)
  | namefile (vn : Nat)
  | symlink (dir : Nat) (name : Name) (contents : Path)
  | mkdir (dir : Nat) (name : Name)
  | link (dir : Nat) (name : Name) (file : Nat)
  | remove (dir : Nat) (name : Name)
  | rmdir (dir : Nat) (name : Name)
  | rename (dir1 : Nat) (name1 : Name) (dir2 : Nat) (name2 : Name)
  | uiomove (data : List Char)

/-- An answer may depend on the number of calls that were made before. -/
structure Kernel where
  knowndevs : List Knowndev
  vnFs : Nat → Option Fs
  bootfsVnode : Option Nat
  getroot : Nat → Fs → Nat
  lookup : Nat → Nat → Path → Except Errno Nat
  lookparent : Nat → Nat → Path → Except Errno (Nat × Name)
  creat : Nat → Nat → Name → Bool → Except Errno Nat
  /-- The type of the vnode is `S_IFDIR`. -/
  gettype : Nat → Nat → Except Errno Bool
  answer : Nat → Op → Option Errno

/-- `stuck` counts the calls of `VOP_RECLAIM` that failed. -/
structure State where
  refcount : Nat → Nat
  opencount : Nat → Nat
  cwd : Option Nat
  calls : Nat
  stuck : Nat → Nat

abbrev Act := StateT State Option

def incref (vn : Nat) : Act Unit := fun s =>
  some ((), { s with refcount := update s.refcount vn (s.refcount vn + 1) })

/-- If `VOP_RECLAIM` fails the count stays. -/
def decref (k : Kernel) (vn : Nat) : Act Unit := fun s =>
  if s.refcount vn = 0 then none
  else if 1 < s.refcount vn then
    some ((), { s with refcount := update s.refcount vn (s.refcount vn - 1) })
  else if (k.answer s.calls (.reclaim vn)).isNone then
    some ((), { s with calls := s.calls + 1, refcount := update s.refcount vn 0 })
  else
    some ((), { s with calls := s.calls + 1, stuck := update s.stuck vn (s.stuck vn + 1) })

def ask {α : Type} (f : Nat → α) : Act α := fun s => some (f s.calls, { s with calls := s.calls + 1 })

/-- `vnode_check`, before each operation on a vnode. -/
def vnodeCheck (vn : Nat) : Act Unit := fun s => if s.refcount vn = 0 then none else some ((), s)

def vop {α : Type} (vn : Nat) (f : Nat → α) : Act α := do
  vnodeCheck vn
  ask f

def incopen (vn : Nat) : Act Unit := fun s =>
  some ((), { s with opencount := update s.opencount vn (s.opencount vn + 1) })

/-- What `VOP_CLOSE` answers is printed. -/
def decopen (k : Kernel) (vn : Nat) : Act Unit := fun s =>
  if s.opencount vn = 0 then none
  else
    let s := { s with opencount := update s.opencount vn (s.opencount vn - 1) }
    if 0 < s.opencount vn then some ((), s)
    else ((vop vn fun n => k.answer n (.close vn)) s).map fun (_, s) => ((), s)

/-- A file system that hands back a vnode gives a reference with it. -/
def handBack {α : Type} (vnode : α → Nat) (result : Except Errno α) : Act (Except Errno α) :=
  match result with
  | .error e => pure (.error e)
  | .ok a => do
    incref (vnode a)
    pure (.ok a)

def vopLookup (k : Kernel) (dir : Nat) (path : Path) : Act (Except Errno Nat) := do
  handBack id (← vop dir fun n => k.lookup n dir path)

def vopLookparent (k : Kernel) (dir : Nat) (path : Path) : Act (Except Errno (Nat × Name)) := do
  handBack Prod.fst (← vop dir fun n => k.lookparent n dir path)

def vopCreat (k : Kernel) (dir : Nat) (name : Name) (excl : Bool) : Act (Except Errno Nat) := do
  handBack id (← vop dir fun n => k.creat n dir name excl)

def fsopGetroot (k : Kernel) (fs : Fs) : Act Nat := do
  let vn ← ask fun n => k.getroot n fs
  incref vn
  pure vn

def vfsGetcurdir : Act (Except Errno Nat) := do
  match (← get).cwd with
  | none => pure (.error .ENOENT)
  | some vn => do
    incref vn
    pure (.ok vn)

/-- The assignment to `t_cwd`, and the reference to the old directory. -/
def exchange (k : Kernel) (dir : Nat) : Act Unit := do
  let old := (← get).cwd
  modify fun s => { s with cwd := some dir }
  match old with
  | none => pure ()
  | some vn => decref k vn

def vfsSetcurdir (k : Kernel) (dir : Nat) : Act (Except Errno Unit) := do
  match ← vop dir fun n => k.gettype n dir with
  | .error e => pure (.error e)
  | .ok isdir =>
    if isdir then do
      incref dir
      exchange k dir
      pure (.ok ())
    else pure (.error .ENOTDIR)

def vfsGetroot (k : Kernel) (devname : Name) : Act (Except Errno Nat) :=
  match Names.vfsGetroot k.knowndevs devname with
  | .root fs => do pure (.ok (← fsopGetroot k fs))
  | .vnode vn => do
    incref vn
    pure (.ok vn)
  | .err e => pure (.error e)
  | .panic => fun _ => none

inductive Start where
  | curdir
  | device (devname : Name)
  | bootfs
  | curfs

def skipSlashes (path : Path) : Path := path.dropWhile (· = '/')

/-- The first colon or slash decides. -/
def splitPath (path : Path) : Start × Path :=
  let devname := path.takeWhile fun ch => ch ≠ ':' ∧ ch ≠ '/'
  match path.dropWhile fun ch => ch ≠ ':' ∧ ch ≠ '/' with
  | [] => (.curdir, path)
  | ch :: rest =>
    if ch = ':' then (if devname = [] then .curfs else .device devname, skipSlashes rest)
    else if devname = [] then (.bootfs, skipSlashes rest)
    else (.curdir, path)

def getcurfs (k : Kernel) : Act (Except Errno Nat) := do
  match ← vfsGetcurdir with
  | .error e => pure (.error e)
  | .ok vn =>
    match k.vnFs vn with
    | none => fun _ => none
    | some fs => do
      let startvn ← fsopGetroot k fs
      decref k vn
      pure (.ok startvn)

def getstart (k : Kernel) : Start → Act (Except Errno Nat)
  | .curdir => vfsGetcurdir
  | .device devname => vfsGetroot k devname
  | .bootfs =>
    match k.bootfsVnode with
    | none => pure (.error .ENOENT)
    | some vn => do
      incref vn
      pure (.ok vn)
  | .curfs => getcurfs k

def getdevice (k : Kernel) (path : Path) : Act (Except Errno (Nat × Path)) := do
  match ← getstart k (splitPath path).1 with
  | .error e => pure (.error e)
  | .ok startvn => pure (.ok (startvn, (splitPath path).2))

def vfsLookparent (k : Kernel) (path : Path) : Act (Except Errno (Nat × Name)) := do
  match ← getdevice k path with
  | .error e => pure (.error e)
  | .ok (startvn, path) => do
    let result ← (if path = [] then pure (.error .EINVAL) else vopLookparent k startvn path)
    decref k startvn
    pure result

def vfsLookup (k : Kernel) (path : Path) : Act (Except Errno Nat) := do
  match ← getdevice k path with
  | .error e => pure (.error e)
  | .ok (startvn, path) =>
    if path = [] then pure (.ok startvn)
    else do
      let result ← vopLookup k startvn path
      decref k startvn
      pure result

def openCreate (k : Kernel) (path : Path) (excl : Bool) : Act (Except Errno Nat) := do
  match ← vfsLookparent k path with
  | .error e => pure (.error e)
  | .ok (dir, name) => do
    let result ← vopCreat k dir name excl
    decref k dir
    pure result

def openTruncate (k : Kernel) (vn : Nat) (flags : OpenFlags) : Act (Option Errno) :=
  if flags.trunc then
    if flags.canwrite then vop vn fun n => k.answer n (.truncate vn) else pure (some .EINVAL)
  else pure none

def openVnode (k : Kernel) (vn : Nat) (flags : OpenFlags) : Act (Except Errno Nat) := do
  match ← vop vn fun n => k.answer n (.open vn flags) with
  | some e => do
    decref k vn
    pure (.error e)
  | none => do
    incopen vn
    match ← openTruncate k vn flags with
    | some e => do
      decopen k vn
      decref k vn
      pure (.error e)
    | none => pure (.ok vn)

def vfsOpen (k : Kernel) (path : Path) (flags : OpenFlags) : Act (Except Errno Nat) :=
  if flags.how = .other then pure (.error .EINVAL)
  else do
    match ← (if flags.creat then openCreate k path flags.excl else vfsLookup k path) with
    | .error e => pure (.error e)
    | .ok vn => openVnode k vn flags

def toResult : Option Errno → Except Errno Unit
  | none => .ok ()
  | some e => .error e

def inParent (k : Kernel) (path : Path) (op : Nat → Name → Op) : Act (Except Errno Unit) := do
  match ← vfsLookparent k path with
  | .error e => pure (.error e)
  | .ok (dir, name) => do
    let result ← vop dir fun n => k.answer n (op dir name)
    decref k dir
    pure (toResult result)

def vfsRemove (k : Kernel) (path : Path) : Act (Except Errno Unit) := inParent k path .remove

def vfsSymlink (k : Kernel) (contents : Path) (path : Path) : Act (Except Errno Unit) :=
  inParent k path fun newdir newname => .symlink newdir newname contents

def vfsMkdir (k : Kernel) (path : Path) : Act (Except Errno Unit) := inParent k path .mkdir

def vfsRmdir (k : Kernel) (path : Path) : Act (Except Errno Unit) := inParent k path .rmdir

def sameFs (k : Kernel) (vn1 vn2 : Nat) : Bool :=
  ¬ ((k.vnFs vn1).isNone ∨ (k.vnFs vn2).isNone ∨ k.vnFs vn1 ≠ k.vnFs vn2)

def onSameFs (k : Kernel) (vn dir : Nat) (self : Nat) (op : Op) : Act (Except Errno Unit) := do
  let result ← (if sameFs k vn dir then vop self fun n => k.answer n op else pure (some .EXDEV))
  decref k dir
  decref k vn
  pure (toResult result)

def vfsRename (k : Kernel) (oldpath newpath : Path) : Act (Except Errno Unit) := do
  match ← vfsLookparent k oldpath with
  | .error e => pure (.error e)
  | .ok (olddir, oldname) =>
    match ← vfsLookparent k newpath with
    | .error e => do
      decref k olddir
      pure (.error e)
    | .ok (newdir, newname) =>
      onSameFs k olddir newdir olddir (.rename olddir oldname newdir newname)

def vfsLink (k : Kernel) (oldpath newpath : Path) : Act (Except Errno Unit) := do
  match ← vfsLookup k oldpath with
  | .error e => pure (.error e)
  | .ok oldfile =>
    match ← vfsLookparent k newpath with
    | .error e => do
      decref k oldfile
      pure (.error e)
    | .ok (newdir, newname) => onSameFs k oldfile newdir newdir (.link newdir newname oldfile)

def vfsReadlink (k : Kernel) (path : Path) : Act (Except Errno Unit) := do
  match ← vfsLookup k path with
  | .error e => pure (.error e)
  | .ok vn => do
    let result ← vop vn fun n => k.answer n (.readlink vn)
    decref k vn
    pure (toResult result)

def vfsChdir (k : Kernel) (path : Path) : Act (Except Errno Unit) := do
  match ← vfsLookup k path with
  | .error e => pure (.error e)
  | .ok vn => do
    let result ← vfsSetcurdir k vn
    decref k vn
    pure result

def vfsGetdevname (k : Kernel) (fs : Fs) : Option Name :=
  (k.knowndevs.find? fun kd => kd.fs = some fs).map Knowndev.name

def fsName (k : Kernel) (fs : Fs) : Option Name := fs.volname.or (vfsGetdevname k fs)

def printCwd (k : Kernel) (cwd : Nat) (name : Name) : Act (Option Errno) := do
  match ← ask fun n => k.answer n (.uiomove name) with
  | some e => pure (some e)
  | none =>
    match ← ask fun n => k.answer n (.uiomove [':']) with
    | some e => pure (some e)
    | none => vop cwd fun n => k.answer n (.namefile cwd)

/-- `read` says that the uio is for reading. -/
def vfsGetcwd (k : Kernel) (read : Bool) : Act (Except Errno Unit) := do
  assert (read = true)
  match ← vfsGetcurdir with
  | .error e => pure (.error e)
  | .ok cwd =>
    match (k.vnFs cwd).bind (fsName k) with
    | none => fun _ => none
    | some name => do
      let result ← printCwd k cwd name
      decref k cwd
      pure (toResult result)

inductive Call where
  | open (path : Path) (flags : OpenFlags)
  | lookup (path : Path)
  | lookparent (path : Path)
  | remove (path : Path)
  | rename (oldpath newpath : Path)
  | link (oldpath newpath : Path)
  | symlink (contents path : Path)
  | readlink (path : Path)
  | mkdir (path : Path)
  | rmdir (path : Path)
  | chdir (path : Path)
  | getcwd (read : Bool)

def Call.exec (k : Kernel) : Call → Act (Except Errno (Option Nat))
  | .open path flags => do pure ((← vfsOpen k path flags).map some)
  | .lookup path => do pure ((← vfsLookup k path).map some)
  | .lookparent path => do pure ((← vfsLookparent k path).map fun (dir, _) => some dir)
  | .remove path => do pure ((← vfsRemove k path).map fun _ => none)
  | .rename oldpath newpath => do pure ((← vfsRename k oldpath newpath).map fun _ => none)
  | .link oldpath newpath => do pure ((← vfsLink k oldpath newpath).map fun _ => none)
  | .symlink contents path => do pure ((← vfsSymlink k contents path).map fun _ => none)
  | .readlink path => do pure ((← vfsReadlink k path).map fun _ => none)
  | .mkdir path => do pure ((← vfsMkdir k path).map fun _ => none)
  | .rmdir path => do pure ((← vfsRmdir k path).map fun _ => none)
  | .chdir path => do pure ((← vfsChdir k path).map fun _ => none)
  | .getcwd read => do pure ((← vfsGetcwd k read).map fun _ => none)

end Os161.Vfs.Paths
