import Os161.Lib.Table
import Os161.Sfs.Spec

/-!
# SFS, from files up to the mounted volume

The root directory, the vnodes in memory, and the operations on them (the rest of `sfs_vnode.c`,
`sfs_sync`, `vnode_decref`). A vnode is known by its inode number. `vn_opencount` and the locks are
left out.
-/

namespace Os161.Sfs

open Lib

abbrev SFS_NAMELEN : Nat := 60
abbrev SFS_SB_LOCATION : Nat := 0
abbrev SFS_ROOT_LOCATION : Nat := 1
abbrev SFS_MAP_LOCATION : Nat := 2
abbrev SFS_NOINO : Nat := 0
abbrev SFS_TYPE_INVAL : Nat := 0
abbrev SFS_TYPE_FILE : Nat := 1
abbrev SFS_TYPE_DIR : Nat := 2

def SFS_BLOCKBITS : Nat := SFS_BLOCKSIZE * 8

def SFS_BITMAPSIZE (nblocks : Nat) : Nat :=
  (nblocks + SFS_BLOCKBITS - 1) / SFS_BLOCKBITS * SFS_BLOCKBITS

def SFS_BITBLOCKS (nblocks : Nat) : Nat := SFS_BITMAPSIZE nblocks / SFS_BLOCKBITS

def Inode.decode (b : Block) : Inode where
  size := wordAt b 0
  type := wordAt b 1 / 2 ^ 16
  linkcount := wordAt b 1 % 2 ^ 16
  direct i := wordAt b (2 + i)
  indirect := wordAt b 17

/-- The words of an inode; those past `sfi_indirect` are unused and zero. -/
def Inode.word (i : Inode) (k : Nat) : Nat := if k = 0 then i.size
  else if k = 1 then i.type * 2 ^ 16 + i.linkcount
  else if h : k - 2 < SFS_NDIRECT then i.direct ⟨k - 2, h⟩
  else if k = 17 then i.indirect
  else 0

def Inode.encode (i : Inode) : Block := ofWords i.word

/-- The name is a C string, so it ends before its first zero byte. -/
structure Dirent where
  ino : Nat
  name : List UInt8
  deriving DecidableEq

abbrev DIRENT_SIZE : Nat := 4 + SFS_NAMELEN

/-- The last byte of the name is taken to be zero. -/
def Dirent.decode (bs : List UInt8) : Dirent where
  ino := wordAt (fun x => bs.getD x 0) 0
  name := ((bs.drop 4).take (SFS_NAMELEN - 1)).takeWhile (· ≠ 0)

def Dirent.encode (d : Dirent) : List UInt8 :=
  slice (ofWords fun _ => d.ino) 0 4 ++ d.name ++ List.replicate (SFS_NAMELEN - d.name.length) 0

def readdir (f : File) (slot : Nat) : K (File × Except Errno Dirent) := do
  let (f, uio, r) ← io f ⟨.read, slot * DIRENT_SIZE, DIRENT_SIZE, []⟩
  match r with
  | some e => pure (f, .error e)
  | none => if 0 < uio.resid then throw .shortEntry else pure (f, .ok (Dirent.decode uio.buf))

def writedir (f : File) (d : Dirent) (slot : Nat) : K (File × Option Errno) := do
  let (f, uio, r) ← io f ⟨.write, slot * DIRENT_SIZE, DIRENT_SIZE, d.encode⟩
  match r with
  | some e => pure (f, some e)
  | none => if 0 < uio.resid then throw .shortEntry else pure (f, none)

def dirNentries (f : File) : K Nat := if f.sv.inode.type ≠ SFS_TYPE_DIR then throw .inodeType
  else if f.sv.inode.size % DIRENT_SIZE ≠ 0 then throw .shortEntry
  else pure (f.sv.inode.size / DIRENT_SIZE)

structure Found where
  entry : Option (Nat × Nat)
  emptyslot : Option Nat

def findFrom (name : List UInt8) : Nat → Nat → File → Found → K (File × Except Errno Found)
  | 0, _, f, found => pure (f, .ok found)
  | n + 1, i, f, found => do
    let (f, r) ← readdir f i
    match r with
    | .error e => pure (f, .error e)
    | .ok d =>
      if d.ino = SFS_NOINO then findFrom name n (i + 1) f { found with emptyslot := some i }
      else if d.name = name then
        if found.entry.isSome then throw .duplicateName
        else findFrom name n (i + 1) f { found with entry := some (d.ino, i) }
      else findFrom name n (i + 1) f found

def findname (f : File) (name : List UInt8) : K (File × Except Errno Found) := do
  let nentries ← dirNentries f
  findFrom name nentries 0 f ⟨none, none⟩

def dirLink (f : File) (name : List UInt8) (ino : Nat) : K (File × Except Errno Nat) := do
  let (f, r) ← findname f name
  match r with
  | .error e => pure (f, .error e)
  | .ok found =>
    if found.entry.isSome then pure (f, .error .EEXIST)
    else if SFS_NAMELEN < name.length + 1 then pure (f, .error .ENAMETOOLONG)
    else do
      let nentries ← dirNentries f
      let slot := found.emptyslot.getD nentries
      let (f, r) ← writedir f ⟨ino, name⟩ slot
      match r with
      | some e => pure (f, .error e)
      | none => pure (f, .ok slot)

def dirUnlink (f : File) (slot : Nat) : K (File × Option Errno) := writedir f ⟨SFS_NOINO, []⟩ slot

structure State where
  fs : Fs
  vnodes : List Sv
  super : Block
  superdirty : Bool

def getVnode (s : State) (ino : Nat) : K Sv := match lookup Sv.ino s.vnodes ino with
  | some sv => pure sv
  | none => throw .vnode

def State.set (s : State) (f : File) : State :=
  { s with fs := f.fs, vnodes := put Sv.ino s.vnodes f.sv }

def onFile {α : Type} (s : State) (ino : Nat) (work : File → K (File × α)) : K (State × α) := do
  let sv ← getVnode s ino
  let (f, a) ← work ⟨s.fs, sv⟩
  pure (s.set f, a)

def incref (s : State) (ino : Nat) : K State := do
  let sv ← getVnode s ino
  pure (s.set ⟨s.fs, { sv with refcount := sv.refcount + 1 }⟩)

/-- Whether the inode is in the table; the search looks at every vnode up to it. -/
def findVnode (fs : Fs) (ino : Nat) : List Sv → K Bool
  | [] => pure false
  | sv :: vnodes => do
    let used ← bused fs sv.ino
    if !used then throw .unallocated
    else if sv.ino = ino then pure true
    else findVnode fs ino vnodes

/-- `forcetype` is the type of one just made. -/
def newVnode (ino : Nat) (inode : Inode) (forcetype : Nat) : K Sv :=
  if forcetype ≠ SFS_TYPE_INVAL ∧ inode.type ≠ SFS_TYPE_INVAL then throw .inodeType
  else
    let sv : Sv := if forcetype ≠ SFS_TYPE_INVAL then
        { ino, inode := { inode with type := forcetype }, dirty := true, refcount := 1 }
      else { ino, inode, dirty := false, refcount := 1 }
    if sv.inode.type = SFS_TYPE_FILE ∨ sv.inode.type = SFS_TYPE_DIR then pure sv
    else throw .inodeType

/-- When `kmalloc` finds memory. -/
def loadvnode (s : State) (ino forcetype : Nat) : K State := do
  let found ← findVnode s.fs ino s.vnodes
  if found then
    if forcetype ≠ SFS_TYPE_INVAL then throw .inodeType else incref s ino
  else do
    let used ← bused s.fs ino
    if !used then throw .unallocated
    else do
      let buf ← rblock s.fs ino
      let sv ← newVnode ino (Inode.decode buf) forcetype
      pure { s with vnodes := s.vnodes ++ [sv] }

def getroot (s : State) : K State := loadvnode s SFS_ROOT_LOCATION SFS_TYPE_INVAL

def makeobj (s : State) (type : Nat) : K (State × Except Errno Nat) := do
  let (fs, r) ← balloc s.fs
  match r with
  | .error e => pure ({ s with fs }, .error e)
  | .ok ino => do
    let s ← loadvnode { s with fs } ino type
    pure (s, .ok ino)

def syncInode (s : State) (ino : Nat) : K State := do
  let sv ← getVnode s ino
  if sv.dirty then do
    let fs ← wblock s.fs ino sv.inode.encode
    pure (s.set ⟨fs, { sv with dirty := false }⟩)
  else pure s

def vopTruncate (s : State) (ino len : Nat) : K (State × Option Errno) := onFile s ino fun f =>
    if f.sv.inode.type = SFS_TYPE_DIR then pure (f, some .EISDIR)
    else do
      let f ← truncate f len
      pure (f, none)

def discard (s : State) (ino : Nat) : K State := do
  let s ← syncInode s ino
  let sv ← getVnode s ino
  if sv.inode.linkcount = 0 then do
    let fs ← bfree s.fs ino
    pure { s with fs, vnodes := remove Sv.ino s.vnodes ino }
  else pure { s with vnodes := remove Sv.ino s.vnodes ino }

def reclaim (s : State) (ino : Nat) : K (State × Option Errno) := do
  let sv ← getVnode s ino
  if sv.refcount ≠ 1 then
    if sv.refcount ≤ 1 then throw .vnode
    else pure (s.set ⟨s.fs, { sv with refcount := sv.refcount - 1 }⟩, some .EBUSY)
  else if sv.inode.linkcount = 0 then do
    -- there are no links to the file either
    let (s, r) ← vopTruncate s ino 0
    match r with
    | some e => pure (s, some e)
    | none => do
      let s ← discard s ino
      pure (s, none)
  else do
    let s ← discard s ino
    pure (s, none)

def decref (s : State) (ino : Nat) : K State := do
  let sv ← getVnode s ino
  if sv.refcount = 0 then throw .vnode
  else if 1 < sv.refcount then pure (s.set ⟨s.fs, { sv with refcount := sv.refcount - 1 }⟩)
  else do
    let (s, _) ← reclaim s ino
    pure s

def mapBlock (freemap : Bitmap) (j : Nat) : Block := fun x => freemap.v (j * SFS_BLOCKSIZE + x)

def mapioWrite (fs : Fs) : K Fs := (List.range (SFS_BITBLOCKS fs.nblocks)).foldlM
    (fun fs j => wblock fs (SFS_MAP_LOCATION + j) (mapBlock fs.freemap j)) fs

def syncFreemap (s : State) : K State := if s.fs.freemapdirty then do
    let fs ← mapioWrite s.fs
    pure { s with fs := { fs with freemapdirty := false } }
  else pure s

def syncSuper (s : State) : K State := if s.superdirty then do
    let fs ← wblock s.fs SFS_SB_LOCATION s.super
    pure { s with fs, superdirty := false }
  else pure s

def sync (s : State) : K State := do
  let s ← (s.vnodes.map Sv.ino).foldlM syncInode s
  let s ← syncFreemap s
  syncSuper s

def addLink (s : State) (ino : Nat) : K State := do
  let sv ← getVnode s ino
  let linkcount := (sv.inode.linkcount + 1) % 2 ^ 16
  pure (s.set ⟨s.fs, { sv with inode := { sv.inode with linkcount }, dirty := true }⟩)

def dropLink (s : State) (ino : Nat) : K State := do
  let sv ← getVnode s ino
  if sv.inode.linkcount = 0 then throw .linkCount
  else
    let linkcount := sv.inode.linkcount - 1
    pure (s.set ⟨s.fs, { sv with inode := { sv.inode with linkcount }, dirty := true }⟩)

def undoLink (s : State) (ino : Nat) : K State := do
  let sv ← getVnode s ino
  let linkcount := (sv.inode.linkcount + 2 ^ 16 - 1) % 2 ^ 16
  pure (s.set ⟨s.fs, { sv with inode := { sv.inode with linkcount } }⟩)

/-- The inode and the slot of a name, with a new reference to the vnode. -/
def lookonce (s : State) (name : List UInt8) : K (State × Except Errno (Nat × Nat)) := do
  let (s, r) ← onFile s SFS_ROOT_LOCATION (findname · name)
  match r with
  | .error e => pure (s, .error e)
  | .ok found =>
    match found.entry with
    | none => pure (s, .error .ENOENT)
    | some (ino, slot) => do
      let s ← loadvnode s ino SFS_TYPE_INVAL
      let sv ← getVnode s ino
      if sv.inode.linkcount = 0 then throw .linkCount else pure (s, .ok (ino, slot))

def creatNew (s : State) (name : List UInt8) : K (State × Except Errno Nat) := do
  let (s, r) ← makeobj s SFS_TYPE_FILE
  match r with
  | .error e => pure (s, .error e)
  | .ok ino => do
    let (s, r) ← onFile s SFS_ROOT_LOCATION (dirLink · name ino)
    match r with
    | .error e => do
      let s ← decref s ino
      pure (s, .error e)
    | .ok _ => do
      let s ← addLink s ino
      pure (s, .ok ino)

def creat (s : State) (name : List UInt8) (excl : Bool) : K (State × Except Errno Nat) := do
  let (s, r) ← onFile s SFS_ROOT_LOCATION (findname · name)
  match r with
  | .error e => pure (s, .error e)
  | .ok found =>
    match found.entry with
    | none => creatNew s name
    | some (ino, _) =>
      if excl then pure (s, .error .EEXIST)
      else do
        let s ← loadvnode s ino SFS_TYPE_INVAL
        pure (s, .ok ino)

def link (s : State) (name : List UInt8) (ino : Nat) : K (State × Option Errno) := do
  let (s, r) ← onFile s SFS_ROOT_LOCATION (dirLink · name ino)
  match r with
  | .error e => pure (s, some e)
  | .ok _ => do
    let s ← addLink s ino
    pure (s, none)

def unlinkSlot (s : State) (slot : Nat) : K (State × Option Errno) :=
  onFile s SFS_ROOT_LOCATION (dirUnlink · slot)

def removeEntry (s : State) (ino slot : Nat) : K (State × Option Errno) := do
  let (s, r) ← unlinkSlot s slot
  match r with
  | some e => do
    let s ← decref s ino
    pure (s, some e)
  | none => do
    let s ← dropLink s ino
    let s ← decref s ino
    pure (s, none)

def unlink (s : State) (name : List UInt8) : K (State × Option Errno) := do
  let (s, r) ← lookonce s name
  match r with
  | .error e => pure (s, some e)
  | .ok (ino, slot) => removeEntry s ino slot

/-- `sfs_rename` from the point where the file has both names. -/
def renameOld (s : State) (ino slot1 slot2 : Nat) : K (State × Option Errno) := do
  let (s, r) ← unlinkSlot s slot1
  match r with
  | none => do
    let s ← dropLink s ino
    let s ← decref s ino
    pure (s, none)
  | some e => do
    let (s, r) ← unlinkSlot s slot2
    match r with
    | some _ => throw .cannotRecover
    | none => do
      let s ← undoLink s ino
      let s ← decref s ino
      pure (s, some e)

def rename (s : State) (n1 n2 : List UInt8) : K (State × Option Errno) := do
  let (s, r) ← lookonce s n1
  match r with
  | .error e => pure (s, some e)
  | .ok (ino, slot1) => do
    let sv ← getVnode s ino
    if sv.inode.type ≠ SFS_TYPE_FILE then throw .notFile
    else do
      let (s, r) ← onFile s SFS_ROOT_LOCATION (dirLink · n2 ino)
      match r with
      | .error e => do
        let s ← decref s ino
        pure (s, some e)
      | .ok slot2 => do
        let s ← addLink s ino
        renameOld s ino slot1 slot2

def write (s : State) (ino offset : Nat) (bytes : List UInt8) : K (State × Option Errno) :=
  onFile s ino fun f =>
    if f.sv.inode.type = SFS_TYPE_DIR then pure (f, some .EISDIR)
    else do
      let (f, _, r) ← io f ⟨.write, offset, bytes.length, bytes⟩
      pure (f, r)

inductive Op where
  | getroot
  | lookup (name : List UInt8)
  | creat (name : List UInt8) (excl : Bool)
  | link (name : List UInt8) (ino : Nat)
  | remove (name : List UInt8)
  | rename (n1 n2 : List UInt8)
  | write (ino offset : Nat) (bytes : List UInt8)
  | truncate (ino len : Nat)
  | fsync (ino : Nat)
  | incref (ino : Nat)
  | decref (ino : Nat)
  | sync

def step (s : State) : Op → K State
  | .getroot => getroot s
  | .lookup name => Prod.fst <$> lookonce s name
  | .creat name excl => Prod.fst <$> creat s name excl
  | .link name ino => Prod.fst <$> link s name ino
  | .remove name => Prod.fst <$> unlink s name
  | .rename n1 n2 => Prod.fst <$> rename s n1 n2
  | .write ino offset bytes => Prod.fst <$> write s ino offset bytes
  | .truncate ino len => Prod.fst <$> vopTruncate s ino len
  | .fsync ino => syncInode s ino
  | .incref ino => incref s ino
  | .decref ino => decref s ino
  | .sync => sync s

def Loaded (s : State) (ino : Nat) : Prop := ino ∈ s.vnodes.map Sv.ino

instance (s : State) (ino : Nat) : Decidable (Loaded s ino) :=
  inferInstanceAs (Decidable (ino ∈ s.vnodes.map Sv.ino))

/-- The caller holds a reference to every vnode it passes, and a position is not negative. -/
def Callable (s : State) : Op → Prop
  | .getroot | .sync => True
  | .lookup name | .creat name _ | .remove name => Loaded s SFS_ROOT_LOCATION ∧ 0 ∉ name
  | .link name ino => Loaded s SFS_ROOT_LOCATION ∧ Loaded s ino ∧ 0 ∉ name
  | .rename n1 n2 => Loaded s SFS_ROOT_LOCATION ∧ 0 ∉ n1 ∧ 0 ∉ n2
  | .write ino offset _ => Loaded s ino ∧ offset < 2 ^ 31
  | .truncate ino len => Loaded s ino ∧ len < 2 ^ 31
  | .fsync ino | .incref ino | .decref ino => Loaded s ino

instance (s : State) : DecidablePred (Callable s)
  | .getroot | .sync => inferInstanceAs (Decidable True)
  | .lookup name | .creat name _ | .remove name =>
    inferInstanceAs (Decidable (Loaded s SFS_ROOT_LOCATION ∧ 0 ∉ name))
  | .link name ino =>
    inferInstanceAs (Decidable (Loaded s SFS_ROOT_LOCATION ∧ Loaded s ino ∧ 0 ∉ name))
  | .rename n1 n2 => inferInstanceAs (Decidable (Loaded s SFS_ROOT_LOCATION ∧ 0 ∉ n1 ∧ 0 ∉ n2))
  | .write ino offset _ => inferInstanceAs (Decidable (Loaded s ino ∧ offset < 2 ^ 31))
  | .truncate ino len => inferInstanceAs (Decidable (Loaded s ino ∧ len < 2 ^ 31))
  | .fsync ino | .incref ino | .decref ino => inferInstanceAs (Decidable (Loaded s ino))

/-- Makes the calls in order; those that cannot be made are left out. -/
def run : State → List Op → K State
  | s, [] => pure s
  | s, op :: ops => if Callable s op then do run (← step s op) ops else run s ops

end Os161.Sfs
