import Os161.Bitmap.Spec
import Os161.Kern.Errno
import Os161.Lib.Bytes

/-!
# SFS, from blocks up to files (`fs/sfs/sfs_vnode.c`)

The device does not fail and memory is never short. A panic or a failed assert is the exception of
the monad.
-/

open Function

namespace Os161.Sfs

open Lib

export Kern (Errno)

abbrev SFS_BLOCKSIZE : Nat := 512
abbrev SFS_NDIRECT : Nat := 15
abbrev SFS_DBPERIDB : Nat := 128

abbrev Block := Nat → UInt8

def zeros : Block := fun _ => 0

/-- The panics and asserts, by what they complain about. -/
inductive Panic where
  | device
  | bitmapAlloc
  | bitmapUnmark
  /-- `sfs_balloc` got a block past the end of the file system. -/
  | invalidBlock
  /-- `sfs_bused` was asked about a block past the end of the file system. -/
  | outOfRange
  /-- `sfs_bmap` found a block of the file marked free. -/
  | markedFree
  /-- `sfs_loadvnode` met an inode in a block that is marked free. -/
  | unallocated
  | transfer
  /-- An inode that has no valid type, or has one where it should not. -/
  | inodeType
  | shortEntry
  | duplicateName
  /-- `sfs_lookonce` found an entry for an inode with no links. -/
  | linkCount
  /-- `sfs_rename` was asked to rename something that is not a file. -/
  | notFile
  | cannotRecover
  /-- A reference that was not there, or a table that it should be in. -/
  | vnode
  /-- `sfs_unmount` found something that is not written back. -/
  | unsynced
  deriving DecidableEq, Repr

abbrev K := Except Panic

structure Fs where
  nblocks : Nat
  disk : Nat → Block
  freemap : Bitmap
  freemapdirty : Bool

structure Inode where
  size : Nat
  type : Nat
  linkcount : Nat
  direct : Fin SFS_NDIRECT → Nat
  indirect : Nat

structure Sv where
  ino : Nat
  inode : Inode
  dirty : Bool
  refcount : Nat

structure File where
  fs : Fs
  sv : Sv

def rblock (fs : Fs) (block : Nat) : K Block :=
  if block < fs.nblocks then pure (fs.disk block) else throw .device

def wblock (fs : Fs) (block : Nat) (data : Block) : K Fs :=
  if block < fs.nblocks then pure { fs with disk := update fs.disk block data }
  else throw .device

def balloc (fs : Fs) : K (Fs × Except Errno Nat) := match fs.freemap.alloc with
  | none => throw .bitmapAlloc
  | some none => pure (fs, .error .ENOSPC)
  | some (some (freemap, diskblock)) =>
    if fs.nblocks ≤ diskblock then throw .invalidBlock
    else do
      let fs ← wblock { fs with freemap, freemapdirty := true } diskblock zeros
      pure (fs, .ok diskblock)

def bfree (fs : Fs) (diskblock : Nat) : K Fs := match fs.freemap.unmark diskblock with
  | none => throw .bitmapUnmark
  | some freemap => pure { fs with freemap, freemapdirty := true }

def bused (fs : Fs) (diskblock : Nat) : K Bool :=
  if fs.nblocks ≤ diskblock then throw .outOfRange else pure (fs.freemap.has diskblock)

def Sv.setDirect (sv : Sv) (i : Fin SFS_NDIRECT) (block : Nat) : Sv :=
  { sv with inode := { sv.inode with direct := update sv.inode.direct i block }, dirty := true }

def Sv.setIndirect (sv : Sv) (block : Nat) : Sv :=
  { sv with inode := { sv.inode with indirect := block }, dirty := true }

def Sv.setSize (sv : Sv) (size : Nat) : Sv :=
  { sv with inode := { sv.inode with size }, dirty := true }

def handBack (f : File) (block : Nat) : K (File × Except Errno Nat) :=
  if block = 0 then pure (f, .ok 0)
  else do
    let used ← bused f.fs block
    if used then pure (f, .ok block) else throw .markedFree

def bmapDirect (f : File) (fileblock : Fin SFS_NDIRECT) (doalloc : Bool) :
    K (File × Except Errno Nat) :=
  let block := f.sv.inode.direct fileblock
  if block = 0 ∧ doalloc then do
    let (fs, r) ← balloc f.fs
    match r with
    | .error e => pure ({ f with fs }, .error e)
    | .ok block => handBack { fs, sv := f.sv.setDirect fileblock block } block
  else handBack f block

/-- The last part of `sfs_bmap`: `idbuf` holds the words of the indirect block. -/
def bmapSlot (f : File) (idblock : Nat) (idbuf : Nat → Nat) (idoff : Nat) (doalloc : Bool) :
    K (File × Except Errno Nat) :=
  let block := idbuf idoff
  if block = 0 ∧ doalloc then do
    let (fs, r) ← balloc f.fs
    match r with
    | .error e => pure ({ f with fs }, .error e)
    | .ok block => do
      let fs ← wblock fs idblock (ofWords (update idbuf idoff block))
      handBack { f with fs } block
  else handBack f block

/-- The block on the disk, or 0 where there is none. -/
def bmap (f : File) (fileblock : Nat) (doalloc : Bool) : K (File × Except Errno Nat) :=
  if h : fileblock < SFS_NDIRECT then bmapDirect f ⟨fileblock, h⟩ doalloc
  else
    let idnum := (fileblock - SFS_NDIRECT) / SFS_DBPERIDB
    let idoff := (fileblock - SFS_NDIRECT) % SFS_DBPERIDB
    let idblock := f.sv.inode.indirect
    if 0 < idnum then pure (f, .error .EINVAL)
    else if idblock = 0 ∧ !doalloc then pure (f, .ok 0)
    else if idblock = 0 then do
      let (fs, r) ← balloc f.fs
      match r with
      | .error e => pure ({ f with fs }, .error e)
      | .ok idblock =>
        bmapSlot { fs, sv := f.sv.setIndirect idblock } idblock (fun _ => 0) idoff doalloc
    else do
      let buf ← rblock f.fs idblock
      bmapSlot f idblock (wordAt buf) idoff doalloc

inductive Rw where
  | read | write
  deriving DecidableEq, Repr

/-- For a write `buf` holds the bytes not moved yet, for a read those moved so far. -/
structure Uio where
  rw : Rw
  offset : Nat
  resid : Nat
  buf : List UInt8
  deriving DecidableEq, Repr

def uiomove (iobuf : Block) (pos n : Nat) (uio : Uio) : Block × Uio := let size := min n uio.resid
  let moved := { uio with offset := uio.offset + size, resid := uio.resid - size }
  match uio.rw with
  | .read => (iobuf, { moved with buf := uio.buf ++ slice iobuf pos size })
  | .write => (splice iobuf pos (uio.buf.take size), { moved with buf := uio.buf.drop size })

abbrev Io := File × Uio × Option Errno

/-- Goes on with a transfer unless there was an error (`goto out`). -/
def Io.next (r : Io) (k : File → Uio → K Io) : K Io := match r with
  | (f, uio, none) => k f uio
  | (f, uio, some e) => pure (f, uio, some e)

def partialio (f : File) (uio : Uio) (skipstart len : Nat) : K Io :=
  if SFS_BLOCKSIZE < skipstart + len then throw .transfer
  else do
    let (f, r) ← bmap f (uio.offset / SFS_BLOCKSIZE) (uio.rw == .write)
    match r with
    | .error e => pure (f, uio, some e)
    | .ok diskblock => do
      let iobuf ←
        if diskblock = 0 then if uio.rw = .read then pure zeros else throw .transfer
        else rblock f.fs diskblock
      let (iobuf, uio) := uiomove iobuf skipstart len uio
      match uio.rw with
      | .read => pure (f, uio, none)
      | .write => do
        let fs ← wblock f.fs diskblock iobuf
        pure ({ f with fs }, uio, none)

def blockio (f : File) (uio : Uio) : K Io := do
  let (f, r) ← bmap f (uio.offset / SFS_BLOCKSIZE) (uio.rw == .write)
  match r with
  | .error e => pure (f, uio, some e)
  | .ok diskblock =>
    if diskblock = 0 then
      if uio.rw = .read then pure (f, (uiomove zeros 0 SFS_BLOCKSIZE uio).2, none)
      else throw .transfer
    else if uio.resid < SFS_BLOCKSIZE then throw .transfer
    else do
      let buf ← rblock f.fs diskblock
      let (buf, uio) := uiomove buf 0 SFS_BLOCKSIZE uio
      match uio.rw with
      | .read => pure (f, uio, none)
      | .write => do
        let fs ← wblock f.fs diskblock buf
        pure ({ f with fs }, uio, none)

def blocks : Nat → File → Uio → K Io
  | 0, f, uio => pure (f, uio, none)
  | n + 1, f, uio => do
    let r ← blockio f uio
    r.next (blocks n)

def ioTail (f : File) (uio : Uio) : K Io := if SFS_BLOCKSIZE ≤ uio.resid then throw .transfer
  else if 0 < uio.resid then partialio f uio 0 uio.resid
  else pure (f, uio, none)

def ioAligned (f : File) (uio : Uio) : K Io := if uio.resid = 0 then pure (f, uio, none)
  else if uio.offset % SFS_BLOCKSIZE ≠ 0 then throw .transfer
  else do
    let r ← blocks (uio.resid / SFS_BLOCKSIZE) f uio
    r.next ioTail

def ioBody (f : File) (uio : Uio) : K Io := let blkoff := uio.offset % SFS_BLOCKSIZE
  if blkoff ≠ 0 then do
    let r ← partialio f uio blkoff (min (SFS_BLOCKSIZE - blkoff) uio.resid)
    r.next ioAligned
  else ioAligned f uio

def toOff (n : Nat) : Int :=
  if n % 2 ^ 32 < 2 ^ 31 then (n % 2 ^ 32 : Nat) else (n % 2 ^ 32 : Nat) - 2 ^ 32

def io (f : File) (uio : Uio) : K Io := let size := toOff f.sv.inode.size
  match uio.rw with
  | .read =>
    let endpos := toOff (uio.offset + uio.resid)
    if size ≤ uio.offset then pure (f, uio, none)
    else if size < endpos then
      let extraresid := (endpos - size).toNat
      if uio.resid ≤ extraresid then throw .transfer
      else do
        let (f, uio, r) ← ioBody f { uio with resid := uio.resid - extraresid }
        pure (f, { uio with resid := uio.resid + extraresid }, r)
    else ioBody f uio
  | .write => do
    let (f, uio, r) ← ioBody f uio
    -- the length is adjusted whether or not the write failed
    if toOff f.sv.inode.size < uio.offset then
      pure ({ f with sv := f.sv.setSize uio.offset }, uio, r)
    else pure (f, uio, r)

def discardDirect (blocklen : Nat) (f : File) (i : Fin SFS_NDIRECT) : K File :=
  let block := f.sv.inode.direct i
  if blocklen ≤ i ∧ block ≠ 0 then do
    let fs ← bfree f.fs block
    pure { fs, sv := f.sv.setDirect i 0 }
  else pure f

structure Scan where
  fs : Fs
  idbuf : Nat → Nat
  hasnonzero : Bool
  iddirty : Bool

def clearSlot (blocklen : Nat) (s : Scan) (j : Nat) : K Scan :=
  if blocklen < SFS_NDIRECT + j ∧ s.idbuf j ≠ 0 then do
    let fs ← bfree s.fs (s.idbuf j)
    pure { s with fs, idbuf := update s.idbuf j 0, iddirty := true }
  else pure s

def discardSlot (blocklen : Nat) (s : Scan) (j : Nat) : K Scan := do
  let s ← clearSlot blocklen s j
  pure (if s.idbuf j ≠ 0 then { s with hasnonzero := true } else s)

def discardIndirect (blocklen : Nat) (f : File) : K File := let idblock := f.sv.inode.indirect
  let highblock := SFS_NDIRECT + SFS_DBPERIDB - 1
  if blocklen < highblock ∧ idblock ≠ 0 then do
    let buf ← rblock f.fs idblock
    let s ← (List.range SFS_DBPERIDB).foldlM (discardSlot blocklen)
      { fs := f.fs, idbuf := wordAt buf, hasnonzero := false, iddirty := false }
    if !s.hasnonzero then do
      let fs ← bfree s.fs idblock
      pure { fs, sv := f.sv.setIndirect 0 }
    else if s.iddirty then do
      let fs ← wblock s.fs idblock (ofWords s.idbuf)
      pure { f with fs }
    else pure { f with fs := s.fs }
  else pure f

def truncate (f : File) (len : Nat) : K File := do
  let blocklen := (len + SFS_BLOCKSIZE - 1) / SFS_BLOCKSIZE
  let f ← (List.finRange SFS_NDIRECT).foldlM (discardDirect blocklen) f
  let f ← discardIndirect blocklen f
  pure { f with sv := f.sv.setSize len }

end Os161.Sfs
