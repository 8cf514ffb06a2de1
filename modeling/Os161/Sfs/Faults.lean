import Os161.Lib.Ends
import Os161.Sfs.Volume

/-!
# SFS on a device that fails

The functions of `sfs_vnode.c` and `sfs_fs.c` once more, with errors. The environment has the answer
to each call of the device and of `kmalloc`. After a failed `sfs_rwblock` the block may have been
written or not.
-/

open Function

namespace Os161.Sfs.Faults

open Lib

inductive Fate where
  | refused
  | taken
  | stored
  deriving DecidableEq

inductive Answer where
  | ok
  | fail (e : Errno) (fate : Fate)
  deriving DecidableEq

def Answer.err : Answer → Option Errno
  | .ok => none
  | .fail e _ => some e

def Answer.stores : Answer → Bool
  | .ok => true
  | .fail _ fate => fate = .stored

def Answer.moves : Answer → Bool
  | .ok => true
  | .fail _ fate => fate ≠ .refused

/-- The answers of the device and of `kmalloc`, by the number of the call. -/
structure Env where
  device : Nat → Answer
  kmalloc : Nat → Bool

/-- The state is the number of the next call. -/
abbrev F := StateT Nat K

def ask {α : Type} (f : Nat → α) : F α := fun n => .ok (f n, n + 1)

variable (env : Env)

/-- It panics when the device returns EINVAL, as it does for a block it does not have. -/
def rwblock (fs : Fs) (block : Nat) : F Answer := if block < fs.nblocks then do
    let a ← ask env.device
    if a.err = some .EINVAL then throw .device else pure a
  else throw .device

def rblock (fs : Fs) (block : Nat) : F (Except Errno Block) := do
  let a ← rwblock env fs block
  match a.err with
  | some e => pure (.error e)
  | none => pure (.ok (fs.disk block))

def wrote (a : Answer) (fs : Fs) (block : Nat) (data : Block) : Fs :=
  if a.stores then { fs with disk := update fs.disk block data } else fs

def wblock (fs : Fs) (block : Nat) (data : Block) : F (Fs × Option Errno) := do
  let a ← rwblock env fs block
  pure (wrote a fs block data, a.err)

def balloc (fs : Fs) : F (Fs × Except Errno Nat) := match fs.freemap.alloc with
  | none => throw .bitmapAlloc
  | some none => pure (fs, .error .ENOSPC)
  | some (some (freemap, diskblock)) =>
    if fs.nblocks ≤ diskblock then throw .invalidBlock
    else do
      let (fs, r) ← wblock env { fs with freemap, freemapdirty := true } diskblock zeros
      match r with
      | some e => pure (fs, .error e)
      | none => pure (fs, .ok diskblock)

def handBack (f : File) (block : Nat) : F (File × Except Errno Nat) :=
  if block = 0 then pure (f, .ok 0)
  else do
    let used ← bused f.fs block
    if used then pure (f, .ok block) else throw .markedFree

def bmapDirect (f : File) (fileblock : Fin SFS_NDIRECT) (doalloc : Bool) :
    F (File × Except Errno Nat) :=
  let block := f.sv.inode.direct fileblock
  if block = 0 ∧ doalloc then do
    let (fs, r) ← balloc env f.fs
    match r with
    | .error e => pure ({ f with fs }, .error e)
    | .ok block => handBack { fs, sv := f.sv.setDirect fileblock block } block
  else handBack f block

def bmapSlot (f : File) (idblock : Nat) (idbuf : Nat → Nat) (idoff : Nat) (doalloc : Bool) :
    F (File × Except Errno Nat) :=
  let block := idbuf idoff
  if block = 0 ∧ doalloc then do
    let (fs, r) ← balloc env f.fs
    match r with
    | .error e => pure ({ f with fs }, .error e)
    | .ok block => do
      let (fs, r) ← wblock env fs idblock (ofWords (update idbuf idoff block))
      match r with
      | some e => pure ({ f with fs }, .error e)
      | none => handBack { f with fs } block
  else handBack f block

def bmapIndirect (f : File) (idoff : Nat) (doalloc : Bool) : F (File × Except Errno Nat) :=
  let idblock := f.sv.inode.indirect
  if idblock = 0 ∧ !doalloc then pure (f, .ok 0)
  else if idblock = 0 then do
    let (fs, r) ← balloc env f.fs
    match r with
    | .error e => pure ({ f with fs }, .error e)
    | .ok idblock =>
      bmapSlot env { fs, sv := f.sv.setIndirect idblock } idblock (fun _ => 0) idoff doalloc
  else do
    match ← rblock env f.fs idblock with
    | .error e => pure (f, .error e)
    | .ok buf => bmapSlot env f idblock (wordAt buf) idoff doalloc

def bmap (f : File) (fileblock : Nat) (doalloc : Bool) : F (File × Except Errno Nat) :=
  if h : fileblock < SFS_NDIRECT then bmapDirect env f ⟨fileblock, h⟩ doalloc
  else
    let idnum := (fileblock - SFS_NDIRECT) / SFS_DBPERIDB
    let idoff := (fileblock - SFS_NDIRECT) % SFS_DBPERIDB
    if 0 < idnum then pure (f, .error .EINVAL) else bmapIndirect env f idoff doalloc

abbrev Io := File × Uio × Option Errno

def Io.next (r : Io) (k : File → Uio → F Io) : F Io := match r with
  | (f, uio, none) => k f uio
  | (f, uio, some e) => pure (f, uio, some e)

def fetch (f : File) (uio : Uio) (diskblock : Nat) : F (Except Errno Block) :=
  if diskblock = 0 then if uio.rw = .read then pure (.ok zeros) else throw .transfer
  else rblock env f.fs diskblock

def partialio (f : File) (uio : Uio) (skipstart len : Nat) : F Io :=
  if SFS_BLOCKSIZE < skipstart + len then throw .transfer
  else do
    let (f, r) ← bmap env f (uio.offset / SFS_BLOCKSIZE) (uio.rw == .write)
    match r with
    | .error e => pure (f, uio, some e)
    | .ok diskblock => do
      match ← fetch env f uio diskblock with
      | .error e => pure (f, uio, some e)
      | .ok iobuf => do
        let (iobuf, uio) := uiomove iobuf skipstart len uio
        match uio.rw with
        | .read => pure (f, uio, none)
        | .write => do
          let (fs, r) ← wblock env f.fs diskblock iobuf
          pure ({ f with fs }, uio, r)

def blockio (f : File) (uio : Uio) : F Io := do
  let (f, r) ← bmap env f (uio.offset / SFS_BLOCKSIZE) (uio.rw == .write)
  match r with
  | .error e => pure (f, uio, some e)
  | .ok diskblock =>
    if diskblock = 0 then
      if uio.rw = .read then pure (f, (uiomove zeros 0 SFS_BLOCKSIZE uio).2, none)
      else throw .transfer
    else if uio.resid < SFS_BLOCKSIZE then throw .transfer
    else do
      let a ← rwblock env f.fs diskblock
      let (buf, moved) := uiomove (f.fs.disk diskblock) 0 SFS_BLOCKSIZE uio
      let uio' := if a.moves then moved else uio
      match uio.rw with
      | .read => pure (f, uio', a.err)
      | .write => pure ({ f with fs := wrote a f.fs diskblock buf }, uio', a.err)

def blocks : Nat → File → Uio → F Io
  | 0, f, uio => pure (f, uio, none)
  | n + 1, f, uio => do
    let r ← blockio env f uio
    r.next (blocks n)

def ioTail (f : File) (uio : Uio) : F Io := if SFS_BLOCKSIZE ≤ uio.resid then throw .transfer
  else if 0 < uio.resid then partialio env f uio 0 uio.resid
  else pure (f, uio, none)

def ioAligned (f : File) (uio : Uio) : F Io := if uio.resid = 0 then pure (f, uio, none)
  else if uio.offset % SFS_BLOCKSIZE ≠ 0 then throw .transfer
  else do
    let r ← blocks env (uio.resid / SFS_BLOCKSIZE) f uio
    r.next (ioTail env)

def ioBody (f : File) (uio : Uio) : F Io := let blkoff := uio.offset % SFS_BLOCKSIZE
  if blkoff ≠ 0 then do
    let r ← partialio env f uio blkoff (min (SFS_BLOCKSIZE - blkoff) uio.resid)
    r.next (ioAligned env)
  else ioAligned env f uio

def io (f : File) (uio : Uio) : F Io := let size := toOff f.sv.inode.size
  match uio.rw with
  | .read =>
    let endpos := toOff (uio.offset + uio.resid)
    if size ≤ uio.offset then pure (f, uio, none)
    else if size < endpos then
      let extraresid := (endpos - size).toNat
      if uio.resid ≤ extraresid then throw .transfer
      else do
        let (f, uio, r) ← ioBody env f { uio with resid := uio.resid - extraresid }
        pure (f, { uio with resid := uio.resid + extraresid }, r)
    else ioBody env f uio
  | .write => do
    let (f, uio, r) ← ioBody env f uio
    -- the length is adjusted whether or not the write failed
    if toOff f.sv.inode.size < uio.offset then
      pure ({ f with sv := f.sv.setSize uio.offset }, uio, r)
    else pure (f, uio, r)

def keepIndirect (f : File) (idblock : Nat) (s : Scan) : F (File × Option Errno) :=
  if !s.hasnonzero then do
    let fs ← bfree s.fs idblock
    pure ({ fs, sv := f.sv.setIndirect 0 }, none)
  else if s.iddirty then do
    let (fs, r) ← wblock env s.fs idblock (ofWords s.idbuf)
    pure ({ f with fs }, r)
  else pure ({ f with fs := s.fs }, none)

def discardIndirect (blocklen : Nat) (f : File) : F (File × Option Errno) :=
  let idblock := f.sv.inode.indirect
  let highblock := SFS_NDIRECT + SFS_DBPERIDB - 1
  if blocklen < highblock ∧ idblock ≠ 0 then do
    match ← rblock env f.fs idblock with
    | .error e => pure (f, some e)
    | .ok buf => do
      let s ← ((List.range SFS_DBPERIDB).foldlM (discardSlot blocklen)
        { fs := f.fs, idbuf := wordAt buf, hasnonzero := false, iddirty := false } : K Scan)
      keepIndirect env f idblock s
  else pure (f, none)

def truncate (f : File) (len : Nat) : F (File × Option Errno) := do
  let blocklen := (len + SFS_BLOCKSIZE - 1) / SFS_BLOCKSIZE
  let f ← ((List.finRange SFS_NDIRECT).foldlM (discardDirect blocklen) f : K File)
  let (f, r) ← discardIndirect env blocklen f
  match r with
  | some e => pure (f, some e)
  | none => pure ({ f with sv := f.sv.setSize len }, none)

def readdir (f : File) (slot : Nat) : F (File × Except Errno Dirent) := do
  let (f, uio, r) ← io env f ⟨.read, slot * DIRENT_SIZE, DIRENT_SIZE, []⟩
  match r with
  | some e => pure (f, .error e)
  | none => if 0 < uio.resid then throw .shortEntry else pure (f, .ok (Dirent.decode uio.buf))

def writedir (f : File) (d : Dirent) (slot : Nat) : F (File × Option Errno) := do
  let (f, uio, r) ← io env f ⟨.write, slot * DIRENT_SIZE, DIRENT_SIZE, d.encode⟩
  match r with
  | some e => pure (f, some e)
  | none => if 0 < uio.resid then throw .shortEntry else pure (f, none)

def findFrom (name : List UInt8) : Nat → Nat → File → Found → F (File × Except Errno Found)
  | 0, _, f, found => pure (f, .ok found)
  | n + 1, i, f, found => do
    let (f, r) ← readdir env f i
    match r with
    | .error e => pure (f, .error e)
    | .ok d =>
      if d.ino = SFS_NOINO then findFrom name n (i + 1) f { found with emptyslot := some i }
      else if d.name = name then
        if found.entry.isSome then throw .duplicateName
        else findFrom name n (i + 1) f { found with entry := some (d.ino, i) }
      else findFrom name n (i + 1) f found

def findname (f : File) (name : List UInt8) : F (File × Except Errno Found) := do
  let nentries ← dirNentries f
  findFrom env name nentries 0 f ⟨none, none⟩

def dirLink (f : File) (name : List UInt8) (ino : Nat) : F (File × Except Errno Nat) := do
  let (f, r) ← findname env f name
  match r with
  | .error e => pure (f, .error e)
  | .ok found =>
    if found.entry.isSome then pure (f, .error .EEXIST)
    else if SFS_NAMELEN < name.length + 1 then pure (f, .error .ENAMETOOLONG)
    else do
      let nentries ← dirNentries f
      let slot := found.emptyslot.getD nentries
      let (f, r) ← writedir env f ⟨ino, name⟩ slot
      match r with
      | some e => pure (f, .error e)
      | none => pure (f, .ok slot)

def dirUnlink (f : File) (slot : Nat) : F (File × Option Errno) :=
  writedir env f ⟨SFS_NOINO, []⟩ slot

/-! ## The vnodes in memory -/

def onFile {α : Type} (s : State) (ino : Nat) (work : File → F (File × α)) : F (State × α) := do
  let sv ← getVnode s ino
  let (f, a) ← work ⟨s.fs, sv⟩
  pure (s.set f, a)

/-- `VOP_INIT` makes a lock, and the table may have to grow. -/
def enter (s : State) (sv : Sv) : F (State × Option Errno) := do
  if !(← ask env.kmalloc) then pure (s, some .ENOMEM)
  else if !(← ask env.kmalloc) then pure (s, some .ENOMEM)
  else pure ({ s with vnodes := s.vnodes ++ [sv] }, none)

def loadvnode (s : State) (ino forcetype : Nat) : F (State × Option Errno) := do
  let found ← findVnode s.fs ino s.vnodes
  if found then
    if forcetype ≠ SFS_TYPE_INVAL then throw .inodeType
    else do
      let s ← incref s ino
      pure (s, none)
  else if !(← ask env.kmalloc) then pure (s, some .ENOMEM)
  else do
    let used ← bused s.fs ino
    if !used then throw .unallocated
    else do
      match ← rblock env s.fs ino with
      | .error e => pure (s, some e)
      | .ok buf => do
        let sv ← newVnode ino (Inode.decode buf) forcetype
        enter env s sv

def makeobj (s : State) (type : Nat) : F (State × Except Errno Nat) := do
  let (fs, r) ← balloc env s.fs
  match r with
  | .error e => pure ({ s with fs }, .error e)
  | .ok ino => do
    let (s, r) ← loadvnode env { s with fs } ino type
    match r with
    | some e => pure (s, .error e)
    | none => pure (s, .ok ino)

def syncInode (s : State) (ino : Nat) : F (State × Option Errno) := do
  let sv ← getVnode s ino
  if sv.dirty then do
    let (fs, r) ← wblock env s.fs ino sv.inode.encode
    match r with
    | some e => pure ({ s with fs }, some e)
    | none => pure (s.set ⟨fs, { sv with dirty := false }⟩, none)
  else pure (s, none)

def vopTruncate (s : State) (ino len : Nat) : F (State × Option Errno) := onFile s ino fun f =>
    if f.sv.inode.type = SFS_TYPE_DIR then pure (f, some .EISDIR) else truncate env f len

def discard (s : State) (ino : Nat) : F (State × Option Errno) := do
  let (s, r) ← syncInode env s ino
  match r with
  | some e => pure (s, some e)
  | none => do
    let sv ← getVnode s ino
    if sv.inode.linkcount = 0 then do
      let fs ← bfree s.fs ino
      pure ({ s with fs, vnodes := remove Sv.ino s.vnodes ino }, none)
    else pure ({ s with vnodes := remove Sv.ino s.vnodes ino }, none)

def reclaim (s : State) (ino : Nat) : F (State × Option Errno) := do
  let sv ← getVnode s ino
  if sv.refcount ≠ 1 then
    if sv.refcount ≤ 1 then throw .vnode
    else pure (s.set ⟨s.fs, { sv with refcount := sv.refcount - 1 }⟩, some .EBUSY)
  else if sv.inode.linkcount = 0 then do
    let (s, r) ← vopTruncate env s ino 0
    match r with
    | some e => pure (s, some e)
    | none => discard env s ino
  else discard env s ino

/-- What `VOP_RECLAIM` returns is printed. If it failed the last reference stays. -/
def decref (s : State) (ino : Nat) : F State := do
  let sv ← getVnode s ino
  if sv.refcount = 0 then throw .vnode
  else if 1 < sv.refcount then pure (s.set ⟨s.fs, { sv with refcount := sv.refcount - 1 }⟩)
  else do
    let (s, _) ← reclaim env s ino
    pure s

/-- `sfs_mapio` for writing, from block `j` of the freemap on, with `k` blocks left. -/
def mapioWrite : (k j : Nat) → Fs → F (Fs × Option Errno)
  | 0, _, fs => pure (fs, none)
  | k + 1, j, fs => do
    let (fs, r) ← wblock env fs (SFS_MAP_LOCATION + j) (mapBlock fs.freemap j)
    match r with
    | some e => pure (fs, some e)
    | none => mapioWrite k (j + 1) fs

def syncFreemap (s : State) : F (State × Option Errno) := if s.fs.freemapdirty then do
    let (fs, r) ← mapioWrite env (SFS_BITBLOCKS s.fs.nblocks) 0 s.fs
    match r with
    | some e => pure ({ s with fs }, some e)
    | none => pure ({ s with fs := { fs with freemapdirty := false } }, none)
  else pure (s, none)

def syncSuper (s : State) : F (State × Option Errno) := if s.superdirty then do
    let (fs, r) ← wblock env s.fs SFS_SB_LOCATION s.super
    match r with
    | some e => pure ({ s with fs }, some e)
    | none => pure ({ s with fs, superdirty := false }, none)
  else pure (s, none)

/-- It does not look at what `VOP_FSYNC` returns. -/
def syncInodes : List Nat → State → F State
  | [], s => pure s
  | ino :: inos, s => do
    let (s, _) ← syncInode env s ino
    syncInodes inos s

def sync (s : State) : F (State × Option Errno) := do
  let s ← syncInodes env (s.vnodes.map Sv.ino) s
  let (s, r) ← syncFreemap env s
  match r with
  | some e => pure (s, some e)
  | none => syncSuper env s

def lookonce (s : State) (name : List UInt8) : F (State × Except Errno (Nat × Nat)) := do
  let (s, r) ← onFile s SFS_ROOT_LOCATION (findname env · name)
  match r with
  | .error e => pure (s, .error e)
  | .ok found =>
    match found.entry with
    | none => pure (s, .error .ENOENT)
    | some (ino, slot) => do
      let (s, r) ← loadvnode env s ino SFS_TYPE_INVAL
      match r with
      | some e => pure (s, .error e)
      | none => do
        let sv ← getVnode s ino
        if sv.inode.linkcount = 0 then throw .linkCount else pure (s, .ok (ino, slot))

def unlinkSlot (s : State) (slot : Nat) : F (State × Option Errno) :=
  onFile s SFS_ROOT_LOCATION (dirUnlink env · slot)

/-- `puke_harder`: the new name is taken back. -/
def pukeHarder (s : State) (ino slot2 : Nat) (e : Errno) : F (State × Option Errno) := do
  let (s, r) ← unlinkSlot env s slot2
  match r with
  | some _ => throw .cannotRecover
  | none => do
    let s ← undoLink s ino
    let s ← decref env s ino
    pure (s, some e)

def renameOld (s : State) (ino slot1 slot2 : Nat) : F (State × Option Errno) := do
  let (s, r) ← unlinkSlot env s slot1
  match r with
  | none => do
    let s ← dropLink s ino
    let s ← decref env s ino
    pure (s, none)
  | some e => pukeHarder env s ino slot2 e

def rename (s : State) (n1 n2 : List UInt8) : F (State × Option Errno) := do
  let (s, r) ← lookonce env s n1
  match r with
  | .error e => pure (s, some e)
  | .ok (ino, slot1) => do
    let sv ← getVnode s ino
    if sv.inode.type ≠ SFS_TYPE_FILE then throw .notFile
    else do
      let (s, r) ← onFile s SFS_ROOT_LOCATION (dirLink env · n2 ino)
      match r with
      | .error e => do
        let s ← decref env s ino
        pure (s, some e)
      | .ok slot2 => do
        let s ← addLink s ino
        renameOld env s ino slot1 slot2

section Calls

variable {env : Env} {fs fs' : Fs} {n n' b : Nat}

theorem rwblock_eq_ok {a : Answer} : rwblock env fs b n = .ok (a, n') ↔
    b < fs.nblocks ∧ (env.device n).err ≠ some .EINVAL ∧ a = env.device n ∧ n' = n + 1 := by
  unfold rwblock
  by_cases hb : b < fs.nblocks
  · rw [if_pos hb, stateT_bind_of_ok (show ask env.device n = .ok (env.device n, n + 1) from rfl)]
    by_cases he : (env.device n).err = some .EINVAL
    · rw [if_pos he]
      exact iff_of_false nofun fun h => h.2.1 he
    · rw [if_neg he]
      change Except.ok (env.device n, n + 1) = _ ↔ _
      simp [hb, he, eq_comm]
  · rw [if_neg hb]
    exact iff_of_false nofun fun h => hb h.1

theorem wblock_eq_ok {data : Block} {r : Option Errno} :
    wblock env fs b data n = .ok ((fs', r), n') ↔ b < fs.nblocks ∧ r = (env.device n).err ∧
      r ≠ some .EINVAL ∧ fs' = wrote (env.device n) fs b data ∧ n' = n + 1 := by
  constructor
  · intro h
    obtain ⟨a, m, ha, hret⟩ := stateT_bind_eq_ok h
    obtain ⟨hb, he, rfl, rfl⟩ := rwblock_eq_ok.mp ha
    cases hret
    exact ⟨hb, rfl, he, rfl, rfl⟩
  · rintro ⟨hb, rfl, he, rfl, rfl⟩
    exact stateT_bind_of_ok (rwblock_eq_ok.mpr ⟨hb, he, rfl, rfl⟩)

theorem rblock_eq_ok {buf : Block} : rblock env fs b n = .ok (.ok buf, n') ↔
    b < fs.nblocks ∧ env.device n = .ok ∧ buf = fs.disk b ∧ n' = n + 1 := by
  constructor
  · intro h
    obtain ⟨a, m, ha, hret⟩ := stateT_bind_eq_ok h
    obtain ⟨hb, he, rfl, rfl⟩ := rwblock_eq_ok.mp ha
    cases hd : env.device n with
    | ok =>
      rw [hd] at hret
      cases hret
      exact ⟨hb, rfl, rfl, rfl⟩
    | fail e fate =>
      rw [hd] at hret
      cases hret
  · rintro ⟨hb, hd, rfl, rfl⟩
    have ha : rwblock env fs b n = .ok (.ok, n + 1) :=
      rwblock_eq_ok.mpr ⟨hb, by rw [hd]; nofun, hd.symm, rfl⟩
    exact stateT_bind_of_ok ha

section

variable (a : Answer) (data : Block)
include a data

theorem wrote_freemap : (wrote a fs b data).freemap = fs.freemap := by
  unfold wrote
  split <;> rfl

theorem wrote_nblocks : (wrote a fs b data).nblocks = fs.nblocks := by
  unfold wrote
  split <;> rfl

theorem wrote_freemapdirty : (wrote a fs b data).freemapdirty = fs.freemapdirty := by
  unfold wrote
  split <;> rfl

theorem wrote_disk_of_ne {c : Nat} (h : c ≠ b) : (wrote a fs b data).disk c = fs.disk c := by
  unfold wrote
  split
  · exact update_of_ne h ..
  · rfl

end

end Calls

end Os161.Sfs.Faults
