import Os161.Files.Spec
import Os161.Userprog.Uio

/-!
# `read` and `write`

What the vnode does with its request is left open: it calls `uiomove` with one buffer after the other,
and may look at what they hold.
-/

open Os161.Kern Os161.Userprog Option

namespace Os161.Files

inductive Vop where
  | ret (err : Option Errno)
  | uiomove (ptr : List UInt8) (next : List UInt8 → Vop)

structure Done where
  mem : Memory
  uio : Uio
  pieces : List (List UInt8)
  err : Option Errno

def Vop.exec (cur : Thread) : Vop → Memory → Uio → Option Done
  | .ret err, mem, uio => some ⟨mem, uio, [], err⟩
  | .uiomove ptr next, mem, uio =>
    (Userprog.uiomove cur mem uio ptr).bind fun m =>
      match m.err with
      | some e => some ⟨m.mem, m.uio, [m.ptr], some e⟩
      | none => ((next m.ptr).exec cur m.mem m.uio).map fun d => { d with pieces := m.ptr :: d.pieces }

/-- What a call leaves. `pieces` is `none` when the vnode was not asked. -/
structure Result where
  state : State
  mem : Memory
  pieces : Option (List (List UInt8))
  ret : Except Errno (BitVec 32)

def refuse (s : State) (mem : Memory) (e : Errno) : Result := ⟨s, mem, none, .error e⟩

def State.seek (s : State) (f : Nat) (offset : Int) : State :=
  { s with file := Function.update s.file f { s.file f with offset } }

def transfer (s : State) (f : Nat) (rw : Rw) (buf : Addr) (nbytes : BitVec 32) (cur : Thread)
    (mem : Memory) (vop : Vop) : Option Result :=
  let offset := BitVec.ofInt 32 (s.file f).offset
  (vop.exec cur mem (mkKuio buf nbytes offset rw)).map fun d =>
    match d.err with
    | some e => ⟨s, d.mem, some d.pieces, .error e⟩
    | none => ⟨s.seek f d.uio.offset.toInt, d.mem, some d.pieces, .ok (nbytes - d.uio.resid)⟩

/-- `none` where the process has no table, or the transfer panics. -/
def write (s : State) (p : Nat) (fd : Int) (buf : Addr) (nbytes : BitVec 32) (cur : Thread)
    (mem : Memory) (vop : Vop) : Option Result :=
  if h : 0 ≤ fd ∧ fd < maxFileOpen then
    (s.table p).bind fun t =>
      match t ⟨fd.toNat, toNat_lt h⟩ with
      | none => some (refuse s mem .EBADF)
      | some f =>
        if buf = 0 ∨ buf = 0x40000000 ∨ buf = 0x80000000 then some (refuse s mem .EFAULT)
        else if (s.file f).flag = O_RDONLY then some (refuse s mem .EBADF)
        else transfer s f .UIO_WRITE buf nbytes cur mem vop
  else some (refuse s mem .EBADF)

def read (s : State) (p : Nat) (fd : Int) (buf : Addr) (nbytes : BitVec 32) (cur : Thread)
    (mem : Memory) (vop : Vop) : Option Result :=
  if h : 0 ≤ fd ∧ fd < maxFileOpen then
    if buf = 0 then some (refuse s mem .EFAULT)
    else
      (s.table p).bind fun t =>
        match t ⟨fd.toNat, toNat_lt h⟩ with
        | none => some (refuse s mem .EBADF)
        | some f =>
          if (s.file f).flag = O_WRONLY then some (refuse s mem .EBADF)
          else transfer s f .UIO_READ buf nbytes cur mem vop
  else some (refuse s mem .EBADF)

def State.fileAt (s : State) (p : Nat) (fd : Int) : Option Nat :=
  if h : 0 ≤ fd ∧ fd < maxFileOpen then s.slot p ⟨fd.toNat, toNat_lt h⟩ else none

section Calls

variable {s : State} {p f : Nat} {t : Table} {fd : Int} {buf : Addr} {nbytes : BitVec 32}
variable {cur : Thread} {mem : Memory} {vop : Vop}

theorem fileAt_eq (ht : s.table p = some t) (h : 0 ≤ fd ∧ fd < maxFileOpen) :
    s.fileAt p fd = t ⟨fd.toNat, toNat_lt h⟩ := by
  unfold State.fileAt State.slot
  rw [dif_pos h, ht]
  rfl

theorem write_closed (ht : s.table p = some t) (h : s.fileAt p fd = none) :
    write s p fd buf nbytes cur mem vop = some (refuse s mem .EBADF) := by
  unfold write
  by_cases hfd : 0 ≤ fd ∧ fd < maxFileOpen
  · rw [fileAt_eq ht hfd] at h
    rw [dif_pos hfd, ht, bind_some, h]
  · rw [dif_neg hfd]

theorem fileAt_some (h : s.fileAt p fd = some f) :
    ∃ (hfd : 0 ≤ fd ∧ fd < maxFileOpen) (t : Table), s.table p = some t ∧
      t ⟨fd.toNat, toNat_lt hfd⟩ = some f := by
  unfold State.fileAt at h
  split at h
  · next hfd =>
    unfold State.slot at h
    rw [bind_eq_some_iff] at h
    obtain ⟨t, ht, hf⟩ := h
    exact ⟨hfd, t, ht, hf⟩
  · cases h

theorem write_open (h : s.fileAt p fd = some f) : write s p fd buf nbytes cur mem vop =
      if buf = 0 ∨ buf = 0x40000000 ∨ buf = 0x80000000 then some (refuse s mem .EFAULT)
      else if (s.file f).flag = O_RDONLY then some (refuse s mem .EBADF)
      else transfer s f .UIO_WRITE buf nbytes cur mem vop := by
  obtain ⟨hfd, t, ht, hf⟩ := fileAt_some h
  unfold write
  rw [dif_pos hfd, ht, bind_some, hf]

theorem read_null (hfd : 0 ≤ fd ∧ fd < maxFileOpen) (hbuf : buf = 0) :
    read s p fd buf nbytes cur mem vop = some (refuse s mem .EFAULT) := by
  unfold read
  rw [dif_pos hfd, if_pos hbuf]

theorem read_closed (ht : s.table p = some t) (h : s.fileAt p fd = none)
    (hbuf : ¬ ((0 ≤ fd ∧ fd < maxFileOpen) ∧ buf = 0)) :
    read s p fd buf nbytes cur mem vop = some (refuse s mem .EBADF) := by
  unfold read
  by_cases hfd : 0 ≤ fd ∧ fd < maxFileOpen
  · rw [fileAt_eq ht hfd] at h
    rw [dif_pos hfd, if_neg fun hz => hbuf ⟨hfd, hz⟩, ht, bind_some, h]
  · rw [dif_neg hfd]

theorem read_open (h : s.fileAt p fd = some f) (hbuf : buf ≠ 0) :
    read s p fd buf nbytes cur mem vop =
      if (s.file f).flag = O_WRONLY then some (refuse s mem .EBADF)
      else transfer s f .UIO_READ buf nbytes cur mem vop := by
  obtain ⟨hfd, t, ht, hf⟩ := fileAt_some h
  unfold read
  rw [dif_pos hfd, if_neg hbuf, ht, bind_some, hf]

theorem transfer_ret (rw : Rw) : transfer s f rw buf nbytes cur mem (.ret none) =
      some ⟨s.seek f (BitVec.ofInt 32 (s.file f).offset).toInt, mem, some [],
        .ok (nbytes - nbytes)⟩ := rfl

end Calls

end Os161.Files
