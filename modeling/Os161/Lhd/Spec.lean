import Mathlib.Data.BitVec
import Os161.Kern.Errno
import Os161.Synch.Many

/-!
# The disk driver

`lhd_io` and `lhd_irq` of `kern/dev/lamebus/lhd.c`, with the disk. A step of a thread ends where
another one or the interrupt handler may come in: at the semaphores, at `uiomove` and after each write
to a register. Of a semaphore only the counter matters.
-/

open Os161.Synch.Many (takeCount addCount)

open Function

namespace Os161.Lhd

export Kern (Errno)

abbrev LHD_SECTSIZE : BitVec 32 := 512

abbrev LHD_IDLE : Nat := 0
abbrev LHD_WORKING : Nat := 1
abbrev LHD_ISWRITE : Nat := 2
abbrev LHD_OK : Nat := 4
abbrev LHD_INVSECT : Nat := 12
abbrev LHD_MEDIA : Nat := 20
abbrev LHD_STATEMASK : Nat := 0x1d

def lhdCodeToErrno (code : Nat) : Option Errno := match code &&& LHD_STATEMASK with
  | 4 => none
  | 12 => some .EINVAL
  | 20 => some Kern.Errno.EIO
  | _ => some .EAGAIN

inductive Completion where
  | ok | invsect | media
  deriving DecidableEq

def Completion.code : Completion → Nat
  | .ok => LHD_OK
  | .invsect => LHD_INVSECT
  | .media => LHD_MEDIA

structure Io where
  write : Bool
  sector : BitVec 32
  len : BitVec 32
  i : BitVec 32
  deriving DecidableEq

def Io.at (io : Io) : BitVec 32 := io.sector + io.i

def Io.statval (io : Io) : Nat := if io.write then LHD_WORKING ||| LHD_ISWRITE else LHD_WORKING

/-- `data` is what has been put into the buffer, and `n` the number of the operation. -/
inductive Pc (D : Type) where
  | out
  | clear (io : Io)                                -- in `P(lh_clear)`
  | fill (io : Io)                                 -- before `uiomove` into the buffer
  | sect (io : Io) (data : Option D)               -- before the write to `LHD_REG_SECT`
  | start (io : Io) (data : Option D)              -- before the write to `LHD_REG_STAT`
  | wait (io : Io) (data : Option D) (n : Nat)     -- in `P(lh_done)`
  | ready (io : Io) (data : Option D) (n : Nat)    -- before it gets `lh_result`
  | copy (io : Io) (n : Nat)                       -- before `uiomove` out of the buffer
  | leave (io : Io) (result : Option Errno)        -- before `V(lh_clear)`

/-- `moved`: the sector of the operation has been transferred. The last fields are history:
operations started and not seen ended, the one `lh_result` belongs to, and each one's status. -/
structure Dev (D : Type) where
  done : Int
  result : Option Errno
  stat : Nat
  sect : BitVec 32
  buf : D
  disk : BitVec 32 → D
  moved : Bool
  started : Nat
  outstanding : Nat
  resultOf : Nat
  outcome : Nat → Nat

structure State (T D : Type) where
  clear : Int
  dev : Dev D
  pc : T → Pc D
  panicked : Bool

/-- `d` and `err` are what `uiomove` puts into the buffer and what it returns. -/
inductive Label (T D : Type) where
  | call (t : T) (write : Bool) (offset resid : BitVec 32)
  | run (t : T) (d : D) (err : Option Errno)
  | transfer
  | complete (e : Completion)
  | irq

section Device

variable {D : Type}

def Dev.works (d : Dev D) : Bool := d.stat &&& LHD_STATEMASK = LHD_WORKING

def Dev.start (d : Dev D) (statval : Nat) : Dev D := { d with
    stat := statval
    moved := false
    started := d.started + 1
    outstanding := d.outstanding + 1 }

def Dev.transfer (d : Dev D) : Dev D := if d.stat &&& LHD_ISWRITE ≠ 0 then
    { d with disk := update d.disk d.sect d.buf, moved := true }
  else { d with buf := d.disk d.sect, moved := true }

def Dev.complete (d : Dev D) (e : Completion) : Dev D :=
  let stat := e.code ||| (d.stat &&& LHD_ISWRITE)
  { d with stat := stat, outcome := update d.outcome d.started stat }

/-- `lhd_irq`, with `lhd_iodone`; `none` where an assertion fails. -/
def lhdIrq (d : Dev D) : Option (Dev D) := match d.stat &&& LHD_STATEMASK with
  | 4 | 12 | 20 =>
    (addCount d.done).map fun n => { d with
      stat := 0
      result := lhdCodeToErrno d.stat
      done := n
      outstanding := d.outstanding - 1
      resultOf := d.started }
  | _ => some d

end Device

section Machine

variable {T D : Type} [DecidableEq T]

def goto (s : State T D) (t : T) (p : Pc D) : State T D := { s with pc := update s.pc t p }

def panic (s : State T D) : State T D := { s with panicked := true }

def loop (io : Io) : Pc D := if io.i < io.len then .clear io else .out

/-- `lhd_io` up to its loop. Requests that are refused return at once. -/
def lhdIo (blocks : BitVec 32) (write : Bool) (offset resid : BitVec 32) : Pc D :=
  let sector := offset.sdiv LHD_SECTSIZE
  let len := resid / LHD_SECTSIZE
  if offset.srem LHD_SECTSIZE ≠ 0 ∨ resid % LHD_SECTSIZE ≠ 0 then .out
  else if blocks < sector + len then .out
  else loop ⟨write, sector, len, 0⟩

def enter (s : State T D) (t : T) (io : Io) : Option (State T D) := if s.clear = 0 then none
  else
    match takeCount s.clear with
    | none => some (panic s)
    | some n => some (goto { s with clear := n } t (if io.write then .fill io else .sect io none))

/-- `uiomove` into the buffer. It may fail with a part of the data moved. -/
def fill (s : State T D) (t : T) (io : Io) (d : D) (err : Option Errno) : State T D :=
  goto { s with dev := { s.dev with buf := d } } t
    (if err = none then .sect io (some d) else .leave io err)

def await (s : State T D) (t : T) (io : Io) (data : Option D) (n : Nat) : Option (State T D) :=
  if s.dev.done = 0 then none
  else
    match takeCount s.dev.done with
    | none => some (panic s)
    | some m => some (goto { s with dev := { s.dev with done := m } } t (.ready io data n))

def getResult (s : State T D) (t : T) (io : Io) (n : Nat) : State T D :=
  goto s t (if s.dev.result = none ∧ io.write = false then .copy io n else .leave io s.dev.result)

def leave (s : State T D) (t : T) (io : Io) (result : Option Errno) : State T D :=
  match addCount s.clear with
  | none => panic s
  | some n => goto { s with clear := n } t
      (if result = none then loop { io with i := io.i + 1 } else .out)

def go (s : State T D) (t : T) (d : D) (err : Option Errno) : Option (State T D) :=
  match s.pc t with
  | .out => none
  | .clear io => enter s t io
  | .fill io => some (fill s t io d err)
  | .sect io data => some (goto { s with dev := { s.dev with sect := io.at } } t (.start io data))
  | .start io data =>
    some (goto { s with dev := s.dev.start io.statval } t (.wait io data (s.dev.started + 1)))
  | .wait io data n => await s t io data n
  | .ready io _ n => some (getResult s t io n)
  | .copy io _ => some (goto s t (.leave io err))
  | .leave io result => some (leave s t io result)

/-- The device ends an operation once, with success only when it has moved the sector. -/
def step (blocks : BitVec 32) (s : State T D) (a : Label T D) : Option (State T D) :=
  if s.panicked then none
  else
    match a with
    | .call t write offset resid =>
      match s.pc t with
      | .out => some (goto s t (lhdIo blocks write offset resid))
      | _ => none
    | .run t d err => go s t d err
    | .transfer => if s.dev.works then some { s with dev := s.dev.transfer } else none
    | .complete e =>
      if s.dev.works ∧ (e = .ok → s.dev.moved = true) then
        some { s with dev := s.dev.complete e }
      else none
    | .irq =>
      match lhdIrq s.dev with
      | none => some (panic s)
      | some d => some { s with dev := d }

def init (sect : BitVec 32) (buf : D) (disk : BitVec 32 → D) : State T D where
  clear := 1
  dev := ⟨0, none, LHD_IDLE, sect, buf, disk, false, 0, 0, 0, fun _ => 0⟩
  pc := fun _ => .out
  panicked := false

end Machine

structure Unmixed {T D : Type} (s : State T D) : Prop where
  one : s.dev.outstanding ≤ 1
  working : s.dev.works = true → ∃ t io data, s.pc t = .wait io data s.dev.started ∧
    s.dev.sect = io.at ∧ (s.dev.stat &&& LHD_ISWRITE ≠ 0 ↔ io.write = true) ∧
    (io.write = true → data = some s.dev.buf)
  result : ∀ t io data n, s.pc t = .ready io data n →
    s.dev.resultOf = n ∧ s.dev.result = lhdCodeToErrno (s.dev.outcome n)
  read : ∀ t io n, s.pc t = .copy io n → s.dev.buf = s.dev.disk io.at
  written : ∀ t io data n, s.pc t = .ready io data n → io.write = true → s.dev.result = none →
    data = some (s.dev.disk io.at)
  rest : (∀ t, s.pc t = .out) → s.clear = 1 ∧ s.dev.done = 0
  asserts : s.panicked = false

end Os161.Lhd
