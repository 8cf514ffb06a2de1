import Os161.Lhd.Proofs
import Os161.Userprog.Uio

/-!
# Blocks on the disk

`sfs_rwblock` of `kern/fs/sfs/sfs_io.c` over `lhd_io`, as one thread runs them. An operation succeeds
or ends in a media error, after which the sector may have been moved.
-/

open Os161.Lib Os161.Userprog Os161.Synch.Many Function

namespace Os161.Lhd.Block

inductive Outcome where
  | ok
  | media (moved : Bool)
  deriving DecidableEq

def Outcome.moves : Outcome → Bool
  | .ok => true
  | .media moved => moved

def Outcome.completion : Outcome → Completion
  | .ok => .ok
  | .media _ => .media

/-- From the write to `LHD_REG_SECT` until the thread is back from `P(lh_done)`. -/
def perform {D : Type} (d : Dev D) (io : Io) (o : Outcome) : Option (Dev D) := do
  let d := { d with sect := io.at }.start io.statval
  let d := if o.moves then d.transfer else d
  let d ← lhdIrq (d.complete o.completion)
  let done ← takeCount d.done
  pure { d with done }

def kernelThread : Thread := ⟨none, fun _ => false⟩

/-- `ops` counts the operations. -/
structure Request where
  dev : Dev (List UInt8)
  mem : Memory
  uio : Uio
  ops : Nat

def Request.move (r : Request) : Option (Request × Option Errno) := do
  let m ← uiomove kernelThread r.mem r.uio r.dev.buf
  pure ({ r with dev := { r.dev with buf := m.ptr }, mem := m.mem, uio := m.uio }, m.err)

def Request.perform (os : Nat → Outcome) (io : Io) (r : Request) : Option Request := do
  let dev ← Block.perform r.dev io (os r.ops)
  pure { r with dev, ops := r.ops + 1 }

def sectors (os : Nat → Outcome) : (n : Nat) → Io → Request → Option (Request × Option Errno)
  | 0, _, r => pure (r, none)
  | n + 1, io, r => do
    let (r, err) ← (if io.write then r.move else pure (r, none))
    if err ≠ none then pure (r, err)
    else do
      let r ← r.perform os io
      let result := r.dev.result
      let (r, result) ← (if result = none ∧ io.write = false then r.move else pure (r, result))
      if result ≠ none then pure (r, result)
      else sectors os n { io with i := io.i + 1 } r

def lhdIo (blocks : BitVec 32) (os : Nat → Outcome) (r : Request) :
    Option (Request × Option Errno) :=
  let sector := r.uio.offset.sdiv LHD_SECTSIZE
  let len := r.uio.resid / LHD_SECTSIZE
  if r.uio.offset.srem LHD_SECTSIZE ≠ 0 ∨ r.uio.resid % LHD_SECTSIZE ≠ 0 then
    pure (r, some .EINVAL)
  else if blocks < sector + len then pure (r, some .EINVAL)
  else sectors os len.toNat ⟨r.uio.rw = .UIO_WRITE, sector, len, 0⟩ r

/-- With `retries` left. The panic about EINVAL is `none`. -/
def sfsRwblock (blocks : BitVec 32) (os : Nat → Outcome) :
    (retries : Nat) → Request → Option (Request × Option Errno)
  | 0, r => do
    let (r, result) ← lhdIo blocks os r
    if result = some .EINVAL then none else pure (r, result)
  | retries + 1, r => do
    let (r, result) ← lhdIo blocks os r
    if result = some .EINVAL then none
    else if result = some Kern.Errno.EIO then sfsRwblock blocks os retries r
    else pure (r, result)

abbrev SFS_BLOCKSIZE : BitVec 32 := 512

def sfsUio (data : Addr) (block : BitVec 32) (rw : Rw) : Uio :=
  mkKuio data SFS_BLOCKSIZE (block * SFS_BLOCKSIZE) rw

def sfsRblock (blocks : BitVec 32) (os : Nat → Outcome) (d : Dev (List UInt8)) (mem : Memory)
    (data : Addr) (block : BitVec 32) : Option (Request × Option Errno) :=
  sfsRwblock blocks os 10 ⟨d, mem, sfsUio data block .UIO_READ, 0⟩

def sfsWblock (blocks : BitVec 32) (os : Nat → Outcome) (d : Dev (List UInt8)) (mem : Memory)
    (data : Addr) (block : BitVec 32) : Option (Request × Option Errno) :=
  sfsRwblock blocks os 10 ⟨d, mem, sfsUio data block .UIO_WRITE, 0⟩

section Operation

variable {D : Type} {d d' : Dev D} {io : Io} {o : Outcome}

structure Performed (d d' : Dev D) (io : Io) (o : Outcome) : Prop where
  quiet : Quiet d'
  result : d'.result = if o = .ok then none else some Kern.Errno.EIO
  disk : d'.disk = if io.write = true ∧ o.moves = true then update d.disk io.at d.buf else d.disk
  buf : d'.buf = if io.write = false ∧ o.moves = true then d.disk io.at else d.buf

theorem transfer_eq (hstat : d.stat = io.statval) (hsect : d.sect = io.at) : d.transfer = { d with
      disk := if io.write then update d.disk io.at d.buf else d.disk
      buf := if io.write then d.buf else d.disk io.at
      moved := true } := by
  have hbit := statval_iswrite io
  unfold Dev.transfer
  rw [hstat, hsect]
  by_cases hw : io.write = true
  · rw [if_pos (hbit.mpr hw), if_pos hw, if_pos hw]
  · rw [if_neg (mt hbit.mp hw), if_neg hw, if_neg hw]

theorem lhdIrq_complete (e : Completion) (hstat : d.stat = io.statval) (hdone : d.done = 0) :
    ∃ d', lhdIrq (d.complete e) = some d' ∧ takeCount d'.done = some 0 ∧
      d'.stat = LHD_IDLE ∧ d'.outstanding = d.outstanding - 1 ∧
      d'.result = lhdCodeToErrno e.code ∧ d'.disk = d.disk ∧ d'.buf = d.buf := by
  have hstate : (d.complete e).stat &&& LHD_STATEMASK = e.code := by
    change (e.code ||| (d.stat &&& LHD_ISWRITE)) &&& LHD_STATEMASK = e.code
    rw [hstat, code_state]
  have hadd : addCount (d.complete e).done = some 1 := by
    change addCount d.done = some 1
    rw [hdone]
    decide
  have hcode : lhdCodeToErrno (d.complete e).stat = lhdCodeToErrno e.code := by
    unfold lhdCodeToErrno
    rw [hstate]
    cases e <;> rfl
  unfold lhdIrq
  rw [hstate, hadd, hcode]
  cases e <;> exact ⟨_, rfl, rfl, rfl, rfl, rfl, rfl, rfl⟩

theorem perform_spec (h : Quiet d) (io : Io) (o : Outcome) :
    ∃ d', perform d io o = some d' ∧ Performed d d' io o := by
  have hmoved : ∃ d₁, (if o.moves then ({ d with sect := io.at }.start io.statval).transfer
        else { d with sect := io.at }.start io.statval) = d₁ ∧ d₁.stat = io.statval ∧ d₁.done = 0 ∧
      d₁.outstanding = 1 ∧
      d₁.disk = (if io.write = true ∧ o.moves = true then update d.disk io.at d.buf
        else d.disk) ∧
      d₁.buf = if io.write = false ∧ o.moves = true then d.disk io.at else d.buf := by
    rw [@transfer_eq D _ io rfl rfl]
    refine ⟨_, rfl, ?_⟩
    cases o.moves <;> cases io.write <;> simp [Dev.start, h.done, h.outstanding]
  obtain ⟨d₁, hd₁, hstat, hdone, hout, hdisk, hbuf⟩ := hmoved
  obtain ⟨d₂, hirq, htake, hstat₂, hout₂, hresult, hdisk₂, hbuf₂⟩ :=
    lhdIrq_complete o.completion hstat hdone
  refine ⟨{ d₂ with done := 0 }, ?_, ⟨rfl, hstat₂, ?_⟩, ?_, hdisk₂.trans hdisk, hbuf₂.trans hbuf⟩
  · unfold perform
    simp [hd₁, hirq, htake, Option.bind_eq_bind, Option.bind_some, Option.pure_def]
  · rw [hout₂, hout]
  · rw [hresult]
    cases o with
    | ok => rfl
    | media moved =>
      change lhdCodeToErrno LHD_MEDIA = some Kern.Errno.EIO
      decide

end Operation

section Sector

variable {blocks block : BitVec 32} {os : Nat → Outcome} {r : Request} {data : Addr} {mem : Memory}
variable {d : Dev (List UInt8)} {k : Nat}

structure Idle (d : Dev (List UInt8)) : Prop extends Quiet d where
  buffer : d.buf.length = 512
  sectors : ∀ n, (d.disk n).length = 512

def sectorOf (block : BitVec 32) : BitVec 32 := (block * SFS_BLOCKSIZE).sdiv LHD_SECTSIZE

theorem srem_block (block : BitVec 32) : (block * SFS_BLOCKSIZE).srem LHD_SECTSIZE = 0 := by
  apply BitVec.eq_of_toInt_eq
  have hsize : LHD_SECTSIZE.toInt = 512 := by decide
  have hmod : (block.toInt * 512).bmod (2 ^ 32) % 512 = 0 := by
    rw [Int.bmod_def]
    split <;> omega
  rw [BitVec.toInt_srem, BitVec.toInt_mul, hsize]
  exact Int.tmod_eq_zero_of_dvd (Int.dvd_of_emod_eq_zero hmod)

theorem memmove_kernel (uio : Uio) (part : List UInt8) :
    memmove kernelThread mem uio part = some (match uio.rw with
      | .UIO_READ => (part, mem.store uio.base part)
      | .UIO_WRITE => (mem.load uio.base part.length, mem)) := by
  unfold memmove
  rw [reach_eq fun _ _ => rfl, if_neg (lt_irrefl _)]
  cases uio.rw <;> rfl

theorem move_eq (hbuf : d.buf.length = 512) (rw : Rw) :
    Request.move ⟨d, mem, sfsUio data block rw, k⟩ = some (match rw with
        | .UIO_READ => ⟨d, mem.store data d.buf, (sfsUio data block rw).advance 512, k⟩
        | .UIO_WRITE =>
          ⟨{ d with buf := mem.load data 512 }, mem, (sfsUio data block rw).advance 512, k⟩, none) := by
  have hsize : min (sfsUio data block rw).resid.toNat d.buf.length = 512 := by
    rw [hbuf]
    change min (512 : BitVec 32).toNat 512 = 512
    decide
  unfold Request.move
  rw [uiomove_sys rfl rfl rfl, hsize, List.take_of_length_le hbuf.le, memmove_kernel,
    List.drop_of_length_le hbuf.le]
  cases rw with
  | UIO_READ => simp [sfsUio, mkKuio]
  | UIO_WRITE => simp [sfsUio, mkKuio, hbuf]

def one (write : Bool) (sec : BitVec 32) : Io := ⟨write, sec, 1, 0⟩

@[simp]
theorem one_write (write : Bool) (sec : BitVec 32) : (one write sec).write = write := rfl

theorem one_at (write : Bool) (sec : BitVec 32) : (one write sec).at = sec := BitVec.add_zero sec

theorem lhdIo_sfsUio (rw : Rw) : lhdIo blocks os ⟨d, mem, sfsUio data block rw, k⟩ =
      if blocks < sectorOf block + 1 then some (⟨d, mem, sfsUio data block rw, k⟩, some .EINVAL)
      else sectors os 1 (one (rw = .UIO_WRITE) (sectorOf block)) ⟨d, mem, sfsUio data block rw, k⟩ := by
  have hlen : SFS_BLOCKSIZE / LHD_SECTSIZE = 1 := by decide
  have hoff : SFS_BLOCKSIZE % LHD_SECTSIZE = 0 := by decide
  unfold lhdIo
  simp only [sfsUio, mkKuio, hlen, hoff, srem_block, ne_eq, not_true, or_self, if_false]
  rfl

theorem lhdIo_done (uio : Uio) (hoff : uio.offset = (block + 1) * SFS_BLOCKSIZE)
    (hresid : uio.resid = 0) :
    lhdIo blocks os ⟨d, mem, uio, k⟩ =
      some (⟨d, mem, uio, k⟩, if blocks < sectorOf (block + 1) then some .EINVAL else none) := by
  have hlen : (0 : BitVec 32) / LHD_SECTSIZE = 0 := by decide
  have hzero : (0 : BitVec 32) % LHD_SECTSIZE = 0 := by decide
  unfold lhdIo
  simp only [hoff, hresid, srem_block, hlen, hzero, ne_eq, not_true, or_self, if_false]
  change (if blocks < sectorOf (block + 1) + 0 then _ else sectors os 0 _ _) = _
  rw [show sectorOf (block + 1) + 0 = sectorOf (block + 1) from BitVec.add_zero _, sectors]
  split <;> rfl

theorem Request.perform_eq {io : Io} {d' : Dev (List UInt8)} {uio : Uio}
    (h : Block.perform d io (os k) = some d') :
    Request.perform os io ⟨d, mem, uio, k⟩ = some ⟨d', mem, uio, k + 1⟩ := by
  unfold Request.perform
  rw [h]
  rfl

theorem sectors_write (h : Idle d) (sec : BitVec 32) : ∃ d', Idle d' ∧
      d'.disk = (if (os k).moves then update d.disk sec (mem.load data 512) else d.disk) ∧
      sectors os 1 (one true sec) ⟨d, mem, sfsUio data block .UIO_WRITE, k⟩ =
        some (⟨d', mem, (sfsUio data block .UIO_WRITE).advance 512, k + 1⟩,
          if os k = .ok then none else some Kern.Errno.EIO) := by
  have hquiet : Quiet { d with buf := mem.load data 512 } := ⟨h.done, h.stat, h.outstanding⟩
  obtain ⟨d', hperform, hd'⟩ := perform_spec hquiet (one true sec) (os k)
  have hdisk := hd'.disk
  have hbuf := hd'.buf
  rw [one_at] at hdisk
  simp only [one_write, true_and, Bool.true_eq_false, false_and, if_false] at hdisk hbuf
  refine ⟨d', ⟨hd'.quiet, by rw [hbuf, length_load], fun n => ?_⟩, hdisk, ?_⟩
  · rw [hdisk]
    split
    · rw [update_apply]
      split
      · exact length_load
      · exact h.sectors n
    · exact h.sectors n
  · simp only [one_write, if_true, move_eq h.buffer, Option.bind_eq_bind, Option.bind_some,
      Option.pure_def, ne_eq, not_true, if_false, Request.perform_eq hperform, hd'.result,
      Bool.true_eq_false, and_false, sectors]
    split <;> rfl

theorem sectors_read (h : Idle d) (sec : BitVec 32) : ∃ d', Idle d' ∧ d'.disk = d.disk ∧
      sectors os 1 (one false sec) ⟨d, mem, sfsUio data block .UIO_READ, k⟩ =
        some (if os k = .ok then
          (⟨d', mem.store data (d.disk sec), (sfsUio data block .UIO_READ).advance 512, k + 1⟩, none)
        else (⟨d', mem, sfsUio data block .UIO_READ, k + 1⟩, some Kern.Errno.EIO)) := by
  obtain ⟨d', hperform, hd'⟩ := perform_spec h.toQuiet (one false sec) (os k)
  have hdisk := hd'.disk
  have hbuf := hd'.buf
  rw [one_at] at hbuf
  have hlen : d'.buf.length = 512 := by
    rw [hbuf]
    split
    · exact h.sectors sec
    · exact h.buffer
  refine ⟨d', ⟨hd'.quiet, hlen, fun n => by rw [hdisk]; exact h.sectors n⟩, hdisk, ?_⟩
  unfold sectors
  simp only [one_write, Bool.false_eq_true, if_false, Option.bind_eq_bind, Option.bind_some,
    Option.pure_def, ne_eq, not_true, Request.perform_eq hperform, hd'.result, and_true]
  by_cases hok : os k = .ok
  · rw [hok] at hbuf
    simp only [hok, if_true, move_eq hlen, Option.bind_some, not_true, if_false, sectors,
      Option.pure_def]
    rw [hbuf]
    rfl
  · simp only [hok, if_false]
    rfl

theorem advance_sfsUio (rw : Rw) :
    ((sfsUio data block rw).advance 512).offset = (block + 1) * SFS_BLOCKSIZE ∧
      ((sfsUio data block rw).advance 512).resid = 0 := by
  constructor
  · change block * SFS_BLOCKSIZE + BitVec.ofNat 32 512 = (block + 1) * SFS_BLOCKSIZE
    have hone : BitVec.ofNat 32 512 = 1 * SFS_BLOCKSIZE := by decide
    rw [BitVec.add_mul, hone]
  · change (512 : BitVec 32) - BitVec.ofNat 32 512 = 0
    decide

/-- EINVAL, at once or after a media error; `sfs_rwblock` panics. -/
def Refused (blocks block : BitVec 32) (os : Nat → Outcome) : Prop :=
  blocks < sectorOf block + 1 ∨ os 0 ≠ .ok ∧ blocks < sectorOf (block + 1)

theorem sfsRwblock_last {r' : Request} {result : Option Errno}
    (h : lhdIo blocks os r = some (r', result)) :
    sfsRwblock blocks os 0 r = if result = some .EINVAL then none else some (r', result) := by
  unfold sfsRwblock
  rw [h]
  rfl

theorem sfsRwblock_succ {r' : Request} {result : Option Errno} (retries : Nat)
    (h : lhdIo blocks os r = some (r', result)) :
    sfsRwblock blocks os (retries + 1) r = if result = some .EINVAL then none
      else if result = some Kern.Errno.EIO then sfsRwblock blocks os retries r'
      else some (r', result) := by
  rw [sfsRwblock, h]
  rfl

theorem ne_einval : some Kern.Errno.EIO ≠ some .EINVAL := by decide

theorem lhdIo_write (h : Idle d) (hin : ¬ blocks < sectorOf block + 1) :
    ∃ d', d'.disk = (if (os k).moves then update d.disk (sectorOf block) (mem.load data 512)
        else d.disk) ∧
      lhdIo blocks os ⟨d, mem, sfsUio data block .UIO_WRITE, k⟩ =
        some (⟨d', mem, (sfsUio data block .UIO_WRITE).advance 512, k + 1⟩,
          if os k = .ok then none else some Kern.Errno.EIO) := by
  obtain ⟨d', -, hdisk, hsectors⟩ := @sectors_write block os data mem d k h (sectorOf block)
  refine ⟨d', hdisk, ?_⟩
  rw [lhdIo_sfsUio, if_neg hin]
  exact hsectors

theorem sfsWblock_eq (h : Idle d) (hin : ¬ Refused blocks block os) :
    ∃ r, sfsWblock blocks os d mem data block = some (r, none) ∧
      r.dev.disk = if (os 0).moves then update d.disk (sectorOf block) (mem.load data 512)
        else d.disk := by
  obtain ⟨hfirst, hretry⟩ := not_or.mp hin
  obtain ⟨d', hdisk, hlhd⟩ := @lhdIo_write _ _ os data mem d 0 h hfirst
  obtain ⟨hoff, hresid⟩ := @advance_sfsUio block data .UIO_WRITE
  refine ⟨⟨d', mem, (sfsUio data block .UIO_WRITE).advance 512, 1⟩, ?_, hdisk⟩
  unfold sfsWblock
  rw [sfsRwblock_succ 9 hlhd]
  by_cases hok : os 0 = .ok
  · rw [if_pos hok, if_neg (by decide), if_neg (by decide)]
  · have hnext : ¬ blocks < sectorOf (block + 1) := fun hlt => hretry ⟨hok, hlt⟩
    rw [if_neg hok, if_neg ne_einval, if_pos rfl, sfsRwblock_succ 8 (lhdIo_done _ hoff hresid),
      if_neg hnext, if_neg (by decide), if_neg (by decide)]

theorem sfsWblock_refused (h : Idle d) (hin : Refused blocks block os) :
    sfsWblock blocks os d mem data block = none := by
  obtain ⟨hoff, hresid⟩ := @advance_sfsUio block data .UIO_WRITE
  unfold sfsWblock
  by_cases hfirst : blocks < sectorOf block + 1
  · have hlhd : lhdIo blocks os ⟨d, mem, sfsUio data block .UIO_WRITE, 0⟩ = _ :=
      (lhdIo_sfsUio .UIO_WRITE).trans (if_pos hfirst)
    rw [sfsRwblock_succ 9 hlhd, if_pos rfl]
  · obtain ⟨hok, hnext⟩ := hin.resolve_left hfirst
    obtain ⟨d', -, hlhd⟩ := @lhdIo_write _ _ os data mem d 0 h hfirst
    rw [sfsRwblock_succ 9 hlhd, if_neg hok, if_neg ne_einval, if_pos rfl,
      sfsRwblock_succ 8 (lhdIo_done _ hoff hresid), if_pos hnext, if_pos rfl]

theorem lhdIo_read (h : Idle d) (hin : ¬ blocks < sectorOf block + 1) :
    ∃ d', Idle d' ∧ d'.disk = d.disk ∧ lhdIo blocks os ⟨d, mem, sfsUio data block .UIO_READ, k⟩ =
        some (if os k = .ok then
          (⟨d', mem.store data (d.disk (sectorOf block)), (sfsUio data block .UIO_READ).advance 512,
            k + 1⟩, none)
        else (⟨d', mem, sfsUio data block .UIO_READ, k + 1⟩, some Kern.Errno.EIO)) := by
  obtain ⟨d', hidle, hdisk, hsectors⟩ := @sectors_read block os data mem d k h (sectorOf block)
  refine ⟨d', hidle, hdisk, ?_⟩
  rw [lhdIo_sfsUio, if_neg hin]
  exact hsectors

theorem sfsRwblock_read (h : Idle d) (hin : ¬ blocks < sectorOf block + 1) (retries : Nat) :
    (∃ j ≤ retries, os (k + j) = .ok) ∧
        (∃ r, sfsRwblock blocks os retries ⟨d, mem, sfsUio data block .UIO_READ, k⟩ = some (r, none) ∧
          r.mem = mem.store data (d.disk (sectorOf block))) ∨
      (∀ j ≤ retries, os (k + j) ≠ .ok) ∧
        ∃ r, sfsRwblock blocks os retries ⟨d, mem, sfsUio data block .UIO_READ, k⟩ =
          some (r, some Kern.Errno.EIO) := by
  induction retries generalizing d k with
  | zero =>
    obtain ⟨d', -, -, hlhd⟩ := @lhdIo_read _ _ os data mem d k h hin
    by_cases hok : os k = .ok
    · left
      rw [if_pos hok] at hlhd
      refine ⟨⟨0, Nat.le_refl 0, hok⟩, ⟨d', mem.store data (d.disk (sectorOf block)),
        (sfsUio data block .UIO_READ).advance 512, k + 1⟩, ?_, rfl⟩
      rw [sfsRwblock_last hlhd, if_neg (by decide)]
    · right
      rw [if_neg hok] at hlhd
      refine ⟨fun j hj => ?_, ⟨d', mem, sfsUio data block .UIO_READ, k + 1⟩, ?_⟩
      · rwa [Nat.le_zero.mp hj]
      · rw [sfsRwblock_last hlhd, if_neg ne_einval]
  | succ n ih =>
    obtain ⟨d', hidle, hdisk, hlhd⟩ := @lhdIo_read _ _ os data mem d k h hin
    by_cases hok : os k = .ok
    · left
      rw [if_pos hok] at hlhd
      refine ⟨⟨0, Nat.zero_le _, hok⟩, ⟨d', mem.store data (d.disk (sectorOf block)),
        (sfsUio data block .UIO_READ).advance 512, k + 1⟩, ?_, rfl⟩
      rw [sfsRwblock_succ n hlhd, if_neg (by decide), if_neg (by decide)]
    · rw [if_neg hok] at hlhd
      rw [sfsRwblock_succ n hlhd, if_neg ne_einval, if_pos rfl]
      obtain ⟨⟨j, hj, hjok⟩, hread⟩ | ⟨hnone, hfail⟩ := @ih d' (k + 1) hidle
      · left
        rw [hdisk] at hread
        refine ⟨⟨j + 1, Nat.succ_le_succ hj, ?_⟩, hread⟩
        rwa [add_comm j, ← add_assoc]
      · right
        refine ⟨fun j hj => ?_, hfail⟩
        cases j with
        | zero => exact hok
        | succ j =>
          rw [add_comm j, ← add_assoc]
          exact hnone j (Nat.le_of_succ_le_succ hj)

end Sector

def Stores (blocks : BitVec 32) (os : Nat → Outcome) (d : Dev (List UInt8)) (mem : Memory)
    (data : Addr) (block : BitVec 32) : Prop :=
  ∀ r, sfsWblock blocks os d mem data block = some (r, none) →
    r.dev.disk = update d.disk block (mem.load data 512)

def Fetches (blocks : BitVec 32) (os : Nat → Outcome) (d : Dev (List UInt8)) (mem : Memory)
    (data : Addr) (block : BitVec 32) : Prop :=
  ∀ r, sfsRblock blocks os d mem data block = some (r, none) → r.mem.load data 512 = d.disk block

/-- The right sector is moved, or the sectors hold the bytes already. -/
def Lands (d : Dev (List UInt8)) (o : Outcome) (block : BitVec 32) (bytes : List UInt8) : Prop :=
  o.moves = true ∧ sectorOf block = block ∨
    d.disk block = bytes ∧ (o.moves = true → d.disk (sectorOf block) = bytes)

section Success

variable {D : Type} {f : BitVec 32 → D} {a b : BitVec 32} {x : D}

theorem update_eq_update : update f a x = update f b x ↔ a = b ∨ f a = x ∧ f b = x := by
  constructor
  · intro h
    by_cases hab : a = b
    · exact .inl hab
    · right
      have ha := congrFun h a
      have hb := congrFun h b
      rw [update_self, update_of_ne hab] at ha
      rw [update_self, update_of_ne (Ne.symm hab)] at hb
      exact ⟨ha.symm, hb⟩
  · rintro (rfl | ⟨rfl, hb⟩)
    · rfl
    · rw [update_eq_self, ← hb, update_eq_self]

variable {blocks block : BitVec 32} {os : Nat → Outcome} {d : Dev (List UInt8)} {mem : Memory}
variable {data : Addr}

theorem stores_iff (h : Idle d) : Stores blocks os d mem data block ↔
      Refused blocks block os ∨ Lands d (os 0) block (mem.load data 512) := by
  by_cases href : Refused blocks block os
  · refine iff_of_true ?_ (.inl href)
    intro r hr
    rw [sfsWblock_refused h href] at hr
    cases hr
  · obtain ⟨r, hr, hdisk⟩ := @sfsWblock_eq blocks block os data mem d h href
    have hstores : Stores blocks os d mem data block ↔
        r.dev.disk = update d.disk block (mem.load data 512) := by
      constructor
      · exact fun hall => hall r hr
      · intro heq r' hr'
        rw [hr] at hr'
        cases hr'
        exact heq
    rw [hstores, hdisk, or_iff_right href]
    unfold Lands
    cases (os 0).moves with
    | true => simp only [if_true, update_eq_update, true_and, true_imp_iff, and_comm]
    | false =>
      simp only [Bool.false_eq_true, if_false, false_and, false_or, false_imp_iff, and_true]
      rw [eq_comm, update_eq_self_iff, eq_comm]

theorem fetches_iff (h : Idle d) : Fetches blocks os d mem data block ↔
      blocks < sectorOf block + 1 ∨ (∀ j ≤ 10, os j ≠ .ok) ∨
        d.disk (sectorOf block) = d.disk block := by
  by_cases href : blocks < sectorOf block + 1
  · refine iff_of_true ?_ (.inl href)
    intro r hr
    have hlhd : lhdIo blocks os ⟨d, mem, sfsUio data block .UIO_READ, 0⟩ = _ :=
      (lhdIo_sfsUio .UIO_READ).trans (if_pos href)
    unfold sfsRblock at hr
    rw [sfsRwblock_succ 9 hlhd, if_pos rfl] at hr
    cases hr
  · have hread := @sfsRwblock_read blocks block os data mem d 0 h href 10
    simp only [zero_add] at hread
    obtain ⟨⟨j, hj, hok⟩, r, hr, hmem⟩ | ⟨hnone, r, hr⟩ := hread
    · have hload : r.mem.load data 512 = d.disk (sectorOf block) := by
        have hstore := @load_store mem data (d.disk (sectorOf block)) (by rw [h.sectors]; decide)
        rwa [h.sectors, ← hmem] at hstore
      rw [or_iff_right href, or_iff_right fun hnone => hnone j hj hok, ← hload]
      constructor
      · exact fun hall => hall r hr
      · intro heq r' hr'
        unfold sfsRblock at hr'
        rw [hr] at hr'
        cases hr'
        exact heq
    · refine iff_of_true ?_ (.inr (.inl hnone))
      intro r' hr'
      unfold sfsRblock at hr'
      rw [hr] at hr'
      cases hr'

/-- A write reports success after its first operation, whatever came of it. -/
theorem block_io_iff (blocks block : BitVec 32) (os : Nat → Outcome) (d : Dev (List UInt8))
    (h : Idle d) (mem : Memory) (data : Addr) :
    (Stores blocks os d mem data block ↔
      Refused blocks block os ∨ Lands d (os 0) block (mem.load data 512)) ∧
    (Fetches blocks os d mem data block ↔ blocks < sectorOf block + 1 ∨ (∀ j ≤ 10, os j ≠ .ok) ∨
        d.disk (sectorOf block) = d.disk block) :=
  ⟨stores_iff h, fetches_iff h⟩

def blank : Dev (List UInt8) :=
  (init (T := Unit) 0 (List.replicate 512 0) fun _ => List.replicate 512 0).dev

theorem blank_idle : Idle blank where
  done := rfl
  stat := rfl
  outstanding := rfl
  buffer := List.length_replicate
  sectors _ := List.length_replicate

theorem not_refused (os : Nat → Outcome) : ¬ Refused 8 3 os := by
  have hfirst : ¬ (8 : BitVec 32) < sectorOf 3 + 1 := by decide
  have hnext : ¬ (8 : BitVec 32) < sectorOf (3 + 1) := by decide
  exact not_or.mpr ⟨hfirst, fun hretry => hnext hretry.2⟩

/-- The second try has nothing to do, and succeeds without the sector having changed. -/
theorem write_lost :
    ∃ r, sfsWblock 8 (fun _ => .media false) blank (fun _ => 1) 0x80001000 3 = some (r, none) ∧
      r.dev.disk 3 = List.replicate 512 0 := by
  obtain ⟨r, hr, hdisk⟩ :=
    @sfsWblock_eq 8 3 (fun _ => .media false) 0x80001000 (fun _ => 1) blank blank_idle (not_refused _)
  refine ⟨r, hr, ?_⟩
  rw [hdisk]
  rfl

theorem block_io_iff_ok : Idle blank ∧ Stores 8 (fun _ => .ok) blank (fun _ => 1) 0x80001000 3 := by
  refine ⟨blank_idle, ?_⟩
  apply (block_io_iff 8 3 (fun _ => .ok) blank blank_idle (fun _ => 1) 0x80001000).1.mpr
  exact .inr (.inl ⟨rfl, by decide⟩)

end Success

section Machine

variable {T D : Type} [DecidableEq T] {s : State T D} {d' : Dev D} {t : T} {io : Io} {data : Option D}
variable {o : Outcome} {blocks : BitVec 32}

def operation (t : T) (x : D) (o : Outcome) : List (Label T D) :=
  [.run t x none, .run t x none] ++ (if o.moves then [.transfer] else []) ++
    [.complete o.completion, .irq, .run t x none]

theorem run_start (hrun : s.panicked = false) (hpc : s.pc t = .sect io data) (x : D) :
    run (step blocks) s [.run t x none, .run t x none] =
      some (goto { s with dev := { s.dev with sect := io.at }.start io.statval } t
        (.wait io data (s.dev.started + 1))) := by
  simp [run, step, go, goto, hrun, hpc, Bool.false_eq_true, Option.bind_some, update_self, update_idem]

theorem run_end {dev d : Dev D} {n : Nat} (hrun : s.panicked = false) (hworks : dev.works = true)
    (hmoved : o.completion = .ok → dev.moved = true) (hirq : lhdIrq (dev.complete o.completion) = some d)
    {done : Int} (hdone : takeCount d.done = some done) (x : D) :
    run (step blocks) (goto { s with dev } t (.wait io data n))
        [.complete o.completion, .irq, .run t x none] =
      some (goto { s with dev := { d with done } } t (.ready io data n)) := by
  have hpos : d.done ≠ 0 := by
    rintro hz
    rw [hz] at hdone
    cases hdone
  have hcomplete : step blocks (goto { s with dev } t (.wait io data n)) (.complete o.completion) =
      some (goto { s with dev := dev.complete o.completion } t (.wait io data n)) := by
    simp only [step, goto, hrun, Bool.false_eq_true, if_false]
    exact if_pos ⟨hworks, hmoved⟩
  have hhandle : step blocks (goto { s with dev := dev.complete o.completion } t (.wait io data n)) .irq =
      some (goto { s with dev := d } t (.wait io data n)) := by
    simp only [step, goto, hrun, hirq, Bool.false_eq_true, if_false]
  have hawait : step blocks (goto { s with dev := d } t (.wait io data n)) (.run t x none) =
      some (goto { s with dev := { d with done } } t (.ready io data n)) := by
    simp [step, go, goto, await, hrun, hpos, hdone, update_idem]
  simp only [run, hcomplete, hhandle, hawait, Option.bind_some]

theorem works_start (d : Dev D) (io : Io) : (d.start io.statval).works = true := by
  unfold Dev.works Dev.start
  simp [statval_working]

theorem works_transfer (d : Dev D) : d.transfer.works = d.works := by
  unfold Dev.transfer Dev.works
  split <;> rfl

theorem moved_transfer (d : Dev D) : d.transfer.moved = true := by
  unfold Dev.transfer
  split <;> rfl

theorem perform_run (hrun : s.panicked = false) (hpc : s.pc t = .sect io data)
    (hd : perform s.dev io o = some d') (x : D) :
    run (step blocks) s (operation t x o) =
      some (goto { s with dev := d' } t (.ready io data (s.dev.started + 1))) := by
  unfold perform at hd
  simp only [Option.bind_eq_bind, Option.bind_eq_some_iff, Option.pure_def, Option.some.injEq] at hd
  obtain ⟨d, hirq, done, hdone, rfl⟩ := hd
  have hworks := works_start { s.dev with sect := io.at } io
  unfold operation
  rw [List.append_assoc, run_append, run_start hrun hpc, Option.bind_some, run_append]
  by_cases hm : o.moves = true
  · rw [if_pos hm] at hirq ⊢
    have htransfer : step blocks (goto { s with dev := { s.dev with sect := io.at }.start io.statval } t
          (.wait io data (s.dev.started + 1))) .transfer =
        some (goto { s with dev := ({ s.dev with sect := io.at }.start io.statval).transfer } t
          (.wait io data (s.dev.started + 1))) := by
      simp [step, goto, hrun, hworks, Bool.false_eq_true]
    simp only [htransfer, Option.bind_some, run]
    exact run_end hrun (by rw [works_transfer, hworks]) (fun _ => moved_transfer _) hirq hdone x
  · rw [if_neg hm] at hirq ⊢
    refine run_end hrun hworks (fun hok => ?_) hirq hdone x
    cases o with
    | ok => exact absurd rfl hm
    | media moved => cases hok

theorem perform_run_ok : ∃ d', perform blank (one false 3) .ok = some d' ∧
    run (step 8) ⟨1, blank, fun _ => .sect (one false 3) none, false⟩ (operation () [] .ok) =
      some (goto ⟨1, d', fun _ => .sect (one false 3) none, false⟩ () (.ready (one false 3) none 1)) :=
  ⟨_, rfl, perform_run rfl rfl rfl []⟩

end Machine

end Os161.Lhd.Block
