import Mathlib.Data.BitVec
import Mathlib.Data.List.TakeWhile
import Os161.Userprog.Copyinout

/-!
# Transfers

`uiomove` and `mk_kuio` of `kern/userprog/uio.c`, with `copyin` and `copyout`. There is one memory:
below `USERTOP` it is that of the current process. The kernel's buffer is a list.
-/

open Os161.Kern List BitVec

namespace Os161.Userprog

abbrev Addr := BitVec 32

abbrev Memory := Addr → UInt8

namespace Memory

def load (mem : Memory) (base : Addr) (n : Nat) : List UInt8 :=
  (List.range n).map fun i => mem (base + BitVec.ofNat 32 i)

def store (mem : Memory) (base : Addr) (bs : List UInt8) : Memory := fun x =>
  if (x - base).toNat < bs.length then bs.getD (x - base).toNat 0 else mem x

end Memory

/-- The thread that makes the transfer. At some addresses `vm_fault` cannot help. -/
structure Thread where
  vmspace : Option Nat
  faults : Addr → Bool

def Thread.reach (cur : Thread) (base : Addr) (n : Nat) : Nat :=
  ((List.range n).takeWhile fun i => !cur.faults (base + BitVec.ofNat 32 i)).length

def copyable (cur : Thread) (userptr : Addr) (len : Nat) : Nat × Option Errno :=
  match copycheck userptr.toNat len with
  | .error e => (0, some e)
  | .ok stoplen =>
    if stoplen ≠ len then (0, some .EFAULT)
    else
      let n := cur.reach userptr len
      (n, if n < len then some .EFAULT else none)

def copyin (cur : Thread) (mem : Memory) (usersrc : Addr) (dest : List UInt8) :
    List UInt8 × Option Errno :=
  let (n, err) := copyable cur usersrc dest.length
  (mem.load usersrc n ++ dest.drop n, err)

def copyout (cur : Thread) (mem : Memory) (src : List UInt8) (userdest : Addr) :
    Memory × Option Errno :=
  let (n, err) := copyable cur userdest src.length
  (mem.store userdest (src.take n), err)

inductive Seg where
  | UIO_USERISPACE | UIO_USERSPACE | UIO_SYSSPACE
  deriving DecidableEq

inductive Rw where
  | UIO_READ | UIO_WRITE
  deriving DecidableEq

/-- `struct uio`; `base` and `len` are those of its `iovec`. -/
structure Uio where
  base : Addr
  len : BitVec 32
  offset : BitVec 32
  resid : BitVec 32
  segflg : Seg
  rw : Rw
  space : Option Nat
  deriving DecidableEq

def mkKuio (kbuf : Addr) (len : BitVec 32) (pos : BitVec 32) (rw : Rw) : Uio :=
  ⟨kbuf, len, pos, len, .UIO_SYSSPACE, rw, none⟩

def Uio.advance (uio : Uio) (size : Nat) : Uio := { uio with
    base := uio.base + BitVec.ofNat 32 size
    len := uio.len - BitVec.ofNat 32 size
    offset := uio.offset + BitVec.ofNat 32 size
    resid := uio.resid - BitVec.ofNat 32 size }

/-- `memmove` between the buffer `part` and memory. A fault is a panic here. -/
def memmove (cur : Thread) (mem : Memory) (uio : Uio) (part : List UInt8) :
    Option (List UInt8 × Memory) :=
  if cur.reach uio.base part.length < part.length then none
  else
    match uio.rw with
    | .UIO_READ => some (part, mem.store uio.base part)
    | .UIO_WRITE => some (mem.load uio.base part.length, mem)

def movePart (cur : Thread) (mem : Memory) (uio : Uio) (part : List UInt8) :
    Option (List UInt8 × Memory × Option Errno) :=
  match uio.segflg with
  | .UIO_SYSSPACE => (memmove cur mem uio part).map fun (part, mem) => (part, mem, none)
  | .UIO_USERSPACE | .UIO_USERISPACE =>
    match uio.rw with
    | .UIO_READ =>
      let (mem, err) := copyout cur mem part uio.base
      some (part, mem, err)
    | .UIO_WRITE =>
      let (part, err) := copyin cur mem uio.base part
      some (part, mem, err)

structure Moved where
  ptr : List UInt8
  mem : Memory
  uio : Uio
  err : Option Errno

theorem length_drop_lt {ptr : List UInt8} {resid : BitVec 32} {size : Nat}
    (h : ¬ (ptr = [] ∨ resid = 0)) (hsize : size ≠ 0) : (ptr.drop size).length < ptr.length := by
  have hpos := length_pos_iff.mpr (not_or.mp h).1
  rw [length_drop]
  omega

/-- The loop; `ptr` is what it has not got to yet. -/
def moveLoop (cur : Thread) (mem : Memory) (uio : Uio) (ptr : List UInt8) : Option Moved :=
  if _h : ptr = [] ∨ uio.resid = 0 then some ⟨ptr, mem, uio, none⟩
  else
    let size := min uio.len.toNat ptr.length
    if _hsize : size = 0 then none
    else
      match movePart cur mem uio (ptr.take size) with
      | none => none
      | some (part, mem, some e) => some ⟨part ++ ptr.drop size, mem, uio, some e⟩
      | some (part, mem, none) =>
        (moveLoop cur mem (uio.advance size) (ptr.drop size)).map fun r =>
          { r with ptr := part ++ r.ptr }
termination_by ptr.length
decreasing_by exact length_drop_lt _h _hsize

/-- `none` is a panic or a failed assertion. -/
def uiomove (cur : Thread) (mem : Memory) (uio : Uio) (ptr : List UInt8) : Option Moved :=
  if uio.space = (if uio.segflg = .UIO_SYSSPACE then none else cur.vmspace) then
    moveLoop cur mem uio ptr
  else none

section Lemmas

variable {cur : Thread} {mem mem' : Memory} {base x : Addr} {bs ptr : List UInt8} {n : Nat}
variable {uio : Uio}

@[simp]
theorem length_load : (mem.load base n).length = n := by simp [Memory.load]

theorem load_congr (h : ∀ i < n, mem (base + BitVec.ofNat 32 i) = mem' (base + BitVec.ofNat 32 i)) :
    mem.load base n = mem'.load base n :=
  map_congr_left fun i hi => h i (mem_range.mp hi)

theorem store_of_le (h : bs.length ≤ (x - base).toNat) : mem.store base bs x = mem x :=
  if_neg (not_lt.mpr h)

@[simp]
theorem store_nil : mem.store base [] = mem := funext fun _ => store_of_le (Nat.zero_le _)

theorem store_at {i : Nat} (hi : i < bs.length) (hlen : bs.length ≤ 2 ^ 32) :
    mem.store base bs (base + BitVec.ofNat 32 i) = bs[i] := by
  have hdist : (base + BitVec.ofNat 32 i - base).toNat = i := by
    rw [add_comm, add_sub_cancel, toNat_ofNat, Nat.mod_eq_of_lt (by omega)]
  unfold Memory.store
  rw [hdist, if_pos hi, getD_eq_getElem?_getD, List.getElem?_eq_getElem hi, Option.getD_some]

theorem load_store (hlen : bs.length ≤ 2 ^ 32) : (mem.store base bs).load base bs.length = bs := by
  apply ext_getElem length_load
  intro i hi hi'
  simp only [Memory.load, getElem_map, getElem_range]
  exact store_at hi' hlen

theorem load_add {m : Nat} :
    mem.load base (m + n) = mem.load base m ++ mem.load (base + BitVec.ofNat 32 m) n := by
  simp [Memory.load, range_add, map_append, map_map, Function.comp_def, ofNat_add, add_assoc]

theorem store_append {bs' : List UInt8} (hlen : bs.length + bs'.length ≤ 2 ^ 32) :
    mem.store base (bs ++ bs') = (mem.store base bs).store (base + BitVec.ofNat 32 bs.length) bs' := by
  funext x
  have hdist : (x - (base + BitVec.ofNat 32 bs.length)).toNat =
      ((x - base).toNat + 2 ^ 32 - bs.length) % 2 ^ 32 := by
    rw [← sub_sub, toNat_sub, toNat_ofNat]
    omega
  have hlt := (x - base).isLt
  have hlength : (bs ++ bs').length = bs.length + bs'.length := length_append
  simp only [Memory.store, getD_eq_getElem?_getD]
  rw [hdist, hlength]
  generalize (x - base).toNat = d at hlt
  by_cases hfirst : d < bs.length
  · rw [if_pos (by omega), if_neg (by omega), if_pos hfirst, List.getElem?_append_left hfirst]
  · have hmod : (d + 2 ^ 32 - bs.length) % 2 ^ 32 = d - bs.length := by omega
    rw [hmod, if_neg hfirst, List.getElem?_append_right (Nat.le_of_not_lt hfirst)]
    by_cases hsecond : d < bs.length + bs'.length
    · rw [if_pos hsecond, if_pos (by omega)]
    · rw [if_neg hsecond, if_neg (by omega)]

theorem store_elsewhere (hx : ∀ i < n, x ≠ base + BitVec.ofNat 32 i)
    (hbs : bs.length ≤ n) : mem.store base bs x = mem x := by
  apply store_of_le
  apply Nat.le_of_not_lt
  intro hlt
  apply hx _ (lt_of_lt_of_le hlt hbs)
  rw [ofNat_toNat, setWidth_eq, add_comm base, sub_add_cancel]

theorem store_one_of_ne {ch : UInt8} (hx : x ≠ base) : mem.store base [ch] x = mem x := by
  apply store_elsewhere (n := 1) _ (by simp)
  intro i hi
  rwa [Nat.lt_one_iff.mp hi, BitVec.add_zero]

theorem next_addr (a : Addr) (i : Nat) : a + BitVec.ofNat 32 i + 1 = a + BitVec.ofNat 32 (i + 1) := by
  rw [ofNat_add, add_assoc]
  rfl

theorem reach_eq (h : ∀ i < n, cur.faults (base + BitVec.ofNat 32 i) = false) :
    cur.reach base n = n := by
  unfold Thread.reach
  rw [takeWhile_eq_self_iff.mpr, length_range]
  intro i hi
  rw [h i (mem_range.mp hi)]
  rfl

@[simp]
theorem advance_zero : uio.advance 0 = uio := by simp [Uio.advance]

theorem moveLoop_stop (h : ptr = [] ∨ uio.resid = 0) :
    moveLoop cur mem uio ptr = some ⟨ptr, mem, uio, none⟩ := by
  rw [moveLoop, dif_pos h]

theorem memmove_nil : memmove cur mem uio [] = some ([], mem) := by
  unfold memmove
  cases uio.rw <;> simp [Memory.load]

theorem advance_resid (h : n ≤ uio.resid.toNat) :
    (uio.advance n).resid.toNat = uio.resid.toNat - n := by
  unfold Uio.advance
  simp only [toNat_sub, toNat_ofNat]
  omega

theorem moveLoop_sys (hseg : uio.segflg = .UIO_SYSSPACE) (hlen : uio.len = uio.resid) :
    moveLoop cur mem uio ptr =
      (memmove cur mem uio (ptr.take (min uio.resid.toNat ptr.length))).map fun (part, mem) =>
        ⟨part ++ ptr.drop (min uio.resid.toNat ptr.length), mem,
          uio.advance (min uio.resid.toNat ptr.length), none⟩ := by
  generalize hk : min uio.resid.toNat ptr.length = k
  by_cases hz : ptr = [] ∨ uio.resid = 0
  · obtain rfl : k = 0 := by
      obtain rfl | hz := hz
      · simpa using hk.symm
      · simpa [hz] using hk.symm
    rw [moveLoop_stop hz, take_zero, memmove_nil]
    simp
  · have hpos := length_pos_iff.mpr (not_or.mp hz).1
    have hresid : uio.resid.toNat ≠ 0 := fun h0 => (not_or.mp hz).2 (eq_of_toNat_eq h0)
    have hend : ptr.drop k = [] ∨ (uio.advance k).resid = 0 := by
      rw [drop_eq_nil_iff]
      by_cases hle : ptr.length ≤ k
      · exact .inl hle
      · right
        apply eq_of_toNat_eq
        rw [advance_resid (by omega)]
        change uio.resid.toNat - k = 0
        omega
    rw [moveLoop, dif_neg hz]
    simp only [hlen, hk]
    rw [dif_neg (by omega)]
    unfold movePart
    simp only [hseg]
    cases memmove cur mem uio (ptr.take k) with
    | none => rfl
    | some r =>
      simp [moveLoop_stop hend]

theorem uiomove_sys (hseg : uio.segflg = .UIO_SYSSPACE) (hspace : uio.space = none)
    (hlen : uio.len = uio.resid) :
    uiomove cur mem uio ptr =
      (memmove cur mem uio (ptr.take (min uio.resid.toNat ptr.length))).map fun (part, mem) =>
        ⟨part ++ ptr.drop (min uio.resid.toNat ptr.length), mem,
          uio.advance (min uio.resid.toNat ptr.length), none⟩ := by
  unfold uiomove
  rw [if_pos hseg, if_pos hspace, moveLoop_sys hseg hlen]

end Lemmas

end Os161.Userprog
