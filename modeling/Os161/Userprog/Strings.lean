import Os161.Lib.Bytes
import Os161.Userprog.Uio

/-!
# Strings in memory

A load or a store that faults for good is a panic, as is a word at an odd address; only the copies
of `kern/lib/copyinout.c` get over a fault. A string without an end has no length.
-/

open Os161.Lib Os161.Kern Option

namespace Os161.Userprog.Strings

def loadByte (cur : Thread) (mem : Memory) (a : Addr) : Option UInt8 :=
  if cur.faults a then none else some (mem a)

def storeByte (cur : Thread) (mem : Memory) (a : Addr) (ch : UInt8) : Option Memory :=
  if cur.faults a then none else some (mem.store a [ch])

def wordable (cur : Thread) (a : Addr) : Bool := a.toNat % 4 = 0 && cur.reach a 4 = 4

def loadWord (cur : Thread) (mem : Memory) (a : Addr) : Option Addr :=
  if wordable cur a then some (BitVec.ofNat 32 (wordAt (fun i => mem (a + BitVec.ofNat 32 i)) 0))
  else none

def storeWord (cur : Thread) (mem : Memory) (a w : Addr) : Option Memory :=
  if wordable cur a then some (mem.store a (slice (ofWords fun _ => w.toNat) 0 4)) else none

def entry (array : Addr) (k : Nat) : Addr := array + BitVec.ofNat 32 (4 * k)

def stringFrom (cur : Thread) (mem : Memory) : Nat → Addr → Option (List UInt8)
  | 0, _ => none
  | n + 1, a => do
    let ch ← loadByte cur mem a
    if ch = 0 then return []
    return ch :: (← stringFrom cur mem n (a + 1))

/-- After 2^32 bytes the search is where it has started. -/
def stringAt (cur : Thread) (mem : Memory) (str : Addr) : Option (List UInt8) :=
  stringFrom cur mem (2 ^ 32) str

def strlen (cur : Thread) (mem : Memory) (str : Addr) : Option Nat :=
  (stringAt cur mem str).map List.length

def strcpyFrom (cur : Thread) : Nat → Memory → Addr → Addr → Option Memory
  | 0, _, _, _ => none
  | n + 1, mem, dest, src => do
    let ch ← loadByte cur mem src
    let mem ← storeByte cur mem dest ch
    if ch = 0 then return mem
    strcpyFrom cur n mem (dest + 1) (src + 1)

def strcpy (cur : Thread) (mem : Memory) (dest src : Addr) : Option Memory :=
  strcpyFrom cur (2 ^ 32) mem dest src

def copystr (cur : Thread) : (maxlen stoplen : Nat) → Memory → (dest src : Addr) →
    Memory × Option Errno
  | maxlen + 1, stoplen + 1, mem, dest, src =>
    if cur.faults src || cur.faults dest then (mem, some .EFAULT)
    else
      let ch := mem src
      let mem := mem.store dest [ch]
      if ch = 0 then (mem, none) else copystr cur maxlen stoplen mem (dest + 1) (src + 1)
  | maxlen, stoplen, mem, _, _ => (mem, some (if stoplen < maxlen then .EFAULT else .ENAMETOOLONG))

def copyoutstr (cur : Thread) (mem : Memory) (src userdest : Addr) (len : Nat) :
    Memory × Option Errno :=
  match copycheck userdest.toNat len with
  | .error e => (mem, some e)
  | .ok stoplen => copystr cur len stoplen mem userdest src

def fetchstr (cur : Thread) (mem : Memory) : (maxlen stoplen : Nat) → (src : Addr) →
    Except Errno (List UInt8)
  | maxlen + 1, stoplen + 1, src =>
    if cur.faults src then .error .EFAULT
    else if mem src = 0 then .ok []
    else (fetchstr cur mem maxlen stoplen (src + 1)).map (mem src :: ·)
  | maxlen, stoplen, _ => .error (if stoplen < maxlen then .EFAULT else .ENAMETOOLONG)

def copyinstr (cur : Thread) (mem : Memory) (usersrc : Addr) (len : Nat) :
    Except Errno (List UInt8) :=
  match copycheck usersrc.toNat len with
  | .error e => .error e
  | .ok stoplen => fetchstr cur mem len stoplen usersrc

theorem fetchstr_ok {cur : Thread} {mem : Memory} {maxlen stoplen : Nat} {src : Addr}
    {str : List UInt8} (h : fetchstr cur mem maxlen stoplen src = .ok str) :
    cur.faults src = false := by
  unfold fetchstr at h
  split at h
  · by_contra hfault
    rw [if_pos (eq_true_of_ne_false hfault)] at h
    cases h
  · cases h

end Os161.Userprog.Strings
