import Os161.Kern.Errno

/-!
# User addresses

The check of `kern/lib/copyinout.c` on an address from user level. Addresses and lengths are 32-bit
numbers.
-/

open Os161.Kern

namespace Os161.Userprog

abbrev USERTOP : Nat := 0x80000000

def add32 (a b : Nat) : Nat := if a + b < 0x100000000 then a + b else a + b - 0x100000000

def sub32 (a b : Nat) : Nat := if b ≤ a then a - b else a + 0x100000000 - b

def copycheck (userptr len : Nat) : Except Errno Nat := let bot := userptr
  let top := sub32 (add32 bot len) 1
  if top < bot then .error .EFAULT
  else if USERTOP ≤ bot then .error .EFAULT
  else if USERTOP ≤ top then .ok (USERTOP - bot)
  else .ok len

theorem add32_eq {a b : Nat} (h : a + b < 0x100000000) : add32 a b = a + b := if_pos h

theorem sub32_eq {a b : Nat} (h : b ≤ a) : sub32 a b = a - b := if_pos h

theorem copycheck_eq {dest len : Nat} (hlen : 0 < len) (h : dest + len ≤ 0x80000000) :
    copycheck dest len = .ok len := by
  have htop : sub32 (add32 dest len) 1 = dest + len - 1 := by
    rw [add32_eq (by omega), sub32_eq (by omega)]
  unfold copycheck
  simp only [htop, USERTOP]
  rw [if_neg (by omega), if_neg (by omega), if_neg (by omega)]

theorem copycheck_ok {userptr len stoplen : Nat} (h : copycheck userptr len = .ok stoplen) :
    userptr < USERTOP := by
  apply Nat.lt_of_not_le
  intro hkernel
  simp only [copycheck, if_pos hkernel] at h
  split at h <;> cases h

end Os161.Userprog
