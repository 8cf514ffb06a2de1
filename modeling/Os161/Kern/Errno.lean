import Mathlib.Data.Nat.Notation

/-! # The errors of `kern/include/kern/errno.h` -/

namespace Os161.Kern

inductive Errno where
  | EINVAL | EFAULT | ENAMETOOLONG | ENOMEM | EIO | ENOENT | ENOTDIR | EISDIR | EEXIST | EXDEV | EAGAIN
  | ESPIPE | EUNIMP | ENXIO | ENODEV | EBUSY | EIOCTL | ENOTEMPTY | ERANGE | ENOSPC | EMFILE | ENFILE
  | ENOSYS | ENOEXEC | E2BIG | EBADF
  deriving DecidableEq

/-- The errors stand above in the order of their numbers. -/
def Errno.code (e : Errno) : Int := e.ctorIdx + 1

end Os161.Kern
