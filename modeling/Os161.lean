import Os161.Bitmap.Sets
import Os161.CatMouse.Bowls
import Os161.Console.Output
import Os161.Container.Lists
import Os161.Files.Descriptors
import Os161.Files.Pointers
import Os161.Files.SysOpen
import Os161.Kheap.Sizes
import Os161.Lamebus.Interrupt
import Os161.Lhd.Range
import Os161.Libc.Memmove
import Os161.Process.Exit
import Os161.Process.Fork
import Os161.Process.ProcLock
import Os161.Sfs.Discard
import Os161.Sfs.Format
import Os161.Sfs.Regular
import Os161.Sfs.Rename
import Os161.Synch.Proofs
import Os161.Synch.Signal
import Os161.Thread.Runs
import Os161.Userprog.Execv
import Os161.Userprog.Menu
import Os161.Userprog.Proofs
import Os161.Userprog.Uiomove
import Os161.Vfs.Bootfs
import Os161.Vfs.References
import Os161.Vm.Copy
import Os161.Vm.Entries
import Os161.Vm.Failed
import Os161.Vm.Headers
import Os161.Vm.Image
import Os161.Vm.Levels
import Os161.Vnode.Proofs
