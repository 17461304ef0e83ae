import Lab4Kernel.Sched.RunQueueMap
import Lab4Kernel.Place.Allocate
import Lab4Kernel.Place.Conservation
import Lab4Kernel.Place.Priority
import Lab4Kernel.System.Mask
import Lab4Kernel.System.Waiters
import Lab4Kernel.System.Fifo
import Lab4Kernel.System.Periodic
import Lab4Kernel.System.Catchup
import Lab4Kernel.System.Contexts
import Lab4Kernel.System.Deadlock
import Lab4Kernel.System.Create
import Lab4Kernel.System.Progress
import Lab4Kernel.Syscall.Read
import Lab4Kernel.Syscall.Editor
import Lab4Kernel.Syscall.Write
import Lab4Kernel.Syscall.Sleep
import Lab4Kernel.Kernel.Math
import Lab4Kernel.Libc.Memmove
import Lab4Kernel.Libc.BitNames
import Lab4Kernel.Libc.Sprintf
import Lab4Kernel.Libc.ReadBack
import Lab4Kernel.Libc.ScanBack
import Lab4Kernel.System.Interrupt
import Lab4Kernel.Libc.StringCopy
import Lab4Kernel.Libc.Printf
import Lab4Kernel.Libc.Swi
import Lab4Kernel.Libc.Rand
import Lab4Kernel.Libc.Hexdump
