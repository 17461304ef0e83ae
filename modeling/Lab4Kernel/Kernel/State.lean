import Lab4Kernel.Sched.RunQueue
import Mathlib.Data.Fin.VecNotation
import Mathlib.Tactic.Simps.Basic

/-!
# The kernel state

The data of `kernel/include/task.h`, `kernel/include/lock.h`, `kernel/device.c` and
`kernel/sched/ctx_switch.c`, over an arbitrary type `T` of pointers to task control blocks.

* `Cpu`, `SchedContext`, `Tcb`, `Mutex`, `Dev`: registers, saved contexts and the C structures;
* `Kernel`: the whole state, with the interrupt mask bit and three ghost fields: `accesses` logs
  each access to a shared structure with the mask at that moment, `lost` logs the TCBs whose slot
  of `run_list` was overwritten, and `console` holds what `printf` wrote;
* the single writes of the source (`setSleepQueue`, `setLock`, …), each one `simps` definition.
-/

namespace Lab4Kernel

/-- A 32-bit word. -/
abbrev Word : Type := BitVec 32

/-- `OS_NUM_MUTEX`. -/
abbrev osNumMutex : ℕ := 32

/-- `NUM_DEVICES`. -/
abbrev numDevices : ℕ := 4

/-- A mutex id that passed the range check. -/
abbrev MutexId : Type := Fin osNumMutex

/-- A device number. -/
abbrev DevId : Type := Fin numDevices

/-- `EPERM`. -/
def eperm : ℤ := 1

/-- `ENOMEM`. -/
def enomem : ℤ := 12

/-- `EINVAL`. -/
def einval : ℤ := 22

/-- `EDEADLOCK`. -/
def edeadlock : ℤ := 58

/-! ## Registers and contexts -/

/-- The processor mode bits that matter here. -/
inductive Mode where
  | usr
  | svc
  deriving DecidableEq

/-- The registers. `sp` and `lr` are banked: one pair for user mode, one for supervisor mode. -/
structure Cpu where
  r0 : Word := 0
  r1 : Word := 0
  r2 : Word := 0
  r3 : Word := 0
  r4 : Word := 0
  r5 : Word := 0
  r6 : Word := 0
  r7 : Word := 0
  r8 : Word := 0
  r9 : Word := 0
  r10 : Word := 0
  r11 : Word := 0
  ip : Word := 0
  spUsr : Word := 0
  lrUsr : Word := 0
  spSvc : Word := 0
  lrSvc : Word := 0
  pc : Word := 0
  mode : Mode := .svc
  deriving DecidableEq

/-- `struct sched_context`. -/
structure SchedContext where
  r4 : Word := 0
  r5 : Word := 0
  r6 : Word := 0
  r7 : Word := 0
  r8 : Word := 0
  r9 : Word := 0
  r10 : Word := 0
  r11 : Word := 0
  sp : Word := 0
  lr : Word := 0
  deriving DecidableEq

namespace SchedContext

/-- The words of a context in memory, in the order in which the structure declares them. -/
def words (c : SchedContext) : Fin 10 → Word :=
  ![c.r4, c.r5, c.r6, c.r7, c.r8, c.r9, c.r10, c.r11, c.sp, c.lr]

/-- The context whose words in memory are `w`. -/
def ofWords (w : Fin 10 → Word) : SchedContext where
  r4 := w 0
  r5 := w 1
  r6 := w 2
  r7 := w 3
  r8 := w 4
  r9 := w 5
  r10 := w 6
  r11 := w 7
  sp := w 8
  lr := w 9

end SchedContext

namespace Cpu

/-- `stmia rN, {r4-r11,sp,lr}` in supervisor mode: the words stored, lowest register number at the
lowest address. -/
def stmia (c : Cpu) : Fin 10 → Word :=
  ![c.r4, c.r5, c.r6, c.r7, c.r8, c.r9, c.r10, c.r11, c.spSvc, c.lrSvc]

/-- `ldmfd rN, {r4-r11,sp,lr}` in supervisor mode. -/
def ldmfd (c : Cpu) (w : Fin 10 → Word) : Cpu :=
  { c with
    r4 := w 0, r5 := w 1, r6 := w 2, r7 := w 3, r8 := w 4, r9 := w 5, r10 := w 6, r11 := w 7
    spSvc := w 8, lrSvc := w 9 }

/-- `mov pc, lr` in supervisor mode. -/
def movPcLr (c : Cpu) : Cpu := { c with pc := c.lrSvc }

end Cpu

/-! ## Tasks, mutexes and devices -/

/-- `struct tcb`, less the kernel stack. -/
structure Tcb (T : Type) where
  nativePrio : Prio
  curPrio : Prio
  context : SchedContext := {}
  holdsLock : ℤ := 0
  sleepQueue : Option T := none

/-- `struct mutex`. -/
structure Mutex (T : Type) where
  bAvailable : Bool
  pHoldingTcb : Option T
  bLock : Bool
  pSleepQueue : Option T

/-- `struct dev`. -/
structure Dev (T : Type) where
  sleepQueue : Option T
  nextMatch : Word

/-- A shared structure: an entry of `gtMutex`, a device, or the run queue with its bitmaps. -/
inductive Shared where
  | mutex (m : MutexId)
  | device (d : DevId)
  | runQueue
  deriving DecidableEq

/-- The kernel state. -/
structure Kernel (T : Type) where
  tcb : T → Tcb T
  curTcb : Option T
  rq : RunQueue T
  gtMutex : MutexId → Mutex T
  devices : DevId → Dev T
  cpu : Cpu := {}
  masked : Bool := false
  console : List String := []
  accesses : List (Shared × Bool) := []
  lost : List T := []

namespace Kernel

variable {T : Type}

/-- `disable_interrupts`: sets the mask bit. -/
@[simps -fullyApplied] def disableInterrupts (s : Kernel T) : Kernel T := { s with masked := true }

/-- `enable_interrupts`: clears the mask bit. -/
@[simps -fullyApplied] def enableInterrupts (s : Kernel T) : Kernel T := { s with masked := false }

/-- Ghost: an access to a shared structure, with the mask bit at that moment. -/
@[simps -fullyApplied] def touch (a : Shared) (s : Kernel T) : Kernel T :=
  { s with accesses := (a, s.masked) :: s.accesses }

/-- `get_cur_tcb`. -/
def getCurTcb (s : Kernel T) : Option T := s.curTcb

/-- `t->sleep_queue = p`. -/
@[simps -fullyApplied] def setSleepQueue [DecidableEq T] (t : T) (p : Option T) (s : Kernel T) :
    Kernel T :=
  { s with tcb := Function.update s.tcb t { s.tcb t with sleepQueue := p } }

/-- `t->context = c`. -/
@[simps -fullyApplied] def setContext [DecidableEq T] (t : T) (c : SchedContext) (s : Kernel T) :
    Kernel T :=
  { s with tcb := Function.update s.tcb t { s.tcb t with context := c } }

/-- `cur_tcb = p`. -/
@[simps -fullyApplied] def setCurTcb (p : Option T) (s : Kernel T) : Kernel T :=
  { s with curTcb := p }

/-- `devices[d].sleep_queue = p`. -/
@[simps -fullyApplied] def setDevQueue (d : DevId) (p : Option T) (s : Kernel T) : Kernel T :=
  { s.touch (.device d) with
    devices := Function.update s.devices d { s.devices d with sleepQueue := p } }

/-- `devices[d].next_match = w`. -/
@[simps -fullyApplied] def setNextMatch (d : DevId) (w : Word) (s : Kernel T) : Kernel T :=
  { s.touch (.device d) with
    devices := Function.update s.devices d { s.devices d with nextMatch := w } }

/-- `gtMutex[m].bAvailable = b`. -/
@[simps -fullyApplied] def setAvailable (m : MutexId) (b : Bool) (s : Kernel T) : Kernel T :=
  { s.touch (.mutex m) with
    gtMutex := Function.update s.gtMutex m { s.gtMutex m with bAvailable := b } }

/-- `gtMutex[m].bLock = b`. -/
@[simps -fullyApplied] def setLock (m : MutexId) (b : Bool) (s : Kernel T) : Kernel T :=
  { s.touch (.mutex m) with
    gtMutex := Function.update s.gtMutex m { s.gtMutex m with bLock := b } }

/-- `gtMutex[m].pHolding_Tcb = p`. -/
@[simps -fullyApplied] def setHolding (m : MutexId) (p : Option T) (s : Kernel T) : Kernel T :=
  { s.touch (.mutex m) with
    gtMutex := Function.update s.gtMutex m { s.gtMutex m with pHoldingTcb := p } }

/-- `gtMutex[m].pSleep_queue = p`. -/
@[simps -fullyApplied] def setMutexQueue (m : MutexId) (p : Option T) (s : Kernel T) : Kernel T :=
  { s.touch (.mutex m) with
    gtMutex := Function.update s.gtMutex m { s.gtMutex m with pSleepQueue := p } }

/-- `runqueue_add(tcb, prio)`. A TCB found in the slot is recorded as lost. -/
@[simps -fullyApplied] def runqueueAdd (tcb : T) (prio : Prio) (s : Kernel T) : Kernel T :=
  { s.touch .runQueue with
    rq := s.rq.runqueueAdd tcb prio
    lost := (s.rq.runList prio).toList ++ s.lost }

/-- The state after `runqueue_remove(highest_prio())`. -/
@[simps -fullyApplied] def removeHighest (s : Kernel T) : Kernel T :=
  { s.touch .runQueue with rq := (s.rq.runqueueRemove s.rq.highestPrio).2 }

/-- The pointer that `runqueue_remove(highest_prio())` returns. -/
def highestTcb (s : Kernel T) : Option T := (s.rq.runqueueRemove s.rq.highestPrio).1

end Kernel

end Lab4Kernel
