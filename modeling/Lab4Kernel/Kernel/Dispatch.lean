import Lab4Kernel.Kernel.State

/-!
# Context switches and the dispatcher

`kernel/sched/ctx_switch.c` and `kernel/sched/ctx_switch_asm.S`. A dispatch function is modelled up
to the return of its context switch: from there the code of the task switched to runs, which is
either `launch_task` or the `enable_interrupts()` behind that task's own `ctx_switch_full` call.

* `ctxSwitchFull`, `ctxSwitchHalf`, `launchTask`: the assembly routines;
* `dispatchSave`, `dispatchNosave`, `dispatchSleep`: `none` is the dereference of a `NULL`
  `cur_tcb`; a `NULL` TCB taken from the run queue becomes `cur_tcb`, as in the source.
-/

namespace Lab4Kernel.Kernel

variable {T : Type}

/-- `ctx_switch_half(&next->context)`. Nothing is said about the words at address `NULL`: no code
of the model runs after a switch to `NULL`. -/
@[simps -fullyApplied] def ctxSwitchHalf (next : Option T) (s : Kernel T) : Kernel T :=
  { s with
    cpu := match next with
      | none => s.cpu
      | some rm => (s.cpu.ldmfd (s.tcb rm).context.words).movPcLr }

/-- `ctx_switch_full(&next->context, &cur->context)`: the current context is stored first. -/
def ctxSwitchFull [DecidableEq T] (next : Option T) (cur : T) (s : Kernel T) : Kernel T :=
  (s.setContext cur (.ofWords s.cpu.stmia)).ctxSwitchHalf next

/-- The registers at the exit of `launch_task`. `msr cpsr_c` selects the banked registers of user
mode, which the two writes after it address. -/
def launchTask (c : Cpu) : Cpu :=
  let c := { c with r0 := c.r5 }
  let c := { c with r1 := 0, r2 := 0, r3 := 0, r5 := 0, r8 := 0, ip := 0 }
  let c := { c with mode := .usr }
  let c := { c with spUsr := c.r6 }
  let c := { c with r6 := 0 }
  let c := { c with lrUsr := 0xdeadbeef }
  { c with pc := c.r4 }

/-- `launch_task`: `PSR_MODE_USR` has both mask bits clear. -/
@[simps -fullyApplied] def launch (s : Kernel T) : Kernel T :=
  { s with cpu := launchTask s.cpu, masked := false }

/-- `dispatch_save`, up to its context switch. The queue is searched before the caller is added. -/
def dispatchSave [DecidableEq T] (s : Kernel T) : Option (Kernel T) :=
  let s := s.disableInterrupts
  match s.curTcb with
  | none => none
  | some tmp =>
    let rm := s.highestTcb
    let s := s.removeHighest
    let s := s.runqueueAdd tmp (s.tcb tmp).nativePrio
    let s := s.setCurTcb rm
    some (s.ctxSwitchFull rm tmp)

/-- `dispatch_nosave`, up to its context switch. -/
def dispatchNosave (s : Kernel T) : Kernel T :=
  let s := s.disableInterrupts
  let rm := s.highestTcb
  let s := s.removeHighest
  let s := s.setCurTcb rm
  s.ctxSwitchHalf rm

/-- `dispatch_sleep`, up to its context switch. -/
def dispatchSleep [DecidableEq T] (s : Kernel T) : Option (Kernel T) :=
  let s := s.disableInterrupts
  match s.curTcb with
  | none => none
  | some tmp =>
    let rm := s.highestTcb
    let s := s.removeHighest
    let s := s.setCurTcb rm
    some (s.ctxSwitchFull rm tmp)

/-! ## The dispatch functions, called by a current task -/

variable [DecidableEq T] {s : Kernel T} {c : T}

theorem dispatchSave_of_cur (hc : s.curTcb = some c) :
    s.dispatchSave = some ((((s.disableInterrupts.removeHighest).runqueueAdd c
      (s.tcb c).nativePrio).setCurTcb s.highestTcb).ctxSwitchFull s.highestTcb c) := by
  simp only [dispatchSave, disableInterrupts_curTcb, hc]
  rfl

theorem dispatchSleep_of_cur (hc : s.curTcb = some c) :
    s.dispatchSleep = some (((s.disableInterrupts.removeHighest).setCurTcb
      s.highestTcb).ctxSwitchFull s.highestTcb c) := by
  simp only [dispatchSleep, disableInterrupts_curTcb, hc]
  rfl

end Lab4Kernel.Kernel
