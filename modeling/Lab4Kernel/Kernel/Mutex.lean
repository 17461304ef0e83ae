import Lab4Kernel.Kernel.Dispatch
import Lab4Kernel.Lib.Intrusive

/-!
# Mutexes

`kernel/lock/mutex.c`. The source names the fields and locals of this file in more than one way
(`block` for `bLock`, `mut` for `mutex_tmp`, a declaration `cur_tcbget_cur_tab()` for
`cur_tcb = get_cur_tcb()`); they are read as the fields of `lock.h` and the locals declared.

* `mutexInit`, `mutexCreate`, `mutexUnlock`: these run to their `return`;
* `mutexLock`: runs to its `return`, or to the context switch of its `dispatch_sleep`;
* `lockTake`, `lockHold`: the two writes at the end of `mutex_lock`, which a task that blocked
  executes when it is switched back in.
-/

namespace Lab4Kernel.Kernel

variable {T : Type}

/-- How a call of `mutex_lock` ends: with a return value, or switched out in `dispatch_sleep`. -/
inductive Outcome where
  | returned (r : ℤ)
  | switchedOut
  deriving DecidableEq

/-- `mutex_init`. -/
def mutexInit (s : Kernel T) : Kernel T :=
  { s with
    gtMutex := fun _ =>
      { bAvailable := true, pHoldingTcb := none, bLock := false, pSleepQueue := none } }

/-- `for (j = …; j < OS_NUM_MUTEX; j++) if (gtMutex[j].bAvailable) break;` over the indices that
are left, with the index where the loop stops. -/
def firstAvailable : List MutexId → Kernel T → Option MutexId × Kernel T
  | [], s => (none, s)
  | j :: js, s =>
    let s := s.touch (.mutex j)
    if (s.gtMutex j).bAvailable then (some j, s) else firstAvailable js s

/-- `mutex_create`. -/
def mutexCreate (s : Kernel T) : ℤ × Kernel T :=
  let s := s.disableInterrupts
  let found := firstAvailable (List.finRange osNumMutex) s
  let s := found.2
  match found.1 with
  | some j =>
    let s := s.setAvailable j false
    (j.val, s.enableInterrupts)
  | none => (-enomem, s.enableInterrupts)

/-- `mutex_tmp->bLock = TRUE;` at the end of `mutex_lock`. -/
def lockTake (m : MutexId) (s : Kernel T) : Kernel T := s.setLock m true

/-- `mutex_tmp->pHolding_Tcb = cur_tcb;` at the end of `mutex_lock`. -/
def lockHold (m : MutexId) (curTcb : Option T) (s : Kernel T) : Kernel T := s.setHolding m curTcb

/-- The rest of `mutex_lock` in a task that is switched back in, without a preemption: the
`enable_interrupts()` of `dispatch_sleep`, the two writes, and the `enable_interrupts()` behind
them. The local `cur_tcb` is the task itself. -/
def lockRest (m : MutexId) (s : Kernel T) : Kernel T :=
  let curTcb := s.getCurTcb
  let s := s.enableInterrupts
  let s := s.lockTake m
  let s := s.lockHold m curTcb
  s.enableInterrupts

variable [DecidableEq T]

/-- The queueing code of `mutex_lock`: the caller becomes the head of an empty queue, or is linked
behind the last TCB that the walk over the queue finds. -/
def enqueue (fuel : ℕ) (m : MutexId) (curTcb : T) (s : Kernel T) : Option (Kernel T) :=
  let s := s.touch (.mutex m)
  match (s.gtMutex m).pSleepQueue with
  | none =>
    let s := s.setMutexQueue m (some curTcb)
    some (s.setSleepQueue curTcb none)
  | some sleepTcb =>
    let s := s.touch (.mutex m)
    match Intrusive.walk (fun t => (s.tcb t).sleepQueue) fuel (some sleepTcb) none with
    | some (some tmpTcb) =>
      let s := s.touch (.mutex m)
      let s := s.setSleepQueue tmpTcb (some curTcb)
      some (s.setSleepQueue curTcb none)
    | _ => none

/-- `mutex_lock`, up to its `return` or to the context switch of its `dispatch_sleep`. -/
def mutexLock (fuel : ℕ) (mutex : ℤ) (s : Kernel T) : Option (Outcome × Kernel T) :=
  let curTcb := s.getCurTcb
  let s := s.disableInterrupts
  if h : mutex < 0 ∨ mutex ≥ osNumMutex then some (.returned (-einval), s.enableInterrupts)
  else
    let m : MutexId := ⟨mutex.toNat, by omega⟩
    let s := s.touch (.mutex m)
    if (s.gtMutex m).bAvailable then some (.returned (-einval), s.enableInterrupts)
    else
      let s := s.touch (.mutex m)
      if (s.gtMutex m).pHoldingTcb = curTcb then some (.returned (-edeadlock), s.enableInterrupts)
      else
        let s := s.touch (.mutex m)
        if (s.gtMutex m).bLock then
          match curTcb with
          | none => none
          | some cur =>
            ((s.enqueue fuel m cur).bind dispatchSleep).map fun s => (.switchedOut, s)
        else
          let s := s.lockTake m
          let s := s.lockHold m curTcb
          some (.returned 0, s.enableInterrupts)

/-- `mutex_unlock`. -/
def mutexUnlock (mutex : ℤ) (s : Kernel T) : ℤ × Kernel T :=
  let curTcb := s.getCurTcb
  let s := s.disableInterrupts
  if h : mutex < 0 ∨ mutex ≥ osNumMutex then (-einval, s.enableInterrupts)
  else
    let m : MutexId := ⟨mutex.toNat, by omega⟩
    let s := s.touch (.mutex m)
    if (s.gtMutex m).bAvailable then (-einval, s.enableInterrupts)
    else
      let s := s.touch (.mutex m)
      if curTcb ≠ (s.gtMutex m).pHoldingTcb then (-eperm, s.enableInterrupts)
      else
        let s := s.setLock m false
        let s := s.setHolding m none
        let s := s.touch (.mutex m)
        match (s.gtMutex m).pSleepQueue with
        | none => (0, s.enableInterrupts)
        | some nextTcb =>
          let s := s.setMutexQueue m (s.tcb nextTcb).sleepQueue
          let s := s.setSleepQueue nextTcb none
          let s := s.runqueueAdd nextTcb (s.tcb nextTcb).curPrio
          (0, s.enableInterrupts)

end Lab4Kernel.Kernel
