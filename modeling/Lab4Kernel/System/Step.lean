import Lab4Kernel.Place.Boot
import Lab4Kernel.Lib.Runs

/-!
# Tasks and the timer on one processor

The kernel with a point of control for every task, so that a call that is switched out in the middle
is continued where it left off. A step is a call of the current task, the next step of a current
task that was switched back in, or a timer interrupt.

* `Ctl`: what a task executes when it is current;
* `System`: the kernel, the points of control, and two ghost fields: who is inside which mutex, and
  which tasks `mutex_unlock` took off a queue and have not set `bLock` since;
* `System.step`: one step, with a bound on the iterations of the kernel's loops;
* `SystemRun`: the runs of the system.
-/

namespace Lab4Kernel

/-- The points of control outside `ctx_switch_full`. -/
inductive Pc where
  /-- Outside the kernel. -/
  | user
  /-- At the `enable_interrupts()` behind the `dispatch_sleep()` of `dev_wait`. -/
  | waitEnable
  /-- At `mutex_tmp->bLock = TRUE;`, behind the `dispatch_sleep()` of `mutex_lock`. -/
  | lockTake (m : MutexId)
  /-- At `mutex_tmp->pHolding_Tcb = cur_tcb;`. -/
  | lockHold (m : MutexId)
  /-- At the `enable_interrupts(); return 0;` of `mutex_lock`. -/
  | lockEnable (m : MutexId)
  deriving DecidableEq

/-- What a task executes when it is current: `launch_task`, or the `enable_interrupts()` behind its
`ctx_switch_full` call, or the code at a point of control. -/
inductive Ctl where
  | launch
  | switched (pc : Pc)
  | running (pc : Pc)
  deriving DecidableEq

/-- The kernel and its tasks. -/
structure System (T : Type) where
  kernel : Kernel T
  ctl : T → Ctl
  inside : T → MutexId → Bool
  taken : T → Option MutexId

/-- The kernel calls of a task. -/
inductive Call where
  | create
  | lock (i : ℤ)
  | unlock (i : ℤ)
  | wait (d : DevId)
  deriving DecidableEq

/-- The events of the system. A timer interrupt calls `dev_update(millis)`, and then
`dispatch_save` when `dispatch` is set. -/
inductive Event where
  | call (c : Call)
  | resume
  | timer (millis : Word) (dispatch : Bool)
  deriving DecidableEq

/-- The mutex of an id that is in range. -/
def mutexOf (i : ℤ) : Option MutexId :=
  if h : 0 ≤ i ∧ i.toNat < osNumMutex then some ⟨i.toNat, h.2⟩ else none

@[simp] theorem mutexOf_val (m : MutexId) : mutexOf (m.val : ℤ) = some m := by
  simp [mutexOf]

namespace System

variable {T : Type}

/-- The system at its start: no mutex was created, the current task is outside the kernel, and every
other task is about to be launched. -/
def start [DecidableEq T] (k : Kernel T) : System T where
  kernel := { k.mutexInit with masked := false, accesses := [] }
  ctl t := if k.curTcb = some t then .running .user else .launch
  inside _ _ := false
  taken _ := none

variable [DecidableEq T]

/-- The task enters or leaves the mutex. -/
def setInside (σ : System T) (t : T) (m : MutexId) (b : Bool) : T → MutexId → Bool :=
  Function.update σ.inside t (Function.update (σ.inside t) m b)

/-- What a call of `mutex_lock(i)` by `t` leaves behind. -/
def afterLock (σ : System T) (t : T) (i : ℤ) (p : Kernel.Outcome × Kernel T) : System T :=
  match p.1, mutexOf i with
  | .switchedOut, some m =>
    { σ with kernel := p.2, ctl := Function.update σ.ctl t (.switched (.lockTake m)) }
  | .returned r, some m =>
    if r = 0 then { σ with kernel := p.2, inside := σ.setInside t m true }
    else { σ with kernel := p.2 }
  | _, none => { σ with kernel := p.2 }

/-- What a call of `mutex_unlock(i)` by `t` leaves behind. -/
def afterUnlock (σ : System T) (t : T) (i : ℤ) (p : ℤ × Kernel T) : System T :=
  match mutexOf i with
  | none => { σ with kernel := p.2 }
  | some m =>
    if p.1 = 0 then
      { σ with
        kernel := p.2
        inside := σ.setInside t m false
        taken := match (σ.kernel.gtMutex m).pSleepQueue with
          | none => σ.taken
          | some next => Function.update σ.taken next (some m) }
    else { σ with kernel := p.2 }

/-- A kernel call by `t`. -/
def call (fuel : ℕ) (t : T) (σ : System T) : Call → Option (System T)
  | .create => some { σ with kernel := σ.kernel.mutexCreate.2 }
  | .lock i => (σ.kernel.mutexLock fuel i).map (σ.afterLock t i)
  | .unlock i => some (σ.afterUnlock t i (σ.kernel.mutexUnlock i))
  | .wait d => (σ.kernel.devWait d).map fun k =>
      { σ with kernel := k, ctl := Function.update σ.ctl t (.switched .waitEnable) }

/-- The next step of the current task `t`, at its point of control. -/
def resume (t : T) (σ : System T) : Option (System T) :=
  match σ.ctl t with
  | .launch => some { σ with
      kernel := σ.kernel.launch, ctl := Function.update σ.ctl t (.running .user) }
  | .switched pc => some { σ with
      kernel := σ.kernel.enableInterrupts, ctl := Function.update σ.ctl t (.running pc) }
  | .running .user => none
  | .running .waitEnable => some { σ with
      kernel := σ.kernel.enableInterrupts, ctl := Function.update σ.ctl t (.running .user) }
  | .running (.lockTake m) => some { σ with
      kernel := σ.kernel.lockTake m, ctl := Function.update σ.ctl t (.running (.lockHold m))
      taken := Function.update σ.taken t none }
  | .running (.lockHold m) => some { σ with
      kernel := σ.kernel.lockHold m (some t)
      ctl := Function.update σ.ctl t (.running (.lockEnable m)) }
  | .running (.lockEnable m) => some { σ with
      kernel := σ.kernel.enableInterrupts, ctl := Function.update σ.ctl t (.running .user)
      inside := σ.setInside t m true }

/-- A timer interrupt, which finds the current task `t` at `pc`. The processor masks interrupts on
entry and restores the mask bit on return. -/
def timer (fuel : ℕ) (millis : Word) (dispatch : Bool) (t : T) (pc : Pc) (σ : System T) :
    Option (System T) :=
  (σ.kernel.disableInterrupts.devUpdate fuel millis).bind fun k =>
    if dispatch then
      k.dispatchSave.map fun k =>
        { σ with kernel := k, ctl := Function.update σ.ctl t (.switched pc) }
    else some { σ with kernel := k.enableInterrupts }

/-- **One step of the system.** Interrupts are taken only while they are enabled, and calls are made
only from outside the kernel. -/
def step (fuel : ℕ) (σ : System T) (e : Event) : Option (System T) :=
  match σ.kernel.curTcb with
  | none => none
  | some t =>
    match e with
    | .call c => if σ.ctl t = .running .user then σ.call fuel t c else none
    | .resume => σ.resume t
    | .timer millis dispatch =>
      match σ.kernel.masked, σ.ctl t with
      | false, .running pc => σ.timer fuel millis dispatch t pc
      | _, _ => none

/-- The runs of the system, with the state before each step and its event. -/
abbrev SystemRun (fuel : ℕ) (σ₀ : System T) (tr : List (System T × Event)) (σ : System T) : Prop :=
  Runs.Run (fun σ e σ' => step fuel σ e = some σ') σ₀ tr σ

end System

end Lab4Kernel
