import Lab4Kernel.Kernel.Dispatch

/-!
# Simulated devices

`kernel/device.c`: four devices with a period, a match value and a queue of sleeping tasks. The
loops take a bound on their number of iterations and return `none` when it does not suffice.

* `devInit`, `devWait`: initialisation, and the part of `dev_wait` before its context switch;
* `drain`: the loop that makes all sleepers of a device runnable;
* `devUpdate`: the timer's pass over all devices.
-/

namespace Lab4Kernel

/-- `dev_freq`. -/
def devFreq : DevId → Word := ![100, 200, 500, 50]

/-- `MAX_INT`. -/
def maxInt : Word := 0xFFFFFFFF

namespace Kernel

variable {T : Type}

/-- `dev_init`. -/
def devInit (s : Kernel T) : Kernel T :=
  { s with devices := fun i => { sleepQueue := none, nextMatch := devFreq i } }

variable [DecidableEq T]

/-- `dev_wait`, up to the context switch of its `dispatch_sleep`. -/
def devWait (dev : DevId) (s : Kernel T) : Option (Kernel T) :=
  let s := s.disableInterrupts
  match s.getCurTcb with
  | none => none
  | some curTcb =>
    let s := s.touch (.device dev)
    let s := s.setSleepQueue curTcb (s.devices dev).sleepQueue
    let s := s.setDevQueue dev (some curTcb)
    s.dispatchSleep

/-- `while (devices[i].sleep_queue != NULL) { … }`. The link of the TCB is read after the TCB was
added to the run queue, and cleared after the queue head was moved on. -/
def drain (i : DevId) : ℕ → Kernel T → Option (Kernel T)
  | fuel, s =>
    let s := s.touch (.device i)
    match (s.devices i).sleepQueue with
    | none => some s
    | some tempTcb =>
      match fuel with
      | 0 => none
      | fuel + 1 =>
        let s := s.runqueueAdd tempTcb (s.tcb tempTcb).curPrio
        let s := s.setDevQueue i (s.tcb tempTcb).sleepQueue
        let s := s.setSleepQueue tempTcb none
        drain i fuel s

/-- The `printf` of the overflow check. -/
def warnOverflow (i : DevId) (s : Kernel T) : Kernel T :=
  if maxInt - (s.devices i).nextMatch < devFreq i then
    { s with console := s.console ++ ["overflow in next match: " ++ toString i.val ++ " \n"] }
  else s

/-- The body of the loop of `dev_update`, for device `i`. -/
def devSignal (fuel : ℕ) (millis : Word) (i : DevId) (s : Kernel T) : Option (Kernel T) :=
  let s := s.touch (.device i)
  if (s.devices i).nextMatch = millis then
    (s.drain i fuel).map fun s =>
      let s := s.warnOverflow i
      s.setNextMatch i ((s.devices i).nextMatch + devFreq i)
  else some s

/-- `dev_update`: the devices are visited in the order of their numbers. -/
def devUpdate (fuel : ℕ) (millis : Word) (s : Kernel T) : Option (Kernel T) :=
  (List.finRange numDevices).foldlM (fun s i => s.devSignal fuel millis i) s

end Kernel

end Lab4Kernel
