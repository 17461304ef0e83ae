import Lab4Kernel.Kernel.Sched
import Mathlib.Data.Fin.VecNotation

/-!
# Allocating the TCBs

`sched_init` gives idle the last entry of `system_tcb`; `allocate_tasks` gives the task at position
`j` of its list the entry `j + 1`.

* `allocated_own`, `allocated_frame`: the TCB of each task, and the TCBs that are left alone;
* `not_allocatesApart_full`: the last task that the array has room for takes the TCB of idle;
* **`allocatesApart_iff`**: the tasks and idle are kept apart exactly below `IDLE_PRIO` tasks.
-/

namespace Lab4Kernel

variable (launchTask idle : Word) (kstackHigh : TcbIndex → Word) (mainTask : Task)
  (tasks : List Task) (s : Kernel TcbIndex)

/-- The state after `sched_init`. -/
def afterSchedInit : Kernel TcbIndex := (schedInit launchTask idle kstackHigh mainTask s).2

/-- The TCB of each task, when `own` gives the TCBs of the tasks, and the TCB of idle for `none`. -/
def ownOrIdle {n : ℕ} (own : Fin n → TcbIndex) : Option (Fin n) → TcbIndex
  | some j => own j
  | none => idlePrio

/-- In `k` each task has the TCB that `own` says, idle has kept its own, and no other TCB has
changed since `s`. -/
structure KeptApart (own : Fin tasks.length → TcbIndex) (k : Kernel TcbIndex) : Prop where
  native_eq : ∀ j, (k.tcb (own j)).nativePrio.val = j.val + 1
  cur_eq : ∀ j, (k.tcb (own j)).curPrio.val = j.val + 1
  r4_eq : ∀ j, (k.tcb (own j)).context.r4 = (tasks.get j).lambda
  r5_eq : ∀ j, (k.tcb (own j)).context.r5 = (tasks.get j).data
  r6_eq : ∀ j, (k.tcb (own j)).context.r6 = (tasks.get j).stackPos
  lr_eq : ∀ j, (k.tcb (own j)).context.lr = launchTask
  sp_eq : ∀ j, (k.tcb (own j)).context.sp = kstackHigh (own j)
  distinct : Function.Injective (ownOrIdle own)
  native_distinct : Function.Injective fun w => (k.tcb (ownOrIdle own w)).nativePrio
  cur_distinct : Function.Injective fun w => (k.tcb (ownOrIdle own w)).curPrio
  idle_context : (k.tcb idlePrio).context =
    ((afterSchedInit launchTask idle kstackHigh mainTask s).tcb idlePrio).context
  idle_queued : k.rq.runList idlePrio = some idlePrio
  frame : ∀ t, (∀ w, t ≠ ownOrIdle own w) → k.tcb t = s.tcb t

/-- `sched_init` and then `allocate_tasks` keep the tasks and idle apart. -/
def AllocatesApart : Prop :=
  ∃ k, allocateTasks launchTask kstackHigh tasks
      (afterSchedInit launchTask idle kstackHigh mainTask s) = some k ∧
    ∃ own, KeptApart launchTask idle kstackHigh mainTask tasks s own k

variable {launchTask idle kstackHigh mainTask tasks s}

theorem afterSchedInit_frame {t : TcbIndex} (ht : t ≠ idlePrio) :
    (afterSchedInit launchTask idle kstackHigh mainTask s).tcb t = s.tcb t :=
  Function.update_of_ne ht _ _

theorem afterSchedInit_idle :
    ((afterSchedInit launchTask idle kstackHigh mainTask s).tcb idlePrio).nativePrio = idlePrio ∧
    ((afterSchedInit launchTask idle kstackHigh mainTask s).tcb idlePrio).curPrio = idlePrio := by
  simp [afterSchedInit, schedInit, initSystemTcb, initTask]

theorem afterSchedInit_queued :
    (afterSchedInit launchTask idle kstackHigh mainTask s).rq.runList idlePrio = some idlePrio := by
  simp [afterSchedInit, schedInit, RunQueue.runList_add]

variable {k : Kernel TcbIndex}

theorem allocateTasks_total (launchTask : Word) (kstackHigh : TcbIndex → Word)
    (s : Kernel TcbIndex) (h : tasks.length < osMaxTasks) :
    ∃ k, allocateTasks launchTask kstackHigh tasks s = some k ∧
      k.tcb = allocated launchTask kstackHigh 0 tasks s.tcb ∧ k.rq = s.rq :=
  ⟨_, allocateLoop_eq launchTask kstackHigh s (by omega), rfl, rfl⟩

theorem allocated_own {tcb : TcbIndex → Tcb TcbIndex} {t : TcbIndex} {j : Fin tasks.length}
    (ht : t.val = j.val + 1) : allocated launchTask kstackHigh 0 tasks tcb t =
      initTask launchTask (kstackHigh t) (tasks.get j) (tcb t) t := by
  have hindex : t.val - (0 + 1) = j.val := by omega
  unfold allocated
  rw [if_pos (by omega), hindex, List.getElem?_eq_getElem j.isLt]
  rfl

theorem allocated_frame {tcb : TcbIndex → Tcb TcbIndex} {t : TcbIndex}
    (ht : t.val = 0 ∨ tasks.length < t.val) :
    allocated launchTask kstackHigh 0 tasks tcb t = tcb t := by
  unfold allocated
  split_ifs with hpos
  · rw [List.getElem?_eq_none (by omega)]
  · rfl

/-- The TCB of the task at position `j`. -/
def ownTcb (h : tasks.length < osMaxTasks) (j : Fin tasks.length) : TcbIndex :=
  ⟨j.val + 1, by omega⟩

theorem ownOrIdle_injective (h' : tasks.length < osMaxTasks)
    (h : tasks.length < idlePrio.val) : Function.Injective (ownOrIdle (ownTcb h')) := by
  have hne : ∀ j : Fin tasks.length, ownTcb h' j ≠ idlePrio := fun j e => by
    have hval : j.val + 1 = idlePrio.val := congrArg Fin.val e
    omega
  rintro (_ | i) (_ | j) e
  · rfl
  · exact absurd e.symm (hne j)
  · exact absurd e (hne i)
  · have hval : i.val + 1 = j.val + 1 := congrArg Fin.val e
    rw [Fin.ext (Nat.succ.inj hval)]

/-- With a list that fills `system_tcb` the last task takes the TCB of idle. -/
theorem not_allocatesApart_full (h : tasks.length = idlePrio.val) :
    ¬AllocatesApart launchTask idle kstackHigh mainTask tasks s := by
  rintro ⟨k, hk, own, hkept⟩
  have hlast : idlePrio.val - 1 < tasks.length := by
    rw [h]
    decide
  obtain ⟨k', hk', htcb, -⟩ := allocateTasks_total launchTask kstackHigh
    (afterSchedInit launchTask idle kstackHigh mainTask s)
    (show tasks.length < osMaxTasks by rw [h]; exact idlePrio.isLt)
  obtain rfl : k = k' := Option.some.inj (hk.symm.trans hk')
  have hidle : (k.tcb idlePrio).curPrio = idlePrio := by
    rw [htcb, allocated_own (j := ⟨idlePrio.val - 1, hlast⟩) rfl]
    rfl
  have htask : (k.tcb (own ⟨idlePrio.val - 1, hlast⟩)).curPrio = idlePrio :=
    Fin.ext (hkept.cur_eq ⟨idlePrio.val - 1, hlast⟩)
  have hsame := hkept.cur_distinct
    (show (k.tcb (ownOrIdle own (some _))).curPrio = (k.tcb (ownOrIdle own none)).curPrio from
      htask.trans hidle.symm)
  cases hsame

theorem allocatesApart (h : tasks.length < idlePrio.val) :
    AllocatesApart launchTask idle kstackHigh mainTask tasks s := by
  have hlen : tasks.length < osMaxTasks := h.trans idlePrio.isLt
  obtain ⟨k, hk, htcb, hrq⟩ := allocateTasks_total launchTask kstackHigh
    (afterSchedInit launchTask idle kstackHigh mainTask s) hlen
  have hown : ∀ j, k.tcb (ownTcb hlen j) = initTask launchTask (kstackHigh (ownTcb hlen j))
      (tasks.get j) ((afterSchedInit launchTask idle kstackHigh mainTask s).tcb (ownTcb hlen j))
      (ownTcb hlen j) := fun j => by
    rw [htcb]
    exact allocated_own rfl
  have hidle : k.tcb idlePrio =
      (afterSchedInit launchTask idle kstackHigh mainTask s).tcb idlePrio := by
    rw [htcb]
    exact allocated_frame (.inr h)
  -- every TCB concerned has its own index as its priority
  have hprio : ∀ w, (k.tcb (ownOrIdle (ownTcb hlen) w)).nativePrio = ownOrIdle (ownTcb hlen) w ∧
      (k.tcb (ownOrIdle (ownTcb hlen) w)).curPrio = ownOrIdle (ownTcb hlen) w := by
    rintro (_ | j)
    · rw [ownOrIdle, hidle]
      exact afterSchedInit_idle
    · rw [ownOrIdle, hown j]
      exact ⟨rfl, rfl⟩
  refine ⟨k, hk, ownTcb hlen, ?_⟩
  constructor
  case distinct => exact ownOrIdle_injective hlen h
  case native_distinct =>
    intro w w' e
    exact ownOrIdle_injective hlen h (((hprio w).1.symm.trans e).trans (hprio w').1)
  case cur_distinct =>
    intro w w' e
    exact ownOrIdle_injective hlen h (((hprio w).2.symm.trans e).trans (hprio w').2)
  case idle_context => exact congrArg Tcb.context hidle
  case idle_queued =>
    rw [hrq]
    exact afterSchedInit_queued
  case frame =>
    intro t ht
    have hne : t ≠ idlePrio := ht none
    have hout : t.val = 0 ∨ tasks.length < t.val := by
      by_contra hin
      rw [not_or] at hin
      have hj : t.val - 1 < tasks.length := by omega
      refine ht (some ⟨t.val - 1, hj⟩) (Fin.ext ?_)
      show t.val = t.val - 1 + 1
      omega
    rw [htcb, allocated_frame hout]
    exact afterSchedInit_frame hne
  -- what `init_task` wrote
  all_goals
    intro j
    rw [hown j]
    rfl

/-- **How many tasks are kept apart from each other and from idle.** -/
theorem allocatesApart_iff (launchTask idle : Word) (kstackHigh : TcbIndex → Word)
    (mainTask : Task) (s : Kernel TcbIndex) (tasks : List Task) (h : tasks.length < osMaxTasks) :
    AllocatesApart launchTask idle kstackHigh mainTask tasks s ↔ tasks.length < idlePrio.val := by
  refine ⟨fun hkept => ?_, allocatesApart⟩
  by_contra hge
  have hmax : osMaxTasks = idlePrio.val + 1 := rfl
  exact not_allocatesApart_full (by omega) hkept

/-- A state before `sched_init`: nothing is queued, and no TCB is set up. -/
def unscheduled : Kernel TcbIndex where
  tcb t := { nativePrio := t, curPrio := t }
  curTcb := none
  rq := .runqueueInit
  gtMutex _ := { bAvailable := false, pHoldingTcb := none, bLock := false, pSleepQueue := none }
  devices _ := { sleepQueue := none, nextMatch := 0 }

/-- The top of the kernel stack of a TCB of 4152 bytes. -/
def kstackTop (t : TcbIndex) : Word := 0xa3100000 + BitVec.ofNat 32 (4152 * (t.val + 1))

/-- A task with a stack of its own. -/
def userTask (n : ℕ) : Task where
  lambda := 0xa0000000
  data := BitVec.ofNat 32 n
  stackPos := 0xa3000000 - BitVec.ofNat 32 (1024 * n)

theorem allocatesApart_iff_two : AllocatesApart 0x100 0x200 kstackTop ⟨0, 0, 0⟩
    [userTask 0, userTask 1] unscheduled :=
  (allocatesApart_iff 0x100 0x200 kstackTop ⟨0, 0, 0⟩ unscheduled
    [userTask 0, userTask 1] (by decide)).mpr (by decide)

/-- As many tasks as there are entries for them, `OS_AVAIL_TASKS`. -/
theorem allocatesApart_fails :
    ((List.range 63).map userTask).length < osMaxTasks ∧
      ¬AllocatesApart 0x100 0x200 kstackTop ⟨0, 0, 0⟩ ((List.range 63).map userTask)
        unscheduled :=
  ⟨by decide, not_allocatesApart_full (by decide)⟩

end Lab4Kernel
