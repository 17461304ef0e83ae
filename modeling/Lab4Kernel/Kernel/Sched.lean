import Lab4Kernel.Kernel.State

/-!
# Setting up tasks

`kernel/sched/sched.c`. `tcp->sleep_queue` is read as `tcb->sleep_queue` and `a_tasks` as the given
task list. The addresses of `launch_task`, of `idle` and of the tops of the kernel stacks are
parameters.

* `initTask`: `init_task`, on one TCB;
* `schedInit`, `allocateTasks`: over the array `system_tcb`;
* `allocateLoop_eq`: the TCBs after the loop, in closed form.
-/

namespace Lab4Kernel

/-- `struct task`, less the times `C` and `T`, which nothing here reads. -/
structure Task where
  lambda : Word
  data : Word
  stackPos : Word
  deriving DecidableEq

/-- `init_task`. The word `r8` of the context is not set. -/
def initTask {T : Type} (launchTask kstackHigh : Word) (task : Task) (tcb : Tcb T) (prio : Prio) :
    Tcb T :=
  let tcb := { tcb with nativePrio := prio }
  let tcb := { tcb with curPrio := prio }
  let context := { tcb.context with
    r4 := task.lambda, r5 := task.data, r6 := task.stackPos, sp := kstackHigh, lr := launchTask }
  let context := { context with r7 := 0, r9 := 0, r10 := 0, r11 := 0 }
  let tcb := { tcb with context := context, holdsLock := 0 }
  { tcb with sleepQueue := none }

/-! ## The array `system_tcb` -/

/-- An index of `system_tcb`. -/
abbrev TcbIndex : Type := Fin osMaxTasks

variable (launchTask idle : Word) (kstackHigh : TcbIndex → Word)

/-- `init_task(task, &system_tcb[t], prio)`. -/
def initSystemTcb (task : Task) (t : TcbIndex) (prio : Prio) (s : Kernel TcbIndex) :
    Kernel TcbIndex :=
  { s with
    tcb := Function.update s.tcb t (initTask launchTask (kstackHigh t) task (s.tcb t) prio) }

/-- `sched_init(main_task)`, with the descriptor that it fills in. -/
def schedInit (mainTask : Task) (s : Kernel TcbIndex) : Task × Kernel TcbIndex :=
  let mainTask := { mainTask with lambda := idle }
  let mainTask := { mainTask with data := 0 }
  let mainTask := { mainTask with stackPos := kstackHigh idlePrio }
  let s := initSystemTcb launchTask kstackHigh mainTask idlePrio idlePrio s
  (mainTask, s.runqueueAdd idlePrio idlePrio)

/-- The loop of `allocate_tasks` from index `i` on; `none` is an index outside `system_tcb`. -/
def allocateLoop (i : ℕ) : List Task → Kernel TcbIndex → Option (Kernel TcbIndex)
  | [], s => some s
  | task :: tasks, s =>
    if h : i + 1 < osMaxTasks then
      allocateLoop (i + 1) tasks
        (initSystemTcb launchTask kstackHigh task ⟨i + 1, h⟩ ⟨i + 1, h⟩ s)
    else none

/-- `allocate_tasks`. -/
def allocateTasks (tasks : List Task) (s : Kernel TcbIndex) : Option (Kernel TcbIndex) :=
  allocateLoop launchTask kstackHigh 0 tasks s

/-- The TCB `t` once the loop went over `tasks` from index `i` on. -/
def allocated (i : ℕ) (tasks : List Task) (tcb : TcbIndex → Tcb TcbIndex) (t : TcbIndex) :
    Tcb TcbIndex :=
  if i < t.val then
    match tasks[t.val - (i + 1)]? with
    | some task => initTask launchTask (kstackHigh t) task (tcb t) t
    | none => tcb t
  else tcb t

theorem allocateLoop_eq {i : ℕ} {tasks : List Task} (s : Kernel TcbIndex)
    (h : i + tasks.length < osMaxTasks) : allocateLoop launchTask kstackHigh i tasks s =
      some { s with tcb := allocated launchTask kstackHigh i tasks s.tcb } := by
  induction tasks generalizing i s with
  | nil =>
    have hnone : allocated launchTask kstackHigh i [] s.tcb = s.tcb := by
      funext t
      simp [allocated]
    rw [hnone]
    rfl
  | cons task tasks ih =>
    rw [List.length_cons] at h
    have hi : i + 1 < osMaxTasks := by omega
    rw [allocateLoop, dif_pos hi, ih _ (by omega)]
    simp only [initSystemTcb, Option.some.injEq, Kernel.mk.injEq, and_true]
    funext t
    unfold allocated
    rcases Nat.lt_trichotomy t.val (i + 1) with hlt | heq | hgt
    · have hne : t ≠ ⟨i + 1, hi⟩ := fun e => absurd (congrArg Fin.val e) hlt.ne
      rw [if_neg (by omega), if_neg (by omega), Function.update_of_ne hne]
    · have ht : t = ⟨i + 1, hi⟩ := Fin.ext heq
      subst ht
      simp
    · have hne : t ≠ ⟨i + 1, hi⟩ := fun e => absurd (congrArg Fin.val e) hgt.ne'
      have hindex : t.val - (i + 1) = t.val - (i + 1 + 1) + 1 := by omega
      rw [if_pos hgt, if_pos (by omega), Function.update_of_ne hne, hindex,
        List.getElem?_cons_succ]

end Lab4Kernel
