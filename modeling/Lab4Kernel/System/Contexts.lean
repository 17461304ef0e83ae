import Lab4Kernel.Place.Boot
import Lab4Kernel.Kernel.Sched
import Lab4Kernel.Lib.Runs

/-!
# Register contexts

The registers that a task has in a `ctx_switch_full` call are the ones it gets back when it is
switched in again. What a task does to the registers between two calls is arbitrary.

* `Cpu.preserved`: the registers `r4`–`r11`, `sp` and `lr`;
* `ldmfd_stmia`: the order in which `struct sched_context` declares its words is the order in which
  the assembly stores and loads them;
* `Switcher.step`: `dispatch_save` and `dispatch_sleep` by the current task, and wake-ups;
* **`contexts_isolated`**: in every run, each switch restores the registers of the task it switches
  to, or launches the task as `init_task` set it up.
-/

namespace Lab4Kernel

variable {T : Type}

/-- The registers `r4`–`r11`, `sp` and `lr`, in supervisor mode. -/
def Cpu.preserved (c : Cpu) : SchedContext where
  r4 := c.r4
  r5 := c.r5
  r6 := c.r6
  r7 := c.r7
  r8 := c.r8
  r9 := c.r9
  r10 := c.r10
  r11 := c.r11
  sp := c.spSvc
  lr := c.lrSvc

theorem ofWords_stmia (c : Cpu) : SchedContext.ofWords c.stmia = c.preserved := rfl

theorem preserved_ldmfd (c : Cpu) (x : SchedContext) : (c.ldmfd x.words).preserved = x := rfl

/-- Loading the words that a store left in memory gives the registers back. -/
theorem ldmfd_stmia (c c' : Cpu) :
    (c'.ldmfd (SchedContext.ofWords c.stmia).words).preserved = c.preserved := by
  rw [preserved_ldmfd, ofWords_stmia]

/-- The registers become what the current task made them. -/
@[simps -fullyApplied] def Kernel.setCpu (cpu : Cpu) (s : Kernel T) : Kernel T :=
  { s with cpu := cpu }

/-- The kernel with two ghost fields: the registers of each task in its last `ctx_switch_full`
call, and the tasks that `dispatch_sleep` switched out and no wake-up re-added. -/
structure Switcher (T : Type) where
  kernel : Kernel T
  saved : T → Option SchedContext
  asleep : T → Bool

/-- The events: a dispatch call of the current task, which made the registers `cpu`, or a
wake-up. -/
inductive SwitchEvent (T : Type) where
  | save (cpu : Cpu)
  | sleep (cpu : Cpu)
  | wake (t : T)

/-- A task's context is as `init_task` left it. -/
def Fresh (launchTask : Word) (task : Task) (x : SchedContext) : Prop :=
  x.r4 = task.lambda ∧ x.r5 = task.data ∧ x.r6 = task.stackPos ∧ x.lr = launchTask

theorem fresh_initTask (launchTask kstackHigh : Word) (task : Task) (tcb : Tcb T) (prio : Prio) :
    Fresh launchTask task (initTask launchTask kstackHigh task tcb prio).context :=
  ⟨rfl, rfl, rfl, rfl⟩

/-- The processor is about to launch the task: `launch_task` runs next, and enters user mode at the
entry point of the task, with its argument and its stack pointer. -/
def Launches (launchTask : Word) (task : Task) (cpu : Cpu) : Prop :=
  cpu.pc = launchTask ∧ (Kernel.launchTask cpu).mode = .usr ∧
    (Kernel.launchTask cpu).pc = task.lambda ∧ (Kernel.launchTask cpu).r0 = task.data ∧
    (Kernel.launchTask cpu).spUsr = task.stackPos

theorem launches_of_fresh {launchTask : Word} {task : Task} {x : SchedContext} (c : Cpu)
    (h : Fresh launchTask task x) : Launches launchTask task (c.ldmfd x.words).movPcLr := by
  obtain ⟨hr4, hr5, hr6, hlr⟩ := h
  exact ⟨hlr, rfl, hr4, hr5, hr6⟩

namespace Switcher

/-- What a switch owes to the task `r` that it switches to. -/
def Restores (launchTask : Word) (task : T → Task) (r : T) (σ : Switcher T) : Prop :=
  match σ.saved r with
  | some x => σ.kernel.cpu.preserved = x ∧ σ.kernel.cpu.pc = x.lr
  | none => Launches launchTask (task r) σ.kernel.cpu

/-- The state after boot: idle is current, the TCBs of `ts` were set up by `init_task` and added to
the run queue. -/
def start (tcb : T → Tcb T) (idle : T) (ts : List T) : Switcher T where
  kernel := boot tcb idle ts
  saved _ := none
  asleep _ := false

variable {launchTask : Word} {task : T → Task} {idle c t : T} {ts : List T}
  {σ σ' σ₀ : Switcher T} {tr : List (Switcher T × SwitchEvent T)}

/-- What the context of a task holds while the task is not current. -/
def Held (launchTask : Word) (task : T → Task) (saved : Option SchedContext) (t : T)
    (x : SchedContext) : Prop :=
  match saved with
  | some y => x = y
  | none => Fresh launchTask (task t) x

/-- Only idle and the tasks that were set up are ever current, queued or asleep, and the context of
each of them that is not current is the one it is owed. -/
structure Inv (launchTask : Word) (task : T → Task) (idle : T) (ts : List T) (σ : Switcher T) :
    Prop where
  agree : σ.kernel.rq.Agree
  current : ∀ t, σ.kernel.curTcb = some t → t = idle ∨ t ∈ ts
  queued : ∀ p t, σ.kernel.rq.runList p = some t → t = idle ∨ t ∈ ts
  asleep : ∀ t, σ.asleep t = true → t = idle ∨ t ∈ ts
  held : ∀ t, t = idle ∨ t ∈ ts → σ.kernel.curTcb ≠ some t →
    Held launchTask task (σ.saved t) t (σ.kernel.tcb t).context

theorem Inv.highest (h : Inv launchTask task idle ts σ)
    (hp : ∃ p, (σ.kernel.rq.runList p).isSome) : ∃ r, σ.kernel.highestTcb = some r ∧
      (r = idle ∨ r ∈ ts) := by
  rcases hr : σ.kernel.highestTcb with _ | r
  · obtain ⟨p, hp⟩ := hp
    rw [h.agree.runList_highestPrio_eq_none.mp hr p] at hp
    cases hp
  · exact ⟨r, rfl, h.queued _ r hr⟩

theorem Inv.queued_remove (h : Inv launchTask task idle ts σ) (p : Prio) (t : T)
    (ht : σ.kernel.removeHighest.rq.runList p = some t) : t = idle ∨ t ∈ ts := by
  rw [Kernel.removeHighest_rq, RunQueue.runList_remove] at ht
  split_ifs at ht
  exact h.queued p t ht

theorem Inv.queued_add {p q : Prio} (h : Inv launchTask task idle ts σ) (hc : c = idle ∨ c ∈ ts)
    (ht : (σ.kernel.removeHighest.rq.runqueueAdd c q).runList p = some t) : t = idle ∨ t ∈ ts := by
  rw [RunQueue.runList_add] at ht
  split_ifs at ht
  · exact Option.some.inj ht ▸ hc
  · exact h.queued_remove p t ht

variable [DecidableEq T]

/-- **One step**: the current task makes dispatch calls while the run queue is not empty,
`dispatch_sleep` not by idle, and a wake-up re-adds a task that `dispatch_sleep` switched out, at
its own priority. -/
def step (idle : T) (σ : Switcher T) (e : SwitchEvent T) : Option (Switcher T) :=
  match σ.kernel.curTcb with
  | none => none
  | some c =>
    match e with
    | .save cpu =>
      if ∃ p, (σ.kernel.rq.runList p).isSome then
        (σ.kernel.setCpu cpu).dispatchSave.map fun k =>
          { σ with kernel := k, saved := Function.update σ.saved c (some cpu.preserved) }
      else none
    | .sleep cpu =>
      if c ≠ idle ∧ ∃ p, (σ.kernel.rq.runList p).isSome then
        (σ.kernel.setCpu cpu).dispatchSleep.map fun k =>
          { kernel := k, saved := Function.update σ.saved c (some cpu.preserved)
            asleep := Function.update σ.asleep c true }
      else none
    | .wake t =>
      if σ.asleep t then
        some { σ with
          kernel := σ.kernel.runqueueAdd t (σ.kernel.tcb t).curPrio
          asleep := Function.update σ.asleep t false }
      else none

/-- The runs of the switcher. -/
abbrev SwitchRun (idle : T) (σ₀ : Switcher T) (tr : List (Switcher T × SwitchEvent T))
    (σ : Switcher T) : Prop :=
  Runs.Run (fun σ e σ' => step idle σ e = some σ') σ₀ tr σ

theorem context_ctxSwitchFull (s : Kernel T) (r : Option T) (t : T) :
    ((s.ctxSwitchFull r c).tcb t).context =
      if t = c then s.cpu.preserved else (s.tcb t).context := by
  by_cases e : t = c
  · subst e
    simp [Kernel.ctxSwitchFull, ofWords_stmia]
  · simp [Kernel.ctxSwitchFull, e]

theorem Inv.switch {s : Kernel T} {r : Option T} {asleep : T → Bool}
    (h : Inv launchTask task idle ts σ) (hc : σ.kernel.curTcb = some c)
    (hctx : ∀ t, (s.tcb t).context = (σ.kernel.tcb t).context) (hcur : s.curTcb = r)
    (hr : ∀ u, r = some u → u = idle ∨ u ∈ ts) (hagree : s.rq.Agree)
    (hqueued : ∀ p t, s.rq.runList p = some t → t = idle ∨ t ∈ ts)
    (hasleep : ∀ t, asleep t = true → t = idle ∨ t ∈ ts) :
    Inv launchTask task idle ts
      { kernel := s.ctxSwitchFull r c
        saved := Function.update σ.saved c (some s.cpu.preserved), asleep := asleep } ∧
    ∀ u, r = some u → Restores launchTask task u
      { kernel := s.ctxSwitchFull r c
        saved := Function.update σ.saved c (some s.cpu.preserved), asleep := asleep } := by
  have hheld : ∀ t, t = idle ∨ t ∈ ts →
      Held launchTask task (Function.update σ.saved c (some s.cpu.preserved) t) t
        ((s.ctxSwitchFull r c).tcb t).context := by
    intro t ht
    rw [context_ctxSwitchFull]
    by_cases e : t = c
    · subst e
      simp [Held]
    · rw [if_neg e, Function.update_of_ne e, hctx]
      exact h.held t ht fun hct => e (Option.some.inj (hct.symm.trans hc))
  refine ⟨⟨hagree, fun t ht => hr t (hcur.symm.trans ht), hqueued, hasleep,
    fun t ht _ => hheld t ht⟩, fun u hu => ?_⟩
  subst hu
  have hu := hheld u (hr u rfl)
  have hcpu : (s.ctxSwitchFull (some u) c).cpu =
      (s.cpu.ldmfd ((s.ctxSwitchFull (some u) c).tcb u).context.words).movPcLr := rfl
  rcases hsaved : Function.update σ.saved c (some s.cpu.preserved) u with _ | x
  · rw [hsaved] at hu
    simp only [Restores, hsaved, hcpu]
    exact launches_of_fresh _ hu
  · rw [hsaved] at hu
    simp only [Restores, hsaved, hcpu]
    rw [show ((s.ctxSwitchFull (some u) c).tcb u).context = x from hu]
    exact ⟨rfl, rfl⟩

theorem Inv.asleep_update {b : Bool} (h : Inv launchTask task idle ts σ)
    (hc : c = idle ∨ c ∈ ts) (ht : Function.update σ.asleep c b t = true) :
    t = idle ∨ t ∈ ts := by
  by_cases e : t = c
  · exact e ▸ hc
  · rw [Function.update_of_ne e] at ht
    exact h.asleep t ht

/-- **One step** keeps the invariant, and a switch restores the task it switches to. -/
theorem Inv.of_step {e : SwitchEvent T} (h : Inv launchTask task idle ts σ)
    (hs : step idle σ e = some σ') : Inv launchTask task idle ts σ' ∧
      ((∀ t, e ≠ .wake t) → ∃ r, σ'.kernel.curTcb = some r ∧ Restores launchTask task r σ') := by
  unfold step at hs
  rcases hc : σ.kernel.curTcb with _ | c
  · simp [hc] at hs
  simp only [hc] at hs
  cases e with
  | save cpu =>
    dsimp only at hs
    split_ifs at hs with hp
    obtain ⟨k, hk, rfl⟩ := Option.map_eq_some_iff.mp hs
    obtain ⟨r, hr, hknown⟩ := h.highest hp
    rw [Kernel.dispatchSave_of_cur (s := σ.kernel.setCpu cpu) hc] at hk
    cases hk
    have hswitch := h.switch
      (s := ((σ.kernel.setCpu cpu).disableInterrupts.removeHighest.runqueueAdd c
        (σ.kernel.tcb c).nativePrio).setCurTcb σ.kernel.highestTcb) hc (fun _ => rfl) rfl
      (fun v hv => Option.some.inj (hr.symm.trans hv) ▸ hknown) h.agree.remove.add
      (fun p t ht => h.queued_add (h.current c hc) ht) h.asleep
    exact ⟨hswitch.1, fun _ => ⟨r, hr, hswitch.2 r hr⟩⟩
  | sleep cpu =>
    dsimp only at hs
    split_ifs at hs with hp
    obtain ⟨k, hk, rfl⟩ := Option.map_eq_some_iff.mp hs
    obtain ⟨r, hr, hknown⟩ := h.highest hp.2
    rw [Kernel.dispatchSleep_of_cur (s := σ.kernel.setCpu cpu) hc] at hk
    cases hk
    have hswitch := h.switch
      (s := (σ.kernel.setCpu cpu).disableInterrupts.removeHighest.setCurTcb
        σ.kernel.highestTcb) hc (fun _ => rfl) rfl
      (fun v hv => Option.some.inj (hr.symm.trans hv) ▸ hknown) h.agree.remove
      h.queued_remove (fun t (ht : Function.update σ.asleep c true t = true) =>
        h.asleep_update (h.current c hc) ht)
    exact ⟨hswitch.1, fun _ => ⟨r, hr, hswitch.2 r hr⟩⟩
  | wake t =>
    dsimp only at hs
    split_ifs at hs with ht
    cases hs
    refine ⟨⟨h.agree.add, h.current, fun p u hu => ?_, fun u hu => ?_, h.held⟩,
      fun hne => absurd rfl (hne t)⟩
    · rw [Kernel.runqueueAdd_rq, RunQueue.runList_add] at hu
      split_ifs at hu
      · exact Option.some.inj hu ▸ h.asleep t ht
      · exact h.queued p u hu
    · exact h.asleep_update (h.asleep t ht) hu

/-! ## Runs -/

/-- The TCBs of the tasks in `ts` after `init_task`; the others are as before. -/
def setUp (launchTask : Word) (kstackHigh : T → Word) (task : T → Task) (prio : T → Prio)
    (ts : List T) (tcb : T → Tcb T) (t : T) : Tcb T :=
  if t ∈ ts then initTask launchTask (kstackHigh t) (task t) (tcb t) (prio t) else tcb t

theorem start_inv (kstackHigh : T → Word) (prio : T → Prio) (tcb : T → Tcb T) :
    Inv launchTask task idle ts (start (setUp launchTask kstackHigh task prio ts tcb) idle ts) where
  agree := boot_agree
  current t ht := .inl (Option.some.inj ht).symm
  queued p t ht := .inr (boot_queued ht)
  asleep t ht := by cases ht
  held t ht hcur := by
    have hmem : t ∈ ts := ht.resolve_left fun e => hcur (e ▸ rfl)
    change Fresh launchTask (task t) (setUp launchTask kstackHigh task prio ts tcb t).context
    rw [setUp, if_pos hmem]
    exact fresh_initTask _ _ _ _ _

theorem inv_of_run (h₀ : Inv launchTask task idle ts σ₀) (hrun : SwitchRun idle σ₀ tr σ) :
    Inv launchTask task idle ts σ :=
  hrun.invariant (fun σ e σ' (hi : Inv launchTask task idle ts σ) (hs : step idle σ e = some σ') =>
    (hi.of_step hs).1) h₀

/-- **Contexts are isolated.** In every run from a current idle task and tasks set up by
`init_task`, each call of `dispatch_save` or `dispatch_sleep` switches to a task, and either gives
it back the registers of its own last `ctx_switch_full` call, or, when it made none, launches it
at its entry point with its argument and its stack pointer. -/
theorem contexts_isolated (launchTask : Word) (kstackHigh : T → Word) (task : T → Task)
    (prio : T → Prio) (tcb : T → Tcb T) (idle : T) (ts : List T)
    (tr : List (Switcher T × SwitchEvent T)) (σ σ' : Switcher T) (e : SwitchEvent T)
    (hrun : SwitchRun idle (start (setUp launchTask kstackHigh task prio ts tcb) idle ts) tr σ)
    (hs : step idle σ e = some σ') (he : ∀ t, e ≠ .wake t) :
    ∃ r, σ'.kernel.curTcb = some r ∧ Restores launchTask task r σ' :=
  ((inv_of_run (start_inv kstackHigh prio tcb) hrun).of_step hs).2 he

/-- Two tasks and idle, set up by `init_task`. -/
def twoTasks : Switcher (Fin 3) :=
  start (setUp 0x100 (fun _ => 0x200) (fun _ => ⟨1, 2, 3⟩) threePrios [0, 1] threeTasks) 2 [0, 1]

/-- Idle is preempted by task 1, which sleeps with 7 in `r4` and is woken while task 0 runs. When
task 0 is preempted, task 1 gets its registers back. -/
theorem contexts_isolated_twoTasks :
    ∃ tr σ σ', SwitchRun 2 twoTasks tr σ ∧ step 2 σ (.save { r4 := 9 }) = some σ' ∧
      σ'.saved 1 = some { r4 := 7 } ∧
      ∃ r, σ'.kernel.curTcb = some r ∧ Restores 0x100 (fun _ => ⟨1, 2, 3⟩) r σ' := by
  have hrun : (([.save {}, .sleep { r4 := 7 }, .wake 1].foldlM (step 2) twoTasks).bind fun σ =>
      step 2 σ (.save { r4 := 9 })).map (fun σ' => σ'.saved 1) = some (some { r4 := 7 }) := by
    decide +kernel
  obtain ⟨σ', hσ', hsaved⟩ := Option.map_eq_some_iff.mp hrun
  obtain ⟨σ, hσ, hs⟩ := Option.bind_eq_some_iff.mp hσ'
  have htr := Runs.run_trace hσ
  exact ⟨_, σ, σ', htr, hs, hsaved, contexts_isolated _ _ _ _ _ _ _ _ _ _ _ htr hs (by simp)⟩

end Switcher

end Lab4Kernel
