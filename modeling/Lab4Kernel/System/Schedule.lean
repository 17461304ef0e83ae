import Lab4Kernel.System.Waits

/-!
# Who gets the processor

* `dispatchedBy`, `dispatchedLog`: the tasks that become current in a run;
* `Dispatches`: a ready task stays ready or becomes current, and no ready task is more urgent than
  one that becomes current; every step is such, `StepCase.dispatches`;
* **`passed_over`**: in every run a ready task is passed over by more urgent tasks only.
-/

namespace Lab4Kernel

open Kernel Intrusive

variable {T : Type} {live : Set T} {s s' k : Kernel T} {t u r : T} {L L' : QId → List T}
  {place place' : T → Option Place}

/-- What the dispatcher does to the tasks in the run queue. -/
structure Dispatches (s s' : Kernel T) : Prop where
  prio : s'.shape.prio = s.shape.prio
  ready : ∀ u, Queued s u → Queued s' u ∨ s'.curTcb = some u
  urgent : ∀ r, s'.curTcb = some r → s.curTcb ≠ some r →
    ∀ u, Queued s u → s.shape.prio r ≤ s.shape.prio u

theorem Dispatches.of_ready (hprio : s'.shape.prio = s.shape.prio) (hcur : s'.curTcb = s.curTcb)
    (hready : ∀ u, Queued s u → Queued s' u) : Dispatches s s' where
  prio := hprio
  ready u hu := .inl (hready u hu)
  urgent _ hr hne := absurd (hcur.symm.trans hr) hne

theorem Dispatches.of_shape (hsh : s'.shape = s.shape) : Dispatches s s' := by
  refine .of_ready (congrArg Shape.prio hsh) (congrArg Shape.cur hsh) ?_
  rintro u ⟨p, hp⟩
  exact ⟨p, (congrArg (fun sh => sh.rq.runList p) hsh).trans hp⟩

theorem Dispatches.after (hprio : k.shape.prio = s.shape.prio) (hcur : k.curTcb = s.curTcb)
    (hready : ∀ u, Queued s u → Queued k u) (h : Dispatches k s') : Dispatches s s' where
  prio := h.prio.trans hprio
  ready u hu := h.ready u (hready u hu)
  urgent r hr hne u hu := by
    rw [← hprio]
    exact h.urgent r hr (fun he => hne (hcur.symm.trans he)) u (hready u hu)

theorem Dispatches.of_switch [DecidableEq T] {pl : Place} (h : Tasks live s.shape L place)
    (hc : s.curTcb = some t)
    (h' : Tasks live s'.shape L' (Tasks.afterSwitch s.shape place t pl))
    (hcur : s'.curTcb = s.shape.highest) (hprio : s'.shape.prio = s.shape.prio) :
    Dispatches s s' where
  prio := hprio
  ready u hu := by
    have hready := h.queued_iff.mp hu
    have hne : u ≠ t := by
      rintro rfl
      rw [(h.current u).mp hc] at hready
      cases hready
    by_cases hr : s.shape.highest = some u
    · exact .inr (hcur.trans hr)
    · refine .inl (h'.queued_iff.mpr ?_)
      unfold Tasks.afterSwitch
      rcases hh : s.shape.highest with _ | r
      · exact (Function.update_of_ne hne _ _).trans hready
      · have hur : u ≠ r := by
          rintro rfl
          exact hr hh
        rw [switchTo, Function.update_of_ne hur, Function.update_of_ne hne, hready]
  urgent r hr _ u hu := (h.highest_ready (hcur.symm.trans hr)).2 u (h.queued_iff.mp hu)

namespace System

variable [DecidableEq T] {fuel : ℕ} {σ σ' : System T} {e : Event} {tr tr' : List (System T × Event)}

theorem queued_devUpdate {millis : Word} (h : Tasks live s.shape L place)
    (hk : s.devUpdate fuel millis = some k) (hu : Queued s u) : Queued k u := by
  have hsig := Kernel.devUpdate_spec h hk
  rw [hsig.tasks.queued_iff]
  unfold woken
  split_ifs
  · rfl
  · exact h.queued_iff.mp hu

/-- **A step dispatches by priority.** -/
theorem StepCase.dispatches (hs : StepCase fuel σ e σ') (h : Tasks live σ.kernel.shape L place) :
    Dispatches σ.kernel σ'.kernel := by
  cases hs with
  | quiet t c k hu hquiet => exact .of_shape hquiet.shape
  | created t m k hu hav hran hg hsh => exact .of_shape hsh
  | locked t m k hu hav hl hran hg hsh => exact .of_shape hsh
  | unlocked t m k hu hav hheld hq hran hg hsh => exact .of_shape hsh
  | blockedFirst t m k hu hav hl hq hran hg hsh =>
    have h' := h.blockFirst (q := .mutex m) hu.1 hq
    rw [← hsh] at h'
    exact .of_switch h hu.1 h' (congrArg Shape.cur hsh) ((congrArg Shape.prio hsh).trans rfl)
  | blocked t m k hd last hu hav hl hq hran hw hg hsh =>
    have h' := h.lock_blocks hu.1 hq hw
    rw [← hsh] at h'
    exact .of_switch h hu.1 h' (congrArg Shape.cur hsh) ((congrArg Shape.prio hsh).trans rfl)
  | woke t m k next hu hav hheld hq hran hg hsh =>
    obtain ⟨l, hl⟩ := h.head_cons hq
    have h' := h.wake hl
    rw [← hsh] at h'
    have hprio : k.shape.prio = σ.kernel.shape.prio := (congrArg Shape.prio hsh).trans rfl
    refine .of_ready hprio ((congrArg Shape.cur hsh).trans rfl) fun u hu => ?_
    rw [h'.queued_iff]
    by_cases hne : u = next
    · rw [hne, Function.update_self]
    · rw [Function.update_of_ne hne, h.queued_iff.mp hu]
  | waited t d k hu hran hg hsh =>
    have h' := h.sleep hu.1 (.dev d)
    rw [← hsh] at h'
    exact .of_switch h hu.1 h' (congrArg Shape.cur hsh) ((congrArg Shape.prio hsh).trans rfl)
  | launched t hc hctl => exact .of_shape rfl
  | switchedIn t pc hc hctl => exact .of_shape rfl
  | waitReturned t hpc => exact .of_shape rfl
  | tookLock t m hpc => exact .of_shape (shape_setLock _ _)
  | heldLock t m hpc => exact .of_shape (shape_setHolding _ _)
  | lockReturned t m hpc => exact .of_shape rfl
  | ticked t pc millis k hpc hm hk =>
    have hback := Background.devUpdate hk
    have hready : ∀ u, Queued σ.kernel u → Queued k u := fun u hu =>
      queued_devUpdate (s := σ.kernel.disableInterrupts) h hk hu
    exact .of_ready hback.prio hback.curTcb hready
  | preempted t pc millis k k' hpc hm hk hk' =>
    have hback := Background.devUpdate hk
    have ht := (devUpdate_spec (s := σ.kernel.disableInterrupts) h hk).tasks
    have hc : k.curTcb = some t := hback.curTcb.trans hpc.1
    obtain ⟨-, -, hcur, hsh⟩ := dispatchSave_cases hc hk'
    have hshape := hsh (ht.native_eq t (ht.cur_mem hc))
    have h' := (ht.preempt hc).2
    rw [← hshape] at h'
    have hprio : k'.shape.prio = k.shape.prio := (congrArg Shape.prio hshape).trans rfl
    have hsave : Dispatches k k' := .of_switch ht hc h' hcur hprio
    exact hsave.after hback.prio hback.curTcb fun u hu =>
      queued_devUpdate (s := σ.kernel.disableInterrupts) h hk hu

/-- The task that becomes current in a step. -/
def dispatchedBy (fuel : ℕ) : System T × Event → List T
  | (σ, e) =>
    match step fuel σ e with
    | some σ' => if σ'.kernel.curTcb = σ.kernel.curTcb then [] else σ'.kernel.curTcb.toList
    | none => []

/-- The tasks that become current in a run, in the order of the steps. -/
def dispatchedLog (fuel : ℕ) (tr : List (System T × Event)) : List T :=
  tr.flatMap (dispatchedBy fuel)

theorem mem_dispatchedBy (hs : step fuel σ e = some σ') :
    r ∈ dispatchedBy fuel (σ, e) ↔
      σ'.kernel.curTcb = some r ∧ σ.kernel.curTcb ≠ some r := by
  have hby : dispatchedBy fuel (σ, e) =
      if σ'.kernel.curTcb = σ.kernel.curTcb then [] else σ'.kernel.curTcb.toList := by
    unfold dispatchedBy
    dsimp only
    rw [hs]
  rw [hby]
  split_ifs with hsame
  · rw [hsame]
    exact iff_of_false List.not_mem_nil fun h => h.2 h.1
  · rw [Option.mem_toList]
    exact ⟨fun hr => ⟨hr, fun hr' => hsame (hr.trans hr'.symm)⟩, And.left⟩

/-- **A step passes a ready task over** for a more urgent one only. -/
theorem passed_over_step (hs : step fuel σ e = some σ') (h : Tasks live σ.kernel.shape L place)
    (h' : Tasks live σ'.kernel.shape L' place') (hu : Queued σ.kernel u)
    (hnot : u ∉ dispatchedBy fuel (σ, e)) :
    Queued σ'.kernel u ∧
      ∀ r ∈ dispatchedBy fuel (σ, e), σ.kernel.shape.prio r < σ.kernel.shape.prio u := by
  have hd := (step_cases hs).dispatches h
  have hready := h.queued_iff.mp hu
  have hcur : σ.kernel.curTcb ≠ some u := by
    intro hc
    rw [(h.current u).mp hc] at hready
    cases hready
  constructor
  · exact (hd.ready u hu).resolve_right fun hc => hnot ((mem_dispatchedBy hs).mpr ⟨hc, hcur⟩)
  · intro r hr
    obtain ⟨hc, hne⟩ := (mem_dispatchedBy hs).mp hr
    refine lt_of_le_of_ne (hd.urgent r hc hne u hu) fun he => ?_
    have hru : r = u := h.prio_inj r (h'.cur_mem hc) u (h.mem_of_place hready) he
    exact hnot (hru ▸ hr)

/-- **A ready task is passed over by more urgent tasks only.** In every state of every run from
placed tasks, a task in the run queue that does not become current in what follows is still in the
run queue, and every task that becomes current is more urgent. -/
theorem passed_over (fuel : ℕ) (live : Set T) (k : Kernel T) (L : QId → List T)
    (place : T → Option Place) (hk : Tasks live (start k).kernel.shape L place)
    (tr tr' : List (System T × Event)) (σ σ' : System T) (hrun : SystemRun fuel (start k) tr σ)
    (hrun' : SystemRun fuel σ tr' σ') (u : T) (hu : Queued σ.kernel u)
    (hnot : u ∉ dispatchedLog fuel tr') :
    Queued σ'.kernel u ∧
      ∀ r ∈ dispatchedLog fuel tr', σ.kernel.shape.prio r < σ.kernel.shape.prio u := by
  have h₀ : Attended live (start k) := ⟨L, place, start_waiting hk⟩
  have key : Queued σ'.kernel u ∧ σ'.kernel.shape.prio = σ.kernel.shape.prio ∧
      ∀ r ∈ dispatchedLog fuel tr', σ.kernel.shape.prio r < σ.kernel.shape.prio u := by
    induction hrun' with
    | nil => exact ⟨hu, rfl, fun r hr => absurd hr List.not_mem_nil⟩
    | @snoc tr' σ₁ σ₂ e hrun' hs ih =>
      unfold dispatchedLog at hnot ih ⊢
      rw [List.flatMap_append, List.flatMap_singleton, List.mem_append, not_or] at hnot
      rw [List.flatMap_append, List.flatMap_singleton]
      obtain ⟨hq, hprio, hlog⟩ := ih hnot.1
      obtain ⟨L₁, place₁, h₁⟩ := attended_of_run h₀ (hrun.append hrun')
      obtain ⟨L₂, place₂, h₂⟩ := attended_of_run h₀ ((hrun.append hrun').snoc e hs)
      obtain ⟨hq', hstep⟩ := passed_over_step hs h₁.tasks h₂.tasks hq hnot.2
      have hprio' := ((step_cases hs).dispatches h₁.tasks).prio
      refine ⟨hq', hprio'.trans hprio, fun r hr => ?_⟩
      rcases List.mem_append.mp hr with hr | hr
      · exact hlog r hr
      · rw [← hprio]
        exact hstep r hr
  exact ⟨key.1, key.2.2⟩

/-- Two dispatching interrupts, which both pass over idle. -/
def alternating : List Event := [.timer 10 true, .resume, .timer 20 true]

theorem passed_over_twice :
    ∃ tr σ, SystemRun osMaxTasks (start (boot threeTasks 0 [1, 2])) tr σ ∧
      dispatchedLog osMaxTasks tr = [1, 0] ∧ Queued σ.kernel 2 ∧
      ∀ r ∈ dispatchedLog osMaxTasks tr,
        (start (boot threeTasks 0 [1, 2])).kernel.shape.prio r <
          (start (boot threeTasks 0 [1, 2])).kernel.shape.prio 2 := by
  have hrun : ((alternating.foldlM (step osMaxTasks) (start (boot threeTasks 0 [1, 2]))).map
      fun _ => ()) = some () := by decide +kernel
  obtain ⟨σ, htr, -⟩ := Runs.run_of_map hrun
  have hlog : dispatchedLog osMaxTasks (Runs.trace (step osMaxTasks)
      (start (boot threeTasks 0 [1, 2])) alternating) = [1, 0] := by decide +kernel
  have hidle : Queued (start (boot threeTasks 0 [1, 2])).kernel 2 := ⟨idlePrio, by decide +kernel⟩
  have hnot : 2 ∉ dispatchedLog osMaxTasks (Runs.trace (step osMaxTasks)
      (start (boot threeTasks 0 [1, 2])) alternating) := by
    rw [hlog]
    decide
  exact ⟨_, σ, htr, hlog,
    passed_over osMaxTasks _ _ _ _ threeTasks_placed _ _ _ _ .nil htr 2 hidle hnot⟩

end System

end Lab4Kernel
