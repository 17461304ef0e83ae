import Lab4Kernel.System.Exclusion

/-!
# Critical sections and the interrupt mask

`dispatch_sleep` ends with an `enable_interrupts()`, whoever called it, so a task that blocked in
`mutex_lock` executes the two writes behind it with interrupts enabled.

* `MaskInv`: a running task is the current one, and interrupts are enabled;
* `StepCase.masked_iff`: the accesses of a step are masked unless it is one of the two writes;
* **`accesses_masked_iff`**: the accesses of a run are all masked exactly when no task executes one
  of the two writes in it.
-/

namespace Lab4Kernel.System

open Kernel

variable {T : Type} {fuel : ℕ} {σ σ' : System T} {t : T} {e : Event}

/-- A task that runs between two kernel steps is the current one, and interrupts are enabled. -/
def MaskInv (σ : System T) : Prop :=
  ∀ t pc, σ.ctl t = .running pc → σ.kernel.curTcb = some t ∧ σ.kernel.masked = false

/-- Every access was made with interrupts masked. -/
def AllMasked (σ : System T) : Prop := ∀ a ∈ σ.kernel.accesses, a.2 = true

/-- The step is a write of the rest of `mutex_lock`, in a task that blocked there. -/
def RestStep (σ : System T) (e : Event) : Prop :=
  e = .resume ∧ ∃ t m, σ.AtPc t (.lockTake m) ∨ σ.AtPc t (.lockHold m)

theorem allMasked_of_logs (h : Logs σ.kernel σ'.kernel) : AllMasked σ' ↔ AllMasked σ := by
  obtain ⟨acc, he, hacc⟩ := h
  unfold AllMasked
  rw [he]
  constructor
  · intro hall a ha
    exact hall a (List.mem_append_right _ ha)
  · intro hall a ha
    rcases List.mem_append.mp ha with ha | ha
    · exact hacc a ha
    · exact hall a ha

theorem not_restStep {c : Ctl} (hc : σ.kernel.curTcb = some t) (hctl : σ.ctl t = c)
    (hne : ∀ m, c ≠ .running (.lockTake m) ∧ c ≠ .running (.lockHold m)) : ¬RestStep σ e := by
  rintro ⟨-, u, m, ⟨hu, hpc⟩ | ⟨hu, hpc⟩⟩
  · rw [hc] at hu
    cases hu
    exact (hne m).1 (hctl.symm.trans hpc)
  · rw [hc] at hu
    cases hu
    exact (hne m).2 (hctl.symm.trans hpc)

theorem not_restStep_of_ne (he : e ≠ .resume) : ¬RestStep σ e := fun h => he h.1

theorem MaskInv.stay {k : Kernel T} (h : MaskInv σ) (hcur : k.curTcb = σ.kernel.curTcb)
    (hm : k.masked = false) {inside : T → MutexId → Bool} {taken : T → Option MutexId} :
    MaskInv { kernel := k, ctl := σ.ctl, inside := inside, taken := taken } :=
  fun u pc hu => ⟨hcur.trans (h u pc hu).1, hm⟩

variable [DecidableEq T]

theorem MaskInv.switch {k : Kernel T} {pc : Pc} (h : MaskInv σ) (hc : σ.kernel.curTcb = some t) :
    MaskInv { σ with kernel := k, ctl := Function.update σ.ctl t (.switched pc) } := by
  intro u pc' hu
  by_cases e : u = t
  · subst e
    simp at hu
  · simp only [Function.update_of_ne e] at hu
    have hcur := (h u pc' hu).1
    rw [hc] at hcur
    exact absurd (Option.some.inj hcur).symm e

theorem MaskInv.proceed {k : Kernel T} {pc : Pc} (h : MaskInv σ)
    (hc : σ.kernel.curTcb = some t) (hcur : k.curTcb = some t) (hm : k.masked = false)
    {inside : T → MutexId → Bool} {taken : T → Option MutexId} :
    MaskInv { kernel := k, ctl := Function.update σ.ctl t (.running pc), inside := inside,
              taken := taken } := by
  intro u pc' hu
  by_cases e : u = t
  · subst e
    exact ⟨hcur, hm⟩
  · simp only [Function.update_of_ne e] at hu
    have hcur := (h u pc' hu).1
    rw [hc] at hcur
    exact absurd (Option.some.inj hcur).symm e

theorem StepCase.maskInv (h : StepCase fuel σ e σ') (hinv : MaskInv σ) : MaskInv σ' := by
  cases h with
  | quiet t c k hu hquiet =>
    exact hinv.stay (congrArg Shape.cur hquiet.shape) hquiet.ran.masked
  | created t m k hu _ hran _ hsh => exact hinv.stay (congrArg Shape.cur hsh) hran.masked
  | locked t m k hu _ _ hran _ hsh => exact hinv.stay (congrArg Shape.cur hsh) hran.masked
  | unlocked t m k hu _ _ _ hran _ hsh => exact hinv.stay (congrArg Shape.cur hsh) hran.masked
  | woke t m k next hu _ _ _ hran _ hsh => exact hinv.stay (congrArg Shape.cur hsh) hran.masked
  | blockedFirst t m k hu => exact hinv.switch hu.1
  | blocked t m k hd last hu => exact hinv.switch hu.1
  | waited t d k hu => exact hinv.switch hu.1
  | launched t hc hctl => exact hinv.proceed (k := σ.kernel.launch) hc hc rfl
  | switchedIn t pc hc hctl => exact hinv.proceed (k := σ.kernel.enableInterrupts) hc hc rfl
  | waitReturned t hpc =>
    exact hinv.proceed (k := σ.kernel.enableInterrupts) hpc.1 hpc.1 rfl
  | tookLock t m hpc =>
    exact hinv.proceed (k := σ.kernel.lockTake m) hpc.1 hpc.1 (hinv t _ hpc.2).2
  | heldLock t m hpc =>
    exact hinv.proceed (k := σ.kernel.lockHold m (some t)) hpc.1 hpc.1 (hinv t _ hpc.2).2
  | lockReturned t m hpc =>
    exact hinv.proceed (k := σ.kernel.enableInterrupts) hpc.1 hpc.1 rfl
  | ticked t pc millis k hpc hm hk =>
    exact hinv.stay (k := k.enableInterrupts) (Background.devUpdate hk).curTcb rfl
  | preempted t pc millis k k' hpc => exact hinv.switch hpc.1

/-- **The accesses of a step** are masked, unless it is a write of the rest of `mutex_lock`. -/
theorem StepCase.masked_iff (h : StepCase fuel σ e σ') (hinv : MaskInv σ) :
    AllMasked σ' ↔ AllMasked σ ∧ ¬RestStep σ e := by
  have hlogs : Logs σ.kernel σ'.kernel → ¬RestStep σ e →
      (AllMasked σ' ↔ AllMasked σ ∧ ¬RestStep σ e) := fun hlogs hrest => by
    rw [allMasked_of_logs hlogs]
    simp [hrest]
  cases h with
  | quiet t c k hu hquiet => exact hlogs hquiet.ran.logs (not_restStep_of_ne (by simp))
  | created t m k hu _ hran => exact hlogs hran.logs (not_restStep_of_ne (by simp))
  | locked t m k hu _ _ hran => exact hlogs hran.logs (not_restStep_of_ne (by simp))
  | unlocked t m k hu _ _ _ hran => exact hlogs hran.logs (not_restStep_of_ne (by simp))
  | woke t m k next hu _ _ _ hran => exact hlogs hran.logs (not_restStep_of_ne (by simp))
  | blockedFirst t m k hu _ _ _ hran => exact hlogs hran.logs (not_restStep_of_ne (by simp))
  | blocked t m k hd last hu _ _ _ hran => exact hlogs hran.logs (not_restStep_of_ne (by simp))
  | waited t d k hu hran => exact hlogs hran.logs (not_restStep_of_ne (by simp))
  | launched t hc hctl => exact hlogs .refl (not_restStep hc hctl (by simp))
  | switchedIn t pc hc hctl => exact hlogs .refl (not_restStep hc hctl (by simp))
  | waitReturned t hpc => exact hlogs .refl (not_restStep hpc.1 hpc.2 (by simp))
  | lockReturned t m hpc => exact hlogs .refl (not_restStep hpc.1 hpc.2 (by simp))
  | tookLock t m hpc =>
    have hrest : RestStep σ .resume := ⟨rfl, t, m, .inl hpc⟩
    have hm := (hinv t _ hpc.2).2
    simp [hrest, AllMasked, lockTake, hm]
  | heldLock t m hpc =>
    have hrest : RestStep σ .resume := ⟨rfl, t, m, .inr hpc⟩
    have hm := (hinv t _ hpc.2).2
    simp [hrest, AllMasked, lockHold, hm]
  | ticked t pc millis k hpc hm hk =>
    exact hlogs ((Background.devUpdate hk).logs rfl) (not_restStep_of_ne (by simp))
  | preempted t pc millis k k' hpc hm hk hk' =>
    have hback := Background.devUpdate hk
    have hran := (dispatchSave_cases (hback.curTcb.trans hpc.1) hk').1
    exact hlogs (.trans (hback.logs rfl) hran.logs) (not_restStep_of_ne (by simp))

theorem start_maskInv (k : Kernel T) : MaskInv (start k) := by
  intro t pc ht
  by_cases hc : k.curTcb = some t
  · exact ⟨hc, rfl⟩
  · simp [start, hc] at ht

/-- **When the critical sections stay closed**: the accesses of a run are all made with interrupts
masked exactly when no step of it is a write of the rest of `mutex_lock`. -/
theorem accesses_masked_iff (fuel : ℕ) (k : Kernel T) (tr : List (System T × Event))
    (σ : System T) (hrun : SystemRun fuel (start k) tr σ) :
    AllMasked σ ↔ ∀ p ∈ tr, ¬RestStep p.1 p.2 := by
  induction hrun with
  | nil => simp [AllMasked, start]
  | snoc e hrun hstep ih =>
    have hinv := hrun.invariant (fun σ e σ' (hi : MaskInv σ) (hs : step fuel σ e = some σ') =>
      (step_cases hs).maskInv hi) (start_maskInv k)
    rw [(step_cases hstep).masked_iff hinv, ih]
    simp only [List.mem_append, List.mem_singleton, or_imp, forall_and, forall_eq]

instance (σ : System T) : Decidable (AllMasked σ) :=
  inferInstanceAs (Decidable (∀ a ∈ σ.kernel.accesses, a.2 = true))

instance [Fintype T] (σ : System T) (e : Event) : Decidable (RestStep σ e) :=
  inferInstanceAs (Decidable (e = .resume ∧ ∃ t m,
    (σ.kernel.curTcb = some t ∧ σ.ctl t = .running (.lockTake m)) ∨
      (σ.kernel.curTcb = some t ∧ σ.ctl t = .running (.lockHold m))))

theorem accesses_masked_contended :
    ∃ tr σ, SystemRun osMaxTasks (start (boot threeTasks 0 [1, 2])) tr σ ∧
      σ.taken 1 = some 0 ∧ AllMasked σ := by
  have hrun : (contended.foldlM (step osMaxTasks) (start (boot threeTasks 0 [1, 2]))).map
      (fun σ => σ.taken 1) = some (some 0) := by decide +kernel
  obtain ⟨σ, htr, htaken⟩ := Runs.run_of_map hrun
  have hok : ∀ p ∈ Runs.trace (step osMaxTasks) (start (boot threeTasks 0 [1, 2])) contended,
      ¬RestStep p.1 p.2 := by decide +kernel
  exact ⟨_, σ, htr, htaken, (accesses_masked_iff _ _ _ _ htr).mpr hok⟩

/-- A timer interrupt falls between the two writes of task 1. -/
def interrupted : List Event :=
  contended ++ [.timer 20 true, .resume, .resume, .timer 30 false, .resume]

/-- **An open critical section**: task 1 writes mutex 0 with interrupts enabled, and a timer
interrupt falls between its two writes. -/
theorem write_unmasked : ∃ tr σ, SystemRun osMaxTasks (start (boot threeTasks 0 [1, 2])) tr σ ∧
    (Shared.mutex 0, false) ∈ σ.kernel.accesses ∧ ¬AllMasked σ := by
  have hrun : (interrupted.foldlM (step osMaxTasks) (start (boot threeTasks 0 [1, 2]))).map
      (fun σ => decide ((Shared.mutex 0, false) ∈ σ.kernel.accesses)) = some true := by
    decide +kernel
  obtain ⟨σ, htr, hmem⟩ := Runs.run_of_map hrun
  have hmem := of_decide_eq_true hmem
  exact ⟨_, σ, htr, hmem, fun hall => absurd (hall _ hmem) (by simp)⟩

end Lab4Kernel.System
