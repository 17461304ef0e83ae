import Lab4Kernel.System.Cases
import Lab4Kernel.Lib.LockProtocol

/-!
# Mutual exclusion

`mutex_unlock` clears `bLock` when it wakes a waiter, and the waiter sets it again when it is
switched back in, without a test. A task that locks the mutex in between is inside together with the
waiter.

* `System.view m`: the mutex `m` as a lock whose woken waiters take it again;
* `StepCase.simulates`: a step of the system is a step of each such lock, or none;
* **`mutual_exclusion`**: in runs where no resumed waiter finds `bLock` set, at most one task is
  inside each mutex, and it is the recorded holder;
* `lock_stolen`: a run after which two tasks are inside.
-/

namespace Lab4Kernel

variable {T : Type}

/-- The point of control of a task, whether it is running or switched out there. -/
def Ctl.pc : Ctl → Pc
  | .launch => .user
  | .switched pc => pc
  | .running pc => pc

/-- Where a task at a point of control is in its way through the mutex `m`. -/
def Pc.phase (m : MutexId) : Pc → LockProtocol.Phase
  | .user | .waitEnable => .idle
  | .lockTake m' => if m' = m then .waiting else .idle
  | .lockHold m' => if m' = m then .took else .idle
  | .lockEnable m' => if m' = m then .held else .idle

section Phases

variable (m m' : MutexId) (pc : Pc)

@[simp] theorem Ctl.pc_launch : Ctl.launch.pc = .user := rfl

@[simp] theorem Ctl.pc_switched : (Ctl.switched pc).pc = pc := rfl

@[simp] theorem Ctl.pc_running : (Ctl.running pc).pc = pc := rfl

@[simp] theorem Pc.phase_user : Pc.user.phase m = .idle := rfl

@[simp] theorem Pc.phase_waitEnable : Pc.waitEnable.phase m = .idle := rfl

@[simp] theorem Pc.phase_lockTake :
    (Pc.lockTake m').phase m = if m' = m then .waiting else .idle := rfl

@[simp] theorem Pc.phase_lockHold :
    (Pc.lockHold m').phase m = if m' = m then .took else .idle := rfl

@[simp] theorem Pc.phase_lockEnable :
    (Pc.lockEnable m').phase m = if m' = m then .held else .idle := rfl

end Phases

namespace System

variable {fuel : ℕ} {σ σ' : System T} {t : T} {m m' : MutexId} {e : Event}

/-- The mutex `m` as an abstract lock. -/
def view (m : MutexId) (σ : System T) : LockProtocol.State T where
  lock := (σ.kernel.gtMutex m).bLock
  holder := (σ.kernel.gtMutex m).pHoldingTcb
  phase t := (σ.ctl t).pc.phase m
  inside t := σ.inside t m

/-- At most one task is inside each mutex, and it is the recorded holder. -/
def Exclusive (σ : System T) : Prop :=
  ∀ m, (∀ t u, σ.inside t m = true → σ.inside u m = true → t = u) ∧
    ∀ t, σ.inside t m = true → (σ.kernel.gtMutex m).pHoldingTcb = some t

/-- A resumed task that sets `bLock` finds it clear. -/
def TakesFree (σ : System T) (e : Event) : Prop :=
  e = .resume → ∀ t m, σ.AtPc t (.lockTake m) → (σ.kernel.gtMutex m).bLock = false

theorem view_frame (hg : (σ'.kernel.gtMutex m).bLock = (σ.kernel.gtMutex m).bLock ∧
      (σ'.kernel.gtMutex m).pHoldingTcb = (σ.kernel.gtMutex m).pHoldingTcb)
    (hctl : ∀ u, (σ'.ctl u).pc.phase m = (σ.ctl u).pc.phase m)
    (hin : ∀ u, σ'.inside u m = σ.inside u m) : σ'.view m = σ.view m :=
  LockProtocol.State.ext hg.1 hg.2 (funext hctl) (funext hin)

variable [DecidableEq T]

theorem phase_update (c : Ctl) : (fun u => (Function.update σ.ctl t c u).pc.phase m) =
    Function.update (fun u => (σ.ctl u).pc.phase m) t (c.pc.phase m) := by
  funext u
  exact Function.apply_update (fun _ c => c.pc.phase m) σ.ctl t c u

theorem inside_setInside (b : Bool) : (fun u => σ.setInside t m b u m) =
    Function.update (fun u => σ.inside u m) t b := by
  funext u
  by_cases e : u = t
  · subst e
    simp [setInside]
  · simp [setInside, e]

theorem inside_setInside_ne (hm : m ≠ m') (b : Bool) (u : T) :
    σ.setInside t m' b u m = σ.inside u m := by
  by_cases e : u = t
  · subst e
    simp [setInside, hm]
  · simp [setInside, e]

theorem phase_frame {c : Ctl} (hc : c.pc.phase m = (σ.ctl t).pc.phase m) (u : T) :
    (Function.update σ.ctl t c u).pc.phase m = (σ.ctl u).pc.phase m := by
  by_cases e : u = t
  · subst e
    simpa using hc
  · rw [Function.update_of_ne e]

/-- For the mutex `m`, the step is one of the abstract lock, or leaves it alone; a woken waiter
takes the lock only at its first write. -/
def Simulated (m : MutexId) (σ : System T) (e : Event) (σ' : System T) : Prop :=
  σ'.view m = σ.view m ∨
    ∃ a, LockProtocol.Step (σ.view m) a (σ'.view m) ∧
      (a = .retake → e = .resume ∧ ∃ t, σ.AtPc t (.lockTake m))

theorem view_block {k : Kernel T} (hu : σ.AtUser t)
    (hg : (k.gtMutex m).bLock = (σ.kernel.gtMutex m).bLock ∧
      (k.gtMutex m).pHoldingTcb = (σ.kernel.gtMutex m).pHoldingTcb) :
    let σ' : System T :=
      { σ with kernel := k, ctl := Function.update σ.ctl t (.switched (.lockTake m')) }
    Simulated m σ e σ' := by
  by_cases hm : m' = m
  · subst hm
    have hstep := LockProtocol.Step.block (s := σ.view m') t (by simp [view, hu.2])
    refine .inr ⟨.block, ?_, by simp⟩
    convert hstep using 1
    ext1 <;> simp [view, hg, phase_update]
  · refine .inl (view_frame hg (phase_frame ?_) fun _ => rfl)
    simp [hu.2, hm]

theorem view_release (hu : σ.AtUser t) (hheld : (σ.kernel.gtMutex m').pHoldingTcb = some t)
    {q : Option T} (hg : σ'.kernel.gtMutex = Function.update σ.kernel.gtMutex m'
      { σ.kernel.gtMutex m' with bLock := false, pHoldingTcb := none, pSleepQueue := q })
    (hctl : σ'.ctl = σ.ctl) (hin : σ'.inside = σ.setInside t m' false) :
    Simulated m σ e σ' := by
  by_cases hm : m = m'
  · subst hm
    have hstep := LockProtocol.Step.release (s := σ.view m) t (by simp [view, hu.2]) hheld
    refine .inr ⟨.release, ?_, by simp⟩
    convert hstep using 1
    ext1 <;> simp [view, hg, hctl, hin, inside_setInside]
  · refine .inl (view_frame ?_ (fun u => by rw [hctl]) fun u => ?_)
    · simp [hg, Function.update_of_ne hm]
    · rw [hin]
      exact inside_setInside_ne hm _ u

/-- **Simulation**: each step of the system is, for each mutex, a step of the abstract lock, or
leaves it alone. -/
theorem StepCase.simulates (h : StepCase fuel σ e σ') (m : MutexId) : Simulated m σ e σ' := by
  cases h with
  | quiet t c k hu hquiet =>
    refine .inl (view_frame ?_ (fun _ => rfl) fun _ => rfl)
    simp [hquiet.gtMutex]
  | created t m' k hu _ _ hg _ =>
    refine .inl (view_frame ?_ (fun _ => rfl) fun _ => rfl)
    by_cases hm : m = m'
    · subst hm
      simp [hg]
    · simp [hg, Function.update_of_ne hm]
  | locked t m' k hu _ hl _ hg _ =>
    by_cases hm : m = m'
    · subst hm
      refine .inr ⟨.acquire, ?_, by simp⟩
      have hstep := LockProtocol.Step.acquire (s := σ.view m) t (by simp [view, hu.2]) hl
      convert hstep using 1
      ext1 <;> simp [view, hg, inside_setInside]
    · refine .inl (view_frame ?_ (fun _ => rfl) fun u => inside_setInside_ne hm _ u)
      simp [hg, Function.update_of_ne hm]
  | blockedFirst t m' k hu _ _ _ _ hg _ =>
    refine view_block hu ?_
    by_cases hm : m = m'
    · subst hm
      simp [hg]
    · simp [hg, Function.update_of_ne hm]
  | blocked t m' k hd last hu _ _ _ _ _ hg _ =>
    refine view_block hu ?_
    simp [hg]
  | unlocked t m' k hu _ hheld _ _ hg _ =>
    exact view_release hu hheld hg rfl rfl
  | woke t m' k next hu _ hheld _ _ hg _ =>
    exact view_release hu hheld hg rfl rfl
  | waited t d k hu _ hg _ =>
    refine .inl (view_frame (by simp [hg]) (phase_frame ?_) fun _ => rfl)
    simp [hu.2]
  | launched t hc hctl =>
    refine .inl (view_frame ⟨rfl, rfl⟩ (phase_frame ?_) fun _ => rfl)
    simp [hctl]
  | switchedIn t pc hc hctl =>
    refine .inl (view_frame ⟨rfl, rfl⟩ (phase_frame ?_) fun _ => rfl)
    simp [hctl]
  | waitReturned t hpc =>
    refine .inl (view_frame ⟨rfl, rfl⟩ (phase_frame ?_) fun _ => rfl)
    simp [hpc.2]
  | tookLock t m' hpc =>
    by_cases hm : m' = m
    · subst hm
      have hstep := LockProtocol.Step.retake (s := σ.view m') t (by simp [view, hpc.2])
      refine .inr ⟨.retake, ?_, fun _ => ⟨rfl, t, hpc⟩⟩
      convert hstep using 1
      ext1 <;> simp [view, phase_update, Kernel.lockTake]
    · refine .inl (view_frame ?_ (phase_frame ?_) fun _ => rfl)
      · simp [Kernel.lockTake, Function.update_of_ne (Ne.symm hm)]
      · simp [hpc.2, hm]
  | heldLock t m' hpc =>
    by_cases hm : m' = m
    · subst hm
      have hstep := LockProtocol.Step.hold (s := σ.view m') t (by simp [view, hpc.2])
      refine .inr ⟨.hold, ?_, by simp⟩
      convert hstep using 1
      ext1 <;> simp [view, phase_update, Kernel.lockHold]
    · refine .inl (view_frame ?_ (phase_frame ?_) fun _ => rfl)
      · simp [Kernel.lockHold, Function.update_of_ne (Ne.symm hm)]
      · simp [hpc.2, hm]
  | lockReturned t m' hpc =>
    by_cases hm : m' = m
    · subst hm
      have hstep := LockProtocol.Step.enter (s := σ.view m') t (by simp [view, hpc.2])
      refine .inr ⟨.enter, ?_, by simp⟩
      convert hstep using 1
      ext1 <;> simp [view, phase_update, inside_setInside]
    · refine .inl (view_frame ⟨rfl, rfl⟩ (phase_frame ?_) fun u => ?_)
      · simp [hpc.2, hm]
      · exact inside_setInside_ne (Ne.symm hm) _ u
  | ticked t pc millis k hpc hm hk =>
    have hg := (Kernel.Background.devUpdate hk).gtMutex
    refine .inl (view_frame ?_ (fun _ => rfl) fun _ => rfl)
    simp [hg]
  | preempted t pc millis k k' hpc hm hk hk' =>
    have hback := Kernel.Background.devUpdate hk
    have hg := (Kernel.dispatchSave_cases (hback.curTcb.trans hpc.1) hk').2.1
    refine .inl (view_frame ?_ (phase_frame ?_) fun _ => rfl)
    · simp [hg, hback.gtMutex]
    · simp [hpc.2]

/-! ## Runs -/

theorem start_inv (k : Kernel T) (m : MutexId) : LockProtocol.Inv ((start k).view m) where
  flag t ht := by
    by_cases hc : k.curTcb = some t <;> simp [LockProtocol.State.Owner, view, start, hc] at ht
  unique t u ht := by
    by_cases hc : k.curTcb = some t <;> simp [LockProtocol.State.Owner, view, start, hc] at ht
  recorded t := by
    by_cases hc : k.curTcb = some t <;> simp [view, start, hc, Kernel.mutexInit]

/-- The invariant of every mutex, along runs in which resumed waiters find `bLock` clear. -/
theorem inv_of_run {k : Kernel T} {tr : List (System T × Event)}
    (hrun : SystemRun fuel (start k) tr σ) (hok : ∀ p ∈ tr, TakesFree p.1 p.2) (m : MutexId) :
    LockProtocol.Inv (σ.view m) := by
  refine hrun.guarded (fun σ e σ' (hinv : ∀ m, LockProtocol.Inv (σ.view m))
    (hfree : TakesFree σ e) hstep m => ?_) (start_inv k) hok m
  rcases (step_cases hstep).simulates m with hsame | ⟨a, hs, hretake⟩
  · rw [hsame]
    exact hinv m
  · refine (hinv m).step hs fun ha => ?_
    obtain ⟨he, t, ht⟩ := hretake ha
    exact hfree he t m ht

/-- **Mutual exclusion**, along runs in which resumed waiters find `bLock` clear. -/
theorem mutual_exclusion (fuel : ℕ) (k : Kernel T) (tr : List (System T × Event)) (σ : System T)
    (hrun : SystemRun fuel (start k) tr σ) (hok : ∀ p ∈ tr, TakesFree p.1 p.2) : Exclusive σ :=
  fun m => (inv_of_run hrun hok m).exclusive

/-- Task 0 locks mutex 0, task 1 preempts it and blocks, and task 0 unlocks the mutex. -/
def contended : List Event :=
  [.call .create, .call (.lock 0), .timer 10 true, .resume, .call (.lock 0), .resume,
    .call (.unlock 0)]

/-- Task 1 preempts task 0 and finishes its call. -/
def handedOver : List Event := contended ++ [.timer 20 true, .resume, .resume, .resume, .resume]

instance [Fintype T] (σ : System T) (e : Event) : Decidable (TakesFree σ e) :=
  inferInstanceAs (Decidable (e = .resume → ∀ t m, (σ.kernel.curTcb = some t ∧
    σ.ctl t = .running (.lockTake m)) → (σ.kernel.gtMutex m).bLock = false))

theorem mutual_exclusion_handedOver :
    ∃ tr σ, SystemRun osMaxTasks (start (boot threeTasks 0 [1, 2])) tr σ ∧
      σ.inside 1 0 = true ∧ Exclusive σ := by
  have hrun : (handedOver.foldlM (step osMaxTasks) (start (boot threeTasks 0 [1, 2]))).map
      (fun σ => σ.inside 1 0) = some true := by decide +kernel
  obtain ⟨σ, htr, hin⟩ := Runs.run_of_map hrun
  have hok : ∀ p ∈ Runs.trace (step osMaxTasks) (start (boot threeTasks 0 [1, 2])) handedOver,
      TakesFree p.1 p.2 := by decide +kernel
  exact ⟨_, σ, htr, hin, mutual_exclusion _ _ _ _ htr hok⟩

/-- Task 0 locks the mutex again before task 1 preempts it and finishes its call. -/
def stolen : List Event :=
  contended ++ [.call (.lock 0), .timer 20 true, .resume, .resume, .resume, .resume]

/-- **The lock is stolen**: after this run two tasks are inside mutex 0. -/
theorem lock_stolen : ∃ tr σ, SystemRun osMaxTasks (start (boot threeTasks 0 [1, 2])) tr σ ∧
    σ.inside 0 0 = true ∧ σ.inside 1 0 = true ∧ ¬Exclusive σ := by
  have hrun : (stolen.foldlM (step osMaxTasks) (start (boot threeTasks 0 [1, 2]))).map
      (fun σ => (σ.inside 0 0, σ.inside 1 0)) = some (true, true) := by decide +kernel
  obtain ⟨σ, htr, hin⟩ := Runs.run_of_map hrun
  obtain ⟨h₀, h₁⟩ := Prod.mk.injEq .. ▸ hin
  refine ⟨_, σ, htr, h₀, h₁, fun hex => ?_⟩
  exact absurd ((hex 0).1 0 1 h₀ h₁) (by decide)

end System

end Lab4Kernel
