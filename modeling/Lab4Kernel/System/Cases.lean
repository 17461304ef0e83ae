import Lab4Kernel.System.Step

/-!
# What a step of the system can do

* `StepCase`: the sixteen ways in which a step changes the system;
* **`System.step_cases`**: every step is one of them.
-/

namespace Lab4Kernel

open Kernel

variable {T : Type} [DecidableEq T]

namespace System

/-- The current task `t` is outside the kernel. -/
def AtUser (σ : System T) (t : T) : Prop :=
  σ.kernel.curTcb = some t ∧ σ.ctl t = .running .user

/-- The current task `t` is at the point of control `pc`. -/
def AtPc (σ : System T) (t : T) (pc : Pc) : Prop :=
  σ.kernel.curTcb = some t ∧ σ.ctl t = .running pc

/-- **The ways in which a step changes the system.** -/
inductive StepCase (fuel : ℕ) (σ : System T) : Event → System T → Prop
  /-- A call that fails. -/
  | quiet (t : T) (c : Call) (k : Kernel T) : σ.AtUser t → Quiet σ.kernel k →
      StepCase fuel σ (.call c) { σ with kernel := k }
  /-- `mutex_create` found a mutex. -/
  | created (t : T) (m : MutexId) (k : Kernel T) : σ.AtUser t →
      (σ.kernel.gtMutex m).bAvailable = true → Ran false [] σ.kernel k →
      k.gtMutex = Function.update σ.kernel.gtMutex m
        { σ.kernel.gtMutex m with bAvailable := false } →
      k.shape = σ.kernel.shape → StepCase fuel σ (.call .create) { σ with kernel := k }
  /-- `mutex_lock` took the mutex. -/
  | locked (t : T) (m : MutexId) (k : Kernel T) : σ.AtUser t →
      (σ.kernel.gtMutex m).bAvailable = false → (σ.kernel.gtMutex m).bLock = false →
      Ran false [] σ.kernel k →
      k.gtMutex = Function.update σ.kernel.gtMutex m
        { σ.kernel.gtMutex m with bLock := true, pHoldingTcb := some t } →
      k.shape = σ.kernel.shape →
      StepCase fuel σ (.call (.lock m.val))
        { σ with kernel := k, inside := σ.setInside t m true }
  /-- `mutex_lock` blocked, on an empty queue. -/
  | blockedFirst (t : T) (m : MutexId) (k : Kernel T) : σ.AtUser t →
      (σ.kernel.gtMutex m).bAvailable = false → (σ.kernel.gtMutex m).bLock = true →
      (σ.kernel.gtMutex m).pSleepQueue = none → Ran true [] σ.kernel k →
      k.gtMutex = Function.update σ.kernel.gtMutex m
        { σ.kernel.gtMutex m with pSleepQueue := some t } →
      k.shape = (σ.kernel.shape.push (.mutex m) t).pick →
      StepCase fuel σ (.call (.lock m.val))
        { σ with kernel := k, ctl := Function.update σ.ctl t (.switched (.lockTake m)) }
  /-- `mutex_lock` blocked, behind the last waiter. -/
  | blocked (t : T) (m : MutexId) (k : Kernel T) (hd last : T) : σ.AtUser t →
      (σ.kernel.gtMutex m).bAvailable = false → (σ.kernel.gtMutex m).bLock = true →
      (σ.kernel.gtMutex m).pSleepQueue = some hd → Ran true [] σ.kernel k →
      Intrusive.walk σ.kernel.shape.link fuel (some hd) none = some (some last) →
      k.gtMutex = σ.kernel.gtMutex → k.shape = (σ.kernel.shape.linkAfter last t).pick →
      StepCase fuel σ (.call (.lock m.val))
        { σ with kernel := k, ctl := Function.update σ.ctl t (.switched (.lockTake m)) }
  /-- `mutex_unlock`, without waiters. -/
  | unlocked (t : T) (m : MutexId) (k : Kernel T) : σ.AtUser t →
      (σ.kernel.gtMutex m).bAvailable = false → (σ.kernel.gtMutex m).pHoldingTcb = some t →
      (σ.kernel.gtMutex m).pSleepQueue = none → Ran false [] σ.kernel k →
      k.gtMutex = Function.update σ.kernel.gtMutex m
        { σ.kernel.gtMutex m with bLock := false, pHoldingTcb := none } →
      k.shape = σ.kernel.shape →
      StepCase fuel σ (.call (.unlock m.val))
        { σ with kernel := k, inside := σ.setInside t m false }
  /-- `mutex_unlock` woke the first waiter. -/
  | woke (t : T) (m : MutexId) (k : Kernel T) (next : T) : σ.AtUser t →
      (σ.kernel.gtMutex m).bAvailable = false → (σ.kernel.gtMutex m).pHoldingTcb = some t →
      (σ.kernel.gtMutex m).pSleepQueue = some next →
      Ran false (σ.kernel.rq.runList (σ.kernel.shape.prio next)).toList σ.kernel k →
      k.gtMutex = Function.update σ.kernel.gtMutex m
        { σ.kernel.gtMutex m with
          bLock := false, pHoldingTcb := none, pSleepQueue := σ.kernel.shape.link next } →
      k.shape = (σ.kernel.shape.pop (.mutex m) next).add next →
      StepCase fuel σ (.call (.unlock m.val)) { σ with
        kernel := k, inside := σ.setInside t m false
        taken := Function.update σ.taken next (some m) }
  /-- `dev_wait`. -/
  | waited (t : T) (d : DevId) (k : Kernel T) : σ.AtUser t → Ran true [] σ.kernel k →
      k.gtMutex = σ.kernel.gtMutex → k.shape = (σ.kernel.shape.push (.dev d) t).pick →
      StepCase fuel σ (.call (.wait d))
        { σ with kernel := k, ctl := Function.update σ.ctl t (.switched .waitEnable) }
  /-- `launch_task`. -/
  | launched (t : T) : σ.kernel.curTcb = some t → σ.ctl t = .launch →
      StepCase fuel σ .resume
        { σ with kernel := σ.kernel.launch, ctl := Function.update σ.ctl t (.running .user) }
  /-- The `enable_interrupts()` behind `ctx_switch_full`. -/
  | switchedIn (t : T) (pc : Pc) : σ.kernel.curTcb = some t → σ.ctl t = .switched pc →
      StepCase fuel σ .resume { σ with
        kernel := σ.kernel.enableInterrupts, ctl := Function.update σ.ctl t (.running pc) }
  /-- The end of `dev_wait`. -/
  | waitReturned (t : T) : σ.AtPc t .waitEnable →
      StepCase fuel σ .resume { σ with
        kernel := σ.kernel.enableInterrupts, ctl := Function.update σ.ctl t (.running .user) }
  | tookLock (t : T) (m : MutexId) : σ.AtPc t (.lockTake m) →
      StepCase fuel σ .resume { σ with
        kernel := σ.kernel.lockTake m, ctl := Function.update σ.ctl t (.running (.lockHold m))
        taken := Function.update σ.taken t none }
  | heldLock (t : T) (m : MutexId) : σ.AtPc t (.lockHold m) →
      StepCase fuel σ .resume { σ with
        kernel := σ.kernel.lockHold m (some t)
        ctl := Function.update σ.ctl t (.running (.lockEnable m)) }
  | lockReturned (t : T) (m : MutexId) : σ.AtPc t (.lockEnable m) →
      StepCase fuel σ .resume { σ with
        kernel := σ.kernel.enableInterrupts, ctl := Function.update σ.ctl t (.running .user)
        inside := σ.setInside t m true }
  /-- A timer interrupt that returns to the task. -/
  | ticked (t : T) (pc : Pc) (millis : Word) (k : Kernel T) : σ.AtPc t pc →
      σ.kernel.masked = false → σ.kernel.disableInterrupts.devUpdate fuel millis = some k →
      StepCase fuel σ (.timer millis false) { σ with kernel := k.enableInterrupts }
  /-- A timer interrupt that switches to another task. -/
  | preempted (t : T) (pc : Pc) (millis : Word) (k k' : Kernel T) : σ.AtPc t pc →
      σ.kernel.masked = false → σ.kernel.disableInterrupts.devUpdate fuel millis = some k →
      k.dispatchSave = some k' →
      StepCase fuel σ (.timer millis true)
        { σ with kernel := k', ctl := Function.update σ.ctl t (.switched pc) }

variable {fuel : ℕ} {σ σ' : System T} {t : T}

theorem mutexOf_bad {i : ℤ} (h : i < 0 ∨ i ≥ osNumMutex) : mutexOf i = none := by
  unfold mutexOf
  rw [dif_neg (by omega)]

theorem lock_cases {i : ℤ} (hu : σ.AtUser t) (h : σ.call fuel t (.lock i) = some σ') :
    StepCase fuel σ (.call (.lock i)) σ' := by
  obtain ⟨⟨o, k⟩, hk, rfl⟩ := Option.map_eq_some_iff.mp h
  cases mutexLock_cases hu.1 hk with
  | badId hi hquiet =>
    simp only [afterLock, mutexOf_bad hi]
    exact .quiet t _ k hu hquiet
  | notCreated m hi _ hquiet =>
    subst hi
    simp only [afterLock, mutexOf_val, einval]
    exact .quiet t _ k hu hquiet
  | deadlock m hi _ _ hquiet =>
    subst hi
    simp only [afterLock, mutexOf_val, edeadlock]
    exact .quiet t _ k hu hquiet
  | taken m hi hav _ hl hran hg hsh =>
    subst hi
    simp only [afterLock, mutexOf_val, if_pos]
    exact .locked t m k hu hav hl hran hg hsh
  | blockedFirst m hi hav _ hl hq hran hg hsh =>
    subst hi
    simp only [afterLock, mutexOf_val]
    exact .blockedFirst t m k hu hav hl hq hran hg hsh
  | blocked m hd last hi hav _ hl hq hran hw hg hsh =>
    subst hi
    simp only [afterLock, mutexOf_val]
    exact .blocked t m k hd last hu hav hl hq hran hw hg hsh

theorem unlock_cases {i : ℤ} (hu : σ.AtUser t) (h : σ.call fuel t (.unlock i) = some σ') :
    StepCase fuel σ (.call (.unlock i)) σ' := by
  cases h
  obtain ⟨⟨r, k⟩, hk⟩ : ∃ p, σ.kernel.mutexUnlock i = p := ⟨_, rfl⟩
  rw [hk]
  cases mutexUnlock_cases hu.1 hk with
  | badId hi hquiet =>
    simp only [afterUnlock, mutexOf_bad hi]
    exact .quiet t _ k hu hquiet
  | notCreated m hi _ hquiet =>
    subst hi
    simp only [afterUnlock, mutexOf_val, einval]
    exact .quiet t _ k hu hquiet
  | notHolder m hi _ _ hquiet =>
    subst hi
    simp only [afterUnlock, mutexOf_val, eperm]
    exact .quiet t _ k hu hquiet
  | free m hi hav hheld hq hran hg hsh =>
    subst hi
    simp only [afterUnlock, mutexOf_val, if_pos, hq]
    exact .unlocked t m k hu hav hheld hq hran hg hsh
  | wake m next hi hav hheld hq hran hg hsh =>
    subst hi
    simp only [afterUnlock, mutexOf_val, if_pos, hq]
    exact .woke t m k next hu hav hheld hq hran hg hsh

theorem call_cases {c : Call} (hu : σ.AtUser t) (h : σ.call fuel t c = some σ') :
    StepCase fuel σ (.call c) σ' := by
  cases c with
  | lock i => exact lock_cases hu h
  | unlock i => exact unlock_cases hu h
  | create =>
    cases h
    obtain ⟨⟨r, k⟩, hk⟩ : ∃ p, σ.kernel.mutexCreate = p := ⟨_, rfl⟩
    rw [hk]
    cases mutexCreate_cases hk with
    | created m hav hran hg hsh => exact .created t m k hu hav hran hg hsh
    | full _ hquiet => exact .quiet t _ k hu hquiet
  | wait d =>
    obtain ⟨k, hk, rfl⟩ := Option.map_eq_some_iff.mp h
    obtain ⟨hran, hg, hsh⟩ := devWait_cases hu.1 hk
    exact .waited t d k hu hran hg hsh

theorem resume_cases (hc : σ.kernel.curTcb = some t) (h : σ.resume t = some σ') :
    StepCase fuel σ .resume σ' := by
  unfold resume at h
  rcases hctl : σ.ctl t with _ | pc | pc
  · simp only [hctl, Option.some.injEq] at h
    exact h ▸ .launched t hc hctl
  · simp only [hctl, Option.some.injEq] at h
    exact h ▸ .switchedIn t pc hc hctl
  · cases pc with
    | user => simp [hctl] at h
    | waitEnable =>
      simp only [hctl, Option.some.injEq] at h
      exact h ▸ .waitReturned t ⟨hc, hctl⟩
    | lockTake m =>
      simp only [hctl, Option.some.injEq] at h
      exact h ▸ .tookLock t m ⟨hc, hctl⟩
    | lockHold m =>
      simp only [hctl, Option.some.injEq] at h
      exact h ▸ .heldLock t m ⟨hc, hctl⟩
    | lockEnable m =>
      simp only [hctl, Option.some.injEq] at h
      exact h ▸ .lockReturned t m ⟨hc, hctl⟩

/-- **Inversion of the step function.** -/
theorem step_cases {e : Event} (h : step fuel σ e = some σ') : StepCase fuel σ e σ' := by
  unfold step at h
  rcases hc : σ.kernel.curTcb with _ | t
  · simp [hc] at h
  · simp only [hc] at h
    cases e with
    | call c =>
      dsimp only at h
      split_ifs at h with hu
      exact call_cases ⟨hc, hu⟩ h
    | resume => exact resume_cases hc h
    | timer millis dispatch =>
      dsimp only at h
      split at h
      · rename_i pc hm hpc
        obtain ⟨k, hk, h⟩ := Option.bind_eq_some_iff.mp h
        split_ifs at h with hd
        · obtain ⟨k', hk', rfl⟩ := Option.map_eq_some_iff.mp h
          subst hd
          exact .preempted t pc millis k k' ⟨hc, hpc⟩ hm hk hk'
        · cases h
          rw [Bool.not_eq_true] at hd
          subst hd
          exact .ticked t pc millis k ⟨hc, hpc⟩ hm hk
      · cases h

end System

end Lab4Kernel
