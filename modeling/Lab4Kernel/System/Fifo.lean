import Lab4Kernel.System.LockCalls

/-!
# Waiters are woken in the order in which they blocked

* `blockedLog`, `wokenLog`: the tasks that blocked on a mutex in a run, and the tasks that
  `mutex_unlock` woke, in the order of the steps;
* `fifo_step`, `fifo_run`: the tasks that blocked are the tasks that were woken, in the same order,
  and then the waiters;
* **`mutex_fifo`**: the mutex calls are those of a table of locks with first-in first-out waiters.
-/

namespace Lab4Kernel

open Kernel Intrusive LockTable

namespace System

variable {T : Type} [DecidableEq T] {live : Set T} {fuel : ℕ} {σ σ' : System T} {e : Event}
  {m : MutexId} {L L' : QId → List T} {place place' : T → Option Place}

/-- The task that blocks on `m` in a step: the caller of a `mutex_lock` that switches out. -/
def blockedBy (fuel : ℕ) (m : MutexId) : System T × Event → List T
  | (σ, .call (.lock i)) =>
    if mutexOf i = some m ∧ (σ.kernel.mutexLock fuel i).map Prod.fst = some .switchedOut then
      σ.kernel.curTcb.toList
    else []
  | _ => []

/-- The task that is woken from `m` in a step: the head of the queue at a `mutex_unlock` that
succeeds. -/
def wokenBy (m : MutexId) : System T × Event → List T
  | (σ, .call (.unlock i)) =>
    if mutexOf i = some m ∧ (σ.kernel.mutexUnlock i).1 = 0 then
      (σ.kernel.gtMutex m).pSleepQueue.toList
    else []
  | _ => []

/-- The tasks that blocked on `m`, in the order of the steps. -/
def blockedLog (fuel : ℕ) (m : MutexId) (tr : List (System T × Event)) : List T :=
  tr.flatMap (blockedBy fuel m)

/-- The tasks that were woken from `m`, in the order of the steps. -/
def wokenLog (m : MutexId) (tr : List (System T × Event)) : List T := tr.flatMap (wokenBy m)

theorem afterLock_kernel (t : T) (i : ℤ) (p : Outcome × Kernel T) :
    (σ.afterLock t i p).kernel = p.2 := by
  unfold afterLock
  split <;> first | rfl | (split_ifs <;> rfl)

theorem afterUnlock_kernel (t : T) (i : ℤ) (p : ℤ × Kernel T) :
    (σ.afterUnlock t i p).kernel = p.2 := by
  unfold afterUnlock
  split <;> first | rfl | (split_ifs <;> rfl)

theorem exists_caller {c : Call} (hs : step fuel σ (.call c) = some σ') :
    ∃ t, σ.kernel.curTcb = some t ∧ σ.call fuel t c = some σ' := by
  unfold step at hs
  rcases hc : σ.kernel.curTcb with _ | t
  · simp [hc] at hs
  · simp only [hc] at hs
    split_ifs at hs
    exact ⟨t, rfl, hs⟩

theorem StepCase.keepsSleepers (hs : StepCase fuel σ e σ') (h : Tasks live σ.kernel.shape L place)
    (hlock : ∀ i, e ≠ .call (.lock i)) (hunlock : ∀ i, e ≠ .call (.unlock i)) (m : MutexId) :
    Sleepers σ'.kernel (.mutex m) (L (.mutex m)) := by
  have hsame : σ'.kernel.shape = σ.kernel.shape → Sleepers σ'.kernel (.mutex m) (L (.mutex m)) := by
    intro hsh
    unfold Sleepers
    rw [hsh]
    exact h.chain _
  cases hs with
  | quiet t c k hu hquiet => exact hsame hquiet.shape
  | created t m k hu hav hran hg hsh => exact hsame hsh
  | locked t m => exact absurd rfl (hlock _)
  | blockedFirst t m => exact absurd rfl (hlock _)
  | blocked t m => exact absurd rfl (hlock _)
  | unlocked t m => exact absurd rfl (hunlock _)
  | woke t m => exact absurd rfl (hunlock _)
  | waited t d k hu hran hg hsh =>
    have h' := h.sleep hu.1 (.dev d)
    rw [← hsh] at h'
    have hchain := h'.sleepers (.mutex m)
    rwa [Function.update_of_ne (by simp)] at hchain
  | launched t hc hctl => exact hsame rfl
  | switchedIn t pc hc hctl => exact hsame rfl
  | waitReturned t hpc => exact hsame rfl
  | tookLock t m hpc => exact hsame (shape_setLock _ _)
  | heldLock t m hpc => exact hsame (shape_setHolding _ _)
  | lockReturned t m hpc => exact hsame rfl
  | ticked t pc millis k hpc hm hk =>
    exact (devUpdate_spec (s := σ.kernel.disableInterrupts) h hk).tasks.chain (.mutex m)
  | preempted t pc millis k k' hpc hm hk hk' =>
    have ht := (devUpdate_spec (s := σ.kernel.disableInterrupts) h hk).tasks
    have hc : k.curTcb = some t := (Background.devUpdate hk).curTcb.trans hpc.1
    obtain ⟨-, -, -, hsh⟩ := dispatchSave_cases hc hk'
    have h' := (ht.preempt hc).2
    rw [← hsh (ht.native_eq t (ht.cur_mem hc))] at h'
    exact h'.chain (.mutex m)

/-- **One step**: what it wakes, and then the waiters after it, are the waiters before it, and then
what it blocks. -/
theorem fifo_step (h : Tasks live σ.kernel.shape L place)
    (h' : Tasks live σ'.kernel.shape L' place') (hs : step fuel σ e = some σ') (m : MutexId) :
    wokenBy m (σ, e) ++ L' (.mutex m) = L (.mutex m) ++ blockedBy fuel m (σ, e) := by
  have hother : (∀ i, e ≠ .call (.lock i)) → (∀ i, e ≠ .call (.unlock i)) →
      [] ++ L' (.mutex m) = L (.mutex m) ++ [] := by
    intro hlock hunlock
    have hkeeps := (step_cases hs).keepsSleepers h hlock hunlock m
    rw [List.nil_append, List.append_nil, h'.eq_of_sleepers hkeeps]
  have htab : Represents σ.kernel (tableOf σ.kernel L) := h.represents_iff.mpr rfl
  cases e with
  | timer millis b => exact hother (by simp) (by simp)
  | resume => exact hother (by simp) (by simp)
  | call call =>
    obtain ⟨c, hc, hcall⟩ := exists_caller hs
    cases call with
    | create => exact hother (by simp) (by simp)
    | wait d => exact hother (by simp) (by simp)
    | lock i =>
      obtain ⟨⟨o, k⟩, hk, rfl⟩ := Option.map_eq_some_iff.mp hcall
      rw [afterLock_kernel] at h'
      obtain ⟨ho, hrep⟩ := ((lockEnd h hc (mutexLock_cases hc hk)).right h).refines _ htab
      have hwaiters := Table.lock_waiters (tableOf σ.kernel L) c (mutexOf i) m
      rw [h'.represents_iff.mp hrep] at hwaiters
      have hblocked : (tableOf σ.kernel L).blocked c (mutexOf i) m =
          blockedBy fuel m (σ, .call (.lock i)) := by
        have hiff : ((tableOf σ.kernel L).lock c (mutexOf i)).1 = .waits ↔ o = .switchedOut := by
          rw [ho]
          exact outcomeOf_injective.eq_iff.symm
        simp [Table.blocked, blockedBy, hk, hiff, hc]
      rw [← hblocked]
      exact hwaiters
    | unlock i =>
      obtain rfl := Option.some.inj hcall
      obtain ⟨⟨r, k⟩, hk⟩ : ∃ p, σ.kernel.mutexUnlock i = p := ⟨_, rfl⟩
      rw [afterUnlock_kernel, hk] at h'
      obtain ⟨ho, hrep⟩ := ((unlockEnd h (mutexUnlock_cases hc hk)).right h).refines _ htab
      have hwaiters := Table.unlock_waiters (tableOf σ.kernel L) c (mutexOf i) m
      rw [h'.represents_iff.mp hrep] at hwaiters
      have hwoken : (tableOf σ.kernel L).woken c (mutexOf i) m =
          wokenBy m (σ, .call (.unlock i)) := by
        have hiff : ((tableOf σ.kernel L).unlock c (mutexOf i)).1 = .done ↔ r = 0 := by
          rw [← Outcome.returned.injEq, ho]
          exact outcomeOf_injective.eq_iff.symm
        have hhead : (L (.mutex m)).head? = (σ.kernel.gtMutex m).pSleepQueue :=
          (h.chain (.mutex m)).head?_eq
        simp [Table.woken, wokenBy, hk, hiff, tableOf, hhead]
      rw [← hwoken]
      exact hwaiters.trans (List.append_nil _).symm

/-- **A whole run.** -/
theorem fifo_run {k : Kernel T} {tr : List (System T × Event)}
    (hk : Tasks live (start k).kernel.shape L place) (hrun : SystemRun fuel (start k) tr σ)
    (m : MutexId) :
    ∃ l, Sleepers σ.kernel (.mutex m) l ∧ blockedLog fuel m tr = wokenLog m tr ++ l := by
  have h₀ : Attended live (start k) := ⟨L, place, start_waiting hk⟩
  induction hrun with
  | nil => exact ⟨[], rfl, rfl⟩
  | @snoc tr σ σ' e hrun hs ih =>
    obtain ⟨l, hl, hlog⟩ := ih
    obtain ⟨L₁, place₁, h₁⟩ := attended_of_run h₀ hrun
    obtain ⟨L₂, place₂, h₂⟩ := attended_of_run h₀ (hrun.snoc e hs)
    rw [h₁.tasks.eq_of_sleepers hl] at hlog
    have hstep := fifo_step h₁.tasks h₂.tasks hs m
    refine ⟨L₂ (.mutex m), h₂.tasks.sleepers _, ?_⟩
    unfold blockedLog wokenLog at hlog ⊢
    rw [List.flatMap_append, List.flatMap_append, List.flatMap_singleton, List.flatMap_singleton]
    exact fifo_extend hlog hstep

/-- **Mutex calls are those of a table of locks with first-in first-out waiters**: in every
well-formed state every call by a current task is right, and in every run from placed tasks the
tasks that blocked on a mutex are the tasks that were woken, in the same order, and then those that
still wait. -/
theorem mutex_fifo (fuel : ℕ) (live : Set T) (idle : T) (hf : osMaxTasks ≤ fuel) :
    (∀ s c i, WellFormed live idle s → s.curTcb = some c →
      (∃ o s', s.mutexLock fuel i = some (o, s') ∧ LockRight c i s o s') ∧
      UnlockRight c i s (s.mutexUnlock i).1 (s.mutexUnlock i).2) ∧
    ∀ (k : Kernel T) L place, Tasks live (start k).kernel.shape L place →
      ∀ tr σ, SystemRun fuel (start k) tr σ → ∀ m, ∃ l, Sleepers σ.kernel (.mutex m) l ∧
        blockedLog fuel m tr = wokenLog m tr ++ l := by
  refine ⟨fun s c i hwf hc => ?_, fun k L place hk tr σ hrun m => fifo_run hk hrun m⟩
  obtain ⟨L, place, h, -⟩ := hwf
  obtain ⟨o, s', hs⟩ := mutexLock_total i h hc hf
  exact ⟨⟨o, s', hs, (lockEnd h hc (mutexLock_cases hc hs)).right h⟩,
    (unlockEnd h (mutexUnlock_cases hc rfl)).right h⟩

/-- Task 1 blocks on mutex 0 and is woken. -/
theorem mutex_fifo_contended :
    (∃ o s', (boot threeTasks 0 [1, 2]).mutexLock osMaxTasks 0 = some (o, s') ∧
      LockRight 0 0 (boot threeTasks 0 [1, 2]) o s') ∧
    ∃ tr σ, SystemRun osMaxTasks (start (boot threeTasks 0 [1, 2])) tr σ ∧
      blockedLog osMaxTasks 0 tr = [1] ∧ wokenLog 0 tr = [1] ∧
      ∀ m, ∃ l, Sleepers σ.kernel (.mutex m) l ∧
        blockedLog osMaxTasks m tr = wokenLog m tr ++ l := by
  have hrun : ((contended.foldlM (step osMaxTasks) (start (boot threeTasks 0 [1, 2]))).map
      fun _ => ()) = some () := by decide +kernel
  obtain ⟨σ, htr, -⟩ := Runs.run_of_map hrun
  have hlogs : blockedLog osMaxTasks 0 (Runs.trace (step osMaxTasks)
        (start (boot threeTasks 0 [1, 2])) contended) = [1] ∧
      wokenLog 0 (Runs.trace (step osMaxTasks)
        (start (boot threeTasks 0 [1, 2])) contended) = [1] := by
    decide +kernel
  exact ⟨((mutex_fifo osMaxTasks _ 2 le_rfl).1 _ 0 0 wellFormed_boot rfl).1, _, σ, htr, hlogs.1,
    hlogs.2, (mutex_fifo osMaxTasks {t | t ∈ [0, 1, 2]} 2 le_rfl).2 _ _ _ threeTasks_placed _ _ htr⟩

end System

end Lab4Kernel
