import Lab4Kernel.System.Periodic
import Lab4Kernel.System.Waits
import Mathlib.Data.Fintype.Order

/-!
# Deadlock

Nothing in the kernel keeps two tasks from locking two mutexes in opposite orders.

* `LocksInOrder`: a task asks for no mutex below one that it holds;
* **`no_deadlock`**: in runs whose steps keep to this, no task waits in a circle, and every wait
  leads to a mutex that somebody owns, or is about to lock, who sleeps on no mutex;
* `Deadlocked`: tasks that sleep on mutexes held by one another;
* **`deadlock_permanent`**: a circular wait is never left.
-/

namespace Lab4Kernel

open Kernel Intrusive Relation WaitFor

variable {T : Type}

namespace System

variable {fuel : ℕ} {live : Set T} {σ σ' : System T} {t u : T} {m m' : MutexId} {e : Event}
  {L L' : QId → List T} {place place' : T → Option Place}

variable [DecidableEq T]

/-! ## Mutexes locked in order -/

/-- A call of `mutex_lock` asks for no mutex below one that the caller is recorded as holding. -/
def LocksInOrder (σ : System T) : Event → Prop
  | .call (.lock i) => ∀ t ∈ σ.kernel.curTcb, ∀ m ∈ mutexOf i, ∀ m', HeldBy σ.kernel m' t → m' ≤ m
  | _ => True

instance (σ : System T) : ∀ e, Decidable (LocksInOrder σ e)
  | .call (.lock i) => inferInstanceAs (Decidable (∀ t ∈ σ.kernel.curTcb, ∀ m ∈ mutexOf i, ∀ m',
      HeldBy σ.kernel m' t → m' ≤ m))
  | .call .create | .call (.unlock _) | .call (.wait _) | .resume | .timer _ _ => .isTrue trivial

/-- **A step in order keeps the waits in order.** A task is recorded as a holder only while it is
current, so what it holds does not change while it sleeps. -/
theorem ordered_step (h : Tasks live σ.kernel.shape L place)
    (h' : Tasks live σ'.kernel.shape L' place') (hs : step fuel σ e = some σ')
    (hin : LocksInOrder σ e) (hord : Ordered (SleepsOn σ.kernel) (HeldBy σ.kernel)) :
    Ordered (SleepsOn σ'.kernel) (HeldBy σ'.kernel) := by
  intro u m m' hsleep hheld
  have hplace : place' u = some (.asleep (.mutex m)) := h'.sleepsOn_place.mp hsleep
  have hheld₀ : HeldBy σ.kernel m' u := by
    rcases (step_cases hs).holder hheld with hold | ⟨-, hcur⟩
    · exact hold
    · rw [(h'.current u).mp hcur] at hplace
      cases hplace
  have hmem : u ∈ L' (.mutex m) := h'.sleepsOn_iff.mp hsleep
  cases (step_cases hs).queueStep h h' m with
  | same hl =>
    rw [hl] at hmem
    exact hord u m m' (h.sleepsOn_iff.mpr hmem) hheld₀
  | left c t hc hcheld hl =>
    exact hord u m m' (h.sleepsOn_iff.mpr (by rw [hl]; exact List.mem_cons_of_mem _ hmem)) hheld₀
  | joined c hc he hlock hl =>
    rw [hl, List.mem_append, List.mem_singleton] at hmem
    rcases hmem with hmem | rfl
    · exact hord u m m' (h.sleepsOn_iff.mpr hmem) hheld₀
    · subst he
      refine lt_of_le_of_ne (hin u hc.1 m (mutexOf_val m) m' hheld₀) ?_
      -- it would have been refused a mutex that it holds
      rintro rfl
      have hsh := lock_by_holder hs hc.1 hheld₀
      have hcur : σ'.kernel.curTcb = some u := (congrArg Shape.cur hsh).trans hc.1
      rw [(h'.current u).mp hcur] at hplace
      cases hplace

/-! ## Runs with mutexes locked in order -/

/-- The task owns the mutex, or was taken off its queue and is about to lock it. -/
def Engaged (σ : System T) (m : MutexId) (t : T) : Prop := Owns σ m t ∨ σ.taken t = some m

/-- The task is current, in the run queue, or asleep on a device. -/
def OffMutexes (s : Kernel T) (t : T) : Prop :=
  s.curTcb = some t ∨ Queued s t ∨ ∃ d, OnDevice s d t

omit [DecidableEq T] in
theorem Tasks.offMutexes {s : Kernel T} (h : Tasks live s.shape L place) (ht : t ∈ live)
    (hno : ∀ m, ¬SleepsOn s t m) : OffMutexes s t := by
  obtain ⟨pl, hpl⟩ := Option.isSome_iff_exists.mp ((h.live_iff t).mp ht)
  rcases pl with _ | _ | (d | m)
  · exact .inl ((h.current t).mpr hpl)
  · exact .inr (.inl (h.queued_iff.mpr hpl))
  · exact .inr (.inr ⟨d, h.onDevice_iff.mpr hpl⟩)
  · exact absurd (h.sleepsOn_place.mpr hpl) (hno m)

omit [DecidableEq T] in
/-- A mutex with waiters has somebody to release or take it; unless it is a recorded holder that
itself sleeps on a mutex, nothing of this kind keeps it from running. -/
theorem Waiting.engaged (h : Waiting live σ L place) (ho : Owned live σ)
    (hsleep : SleepsOn σ.kernel t m)
    (hend : ∀ u, HeldBy σ.kernel m u → ∀ m', ¬SleepsOn σ.kernel u m') :
    ∃ u, Engaged σ m u ∧ OffMutexes σ.kernel u := by
  have hmem := h.tasks.sleepsOn_iff.mp hsleep
  rcases h.guarded m (List.ne_nil_of_mem hmem) with hl | ⟨u, hu⟩
  · obtain ⟨u, hu⟩ := ho.owner m hl
    refine ⟨u, .inl hu, Tasks.offMutexes h.tasks (ho.alive m u hu) fun m' hm' => ?_⟩
    rcases hu with hheld | hpc
    · exact hend u hheld m' hm'
    · rw [h.asleep u m' (h.tasks.sleepsOn_place.mp hm')] at hpc
      cases hpc
  · obtain ⟨-, hawake⟩ := h.taken u m hu
    refine ⟨u, .inr hu, ?_⟩
    rcases hawake with hcur | hready
    · exact .inl ((h.tasks.current u).mpr hcur)
    · exact .inr (.inl (h.tasks.queued_iff.mpr hready))

theorem start_owned {k : Kernel T} : Owned live (start k) := by
  have hnone : ∀ m t, ¬Owns (start k) m t := by
    rintro m t (ht | ht)
    · cases ht
    · by_cases hc : k.curTcb = some t <;> simp [start, hc] at ht
  exact ⟨fun m hm => (by cases hm), fun m t ht => absurd ht (hnone m t)⟩

/-- What runs with mutexes locked in order keep. -/
structure InOrder (live : Set T) (σ : System T) : Prop where
  attended : Attended live σ
  owned : Owned live σ
  ordered : Ordered (SleepsOn σ.kernel) (HeldBy σ.kernel)

theorem start_inOrder {k : Kernel T} (hk : Tasks live (start k).kernel.shape L place) :
    InOrder live (start k) := by
  refine ⟨⟨L, place, start_waiting hk⟩, start_owned, ?_⟩
  intro t m m' _ hheld
  cases hheld

theorem InOrder.step (h : InOrder live σ) (hin : LocksInOrder σ e)
    (hs : step fuel σ e = some σ') : InOrder live σ' := by
  obtain ⟨⟨L, place, hw⟩, ho, hord⟩ := h
  obtain ⟨L', place', hw'⟩ := (step_cases hs).waiting hw
  exact ⟨⟨L', place', hw'⟩, (step_cases hs).owned hw.tasks ho,
    ordered_step hw.tasks hw'.tasks hs hin hord⟩

/-- **No deadlock when mutexes are locked in order**: in every state of every run from placed tasks
in which each call of `mutex_lock` is for no mutex below one that the caller holds, no task waits,
over any number of others, for itself; and whoever sleeps on a mutex waits, over any number of
others, for a mutex that somebody owns, or is about to lock, who sleeps on no mutex. -/
theorem no_deadlock (fuel : ℕ) (live : Set T) (k : Kernel T) (L : QId → List T)
    (place : T → Option Place) (hk : Tasks live (start k).kernel.shape L place)
    (tr : List (System T × Event)) (σ : System T) (hrun : SystemRun fuel (start k) tr σ)
    (hin : ∀ p ∈ tr, LocksInOrder p.1 p.2) :
    (∀ t, ¬TransGen (Awaits σ.kernel) t t) ∧
      ∀ t m, SleepsOn σ.kernel t m → ∃ u m' v, ReflTransGen (Awaits σ.kernel) t u ∧
        SleepsOn σ.kernel u m' ∧ Engaged σ m' v ∧ OffMutexes σ.kernel v := by
  obtain ⟨⟨L, place, h⟩, ho, hord⟩ : InOrder live σ :=
    hrun.guarded (fun _ _ _ h hin hs => InOrder.step h hin hs) (start_inOrder hk) hin
  constructor
  · exact hord.acyclic fun v m m' => h.tasks.sleepsOn_unique
  · intro t m hsleep
    obtain ⟨u, m', hchain, hu, hend⟩ := hord.exists_end hsleep
    obtain ⟨v, hv, hoff⟩ := h.engaged ho hu hend
    exact ⟨u, m', v, hchain, hu, hv, hoff⟩

/-- Task 1 holds mutex 0 and sleeps on a device, and task 0 sleeps on mutex 0. -/
def nested : List Event :=
  [.call .create, .call .create, .timer 10 true, .resume, .call (.lock 0), .call (.lock 1),
    .call (.wait ⟨3, by decide⟩), .resume, .call (.lock 0)]

theorem no_deadlock_nested :
    ∃ tr σ, SystemRun osMaxTasks (start (boot threeTasks 0 [1, 2])) tr σ ∧
      SleepsOn σ.kernel 0 0 ∧ (∀ t, ¬TransGen (Awaits σ.kernel) t t) ∧
      ∀ t m, SleepsOn σ.kernel t m → ∃ u m' v, ReflTransGen (Awaits σ.kernel) t u ∧
        SleepsOn σ.kernel u m' ∧ Engaged σ m' v ∧ OffMutexes σ.kernel v := by
  have hend : (nested.foldlM (step osMaxTasks) (start (boot threeTasks 0 [1, 2]))).map
      (fun σ => ((σ.kernel.gtMutex 0).pSleepQueue, (σ.kernel.tcb 0).sleepQueue)) =
      some (some 0, none) := by decide +kernel
  obtain ⟨σ, hrun, heq⟩ := Runs.run_of_map hend
  have hin : ∀ p ∈ Runs.trace (step osMaxTasks) (start (boot threeTasks 0 [1, 2])) nested,
      LocksInOrder p.1 p.2 := by decide +kernel
  obtain ⟨hhead, hlink⟩ := Prod.mk.injEq .. ▸ heq
  exact ⟨_, σ, hrun, ⟨[0], ⟨hhead, hlink⟩, List.mem_singleton_self _⟩,
    no_deadlock osMaxTasks _ _ _ _ threeTasks_placed _ _ hrun hin⟩

/-! ## Circular waits -/

/-- The mutex is locked, and every task inside `mutex_lock` for it sleeps. -/
def Settled (σ : System T) (m : MutexId) : Prop :=
  (σ.kernel.gtMutex m).bLock = true ∧
    ∀ t, (σ.ctl t).pc = .lockTake m ∨ (σ.ctl t).pc = .lockHold m → SleepsOn σ.kernel t m

/-- The tasks that `waits` is about sleep on the mutexes that it names, each of which is settled and
held by another one of these tasks. -/
def Deadlocked (waits : T → MutexId → Prop) (σ : System T) : Prop :=
  ∀ t m, waits t m → SleepsOn σ.kernel t m ∧ Settled σ m ∧
    ∃ u m', HeldBy σ.kernel m u ∧ waits u m'

/-- **A deadlock outlives every step.** Its tasks sleep, so the current task is none of them: it
holds none of their mutexes, and blocks when it asks for one. -/
theorem Deadlocked.step {waits : T → MutexId → Prop} (h : Deadlocked waits σ)
    (hw : Waiting live σ L place) (hw' : Waiting live σ' L' place')
    (hs : step fuel σ e = some σ') : Deadlocked waits σ' := by
  have hasleep : ∀ t m, SleepsOn σ.kernel t m → σ.kernel.curTcb ≠ some t := by
    intro t m hsleep hc
    rw [hw.tasks.sleepsOn_place, (hw.tasks.current t).mp hc] at hsleep
    cases hsleep
  intro t m ht
  obtain ⟨hsleep, ⟨hl, hin⟩, u, m', hheld, hu⟩ := h t m ht
  have hnot : ∀ c, σ.kernel.curTcb = some c → ¬Owns σ m c := by
    rintro c hc (hcheld | hpc)
    · obtain rfl := hcheld.unique hheld
      exact hasleep c m' (h c m' hu).1 hc
    · exact hasleep c m (hin c (.inr hpc)) hc
  obtain ⟨hl', hheld'⟩ := (step_cases hs).mutex_kept hl hnot
  have hkeep : ∀ v, SleepsOn σ.kernel v m → SleepsOn σ'.kernel v m := by
    intro v hv
    rw [hw.tasks.sleepsOn_iff] at hv
    rw [hw'.tasks.sleepsOn_iff]
    cases (step_cases hs).queueStep hw.tasks hw'.tasks m with
    | same hL => rwa [hL]
    | joined c hc he hlock hL =>
      rw [hL]
      exact List.mem_append_left _ hv
    | left c x hc hcheld hL => exact absurd (.inl hcheld) (hnot c hc.1)
  refine ⟨hkeep t hsleep, ⟨hl', fun v hv => ?_⟩, u, m', hheld'.trans hheld, hu⟩
  rcases (step_cases hs).enters hw.tasks hv with hold | hnew
  · exact hkeep v (hin v hold)
  · exact hnew

theorem Deadlocked.run {waits : T → MutexId → Prop} {tr : List (System T × Event)}
    (h : Deadlocked waits σ) (h₀ : Attended live σ) (hrun : SystemRun fuel σ tr σ') :
    Deadlocked waits σ' := by
  induction hrun with
  | nil => exact h
  | @snoc tr ρ ρ' e hrun hs ih =>
    obtain ⟨L, place, hw⟩ := attended_of_run h₀ hrun
    obtain ⟨L', place', hw'⟩ := (step_cases hs).waiting hw
    exact ih.step hw hw' hs

/-- The task `u` sleeps on `m`, and `t` waits for it, over any number of others. -/
def WaitsBehind (s : Kernel T) (t u : T) (m : MutexId) : Prop :=
  TransGen (Awaits s) t u ∧ SleepsOn s u m

omit [DecidableEq T] in
/-- A circular wait on settled mutexes is a deadlock. -/
theorem Waiting.deadlocked (h : Waiting live σ L place) (hcycle : TransGen (Awaits σ.kernel) t t)
    (hset : ∀ u m, WaitsBehind σ.kernel t u m → Settled σ m) :
    Deadlocked (WaitsBehind σ.kernel t) σ := by
  have hstuck : Stuck (SleepsOn σ.kernel) (HeldBy σ.kernel) {u | TransGen (Awaits σ.kernel) t u} :=
    exists_stuck (fun v m m' => h.tasks.sleepsOn_unique) (fun m v v' hv hv' => hv.unique hv') hcycle
  rintro u m ⟨hu, hsleep⟩
  obtain ⟨v, hv, m₁, hm₁, hheld⟩ := hstuck u hu
  obtain rfl := h.tasks.sleepsOn_unique hsleep hm₁
  obtain ⟨w, hw, m₂, hm₂, -⟩ := hstuck v hv
  exact ⟨hsleep, hset u m ⟨hu, hsleep⟩, v, m₂, hheld, hv, hm₂⟩

/-- **A circular wait is for ever.** When, in a state of a run, a task waits over a number of others
for itself, and the mutexes that these tasks sleep on are settled, then in every state that follows
these tasks sleep on the same mutexes, and none of them is current or in the run queue. -/
theorem deadlock_permanent (fuel : ℕ) (live : Set T) (k : Kernel T) (L : QId → List T)
    (place : T → Option Place) (hk : Tasks live (start k).kernel.shape L place)
    (tr tr' : List (System T × Event)) (σ σ' : System T) (hrun : SystemRun fuel (start k) tr σ)
    (t : T) (hcycle : TransGen (Awaits σ.kernel) t t)
    (hset : ∀ u m, WaitsBehind σ.kernel t u m → Settled σ m)
    (hrun' : SystemRun fuel σ tr' σ') :
    ∀ u m, WaitsBehind σ.kernel t u m →
      SleepsOn σ'.kernel u m ∧ σ'.kernel.curTcb ≠ some u ∧ ¬Queued σ'.kernel u := by
  have h₀ := attended_of_run ⟨L, place, start_waiting hk⟩ hrun
  have hdead : Deadlocked (WaitsBehind σ.kernel t) σ := by
    obtain ⟨L, place, h⟩ := h₀
    exact h.deadlocked hcycle hset
  have hdead' := hdead.run h₀ hrun'
  obtain ⟨L', place', h'⟩ := attended_of_run h₀ hrun'
  intro u m hu
  obtain ⟨hsleep, -⟩ := hdead' u m hu
  have hplace := h'.tasks.sleepsOn_place.mp hsleep
  refine ⟨hsleep, fun hc => ?_, fun hq => ?_⟩
  · rw [(h'.tasks.current u).mp hc] at hplace
    cases hplace
  · rw [h'.tasks.queued_iff.mp hq] at hplace
    cases hplace

/-- Tasks 0 and 1 lock mutexes 0 and 1 in opposite orders. -/
def crossed : List Event :=
  [.call .create, .call .create, .call (.lock 0), .timer 10 true, .resume, .call (.lock 1),
    .call (.lock 0), .resume, .call (.lock 1)]

/-- Each of two tasks sleeps on the mutex that the other one holds, and nobody else is about these
mutexes. -/
def Crossed (t u : Fin 3) (m n : MutexId) (σ : System (Fin 3)) : Prop :=
  (σ.kernel.gtMutex m).pSleepQueue = some u ∧ (σ.kernel.gtMutex n).pSleepQueue = some t ∧
    (∀ v, (σ.kernel.tcb v).sleepQueue = none) ∧ HeldBy σ.kernel m t ∧ HeldBy σ.kernel n u ∧
    (∀ k, k ≠ m → k ≠ n → (σ.kernel.gtMutex k).pSleepQueue = none) ∧
    ∀ k, k = m ∨ k = n → (σ.kernel.gtMutex k).bLock = true ∧
      ∀ v, (σ.ctl v).pc = .lockTake k ∨ (σ.ctl v).pc = .lockHold k →
        (σ.kernel.gtMutex k).pSleepQueue = some v

instance (t u : Fin 3) (m n : MutexId) (σ : System (Fin 3)) : Decidable (Crossed t u m n σ) :=
  inferInstanceAs (Decidable (_ ∧ _))

section Crossed

variable {t u : Fin 3} {m n : MutexId} {σ : System (Fin 3)}

theorem Crossed.sleepsOn_iff (h : Crossed t u m n σ) {v : Fin 3} {k : MutexId} :
    SleepsOn σ.kernel v k ↔ (σ.kernel.gtMutex k).pSleepQueue = some v := by
  constructor
  · rintro ⟨_ | ⟨x, l⟩, hl, hv⟩
    · cases hv
    · obtain ⟨hhead, hrest⟩ := hl
      rw [show σ.kernel.shape.link x = none from h.2.2.1 x] at hrest
      obtain rfl := IsChain.eq_nil hrest
      rw [List.mem_singleton.mp hv]
      exact hhead
  · intro hq
    exact ⟨[v], ⟨hq, h.2.2.1 v⟩, List.mem_singleton_self _⟩

theorem Crossed.circular (h : Crossed t u m n σ) :
    TransGen (Awaits σ.kernel) t t ∧ ∀ v k, WaitsBehind σ.kernel t v k → Settled σ k := by
  obtain ⟨hu, ht, -, hheld, hheld', hother, hset⟩ := id h
  constructor
  · have hfirst : Awaits σ.kernel t u := ⟨n, h.sleepsOn_iff.mpr ht, hheld'⟩
    have hback : Awaits σ.kernel u t := ⟨m, h.sleepsOn_iff.mpr hu, hheld⟩
    exact .tail (.single hfirst) hback
  · rintro v k ⟨-, hsleep⟩
    have hk : k = m ∨ k = n := by
      by_contra hne
      rw [not_or] at hne
      rw [h.sleepsOn_iff, hother k hne.1 hne.2] at hsleep
      cases hsleep
    exact ⟨(hset k hk).1, fun w hw => h.sleepsOn_iff.mpr ((hset k hk).2 w hw)⟩

end Crossed

/-- Then idle runs, interrupted by the timer, and the two tasks sleep on. -/
theorem deadlock_permanent_crossed :
    ∃ tr tr' σ σ', SystemRun osMaxTasks (start (boot threeTasks 0 [1, 2])) tr σ ∧
      SystemRun osMaxTasks σ tr' σ' ∧ tr' ≠ [] ∧
      TransGen (Awaits σ.kernel) 0 0 ∧ ∀ u m, WaitsBehind σ.kernel 0 u m →
        SleepsOn σ'.kernel u m ∧ σ'.kernel.curTcb ≠ some u ∧ ¬Queued σ'.kernel u := by
  have hend : (crossed.foldlM (step osMaxTasks) (start (boot threeTasks 0 [1, 2]))).map
      (fun σ => decide (Crossed 0 1 0 1 σ)) = some true := by decide +kernel
  have hboth : ((crossed ++ [Event.resume, .timer 50 false]).foldlM (step osMaxTasks)
      (start (boot threeTasks 0 [1, 2]))).isSome := by decide +kernel
  obtain ⟨σ', hboth⟩ := Option.isSome_iff_exists.mp hboth
  rw [List.foldlM_append] at hboth
  obtain ⟨σ, hσ, hσ'⟩ := Option.bind_eq_some_iff.mp hboth
  rw [hσ] at hend
  have hcrossed : Crossed 0 1 0 1 σ := of_decide_eq_true (Option.some.inj hend)
  obtain ⟨hcycle, hset⟩ := hcrossed.circular
  have hrun := Runs.run_trace hσ
  have hrun' := Runs.run_trace hσ'
  exact ⟨_, _, σ, σ', hrun, hrun', List.cons_ne_nil _ _, hcycle,
    deadlock_permanent osMaxTasks _ _ _ _ threeTasks_placed _ _ _ _ hrun 0 hcycle hset hrun'⟩

end System

end Lab4Kernel
