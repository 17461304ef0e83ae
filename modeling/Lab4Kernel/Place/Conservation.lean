import Lab4Kernel.Place.Boot

/-!
# Conservation of tasks

* `WellFormed live idle s`: exactly the live tasks have a place, each exactly one, and idle is
  current or ready;
* `Operation`: the calls of the kernel, with the states in which they are made;
* **`operation_conserves`**: every operation returns, leaves the state well formed with the same
  live tasks, and overwrites no slot of the run queue.
-/

namespace Lab4Kernel

open Intrusive

variable {T : Type} {live : Set T} {idle c t u : T} {sh : Shape T} {L : QId → List T}
  {place : T → Option Place} {s s' : Kernel T}

/-- The task is current or ready. -/
def Awake (place : T → Option Place) (t : T) : Prop :=
  place t = some .current ∨ place t = some .ready

/-- **Well-formed kernel states.** -/
def WellFormed (live : Set T) (idle : T) (s : Kernel T) : Prop :=
  ∃ L place, Tasks live s.shape L place ∧ Awake place idle

/-- The operations on the kernel state. -/
inductive Operation where
  | devWait (d : DevId)
  | mutexLock (i : ℤ)
  | mutexUnlock (i : ℤ)
  | lockRest (m : MutexId)
  | mutexCreate
  | devUpdate (millis : Word)
  | dispatchSave

/-- The state after an operation, with a bound on the iterations of its loops. -/
def Operation.run [DecidableEq T] (fuel : ℕ) (s : Kernel T) : Operation → Option (Kernel T)
  | .devWait d => s.devWait d
  | .mutexLock i => (s.mutexLock fuel i).map Prod.snd
  | .mutexUnlock i => some (s.mutexUnlock i).2
  | .lockRest m => some (s.lockRest m)
  | .mutexCreate => some s.mutexCreate.2
  | .devUpdate millis => s.devUpdate fuel millis
  | .dispatchSave => s.dispatchSave

/-- Who may call an operation, and when: a current task other than idle, or, for `dispatch_save`,
any current task while the run queue is not empty. -/
def Operation.Callable (idle : T) (s : Kernel T) : Operation → Prop
  | .devWait _ | .mutexLock _ | .mutexUnlock _ => ∃ c, s.curTcb = some c ∧ c ≠ idle
  | .dispatchSave => (∃ c, s.curTcb = some c) ∧ ∃ p t, s.rq.runList p = some t
  | _ => True

/-- What an operation conserves: well-formedness with the same live tasks, the slots of the run
queue, and that there is a current task. -/
structure Conserves (live : Set T) (idle : T) (s s' : Kernel T) : Prop where
  wellFormed : WellFormed live idle s'
  lost : s'.lost = s.lost
  cur : s.curTcb.isSome → s'.curTcb.isSome

theorem Conserves.of_shape (h : WellFormed live idle s) (hsh : s'.shape = s.shape)
    (hlost : s'.lost = s.lost) : Conserves live idle s s' where
  wellFormed := by
    unfold WellFormed
    rw [hsh]
    exact h
  lost := hlost
  cur hc := by
    have : s'.curTcb = s.curTcb := congrArg Shape.cur hsh
    rwa [this]

theorem mutexCreate_conserves {r : ℤ} (h : WellFormed live idle s)
    (hr : s.mutexCreate = (r, s')) : Conserves live idle s s' := by
  cases Kernel.mutexCreate_cases hr with
  | created m _ hran _ hsh => exact .of_shape h hsh hran.lost
  | full _ hquiet => exact .of_shape h hquiet.shape hquiet.ran.lost

theorem lockRest_conserves (h : WellFormed live idle s) (m : MutexId) :
    Conserves live idle s (s.lockRest m) := by
  refine .of_shape h ?_ rfl
  simp [Kernel.lockRest, Kernel.lockTake, Kernel.lockHold]

/-! ## Idle stays awake -/

theorem Tasks.idle_ready (h : Tasks live sh L place) (hidle : Awake place idle)
    (hc : sh.cur = some c) (hne : c ≠ idle) : place idle = some .ready := by
  rcases hidle with hcur | hready
  · rw [(h.current idle).mpr hcur] at hc
    exact absurd (Option.some.inj hc).symm hne
  · exact hready

theorem Tasks.head_cons (h : Tasks live s.shape L place) {m : MutexId} {next : T}
    (hq : (s.gtMutex m).pSleepQueue = some next) : ∃ l, L (.mutex m) = next :: l := by
  have hchain := h.chain (.mutex m)
  rw [show s.shape.head (.mutex m) = some next from hq] at hchain
  obtain ⟨l, hl, -⟩ := hchain.exists_cons
  exact ⟨l, hl⟩

variable [DecidableEq T]

theorem awake_switchTo {r : Option T} (h : Awake place t) : Awake (switchTo r place) t := by
  cases r with
  | none => exact h
  | some v =>
    by_cases e : t = v
    · subst e
      exact .inl (Function.update_self _ _ _)
    · simp only [Awake, switchTo, Function.update_of_ne e]
      exact h

theorem Tasks.awake_afterSwitch {pl : Place} (h : Awake place t) (hne : t ≠ c) :
    Awake (Tasks.afterSwitch sh place c pl) t := by
  refine awake_switchTo ?_
  unfold Awake
  rwa [Function.update_of_ne hne]

theorem awake_woken {D : List DevId} (h : Awake place t) : Awake (woken D L place) t := by
  unfold Awake woken
  split_ifs
  · exact .inr rfl
  · exact h

/-! ## The calls that block return -/

theorem devWait_total (hc : s.curTcb = some c) (d : DevId) : ∃ s', s.devWait d = some s' := by
  simp only [Kernel.devWait, Kernel.getCurTcb, Kernel.disableInterrupts_curTcb, hc]
  exact ⟨_, Kernel.dispatchSleep_of_cur (by exact hc)⟩

/-- The walk of `mutex_lock` over a queue ends at its last task. -/
theorem enqueue_total {fuel : ℕ} (m : MutexId) (h : Tasks live s.shape L place)
    (hf : osMaxTasks ≤ fuel) : ∃ s', s.enqueue fuel m c = some s' := by
  have hchain := h.chain (.mutex m)
  rcases hq : (s.gtMutex m).pSleepQueue with _ | hd
  · simp only [Kernel.enqueue, Kernel.touch_gtMutex, hq]
    exact ⟨_, rfl⟩
  · rw [show s.shape.head (.mutex m) = some hd from hq] at hchain
    obtain ⟨l, hl, -⟩ := hchain.exists_cons
    have hlast : ∃ last, (L (.mutex m)).getLast? = some last := by
      rw [hl, List.getLast?_cons]
      exact ⟨_, rfl⟩
    obtain ⟨last, hlast⟩ := hlast
    have hw : walk (fun t => (s.tcb t).sleepQueue) fuel (some hd) none = some (some last) := by
      change walk s.shape.link fuel (some hd) none = _
      rw [walk_chain hchain ((h.length_le _).trans hf), hlast]
      rfl
    simp only [Kernel.enqueue, Kernel.touch_gtMutex, Kernel.touch_tcb, hq, hw]
    exact ⟨_, rfl⟩

theorem mutexLock_total {fuel : ℕ} (i : ℤ) (h : Tasks live s.shape L place)
    (hc : s.curTcb = some c) (hf : osMaxTasks ≤ fuel) :
    ∃ o s', s.mutexLock fuel i = some (o, s') := by
  unfold Kernel.mutexLock
  simp only [Kernel.getCurTcb, hc]
  split_ifs with hid
  · exact ⟨_, _, rfl⟩
  · exact ⟨_, _, rfl⟩
  · exact ⟨_, _, rfl⟩
  · obtain ⟨s₁, hs₁⟩ := enqueue_total (s := ((s.disableInterrupts.touch (.mutex
      ⟨i.toNat, by omega⟩)).touch (.mutex ⟨i.toNat, by omega⟩)).touch (.mutex ⟨i.toNat, by omega⟩))
      (c := c) ⟨i.toNat, by omega⟩ h hf
    have hcur := (Kernel.enqueue_cases rfl hs₁).2.1
    exact ⟨_, _, by rw [hs₁, Option.bind_some, Kernel.dispatchSleep_of_cur (hcur.trans hc)]; rfl⟩
  · exact ⟨_, _, rfl⟩

/-- The places and queues after a blocking call of `mutex_lock`: the caller is the last task of
the queue, and the dispatcher made its choice. -/
theorem Tasks.lock_blocks (h : Tasks live s.shape L place) {m : MutexId} {fuel : ℕ} {hd last : T}
    (hc : s.curTcb = some c) (hq : (s.gtMutex m).pSleepQueue = some hd)
    (hw : walk s.shape.link fuel (some hd) none = some (some last)) :
    Tasks live (s.shape.linkAfter last c).pick
      (Function.update L (.mutex m) (L (.mutex m) ++ [c]))
      (Tasks.afterSwitch s.shape place c (.asleep (.mutex m))) := by
  have hchain := h.chain (.mutex m)
  rw [show s.shape.head (.mutex m) = some hd from hq] at hchain
  have hlast := walk_eq_some hchain hw
  rw [Option.or_none] at hlast
  exact h.block hc hlast.symm

/-! ## Every operation -/

theorem Conserves.of_sleep {L' : QId → List T} {q : QId}
    (h : Tasks live s.shape L place) (hidle : Awake place idle) (hc : s.curTcb = some c)
    (hne : c ≠ idle) (hran : Kernel.Ran true [] s s') (hcur : s'.curTcb = s.shape.highest)
    (h' : Tasks live s'.shape L' (Tasks.afterSwitch s.shape place c (.asleep q))) :
    Conserves live idle s s' where
  wellFormed := ⟨_, _, h', Tasks.awake_afterSwitch hidle hne.symm⟩
  lost := hran.lost
  cur _ := by
    obtain ⟨r, hr⟩ := h.exists_highest (h.idle_ready hidle hc hne)
    rw [hcur, hr]
    rfl

theorem devWait_conserves (h : WellFormed live idle s) (hc : s.curTcb = some c) (hne : c ≠ idle)
    (d : DevId) : ∃ s', s.devWait d = some s' ∧ Conserves live idle s s' := by
  obtain ⟨L, place, h, hidle⟩ := h
  obtain ⟨s', hs'⟩ := devWait_total hc d
  obtain ⟨hran, -, hsh⟩ := Kernel.devWait_cases hc hs'
  have h' := h.sleep hc (.dev d)
  rw [← hsh] at h'
  exact ⟨s', hs', .of_sleep h hidle hc hne hran (congrArg Shape.cur hsh) h'⟩

theorem mutexLock_conserves {fuel : ℕ} (h : WellFormed live idle s) (hc : s.curTcb = some c)
    (hne : c ≠ idle) (hf : osMaxTasks ≤ fuel) (i : ℤ) :
    ∃ o s', s.mutexLock fuel i = some (o, s') ∧ Conserves live idle s s' := by
  have hwf := h
  obtain ⟨L, place, h, hidle⟩ := h
  obtain ⟨o, s', hs'⟩ := mutexLock_total i h hc hf
  refine ⟨o, s', hs', ?_⟩
  cases Kernel.mutexLock_cases hc hs' with
  | badId _ hquiet => exact .of_shape hwf hquiet.shape hquiet.ran.lost
  | notCreated m _ _ hquiet => exact .of_shape hwf hquiet.shape hquiet.ran.lost
  | deadlock m _ _ _ hquiet => exact .of_shape hwf hquiet.shape hquiet.ran.lost
  | taken m _ _ _ _ hran _ hsh => exact .of_shape hwf hsh hran.lost
  | blockedFirst m _ _ _ _ hq hran _ hsh =>
    have h' := h.blockFirst (q := .mutex m) hc hq
    rw [← hsh] at h'
    exact .of_sleep h hidle hc hne hran (congrArg Shape.cur hsh) h'
  | blocked m hd last _ _ _ _ hq hran hw _ hsh =>
    have h' := h.lock_blocks hc hq hw
    rw [← hsh] at h'
    exact .of_sleep h hidle hc hne hran (congrArg Shape.cur hsh) h'

theorem mutexUnlock_conserves {i r : ℤ} (h : WellFormed live idle s) (hc : s.curTcb = some c)
    (hr : s.mutexUnlock i = (r, s')) : Conserves live idle s s' := by
  have hwf := h
  obtain ⟨L, place, h, hidle⟩ := h
  cases Kernel.mutexUnlock_cases hc hr with
  | badId _ hquiet => exact .of_shape hwf hquiet.shape hquiet.ran.lost
  | notCreated m _ _ hquiet => exact .of_shape hwf hquiet.shape hquiet.ran.lost
  | notHolder m _ _ _ hquiet => exact .of_shape hwf hquiet.shape hquiet.ran.lost
  | free m _ _ _ _ hran _ hsh => exact .of_shape hwf hsh hran.lost
  | wake m next _ _ _ hq hran _ hsh =>
    obtain ⟨l, hl⟩ := h.head_cons hq
    have hnext : place next = some (.asleep (.mutex m)) :=
      (h.asleep _ next).mp (by rw [hl]; exact List.mem_cons_self)
    have hslot : s.rq.runList (s.shape.prio next) = none :=
      h.slot_free (h.mem_of_place hnext) (by simp [hnext])
    have h' := h.wake hl
    rw [← hsh] at h'
    have hne : idle ≠ next := by
      rintro rfl
      simp [Awake, hnext] at hidle
    refine ⟨⟨_, _, h', ?_⟩, ?_, fun hcur => ?_⟩
    · simpa only [Awake, Function.update_of_ne hne] using hidle
    · rw [hran.lost, hslot]
      rfl
    · have : s'.curTcb = s.curTcb := congrArg Shape.cur hsh
      rwa [this]

theorem devUpdate_conserves {fuel : ℕ} (h : WellFormed live idle s) (hf : osMaxTasks ≤ fuel)
    (millis : Word) : ∃ s', s.devUpdate fuel millis = some s' ∧ Conserves live idle s s' := by
  obtain ⟨L, place, h, hidle⟩ := h
  obtain ⟨s', hs'⟩ := Kernel.devUpdate_total millis h hf
  have h' := Kernel.devUpdate_spec h hs'
  refine ⟨s', hs', ⟨_, _, h'.tasks, awake_woken hidle⟩, h'.lost, fun hcur => ?_⟩
  rwa [(Kernel.Background.devUpdate hs').curTcb]

theorem dispatchSave_conserves {p : Prio} (h : WellFormed live idle s) (hc : s.curTcb = some c)
    (hp : s.rq.runList p = some t) :
    ∃ s', s.dispatchSave = some s' ∧ Conserves live idle s s' := by
  obtain ⟨L, place, h, hidle⟩ := h
  have hs' := Kernel.dispatchSave_of_cur hc
  refine ⟨_, hs', ?_⟩
  obtain ⟨hran, -, hcur, hsh⟩ := Kernel.dispatchSave_cases hc hs'
  have hnative := h.native_eq c (h.cur_mem hc)
  obtain ⟨hslot, h'⟩ := h.preempt hc
  rw [← hsh hnative] at h'
  obtain ⟨r, hr⟩ := h.exists_highest ((h.ready p t).mp hp).2
  refine ⟨⟨_, _, h', ?_⟩, ?_, fun _ => ?_⟩
  · by_cases e : idle = c
    · subst e
      exact awake_switchTo (.inr (Function.update_self _ _ _))
    · exact Tasks.awake_afterSwitch hidle e
  · rw [hran.lost, hnative, hslot]
    rfl
  · rw [hcur, hr]
    rfl

/-- **Conservation of tasks**: an operation called as the kernel allows returns, within
`osMaxTasks` iterations of each of its loops, leaves the state well formed with the same live tasks
and a current task, and no `runqueue_add` overwrites a TCB. -/
theorem operation_conserves (live : Set T) (idle : T) (s : Kernel T)
    (op : Operation) (fuel : ℕ) (h : WellFormed live idle s) (hop : op.Callable idle s)
    (hf : osMaxTasks ≤ fuel) :
    ∃ s', op.run fuel s = some s' ∧ WellFormed live idle s' ∧ s'.lost = s.lost ∧
      (s.curTcb.isSome → s'.curTcb.isSome) := by
  have key : ∃ s', op.run fuel s = some s' ∧ Conserves live idle s s' := by
    cases op with
    | devWait d =>
      obtain ⟨c, hc, hne⟩ := hop
      exact devWait_conserves h hc hne d
    | mutexLock i =>
      obtain ⟨c, hc, hne⟩ := hop
      obtain ⟨o, s', hs', hcons⟩ := mutexLock_conserves h hc hne hf i
      exact ⟨s', by simp [Operation.run, hs'], hcons⟩
    | mutexUnlock i =>
      obtain ⟨c, hc, -⟩ := hop
      exact ⟨_, rfl, mutexUnlock_conserves h hc rfl⟩
    | lockRest m => exact ⟨_, rfl, lockRest_conserves h m⟩
    | mutexCreate => exact ⟨_, rfl, mutexCreate_conserves h rfl⟩
    | devUpdate millis => exact devUpdate_conserves h hf millis
    | dispatchSave =>
      obtain ⟨⟨c, hc⟩, p, t, hp⟩ := hop
      exact dispatchSave_conserves h hc hp
  obtain ⟨s', hs', hcons⟩ := key
  exact ⟨s', hs', hcons.wellFormed, hcons.lost, hcons.cur⟩

theorem wellFormed_boot : WellFormed {t | t ∈ [0, 1, 2]} 2 (boot threeTasks 0 [1, 2]) :=
  ⟨_, _, boot_tasks (by decide) (by decide), by unfold Awake; decide⟩

/-- Two tasks sleep on the queue of a device, and are both woken at its next event. -/
theorem operation_conserves_drain :
    ∃ s, ((boot threeTasks 0 [1, 2]).devWait 3).bind (·.devWait 3) = some s ∧
      (s.devices 3).sleepQueue = some 1 ∧ (s.tcb 1).sleepQueue = some 0 ∧
      ∃ s', Operation.run osMaxTasks s (.devUpdate 50) = some s' ∧
        WellFormed {t | t ∈ [0, 1, 2]} 2 s' ∧ s'.lost = s.lost ∧
        (s.curTcb.isSome → s'.curTcb.isSome) := by
  obtain ⟨s₁, h₁, hcons₁⟩ := devWait_conserves wellFormed_boot (c := 0) rfl (by decide) 3
  have hcur : s₁.curTcb = some 1 := by
    cases h₁
    rfl
  obtain ⟨s₂, h₂, hcons₂⟩ := devWait_conserves hcons₁.wellFormed hcur (by decide) 3
  refine ⟨s₂, by rw [h₁]; exact h₂, ?_, ?_,
    operation_conserves _ _ _ _ _ hcons₂.wellFormed trivial le_rfl⟩
  · cases h₁
    cases h₂
    rfl
  · cases h₁
    cases h₂
    rfl

end Lab4Kernel
