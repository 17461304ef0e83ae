import Lab4Kernel.Place.Conservation

/-!
# Fixed-priority dispatch

* `SavesRight`, `SwitchesRight`: what a fixed-priority scheduler does in `dispatch_save`, and in
  `dispatch_sleep` and `dispatch_nosave`;
* **`fixedPriority_iff`**: the dispatcher is right exactly when some TCB in the run queue is more
  urgent than the caller. `dispatch_save` searches the run queue before it adds its caller, so it
  always gives the processor away, to a less urgent task or, on an empty queue, to `NULL`.
-/

namespace Lab4Kernel

variable {T : Type} {live : Set T} {idle c r t u : T} {L : QId → List T}
  {place : T → Option Place} {s s' : Kernel T}

/-- The TCB is in the run queue. -/
def Queued (s : Kernel T) (t : T) : Prop := ∃ p, s.rq.runList p = some t

/-- `dispatch_save`, called by `c`: the most urgent of the caller and the queued TCBs becomes
current, and the others of them are in the run queue. -/
def SavesRight (c : T) (s s' : Kernel T) : Prop :=
  ∃ r, s'.curTcb = some r ∧ (r = c ∨ Queued s r) ∧
    (∀ u, u = c ∨ Queued s u → s.shape.prio r ≤ s.shape.prio u) ∧
    ¬Queued s' r ∧ ∀ u, u = c ∨ Queued s u → u ≠ r → Queued s' u

/-- `dispatch_sleep` and `dispatch_nosave`: the most urgent queued TCB becomes current and is
removed from the run queue, the rest of which is unchanged. -/
def SwitchesRight (s s' : Kernel T) : Prop :=
  ∃ r, s'.curTcb = some r ∧ Queued s r ∧ (∀ u, Queued s u → s.shape.prio r ≤ s.shape.prio u) ∧
    ¬Queued s' r ∧ (∀ p, p ≠ s.shape.prio r → s'.rq.runList p = s.rq.runList p) ∧ s'.rq.Agree

/-- **Fixed-priority dispatch**, in a state whose current task is `c`. -/
def FixedPriority [DecidableEq T] (idle c : T) (s : Kernel T) : Prop :=
  (∃ s', s.dispatchSave = some s' ∧ SavesRight c s s') ∧
    (c ≠ idle →
      (∃ s', s.dispatchSleep = some s' ∧ SwitchesRight s s') ∧ SwitchesRight s s.dispatchNosave)

theorem Tasks.queued_iff (h : Tasks live s.shape L place) :
    Queued s t ↔ place t = some .ready := by
  constructor
  · rintro ⟨p, hp⟩
    exact ((h.ready p t).mp hp).2
  · intro ht
    exact ⟨_, h.runList_prio ht⟩

theorem Tasks.switchesRight (h : Tasks live s.shape L place) (hr : s.shape.highest = some r)
    (hcur : s'.curTcb = s.shape.pick.cur) (hrq : s'.rq = s.shape.pick.rq) :
    SwitchesRight s s' := by
  obtain ⟨hready, hleast⟩ := h.highest_ready hr
  have hprio : s.shape.prio r = s.rq.highestPrio := ((h.ready _ r).mp hr).1
  have hlist : ∀ p, s'.rq.runList p =
      if p = s.shape.prio r then none else s.rq.runList p := by
    intro p
    rw [hrq, hprio]
    exact RunQueue.runList_remove
  refine ⟨r, hcur.trans hr, h.queued_iff.mpr hready, fun u hu => hleast u (h.queued_iff.mp hu),
    ?_, fun p hp => by rw [hlist, if_neg hp], ?_⟩
  · rintro ⟨p, hp⟩
    rw [hlist] at hp
    split_ifs at hp with e
    exact e ((h.ready p r).mp hp).1.symm
  · rw [hrq]
    exact h.agree.remove

theorem dispatchNosave_switchesRight (h : WellFormed live idle s) (hc : s.curTcb = some c)
    (hne : c ≠ idle) : SwitchesRight s s.dispatchNosave := by
  obtain ⟨L, place, h, hidle⟩ := h
  obtain ⟨r, hr⟩ := h.exists_highest (h.idle_ready hidle hc hne)
  exact h.switchesRight hr rfl rfl

variable [DecidableEq T]

theorem dispatchSleep_switchesRight (h : WellFormed live idle s) (hc : s.curTcb = some c)
    (hne : c ≠ idle) : ∃ s', s.dispatchSleep = some s' ∧ SwitchesRight s s' := by
  obtain ⟨L, place, h, hidle⟩ := h
  obtain ⟨r, hr⟩ := h.exists_highest (h.idle_ready hidle hc hne)
  have hs' := Kernel.dispatchSleep_of_cur hc
  obtain ⟨-, -, hsh⟩ := Kernel.dispatchSleep_cases hc hs'
  exact ⟨_, hs', h.switchesRight hr (congrArg Shape.cur hsh) (congrArg Shape.rq hsh)⟩

/-- `dispatch_save` gives the processor to the most urgent queued TCB, whatever its caller. -/
theorem dispatchSave_savesRight_iff (h : WellFormed live idle s) (hc : s.curTcb = some c) :
    (∃ s', s.dispatchSave = some s' ∧ SavesRight c s s') ↔
      ∃ u, Queued s u ∧ s.shape.prio u < s.shape.prio c := by
  obtain ⟨L, place, h, -⟩ := h
  have hs' := Kernel.dispatchSave_of_cur hc
  obtain ⟨-, -, hcur, hsh⟩ := Kernel.dispatchSave_cases hc hs'
  have hplace : place c = some .current := (h.current c).mp hc
  have h' := (h.preempt hc).2
  rw [← hsh (h.native_eq c (h.cur_mem hc))] at h'
  constructor
  · rintro ⟨s'', hs'', r, hr, -, hleast, -⟩
    rw [hs'] at hs''
    cases hs''
    rw [hcur] at hr
    have hready := (h.highest_ready hr).1
    refine ⟨r, h.queued_iff.mpr hready, lt_of_le_of_ne (hleast c (.inl rfl)) fun e => ?_⟩
    rw [h.prio_inj r (h.mem_of_place hready) c (h.cur_mem hc) e, hplace] at hready
    cases hready
  · rintro ⟨u, hu, hlt⟩
    obtain ⟨r, hr⟩ := h.exists_highest (h.queued_iff.mp hu)
    obtain ⟨hready, hleast⟩ := h.highest_ready hr
    have hafter : Tasks.afterSwitch s.shape place c .ready =
        Function.update (Function.update place c (some .ready)) r (some .current) := by
      rw [Tasks.afterSwitch, hr]
      rfl
    rw [hafter] at h'
    refine ⟨_, hs', r, hcur.trans hr, .inr (h.queued_iff.mpr hready), ?_, ?_, ?_⟩
    · rintro v (rfl | hv)
      · exact (hleast u (h.queued_iff.mp hu)).trans hlt.le
      · exact hleast v (h.queued_iff.mp hv)
    · rw [h'.queued_iff, Function.update_self]
      simp
    · intro v hv hvr
      rw [h'.queued_iff, Function.update_of_ne hvr]
      rcases hv with rfl | hv
      · exact Function.update_self _ _ _
      · by_cases e : v = c
        · subst e
          exact Function.update_self _ _ _
        · rw [Function.update_of_ne e]
          exact h.queued_iff.mp hv

/-- **When the dispatcher obeys the priorities**: exactly when a TCB in the run queue is more
urgent than the caller. -/
theorem fixedPriority_iff (live : Set T) (idle c : T) (s : Kernel T)
    (h : WellFormed live idle s) (hc : s.curTcb = some c) :
    FixedPriority idle c s ↔ ∃ u, Queued s u ∧ s.shape.prio u < s.shape.prio c := by
  rw [← dispatchSave_savesRight_iff h hc]
  exact ⟨fun hfix => hfix.1, fun hsave => ⟨hsave, fun hne =>
    ⟨dispatchSleep_switchesRight h hc hne, dispatchNosave_switchesRight h hc hne⟩⟩⟩

theorem fixedPriority_iff_boot :
    FixedPriority 2 0 (boot threeTasks 0 [1, 2]) ↔
      ∃ u, Queued (boot threeTasks 0 [1, 2]) u ∧
        (boot threeTasks 0 [1, 2]).shape.prio u < (boot threeTasks 0 [1, 2]).shape.prio 0 :=
  fixedPriority_iff _ _ _ _ wellFormed_boot rfl

/-- Idle is current and nothing is queued: `dispatch_save` makes `NULL` the current task. -/
theorem dispatchSave_idle_alone :
    WellFormed {t | t ∈ [2]} 2 (boot threeTasks 2 []) ∧ (boot threeTasks 2 []).curTcb = some 2 ∧
      (boot threeTasks 2 []).dispatchSave.map Kernel.curTcb = some none ∧
      ¬FixedPriority 2 2 (boot threeTasks 2 []) := by
  have hnull : (boot threeTasks 2 []).dispatchSave.map Kernel.curTcb = some none := by decide
  refine ⟨⟨_, _, boot_tasks (by decide) (by decide), by unfold Awake; decide⟩, rfl, hnull, ?_⟩
  rintro ⟨⟨s', hs', r, hr, -⟩, -⟩
  rw [hs'] at hnull
  simp [hr] at hnull

end Lab4Kernel
