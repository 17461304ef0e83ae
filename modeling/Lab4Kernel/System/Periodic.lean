import Lab4Kernel.System.Waiters
import Lab4Kernel.Kernel.Time
import Lab4Kernel.Lib.Periods

/-!
# Periodic device events

The timer handler advances the tick count by one at each tick and calls `dev_update(time())`.

* `TickRun`: the runs of the system with a tick count, from `dev_init` at tick 0;
* `Punctual n s`: every match value is the first multiple of its period after tick `n`;
* **`device_events_exact`**: in every run, the sleepers of a device are woken at the ticks that its
  period divides, all of them, and at no other; a task that calls `dev_wait` sleeps until the first
  such tick.
-/

namespace Lab4Kernel

open Intrusive Periods

/-- The periods of the devices, in ticks. -/
def devTicks : DevId → ℕ := ![10, 20, 50, 5]

theorem devFreq_eq (d : DevId) : devFreq d = BitVec.ofNat 32 (10 * devTicks d) := by
  revert d
  decide

theorem devTicks_pos (d : DevId) : 0 < devTicks d ∧ devTicks d ≤ 50 := by
  revert d
  decide

theorem devFreq_dvd_iff (d : DevId) (n : ℕ) : (devFreq d).toNat ∣ 10 * n ↔ devTicks d ∣ n := by
  have h : (devFreq d).toNat = 10 * devTicks d := by
    revert d
    decide
  rw [h]
  exact Nat.mul_dvd_mul_iff_left (by decide)

variable {T : Type} {live : Set T} {n n' fuel : ℕ} {s s' : Kernel T} {d : DevId} {t u : T}
  {L : QId → List T} {place : T → Option Place}

/-! ## Match values -/

/-- Every match value is the first multiple of its period after tick `n`. -/
def Punctual (n : ℕ) (s : Kernel T) : Prop :=
  ∀ d, (s.devices d).nextMatch = BitVec.ofNat 32 (10 * nextMultiple (devTicks d) n)

theorem punctual_devInit (h : s.devInit = s) : Punctual 0 s := by
  intro d
  rw [← h]
  change devFreq d = _
  rw [devFreq_eq]
  simp [nextMultiple]

/-- **A device matches at tick `n + 1` exactly when its period divides it**, also when both
counters wrapped around. -/
theorem Punctual.match_iff (h : Punctual n s) (d : DevId) :
    (s.devices d).nextMatch = time (BitVec.ofNat 32 (n + 1)) ↔ devTicks d ∣ n + 1 := by
  obtain ⟨hpos, hle⟩ := devTicks_pos d
  have hlow := lt_nextMultiple hpos (n := n)
  have hhigh := nextMultiple_le (g := devTicks d) (n := n)
  rw [h d, time_ofNat, ofNat_eq_iff (by omega) (by omega), ← nextMultiple_eq_succ]
  omega

/-- A tick at which exactly the matching devices advance keeps the match values punctual. -/
theorem Punctual.tick (h : Punctual n s)
    (hnext : ∀ d, (s'.devices d).nextMatch =
      if devTicks d ∣ n + 1 then (s.devices d).nextMatch + devFreq d
      else (s.devices d).nextMatch) : Punctual (n + 1) s' := by
  intro d
  rw [hnext, nextMultiple_succ]
  split_ifs
  · rw [h d, devFreq_eq, ← BitVec.ofNat_add, Nat.mul_add]
  · exact h d

/-! ## The sleepers of a device -/

/-- The task is on `devices[d].sleep_queue`. -/
def OnDevice (s : Kernel T) (d : DevId) (t : T) : Prop :=
  ∃ l, IsChain s.shape.link (s.devices d).sleepQueue l ∧ t ∈ l

theorem Tasks.onDevice_iff (h : Tasks live s.shape L place) :
    OnDevice s d t ↔ place t = some (.asleep (.dev d)) := by
  have hchain : IsChain s.shape.link (s.devices d).sleepQueue (L (.dev d)) := h.chain (.dev d)
  rw [← h.asleep]
  constructor
  · rintro ⟨l, hl, ht⟩
    rwa [hl.unique hchain] at ht
  · intro ht
    exact ⟨_, hchain, ht⟩

/-- The task was moved from a sleep queue to the run queue, and its link cleared. -/
def Woken (s s' : Kernel T) (u : T) : Prop :=
  s'.rq.runList (s.shape.prio u) = some u ∧ (s'.tcb u).sleepQueue = none ∧ ∀ d, ¬OnDevice s' d u

/-- **What `dev_update` does at tick `n`**: it returns; the sleepers of the devices whose period
divides the time are woken, and those of the other devices sleep on. -/
structure TickRight [DecidableEq T] (fuel n : ℕ) (s : Kernel T) : Prop where
  returns : osMaxTasks ≤ fuel → ∃ s', s.devUpdate fuel (time (BitVec.ofNat 32 n)) = some s'
  wakes : ∀ s', s.devUpdate fuel (time (BitVec.ofNat 32 n)) = some s' → ∀ d u, OnDevice s d u →
    (devFreq d).toNat ∣ 10 * n → Woken s s' u
  keeps : ∀ s', s.devUpdate fuel (time (BitVec.ofNat 32 n)) = some s' → ∀ d u, OnDevice s d u →
    ¬(devFreq d).toNat ∣ 10 * n → OnDevice s' d u

theorem Punctual.mem_matching (h : Punctual n s) :
    d ∈ s.matching (time (BitVec.ofNat 32 (n + 1))) ↔ devTicks d ∣ n + 1 := by
  rw [Kernel.mem_matching, h.match_iff]

/-- A piece of kernel code that wakes no sleeper of a device. -/
structure Between (live : Set T) (s s' : Kernel T) : Prop where
  placed : ∃ L place, Tasks live s'.shape L place
  sleepers : ∀ d u, OnDevice s d u → OnDevice s' d u
  nextMatch : ∀ d, (s'.devices d).nextMatch = (s.devices d).nextMatch

theorem Between.of_shape (h : Tasks live s.shape L place) (hsh : s'.shape = s.shape)
    (hnext : ∀ d, (s'.devices d).nextMatch = (s.devices d).nextMatch) : Between live s s' := by
  have h' : Tasks live s'.shape L place := by rw [hsh]; exact h
  exact ⟨⟨L, place, h'⟩, fun d u hu => h'.onDevice_iff.mpr (h.onDevice_iff.mp hu), hnext⟩

namespace System

/-- The tasks are placed and the match values punctual. -/
def OnTime (live : Set T) (p : ℕ × System T) : Prop :=
  (∃ L place, Tasks live p.2.kernel.shape L place) ∧ Punctual p.1 p.2.kernel

variable {p p' p₀ : ℕ × System T} {σ σ' : System T}

/-- What one step does to the tick count and to the sleepers of a device. -/
structure StepOnTime (live : Set T) (p p' : ℕ × System T) : Prop where
  onTime : OnTime live p'
  sleepers : ∀ d u, OnDevice p.2.kernel d u →
    (∀ n, p.1 < n → n ≤ p'.1 → ¬(devFreq d).toNat ∣ 10 * n) → OnDevice p'.2.kernel d u
  count : p.1 ≤ p'.1

theorem StepOnTime.refl (h : OnTime live p) : StepOnTime live p p :=
  ⟨h, fun _ _ hu _ => hu, le_rfl⟩

theorem StepOnTime.trans {p'' : ℕ × System T} (h : StepOnTime live p p')
    (h' : StepOnTime live p' p'') : StepOnTime live p p'' := by
  refine ⟨h'.onTime, fun d u hu hn => ?_, h.count.trans h'.count⟩
  refine h'.sleepers d u (h.sleepers d u hu fun n h₁ h₂ => ?_) fun n h₁ h₂ => ?_
  · exact hn n h₁ (h₂.trans h'.count)
  · exact hn n (h.count.trans_lt h₁) h₂

theorem StepOnTime.of_between (h : OnTime live p) (hb : Between live p.2.kernel σ'.kernel) :
    StepOnTime live p (p.1, σ') :=
  ⟨⟨hb.placed, fun d => (hb.nextMatch d).trans (h.2 d)⟩, fun d u hu _ => hb.sleepers d u hu, le_rfl⟩

end System

variable [DecidableEq T]

theorem Punctual.devUpdate (h : Punctual n s) (ht : Tasks live s.shape L place)
    (hs : s.devUpdate fuel (time (BitVec.ofNat 32 (n + 1))) = some s') : Punctual (n + 1) s' := by
  refine h.tick fun d => ?_
  rw [(Kernel.devUpdate_spec ht hs).nextMatch]
  simp only [h.mem_matching]

theorem Tasks.wakes_sleeper {millis : Word} (ht : Tasks live s.shape L place)
    (hs : s.devUpdate fuel millis = some s') (hm : (s.devices d).nextMatch = millis)
    (hu : OnDevice s d u) : Woken s s' u := by
  have hsig := Kernel.devUpdate_spec ht hs
  have hmem : u ∈ L (.dev d) := (ht.asleep _ u).mpr (ht.onDevice_iff.mp hu)
  have hwoken : ∃ d ∈ s.matching millis, u ∈ L (.dev d) := ⟨d, s.mem_matching.mpr hm, hmem⟩
  have hready : woken (s.matching millis) L place u = some .ready := if_pos hwoken
  refine ⟨?_, ?_, fun d' hu' => ?_⟩
  · rw [← (Kernel.Background.devUpdate hs).prio]
    exact hsig.tasks.runList_prio hready
  · exact (hsig.link u).trans (if_pos hwoken)
  · rw [hsig.tasks.onDevice_iff, hready] at hu'
    cases hu'

theorem Punctual.tickRight (h : Punctual n s) (ht : Tasks live s.shape L place) :
    TickRight fuel (n + 1) s := by
  refine ⟨fun hf => Kernel.devUpdate_total _ ht hf, fun s' hs d u hu hd => ?_,
    fun s' hs d u hu hd => ?_⟩
  · exact ht.wakes_sleeper hs ((h.match_iff d).mpr ((devFreq_dvd_iff d _).mp hd)) hu
  · have hsig := Kernel.devUpdate_spec ht hs
    rw [hsig.tasks.onDevice_iff]
    have hplace := ht.onDevice_iff.mp hu
    refine (if_neg ?_).trans hplace
    rintro ⟨d', hd', hmem⟩
    have hplace' := (ht.asleep _ u).mp hmem
    rw [hplace] at hplace'
    cases hplace'
    exact hd ((devFreq_dvd_iff d _).mpr (h.mem_matching.mp hd'))

/-! ## Steps between the ticks -/

theorem afterSwitch_of_asleep {q : QId} {pl : Place} (h : Tasks live s.shape L place)
    (hc : s.curTcb = some t) (hu : place u = some (.asleep q)) :
    Tasks.afterSwitch s.shape place t pl u = some (.asleep q) := by
  have hne : u ≠ t := by
    rintro rfl
    rw [(h.current u).mp hc] at hu
    cases hu
  have hold : Function.update place t (some pl) u = some (.asleep q) := by
    rwa [Function.update_of_ne hne]
  unfold Tasks.afterSwitch
  rcases hr : s.shape.highest with _ | r
  · exact hold
  · have hne' : u ≠ r := by
      rintro rfl
      rw [(h.highest_ready hr).1] at hu
      cases hu
    rwa [switchTo, Function.update_of_ne hne']

theorem Between.of_switch {L' : QId → List T} {pl : Place} (h : Tasks live s.shape L place)
    (hc : s.curTcb = some t)
    (h' : Tasks live s'.shape L' (Tasks.afterSwitch s.shape place t pl))
    (hnext : ∀ d, (s'.devices d).nextMatch = (s.devices d).nextMatch) : Between live s s' :=
  ⟨⟨_, _, h'⟩, fun _ _ hu => h'.onDevice_iff.mpr (afterSwitch_of_asleep h hc
    (h.onDevice_iff.mp hu)), hnext⟩

theorem Between.dispatchSave (h : Tasks live s.shape L place) (hc : s.curTcb = some t)
    (hs : s.dispatchSave = some s') : Between live s s' := by
  obtain ⟨hran, -, -, hsh⟩ := Kernel.dispatchSave_cases hc hs
  have h' := (h.preempt hc).2
  rw [← hsh (h.native_eq t (h.cur_mem hc))] at h'
  exact .of_switch h hc h' hran.nextMatch

namespace System

variable {σ σ' : System T}

/-- **A step other than a timer interrupt wakes no sleeper of a device.** -/
theorem StepCase.between {e : Event} (hs : StepCase fuel σ e σ')
    (he : ∀ millis b, e ≠ .timer millis b) (h : Tasks live σ.kernel.shape L place) :
    Between live σ.kernel σ'.kernel := by
  cases hs with
  | quiet t c k hu hquiet => exact .of_shape h hquiet.shape hquiet.ran.nextMatch
  | created t m k hu hav hran hg hsh => exact .of_shape h hsh hran.nextMatch
  | locked t m k hu hav hl hran hg hsh => exact .of_shape h hsh hran.nextMatch
  | unlocked t m k hu hav hheld hq hran hg hsh => exact .of_shape h hsh hran.nextMatch
  | blockedFirst t m k hu hav hl hq hran hg hsh =>
    have h' := h.blockFirst (q := .mutex m) hu.1 hq
    rw [← hsh] at h'
    exact .of_switch h hu.1 h' hran.nextMatch
  | blocked t m k hd last hu hav hl hq hran hw hg hsh =>
    have h' := h.lock_blocks hu.1 hq hw
    rw [← hsh] at h'
    exact .of_switch h hu.1 h' hran.nextMatch
  | woke t m k next hu hav hheld hq hran hg hsh =>
    obtain ⟨l, hl⟩ := h.head_cons hq
    have hnext : place next = some (.asleep (.mutex m)) :=
      (h.asleep _ next).mp (by rw [hl]; exact List.mem_cons_self)
    have h' := h.wake hl
    rw [← hsh] at h'
    refine ⟨⟨_, _, h'⟩, fun d u hu => h'.onDevice_iff.mpr ?_, hran.nextMatch⟩
    have hplace := h.onDevice_iff.mp hu
    have hne : u ≠ next := by
      rintro rfl
      rw [hnext] at hplace
      cases hplace
    rwa [Function.update_of_ne hne]
  | waited t d k hu hran hg hsh =>
    have h' := h.sleep hu.1 (.dev d)
    rw [← hsh] at h'
    exact .of_switch h hu.1 h' hran.nextMatch
  | launched t hc hctl => exact .of_shape h rfl fun _ => rfl
  | switchedIn t pc hc hctl => exact .of_shape h rfl fun _ => rfl
  | waitReturned t hpc => exact .of_shape h rfl fun _ => rfl
  | tookLock t m hpc => exact .of_shape h (Kernel.shape_setLock _ _) fun _ => rfl
  | heldLock t m hpc => exact .of_shape h (Kernel.shape_setHolding _ _) fun _ => rfl
  | lockReturned t m hpc => exact .of_shape h rfl fun _ => rfl
  | ticked t pc millis k hpc hm hk => exact absurd rfl (he millis false)
  | preempted t pc millis k k' hpc hm hk hk' => exact absurd rfl (he millis true)

/-- **A timer interrupt** is a pass of `dev_update`, and then nothing that wakes a sleeper. -/
theorem StepCase.timed {millis : Word} {b : Bool} (hs : StepCase fuel σ (.timer millis b) σ')
    (h : Tasks live σ.kernel.shape L place) :
    ∃ k, σ.kernel.disableInterrupts.devUpdate fuel millis = some k ∧ Between live k σ'.kernel := by
  cases hs with
  | ticked t pc millis k hpc hm hk =>
    have hsig := Kernel.devUpdate_spec (s := σ.kernel.disableInterrupts) h hk
    exact ⟨k, hk, .of_shape hsig.tasks rfl fun _ => rfl⟩
  | preempted t pc millis k k' hpc hm hk hk' =>
    have hsig := Kernel.devUpdate_spec (s := σ.kernel.disableInterrupts) h hk
    have hcur : k.curTcb = some t := (Kernel.Background.devUpdate hk).curTcb.trans hpc.1
    exact ⟨k, hk, .dispatchSave hsig.tasks hcur hk'⟩

/-! ## Runs with a tick count -/

/-- The events of a run with a tick count. -/
inductive TickEvent where
  | tick (dispatch : Bool)
  | call (c : Call)
  | resume
  deriving DecidableEq

/-- One step with a tick count: the timer handler advances the count, and passes `time()` to
`dev_update`. -/
def tickStep (fuel : ℕ) (p : ℕ × System T) : TickEvent → Option (ℕ × System T)
  | .tick dispatch => (step fuel p.2 (.timer (time (BitVec.ofNat 32 (p.1 + 1))) dispatch)).map
      fun σ => (p.1 + 1, σ)
  | .call c => (step fuel p.2 (.call c)).map fun σ => (p.1, σ)
  | .resume => (step fuel p.2 .resume).map fun σ => (p.1, σ)

/-- The runs with a tick count. -/
abbrev TickRun (fuel : ℕ) (p₀ : ℕ × System T) (tr : List ((ℕ × System T) × TickEvent))
    (p : ℕ × System T) : Prop :=
  Runs.Run (fun p e p' => tickStep fuel p e = some p') p₀ tr p

variable {p p' p₀ : ℕ × System T} {tr : List ((ℕ × System T) × TickEvent)}

theorem StepCase.onTime {millis : Word} {b : Bool} (hs : StepCase fuel p.2 (.timer millis b) σ')
    (hmillis : millis = time (BitVec.ofNat 32 (p.1 + 1))) (h : OnTime live p) :
    StepOnTime live p (p.1 + 1, σ') := by
  subst hmillis
  obtain ⟨⟨L, place, ht⟩, hp⟩ := h
  obtain ⟨k, hk, hb⟩ := hs.timed ht
  have hp' : Punctual p.1 p.2.kernel.disableInterrupts := hp
  have hnext := hp'.devUpdate ht hk
  refine ⟨⟨hb.placed, fun d => (hb.nextMatch d).trans (hnext d)⟩, fun d u hu hn => ?_,
    Nat.le_succ _⟩
  exact hb.sleepers d u ((hp'.tickRight ht).keeps k hk d u hu (hn _ (Nat.lt_succ_self _) le_rfl))

/-- **One step**: the tick count does not go back, and a sleeper of a device is woken only at a
tick that the period of the device divides. -/
theorem stepOnTime {e : TickEvent} (hs : tickStep fuel p e = some p') (h : OnTime live p) :
    StepOnTime live p p' := by
  obtain ⟨⟨L, place, ht⟩, -⟩ := id h
  cases e with
  | tick dispatch =>
    obtain ⟨σ, hσ, rfl⟩ := Option.map_eq_some_iff.mp hs
    exact (step_cases hσ).onTime rfl h
  | call c =>
    obtain ⟨σ, hσ, rfl⟩ := Option.map_eq_some_iff.mp hs
    exact .of_between h ((step_cases hσ).between (by simp) ht)
  | resume =>
    obtain ⟨σ, hσ, rfl⟩ := Option.map_eq_some_iff.mp hs
    exact .of_between h ((step_cases hσ).between (by simp) ht)

/-- **A whole run** is one step in this respect. -/
theorem runOnTime (hrun : TickRun fuel p₀ tr p) (h₀ : OnTime live p₀) : StepOnTime live p₀ p :=
  hrun.relates (fun _ _ _ h h' => StepOnTime.trans h h')
    (fun p e p' (hp : StepOnTime live p₀ p) (hs : tickStep fuel p e = some p') =>
      stepOnTime hs hp.onTime) (.refl h₀)

theorem onDevice_of_wait (h : OnTime live p) (hc : p.2.kernel.curTcb = some t)
    (hs : step fuel p.2 (.call (.wait d)) = some σ') : OnDevice σ'.kernel d t := by
  obtain ⟨⟨L, place, ht⟩, -⟩ := h
  simp only [step, hc] at hs
  split_ifs at hs with hu
  obtain ⟨k, hk, rfl⟩ := Option.map_eq_some_iff.mp hs
  obtain ⟨-, -, hsh⟩ := Kernel.devWait_cases hc hk
  have ht' := ht.sleep hc (.dev d)
  rw [← hsh] at ht'
  have hmem : t ∈ Function.update L (.dev d) (t :: L (.dev d)) (.dev d) := by
    rw [Function.update_self]
    exact List.mem_cons_self
  exact ht'.onDevice_iff.mpr ((ht'.asleep _ t).mp hmem)

/-- **Periodic device events are exact**, in every run from placed tasks after `dev_init`: each tick
does what it should, and a task that calls `dev_wait(d)` at tick `n` is on the sleep queue of `d`
until the first later tick that the period of `d` divides. -/
theorem device_events_exact (fuel : ℕ) (live : Set T) (σ₀ : System T) (L : QId → List T)
    (place : T → Option Place) (hplaced : Tasks live σ₀.kernel.shape L place)
    (hinit : σ₀.kernel.devInit = σ₀.kernel) :
    (∀ tr n σ, TickRun fuel (0, σ₀) tr (n, σ) →
      TickRight fuel (n + 1) σ.kernel.disableInterrupts) ∧
    ∀ tr n σ t d σ₁, TickRun fuel (0, σ₀) tr (n, σ) → σ.kernel.curTcb = some t →
      step fuel σ (.call (.wait d)) = some σ₁ →
      ∀ tr' n' σ', TickRun fuel (n, σ₁) tr' (n', σ') →
        (∀ i, n < i → i ≤ n' → ¬(devFreq d).toNat ∣ 10 * i) →
        OnDevice σ'.kernel d t ∧ TickRight fuel (n' + 1) σ'.kernel.disableInterrupts := by
  have h₀ : OnTime live (0, σ₀) := ⟨⟨L, place, hplaced⟩, punctual_devInit hinit⟩
  constructor
  · intro tr n σ hrun
    obtain ⟨⟨L', place', ht⟩, hp⟩ := (runOnTime hrun h₀).onTime
    exact Punctual.tickRight (s := σ.kernel.disableInterrupts) hp ht
  · intro tr n σ t d σ₁ hrun hc hs tr' n' σ' hrun' hn
    have h := (runOnTime hrun h₀).onTime
    have hwait : tickStep fuel (n, σ) (.call (.wait d)) = some (n, σ₁) := by
      simp only [tickStep, hs, Option.map_some]
    have h₁ := (stepOnTime hwait h).onTime
    have hrun₂ := runOnTime hrun' h₁
    obtain ⟨⟨L', place', ht⟩, hp⟩ := hrun₂.onTime
    exact ⟨hrun₂.sleepers d t (onDevice_of_wait h hc hs) hn,
      Punctual.tickRight (s := σ'.kernel.disableInterrupts) hp ht⟩

/-- Task 0 waits for device 3, with a period of five ticks, and four ticks go by. -/
theorem device_events_exact_boot :
    ∃ tr σ', TickRun osMaxTasks (0, start (boot threeTasks 0 [1, 2])) tr (4, σ') ∧
      OnDevice σ'.kernel 3 0 ∧ TickRight osMaxTasks 5 σ'.kernel.disableInterrupts := by
  have hrun : ((step osMaxTasks (start (boot threeTasks 0 [1, 2])) (.call (.wait 3))).bind fun σ =>
      [.resume, .tick false, .tick false, .tick false, .tick false].foldlM (tickStep osMaxTasks)
        (0, σ)).map Prod.fst = some 4 := by decide +kernel
  obtain ⟨⟨n', σ'⟩, hσ', rfl⟩ := Option.map_eq_some_iff.mp hrun
  obtain ⟨σ₁, hσ₁, hσ'⟩ := Option.bind_eq_some_iff.mp hσ'
  have hwait : tickStep osMaxTasks (0, start (boot threeTasks 0 [1, 2])) (.call (.wait 3)) =
      some (0, σ₁) := by simp only [tickStep, hσ₁, Option.map_some]
  have hrest := Runs.run_trace hσ'
  have hfirst : ∀ i, 0 < i → i ≤ 4 → ¬(devFreq 3).toNat ∣ 10 * i := by
    intro i h₁ h₂
    rw [devFreq_dvd_iff]
    change ¬5 ∣ i
    omega
  obtain ⟨hon, hright⟩ := (device_events_exact osMaxTasks _ _ _ _ threeTasks_placed
    devInit_boot).2
    [] 0 _ 0 3 σ₁ .nil rfl hσ₁ _ _ _ hrest hfirst
  exact ⟨_, σ', (Runs.Run.nil.snoc _ hwait).append hrest, hon, hright⟩

end System

end Lab4Kernel
