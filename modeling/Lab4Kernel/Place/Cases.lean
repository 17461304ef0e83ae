import Lab4Kernel.Place.Writes

/-!
# What a call can do

One inversion lemma for each function that a task calls, and for `dispatch_save`.

* `Ran b l s s'`: what all of them have in common;
* **`mutexLock_cases`**: the six ways in which a call of `mutex_lock` ends;
* **`mutexUnlock_cases`**: the five ways in which a call of `mutex_unlock` ends;
* `mutexCreate_cases`, `devWait_cases`, `dispatchSleep_cases`, `dispatchSave_cases`.
-/

namespace Lab4Kernel.Kernel

variable {T : Type} {s s' s'' : Kernel T} {c : T}

/-- The accesses made between the two states were all made with interrupts masked. -/
def Logs (s s' : Kernel T) : Prop :=
  ∃ acc, s'.accesses = acc ++ s.accesses ∧ ∀ a ∈ acc, a.2 = true

theorem Logs.refl : Logs s s := ⟨[], rfl, by simp⟩

theorem Logs.trans (h : Logs s s') (h' : Logs s' s'') : Logs s s'' := by
  obtain ⟨acc, he, ha⟩ := h
  obtain ⟨acc', he', ha'⟩ := h'
  refine ⟨acc' ++ acc, by rw [he', he, List.append_assoc], fun a hm => ?_⟩
  rcases List.mem_append.mp hm with hm | hm
  · exact ha' a hm
  · exact ha a hm

theorem Logs.of_map (as : List Shared) (he : s'.accesses = as.map (·, true) ++ s.accesses) :
    Logs s s' :=
  ⟨_, he, by simp⟩

/-- A piece of kernel code ran from `s` to `s'`: all its accesses were masked, it leaves the mask
bit at `b`, overwrote the slots of the TCBs `l`, printed nothing and moved no match value. -/
structure Ran (b : Bool) (l : List T) (s s' : Kernel T) : Prop where
  logs : Logs s s'
  masked : s'.masked = b
  lost : s'.lost = l ++ s.lost
  console : s'.console = s.console
  nextMatch : ∀ d, (s'.devices d).nextMatch = (s.devices d).nextMatch

theorem Ran.trans {b b' : Bool} {l l' : List T} (h : Ran b l s s') (h' : Ran b' l' s' s'') :
    Ran b' (l' ++ l) s s'' where
  logs := h.logs.trans h'.logs
  masked := h'.masked
  lost := by rw [h'.lost, h.lost, List.append_assoc]
  console := h'.console.trans h.console
  nextMatch d := (h'.nextMatch d).trans (h.nextMatch d)

theorem Ran.disable (s : Kernel T) : Ran true [] s s.disableInterrupts :=
  ⟨.refl, rfl, rfl, rfl, fun _ => rfl⟩

section Writes

variable {l : List T} {m : MutexId}

theorem Ran.access (h : Ran true l s s') (a : Shared)
    (he : s''.accesses = (a, s'.masked) :: s'.accesses) (hm : s''.masked = s'.masked)
    (hl : s''.lost = s'.lost) (hc : s''.console = s'.console)
    (hd : ∀ d, (s''.devices d).nextMatch = (s'.devices d).nextMatch) : Ran true l s s'' := by
  have hstep : Ran true [] s' s'' :=
    ⟨.of_map [a] (by rw [he, h.masked]; rfl), hm.trans h.masked, hl, hc, hd⟩
  exact h.trans hstep

theorem Ran.touch (h : Ran true l s s') (a : Shared) : Ran true l s (s'.touch a) :=
  h.access a rfl rfl rfl rfl fun _ => rfl

theorem Ran.setAvailable (h : Ran true l s s') (b : Bool) : Ran true l s (s'.setAvailable m b) :=
  h.access (.mutex m) rfl rfl rfl rfl fun _ => rfl

theorem Ran.setLock (h : Ran true l s s') (b : Bool) : Ran true l s (s'.setLock m b) :=
  h.access (.mutex m) rfl rfl rfl rfl fun _ => rfl

theorem Ran.setHolding (h : Ran true l s s') (p : Option T) : Ran true l s (s'.setHolding m p) :=
  h.access (.mutex m) rfl rfl rfl rfl fun _ => rfl

theorem Ran.setMutexQueue (h : Ran true l s s') (p : Option T) :
    Ran true l s (s'.setMutexQueue m p) :=
  h.access (.mutex m) rfl rfl rfl rfl fun _ => rfl

theorem Ran.setSleepQueue [DecidableEq T] {b : Bool} (h : Ran b l s s') (t : T) (p : Option T) :
    Ran b l s (s'.setSleepQueue t p) :=
  ⟨h.logs, h.masked, h.lost, h.console, h.nextMatch⟩

theorem Ran.runqueueAdd (h : Ran true l s s') (t : T) (p : Prio) :
    Ran true ((s'.rq.runList p).toList ++ l) s (s'.runqueueAdd t p) :=
  h.trans ⟨.of_map [.runQueue] (by simp [h.masked]), h.masked, rfl, rfl, fun _ => rfl⟩

theorem Ran.enable {b : Bool} (h : Ran b l s s') : Ran false l s s'.enableInterrupts :=
  ⟨h.logs, rfl, h.lost, h.console, h.nextMatch⟩

end Writes

/-- A call that returned without an effect. -/
structure Quiet (s s' : Kernel T) : Prop where
  ran : Ran false [] s s'
  eq : s' = { s with masked := false, accesses := s'.accesses }

theorem quiet_of_map (as : List Shared)
    (he : s' = { s with masked := false, accesses := as.map (·, true) ++ s.accesses }) :
    Quiet s s' := by
  subst he
  exact ⟨⟨.of_map as rfl, rfl, rfl, rfl, fun _ => rfl⟩, rfl⟩

theorem Quiet.gtMutex (h : Quiet s s') : s'.gtMutex = s.gtMutex := by rw [h.eq]

theorem Quiet.shape (h : Quiet s s') : s'.shape = s.shape := by rw [h.eq]; rfl

/-! ## `mutex_create` -/

/-- The ways in which a call of `mutex_create` ends. -/
inductive CreateCase (s s' : Kernel T) : ℤ → Prop
  | created (m : MutexId) : (s.gtMutex m).bAvailable = true → Ran false [] s s' →
      s'.gtMutex = Function.update s.gtMutex m { s.gtMutex m with bAvailable := false } →
      s'.shape = s.shape → CreateCase s s' m.val
  | full : (∀ m, (s.gtMutex m).bAvailable = false) → Quiet s s' → CreateCase s s' (-enomem)

theorem firstAvailable_spec (js : List MutexId) (s : Kernel T) :
    (firstAvailable js s).1 = js.find? (fun j => (s.gtMutex j).bAvailable) ∧
      ∃ as : List Shared, (firstAvailable js s).2 =
        { s with accesses := as.map (·, s.masked) ++ s.accesses } := by
  induction js generalizing s with
  | nil => exact ⟨rfl, [], rfl⟩
  | cons j js ih =>
    by_cases hj : (s.gtMutex j).bAvailable
    · refine ⟨by simp [firstAvailable, hj], [.mutex j], by simp [firstAvailable, hj, touch]⟩
    · obtain ⟨h₁, as, h₂⟩ := ih (s.touch (.mutex j))
      refine ⟨by simp [firstAvailable, hj, h₁], as ++ [.mutex j], ?_⟩
      rw [firstAvailable, if_neg (by simpa using hj), h₂]
      simp [touch]

/-- **Inversion of `mutex_create`.** -/
theorem mutexCreate_cases {r : ℤ} (h : s.mutexCreate = (r, s')) : CreateCase s s' r := by
  obtain ⟨hfound, as, hs⟩ := firstAvailable_spec (List.finRange osNumMutex) s.disableInterrupts
  simp only [mutexCreate, hfound, hs] at h
  have hran : Ran true [] s { s.disableInterrupts with
      accesses := as.map (·, s.disableInterrupts.masked) ++ s.disableInterrupts.accesses } :=
    ⟨.of_map as rfl, rfl, rfl, rfl, fun _ => rfl⟩
  split at h
  · rename_i m hm
    cases h
    have hav : (s.gtMutex m).bAvailable = true := by
      have := List.find?_some hm
      simpa using this
    exact .created m hav (hran.setAvailable (m := m) false).enable (by simp) (by simp; rfl)
  · rename_i hm
    cases h
    refine .full (fun m => ?_) (quiet_of_map as rfl)
    simpa using List.find?_eq_none.mp hm m (List.mem_finRange m)

/-! ## The dispatch functions -/

section Dispatch

variable [DecidableEq T]

theorem dispatchSleep_cases (hc : s.curTcb = some c) (h : s.dispatchSleep = some s') :
    Ran true [] s s' ∧ s'.gtMutex = s.gtMutex ∧ s'.shape = s.shape.pick := by
  rw [dispatchSleep_of_cur hc] at h
  cases h
  refine ⟨⟨.of_map [.runQueue] rfl, rfl, rfl, rfl, fun _ => rfl⟩, rfl, ?_⟩
  rw [shape_ctxSwitchFull]
  rfl

/-- The slot that `dispatch_save` overwrites is the one of its caller. -/
theorem dispatchSave_cases (hc : s.curTcb = some c) (h : s.dispatchSave = some s') :
    Ran true (s.shape.pick.rq.runList (s.shape.native c)).toList s s' ∧
      s'.gtMutex = s.gtMutex ∧ s'.curTcb = s.shape.highest ∧
      (s.shape.native c = s.shape.prio c → s'.shape = s.shape.pick.add c) := by
  rw [dispatchSave_of_cur hc] at h
  cases h
  refine ⟨⟨.of_map [.runQueue, .runQueue] rfl, rfl, rfl, rfl, fun _ => rfl⟩, rfl, rfl,
    fun hn => ?_⟩
  have hadd : (s.tcb c).nativePrio = (s.disableInterrupts.removeHighest.tcb c).curPrio := hn
  rw [shape_ctxSwitchFull, shape_setCurTcb, shape_runqueueAdd hadd]
  rfl

theorem devWait_cases {d : DevId} (hc : s.curTcb = some c) (h : s.devWait d = some s') :
    Ran true [] s s' ∧ s'.gtMutex = s.gtMutex ∧
      s'.shape = (s.shape.push (.dev d) c).pick := by
  simp only [devWait, getCurTcb, disableInterrupts_curTcb, hc] at h
  obtain ⟨hsw, hmut, hsh⟩ := dispatchSleep_cases (c := c) (by exact hc) h
  have hpre : Ran true [] s (((s.disableInterrupts.touch (.device d)).setSleepQueue c
      (s.devices d).sleepQueue).setDevQueue d (some c)) := by
    refine ⟨.of_map [.device d, .device d] rfl, rfl, rfl, rfl, fun d' => ?_⟩
    by_cases e : d' = d
    · subst e
      simp
    · simp [Function.update_of_ne e]
  refine ⟨hpre.trans hsw, hmut, ?_⟩
  rw [hsh]
  simp [Shape.push]
  rfl

end Dispatch

/-! ## `mutex_lock` -/

/-- The ways in which a call of `mutex_lock` by the current task `c` ends. -/
inductive LockCase [DecidableEq T] (fuel : ℕ) (c : T) (i : ℤ) (s s' : Kernel T) : Outcome → Prop
  | badId : i < 0 ∨ i ≥ osNumMutex → Quiet s s' → LockCase fuel c i s s' (.returned (-einval))
  | notCreated (m : MutexId) : i = m.val → (s.gtMutex m).bAvailable = true → Quiet s s' →
      LockCase fuel c i s s' (.returned (-einval))
  | deadlock (m : MutexId) : i = m.val → (s.gtMutex m).bAvailable = false →
      (s.gtMutex m).pHoldingTcb = some c → Quiet s s' →
      LockCase fuel c i s s' (.returned (-edeadlock))
  | taken (m : MutexId) : i = m.val → (s.gtMutex m).bAvailable = false →
      (s.gtMutex m).pHoldingTcb ≠ some c → (s.gtMutex m).bLock = false → Ran false [] s s' →
      s'.gtMutex = Function.update s.gtMutex m
        { s.gtMutex m with bLock := true, pHoldingTcb := some c } →
      s'.shape = s.shape → LockCase fuel c i s s' (.returned 0)
  | blockedFirst (m : MutexId) : i = m.val → (s.gtMutex m).bAvailable = false →
      (s.gtMutex m).pHoldingTcb ≠ some c → (s.gtMutex m).bLock = true →
      (s.gtMutex m).pSleepQueue = none → Ran true [] s s' →
      s'.gtMutex = Function.update s.gtMutex m { s.gtMutex m with pSleepQueue := some c } →
      s'.shape = (s.shape.push (.mutex m) c).pick →
      LockCase fuel c i s s' .switchedOut
  | blocked (m : MutexId) (hd last : T) : i = m.val → (s.gtMutex m).bAvailable = false →
      (s.gtMutex m).pHoldingTcb ≠ some c → (s.gtMutex m).bLock = true →
      (s.gtMutex m).pSleepQueue = some hd → Ran true [] s s' →
      Intrusive.walk s.shape.link fuel (some hd) none = some (some last) →
      s'.gtMutex = s.gtMutex → s'.shape = (s.shape.linkAfter last c).pick →
      LockCase fuel c i s s' .switchedOut

variable [DecidableEq T]

theorem enqueue_cases {fuel : ℕ} {m : MutexId} {s₁ : Kernel T} (hm : s.masked = true)
    (h : s.enqueue fuel m c = some s₁) :
    Ran true [] s s₁ ∧ s₁.curTcb = s.curTcb ∧
      ((s.gtMutex m).pSleepQueue = none ∧
          s₁.gtMutex = Function.update s.gtMutex m { s.gtMutex m with pSleepQueue := some c } ∧
          s₁.shape = s.shape.push (.mutex m) c ∨
        ∃ hd last, (s.gtMutex m).pSleepQueue = some hd ∧
          Intrusive.walk s.shape.link fuel (some hd) none = some (some last) ∧
          s₁.gtMutex = s.gtMutex ∧ s₁.shape = s.shape.linkAfter last c) := by
  simp only [enqueue, touch_gtMutex] at h
  rcases hq : (s.gtMutex m).pSleepQueue with _ | hd
  · simp only [hq, Option.some.injEq] at h
    subst h
    refine ⟨⟨.of_map [.mutex m, .mutex m] (by simp [hm]), hm, rfl, rfl, fun _ => rfl⟩, rfl,
      .inl ⟨rfl, rfl, ?_⟩⟩
    have hhead : s.shape.head (.mutex m) = none := hq
    simp [Shape.push, hhead]
  · simp only [hq] at h
    split at h
    · rename_i last hw
      cases h
      refine ⟨⟨.of_map [.mutex m, .mutex m, .mutex m] (by simp [hm]), hm, rfl, rfl, fun _ => rfl⟩,
        rfl, .inr ⟨hd, last, rfl, hw, rfl, ?_⟩⟩
      simp [Shape.linkAfter]
    · cases h

/-- **Inversion of `mutex_lock`.** -/
theorem mutexLock_cases {fuel : ℕ} {i : ℤ} {o : Outcome} (hc : s.curTcb = some c)
    (h : s.mutexLock fuel i = some (o, s')) : LockCase fuel c i s s' o := by
  unfold mutexLock at h
  simp only [getCurTcb, hc] at h
  split_ifs at h with hid hav hheld hlock
  · cases h
    exact .badId hid (quiet_of_map [] rfl)
  · cases h
    exact .notCreated ⟨i.toNat, by omega⟩ (by simp; omega) hav (quiet_of_map [.mutex _] rfl)
  · cases h
    exact .deadlock ⟨i.toNat, by omega⟩ (by simp; omega) (by simpa using hav) hheld
      (quiet_of_map [.mutex _, .mutex _] rfl)
  · obtain ⟨s₂, hs₂, he⟩ := Option.map_eq_some_iff.mp h
    obtain ⟨s₁, hs₁, hs₂⟩ := Option.bind_eq_some_iff.mp hs₂
    cases he
    have hlt : i.toNat < osNumMutex := by omega
    have hi : i = ((⟨i.toNat, hlt⟩ : MutexId).val : ℤ) := by simp; omega
    obtain ⟨hsw, hcur, hq⟩ := enqueue_cases rfl hs₁
    obtain ⟨hsw', hmut, hsh⟩ := dispatchSleep_cases (hcur.trans hc) hs₂
    have hpre : Ran true [] s (((s.disableInterrupts.touch (.mutex ⟨i.toNat, hlt⟩)).touch
        (.mutex ⟨i.toNat, hlt⟩)).touch (.mutex ⟨i.toNat, hlt⟩)) :=
      ⟨.of_map [.mutex _, .mutex _, .mutex _] rfl, rfl, rfl, rfl, fun _ => rfl⟩
    have hswitch := (hpre.trans hsw).trans hsw'
    rcases hq with ⟨hq, hg, hsh₁⟩ | ⟨hd, last, hq, hw, hg, hsh₁⟩
    · exact .blockedFirst _ hi (by simpa using hav) hheld hlock hq hswitch
        (hmut.trans hg) (by rw [hsh, hsh₁]; rfl)
    · exact .blocked _ hd last hi (by simpa using hav) hheld hlock hq hswitch hw
        (hmut.trans hg) (by rw [hsh, hsh₁]; rfl)
  · cases h
    have hlt : i.toNat < osNumMutex := by omega
    have hran := (((((Ran.disable s).touch (.mutex ⟨i.toNat, hlt⟩)).touch
      (.mutex ⟨i.toNat, hlt⟩)).touch (.mutex ⟨i.toNat, hlt⟩)).setLock (m := ⟨i.toNat, hlt⟩)
      true).setHolding (m := ⟨i.toNat, hlt⟩) (some c) |>.enable
    refine .taken ⟨i.toNat, by omega⟩ (by simp; omega) (by simpa using hav) hheld
      (by simpa using hlock) hran ?_ ?_
    · simp [lockHold, lockTake]
    · simp [lockHold, lockTake]

/-! ## `mutex_unlock` -/

/-- The ways in which a call of `mutex_unlock` by the current task `c` ends. -/
inductive UnlockCase [DecidableEq T] (c : T) (i : ℤ) (s s' : Kernel T) : ℤ → Prop
  | badId : i < 0 ∨ i ≥ osNumMutex → Quiet s s' → UnlockCase c i s s' (-einval)
  | notCreated (m : MutexId) : i = m.val → (s.gtMutex m).bAvailable = true → Quiet s s' →
      UnlockCase c i s s' (-einval)
  | notHolder (m : MutexId) : i = m.val → (s.gtMutex m).bAvailable = false →
      (s.gtMutex m).pHoldingTcb ≠ some c → Quiet s s' → UnlockCase c i s s' (-eperm)
  | free (m : MutexId) : i = m.val → (s.gtMutex m).bAvailable = false →
      (s.gtMutex m).pHoldingTcb = some c → (s.gtMutex m).pSleepQueue = none →
      Ran false [] s s' →
      s'.gtMutex = Function.update s.gtMutex m
        { s.gtMutex m with bLock := false, pHoldingTcb := none } →
      s'.shape = s.shape → UnlockCase c i s s' 0
  | wake (m : MutexId) (next : T) : i = m.val → (s.gtMutex m).bAvailable = false →
      (s.gtMutex m).pHoldingTcb = some c → (s.gtMutex m).pSleepQueue = some next →
      Ran false (s.rq.runList (s.shape.prio next)).toList s s' →
      s'.gtMutex = Function.update s.gtMutex m
        { s.gtMutex m with
          bLock := false, pHoldingTcb := none, pSleepQueue := s.shape.link next } →
      s'.shape = (s.shape.pop (.mutex m) next).add next → UnlockCase c i s s' 0

/-- **Inversion of `mutex_unlock`.** -/
theorem mutexUnlock_cases {i r : ℤ} (hc : s.curTcb = some c) (h : s.mutexUnlock i = (r, s')) :
    UnlockCase c i s s' r := by
  unfold mutexUnlock at h
  simp only [getCurTcb, hc] at h
  split_ifs at h with hid hav hheld
  · cases h
    exact .badId hid (quiet_of_map [] rfl)
  · cases h
    exact .notCreated ⟨i.toNat, by omega⟩ (by simp; omega) hav (quiet_of_map [.mutex _] rfl)
  · cases h
    exact .notHolder ⟨i.toNat, by omega⟩ (by simp; omega) (by simpa using hav) (Ne.symm hheld)
      (quiet_of_map [.mutex _, .mutex _] rfl)
  · have hlt : i.toNat < osNumMutex := by omega
    have hi : i = ((⟨i.toNat, hlt⟩ : MutexId).val : ℤ) := by simp; omega
    generalize (⟨i.toNat, hlt⟩ : MutexId) = m at *
    have hran := (((((Ran.disable s).touch (.mutex m)).touch (.mutex m)).setLock (m := m)
      false).setHolding (m := m) none).touch (.mutex m)
    rcases hq : (s.gtMutex m).pSleepQueue with _ | next
    · simp only [setHolding_gtMutex, setLock_gtMutex, touch_gtMutex, disableInterrupts_gtMutex,
        Function.update_self, hq, Prod.mk.injEq] at h
      obtain ⟨rfl, rfl⟩ := h
      exact .free m hi (by simpa using hav) (by simpa [eq_comm] using hheld) hq hran.enable
        (by simp) (by simp)
    · simp only [setHolding_gtMutex, setHolding_tcb, setLock_gtMutex, setLock_tcb, touch_gtMutex,
        touch_tcb, disableInterrupts_gtMutex, disableInterrupts_tcb, setMutexQueue_tcb,
        setSleepQueue_tcb, Function.update_self, hq, Prod.mk.injEq] at h
      obtain ⟨rfl, rfl⟩ := h
      have hadd := ((hran.setMutexQueue (m := m) (s.tcb next).sleepQueue).setSleepQueue next
        none).runqueueAdd next (s.tcb next).curPrio
      rw [List.append_nil] at hadd
      refine .wake m next hi (by simpa using hav) (by simpa [eq_comm] using hheld) hq
        hadd.enable ?_ ?_
      · simp
        rfl
      · rw [shape_enableInterrupts, shape_runqueueAdd (by simp)]
        simp [Shape.pop]
        rfl

end Lab4Kernel.Kernel
