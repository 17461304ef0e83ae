import Lab4Kernel.Lib.WaitFor
import Lab4Kernel.System.Fifo

/-!
# Who sleeps on a mutex, and who owns it

* `SleepsOn`, `HeldBy`: who sleeps on a mutex, and its recorded holder; the waits of `WaitFor` are
  over these;
* `StepCase.queueStep`, `StepCase.mutexStep`: how a step changes the waiters and the entry of a
  mutex; `StepCase.holder` and `StepCase.mutex_kept` say what follows for its holder;
* `StepCase.owned`: every step leaves the locked mutexes owned;
* `StepCase.enters`: who gets inside `mutex_lock`.
-/

namespace Lab4Kernel

open Kernel Intrusive Relation WaitFor

variable {T : Type}

/-- The task sleeps on the mutex. -/
def SleepsOn (s : Kernel T) (t : T) (m : MutexId) : Prop :=
  ∃ l, Sleepers s (.mutex m) l ∧ t ∈ l

/-- The task is the recorded holder of the mutex. -/
def HeldBy (s : Kernel T) (m : MutexId) (t : T) : Prop := (s.gtMutex m).pHoldingTcb = some t

instance [DecidableEq T] (s : Kernel T) (m : MutexId) (t : T) : Decidable (HeldBy s m t) :=
  inferInstanceAs (Decidable (_ = _))

/-- The task sleeps on a mutex whose recorded holder is `u`. -/
abbrev Awaits (s : Kernel T) : T → T → Prop := WaitsFor (SleepsOn s) (HeldBy s)

section Waits

variable {live : Set T} {s : Kernel T} {L : QId → List T} {place : T → Option Place} {t u : T}
  {m m' : MutexId}

theorem Tasks.sleepsOn_iff (h : Tasks live s.shape L place) : SleepsOn s t m ↔ t ∈ L (.mutex m) := by
  constructor
  · rintro ⟨l, hl, ht⟩
    rwa [h.eq_of_sleepers hl] at ht
  · intro ht
    exact ⟨_, h.sleepers _, ht⟩

theorem Tasks.sleepsOn_place (h : Tasks live s.shape L place) :
    SleepsOn s t m ↔ place t = some (.asleep (.mutex m)) := by
  rw [h.sleepsOn_iff, h.asleep]

theorem Tasks.sleepsOn_unique (h : Tasks live s.shape L place) (hm : SleepsOn s t m)
    (hm' : SleepsOn s t m') : m = m' := by
  rw [h.sleepsOn_place] at hm hm'
  rw [hm] at hm'
  cases hm'
  rfl

theorem HeldBy.unique (h : HeldBy s m t) (h' : HeldBy s m u) : t = u :=
  Option.some.inj (h.symm.trans h')

end Waits

namespace System

variable {fuel : ℕ} {live : Set T} {σ σ' : System T} {t u : T} {m m' : MutexId} {e : Event}
  {L L' : QId → List T} {place place' : T → Option Place}

/-! ## What a step does to waiters and holders -/

/-- How a step changes the waiters of a mutex. -/
inductive QueueStep (σ : System T) (e : Event) (m : MutexId) (l l' : List T) : Prop
  | same : l' = l → QueueStep σ e m l l'
  /-- The current task blocked. -/
  | joined (t : T) : σ.AtUser t → e = .call (.lock m.val) → (σ.kernel.gtMutex m).bLock = true →
      l' = l ++ [t] → QueueStep σ e m l l'
  /-- The holder woke the first waiter. -/
  | left (c t : T) : σ.AtUser c → HeldBy σ.kernel m c → l = t :: l' → QueueStep σ e m l l'

variable [DecidableEq T]

theorem StepCase.queueStep (hs : StepCase fuel σ e σ') (h : Tasks live σ.kernel.shape L place)
    (h' : Tasks live σ'.kernel.shape L' place') (m : MutexId) :
    QueueStep σ e m (L (.mutex m)) (L' (.mutex m)) := by
  have hsame : σ'.kernel.shape = σ.kernel.shape → QueueStep σ e m (L (.mutex m)) (L' (.mutex m)) := by
    intro hsh
    rw [hsh] at h'
    exact .same (h'.eq_of_sleepers (h.sleepers _)).symm
  have hkeeps : (∀ i, e ≠ .call (.lock i)) → (∀ i, e ≠ .call (.unlock i)) →
      QueueStep σ e m (L (.mutex m)) (L' (.mutex m)) := fun hlock hunlock =>
    .same (h'.eq_of_sleepers (hs.keepsSleepers h hlock hunlock m)).symm
  have hblock : ∀ t m', σ.AtUser t → e = .call (.lock m'.val) →
      (σ.kernel.gtMutex m').bLock = true →
      Sleepers σ'.kernel (.mutex m) (Function.update L (.mutex m') (L (.mutex m') ++ [t]) (.mutex m)) →
      QueueStep σ e m (L (.mutex m)) (L' (.mutex m)) := by
    intro t m' hu he hl hsleep
    have hL := h'.eq_of_sleepers hsleep
    by_cases hm : m = m'
    · subst hm
      rw [Function.update_self] at hL
      exact .joined t hu he hl hL.symm
    · rw [Function.update_of_ne (by simpa using hm)] at hL
      exact .same hL.symm
  cases hs with
  | quiet t c k hu hquiet => exact hsame hquiet.shape
  | locked t m k hu hav hl hran hg hsh => exact hsame hsh
  | unlocked t m k hu hav hheld hq hran hg hsh => exact hsame hsh
  | blockedFirst t m' k hu hav hl hq hran hg hsh =>
    have htasks := h.blockFirst (q := .mutex m') hu.1 hq
    rw [← hsh] at htasks
    exact hblock t m' hu rfl hl (htasks.sleepers _)
  | blocked t m' k hd last hu hav hl hq hran hw hg hsh =>
    have htasks := h.lock_blocks hu.1 hq hw
    rw [← hsh] at htasks
    exact hblock t m' hu rfl hl (htasks.sleepers _)
  | woke t m' k next hu hav hheld hq hran hg hsh =>
    obtain ⟨l, hl⟩ := h.head_cons hq
    have htasks := h.wake hl
    rw [← hsh] at htasks
    have hL := h'.eq_of_sleepers (htasks.sleepers (.mutex m))
    by_cases hm : m = m'
    · subst hm
      rw [Function.update_self] at hL
      exact .left t next hu hheld (by rw [hl, hL])
    · rw [Function.update_of_ne (by simpa using hm)] at hL
      exact .same hL.symm
  | created | waited | launched | switchedIn | waitReturned | tookLock | heldLock | lockReturned
  | ticked | preempted => exact hkeeps (by simp) (by simp)

/-- How a step changes the mutex `m`. -/
inductive MutexStep (σ : System T) (e : Event) (m : MutexId) (σ' : System T) : Prop
  | same : σ'.kernel.gtMutex m = σ.kernel.gtMutex m → MutexStep σ e m σ'
  | created : e = .call .create →
      σ'.kernel.gtMutex m = { σ.kernel.gtMutex m with bAvailable := false } → MutexStep σ e m σ'
  | locked (t : T) : σ.AtUser t → σ'.kernel.curTcb = some t →
      (σ.kernel.gtMutex m).bLock = false →
      σ'.kernel.gtMutex m = { σ.kernel.gtMutex m with bLock := true, pHoldingTcb := some t } →
      MutexStep σ e m σ'
  | queued (q : Option T) :
      σ'.kernel.gtMutex m = { σ.kernel.gtMutex m with pSleepQueue := q } → MutexStep σ e m σ'
  | released (t : T) (q : Option T) : σ.AtUser t → HeldBy σ.kernel m t →
      σ'.kernel.gtMutex m =
        { σ.kernel.gtMutex m with bLock := false, pHoldingTcb := none, pSleepQueue := q } →
      MutexStep σ e m σ'
  | took (t : T) : σ'.AtPc t (.lockHold m) →
      σ'.kernel.gtMutex m = { σ.kernel.gtMutex m with bLock := true } → MutexStep σ e m σ'
  | held (t : T) : σ.AtPc t (.lockHold m) → σ'.kernel.curTcb = some t →
      σ'.kernel.gtMutex m = { σ.kernel.gtMutex m with pHoldingTcb := some t } →
      MutexStep σ e m σ'

theorem StepCase.mutexStep (hs : StepCase fuel σ e σ') (m : MutexId) : MutexStep σ e m σ' := by
  have hsame : σ'.kernel.gtMutex = σ.kernel.gtMutex → MutexStep σ e m σ' :=
    fun hg => .same (by rw [hg])
  have hone : ∀ m' x, σ'.kernel.gtMutex = Function.update σ.kernel.gtMutex m' x →
      (σ'.kernel.gtMutex m' = x → MutexStep σ e m' σ') → MutexStep σ e m σ' := by
    intro m' x hg hx
    by_cases hm : m = m'
    · subst hm
      exact hx (by rw [hg, Function.update_self])
    · exact .same (by rw [hg, Function.update_of_ne hm])
  cases hs with
  | quiet t c k hu hquiet => exact hsame hquiet.gtMutex
  | created t m' k hu hav hran hg hsh => exact hone m' _ hg (.created rfl)
  | locked t m' k hu hav hl hran hg hsh =>
    exact hone m' _ hg (.locked t hu ((congrArg Shape.cur hsh).trans hu.1) hl)
  | blockedFirst t m' k hu hav hl hq hran hg hsh => exact hone m' _ hg (.queued _)
  | blocked t m' k hd last hu hav hl hq hran hw hg hsh => exact hsame hg
  | unlocked t m' k hu hav hheld hq hran hg hsh =>
    exact hone m' _ hg fun hx => .released t none hu hheld (by rw [hx, ← hq])
  | woke t m' k next hu hav hheld hq hran hg hsh =>
    exact hone m' _ hg (.released t _ hu hheld)
  | waited t d k hu hran hg hsh => exact hsame hg
  | tookLock t m' hpc => exact hone m' _ rfl (.took t ⟨hpc.1, by simp⟩)
  | heldLock t m' hpc => exact hone m' _ rfl (.held t hpc hpc.1)
  | launched | switchedIn | waitReturned | lockReturned => exact hsame rfl
  | ticked t pc millis k hpc hm hk => exact hsame (Background.devUpdate hk).gtMutex
  | preempted t pc millis k k' hpc hm hk hk' =>
    have hcur : k.curTcb = some t := (Background.devUpdate hk).curTcb.trans hpc.1
    obtain ⟨-, hg, -⟩ := dispatchSave_cases hcur hk'
    exact hsame (hg.trans (Background.devUpdate hk).gtMutex)

/-- A step records no other holder than the current task, which goes on running. -/
theorem StepCase.holder (hs : StepCase fuel σ e σ') (hu : HeldBy σ'.kernel m u) :
    HeldBy σ.kernel m u ∨ σ.kernel.curTcb = some u ∧ σ'.kernel.curTcb = some u := by
  unfold HeldBy at hu ⊢
  cases hs.mutexStep m with
  | same hg | created he hg | queued q hg | took t hpc hg =>
    rw [hg] at hu
    exact .inl hu
  | released t q hc hheld hg =>
    rw [hg] at hu
    cases hu
  | locked t hc hc' hl hg | held t hc hc' hg =>
    rw [hg] at hu
    obtain rfl := Option.some.inj hu
    exact .inr ⟨hc.1, hc'⟩

theorem StepCase.ctl_frame (hs : StepCase fuel σ e σ') (hu : σ.kernel.curTcb ≠ some u) :
    σ'.ctl u = σ.ctl u := by
  have hne : ∀ t, σ.kernel.curTcb = some t → u ≠ t := by
    rintro t hc rfl
    exact hu hc
  cases hs with
  | quiet | created | locked | unlocked | woke | ticked => rfl
  | blockedFirst t m k hc | blocked t m k hd last hc | waited t d k hc | waitReturned t hc
  | tookLock t m hc | heldLock t m hc | lockReturned t m hc | preempted t pc millis k k' hc =>
    exact Function.update_of_ne (hne _ hc.1) _ _
  | launched t hc | switchedIn t pc hc => exact Function.update_of_ne (hne _ hc) _ _

/-- `mutex_lock` called by the recorded holder leaves the tasks where they are. -/
theorem lock_by_holder (hs : step fuel σ (.call (.lock m.val)) = some σ')
    (hu : σ.kernel.curTcb = some u) (hheld : HeldBy σ.kernel m u) :
    σ'.kernel.shape = σ.kernel.shape := by
  obtain ⟨c, hc, hcall⟩ := exists_caller hs
  obtain rfl : u = c := Option.some.inj (hu.symm.trans hc)
  obtain ⟨⟨o, k⟩, hk, rfl⟩ := Option.map_eq_some_iff.mp hcall
  rw [afterLock_kernel]
  cases mutexLock_cases hc hk with
  | badId _ hquiet | notCreated _ _ _ hquiet | deadlock _ _ _ _ hquiet => exact hquiet.shape
  | taken m' hi _ hne | blockedFirst m' hi _ hne | blocked m' hd last hi _ hne =>
    obtain rfl : m = m' := Fin.ext (by exact_mod_cast hi)
    exact absurd hheld hne

/-! ## Locked mutexes have an owner -/

/-- The task is the recorded holder of the mutex, or is about to be recorded as such. -/
def Owns (σ : System T) (m : MutexId) (t : T) : Prop :=
  HeldBy σ.kernel m t ∨ (σ.ctl t).pc = .lockHold m

/-- A locked mutex has an owner, and owners are live. -/
structure Owned (live : Set T) (σ : System T) : Prop where
  owner : ∀ m, (σ.kernel.gtMutex m).bLock = true → ∃ t, Owns σ m t
  alive : ∀ m t, Owns σ m t → t ∈ live

theorem StepCase.holding (hs : StepCase fuel σ e σ') (hu : (σ.ctl u).pc = .lockHold m) :
    Owns σ' m u := by
  have hmoved : ∀ t c, σ'.ctl = Function.update σ.ctl t c →
      (u = t → Owns σ' m u) → Owns σ' m u := by
    intro t c hctl ht
    by_cases hut : u = t
    · exact ht hut
    · refine .inr ?_
      rwa [hctl, Function.update_of_ne hut]
  cases hs with
  | quiet | created | locked | unlocked | woke | ticked => exact .inr hu
  | blockedFirst t m' k hc | blocked t m' k hd last hc | waited t d k hc | waitReturned t hc
  | tookLock t m' hc | lockReturned t m' hc =>
    refine hmoved t _ rfl fun hut => ?_
    subst hut
    rw [hc.2] at hu
    cases hu
  | launched t hc hctl =>
    refine hmoved t _ rfl fun hut => ?_
    subst hut
    rw [hctl] at hu
    cases hu
  | switchedIn t pc hc hctl =>
    refine hmoved t _ rfl fun hut => .inr ?_
    subst hut
    simpa [hctl] using hu
  | heldLock t m' hc =>
    refine hmoved t _ rfl fun hut => .inl ?_
    subst hut
    rw [hc.2] at hu
    obtain rfl := Pc.lockHold.inj hu
    simp [HeldBy, lockHold]
  | preempted t pc millis k k' hc =>
    refine hmoved t _ rfl fun hut => .inr ?_
    subst hut
    simpa [hc.2] using hu

/-- **Every step leaves the locked mutexes owned.** -/
theorem StepCase.owned (hs : StepCase fuel σ e σ') (ht : Tasks live σ.kernel.shape L place)
    (h : Owned live σ) : Owned live σ' := by
  refine ⟨fun m hl => ?_, fun m u hu => ?_⟩
  · -- an owner before the step owns the mutex still, when its holder was not changed
    have hkeep : (σ'.kernel.gtMutex m).bLock = (σ.kernel.gtMutex m).bLock →
        (σ'.kernel.gtMutex m).pHoldingTcb = (σ.kernel.gtMutex m).pHoldingTcb →
        ∃ u, Owns σ' m u := by
      intro hlock hheld
      obtain ⟨u, hu | hu⟩ := h.owner m (hlock ▸ hl)
      · exact ⟨u, .inl (hheld.trans hu)⟩
      · exact ⟨u, hs.holding hu⟩
    cases hs.mutexStep m with
    | same hg | created he hg | queued q hg => exact hkeep (by rw [hg]) (by rw [hg])
    | locked t hc hc' hfree hg | held t hpc hc' hg => exact ⟨t, .inl (by rw [HeldBy, hg])⟩
    | released t q hc hheld hg =>
      rw [hg] at hl
      cases hl
    | took t hpc hg => exact ⟨t, .inr (by rw [hpc.2]; rfl)⟩
  · by_cases hcur : σ.kernel.curTcb = some u
    · exact ht.cur_mem hcur
    · rcases hu with hu | hu
      · rcases hs.holder hu with hold | ⟨hc, -⟩
        · exact h.alive m u (.inl hold)
        · exact absurd hc hcur
      · rw [hs.ctl_frame hcur] at hu
        exact h.alive m u (.inr hu)

/-! ## The mutexes of sleeping tasks -/

/-- A locked mutex keeps its flag and its holder in a step of a task that does not own it. -/
theorem StepCase.mutex_kept (hs : StepCase fuel σ e σ') (hl : (σ.kernel.gtMutex m).bLock = true)
    (hc : ∀ c, σ.kernel.curTcb = some c → ¬Owns σ m c) :
    (σ'.kernel.gtMutex m).bLock = true ∧
      (σ'.kernel.gtMutex m).pHoldingTcb = (σ.kernel.gtMutex m).pHoldingTcb := by
  cases hs.mutexStep m with
  | same hg | created he hg | queued q hg =>
    rw [hg]
    exact ⟨hl, rfl⟩
  | took t hpc hg =>
    rw [hg]
    exact ⟨rfl, rfl⟩
  | locked t hu hc' hfree hg =>
    rw [hl] at hfree
    cases hfree
  | released t q hu hheld hg => exact absurd (.inl hheld) (hc t hu.1)
  | held t hpc hc' hg => exact absurd (.inr (by rw [hpc.2]; rfl)) (hc t hpc.1)

theorem StepCase.enters (hs : StepCase fuel σ e σ') (h : Tasks live σ.kernel.shape L place)
    (hpc : (σ'.ctl u).pc = .lockTake m ∨ (σ'.ctl u).pc = .lockHold m) :
    ((σ.ctl u).pc = .lockTake m ∨ (σ.ctl u).pc = .lockHold m) ∨ SleepsOn σ'.kernel u m := by
  -- the task of the step, moved to `c`
  have hmoved : ∀ t c, σ'.ctl = Function.update σ.ctl t c →
      (c.pc = .lockTake m ∨ c.pc = .lockHold m →
        ((σ.ctl t).pc = .lockTake m ∨ (σ.ctl t).pc = .lockHold m) ∨ SleepsOn σ'.kernel t m) →
      ((σ.ctl u).pc = .lockTake m ∨ (σ.ctl u).pc = .lockHold m) ∨ SleepsOn σ'.kernel u m := by
    intro t c hctl ht
    rw [hctl] at hpc
    by_cases hut : u = t
    · subst hut
      rw [Function.update_self] at hpc
      exact ht hpc
    · rw [Function.update_of_ne hut] at hpc
      exact .inl hpc
  cases hs with
  | quiet | created | locked | unlocked | woke | ticked => exact .inl hpc
  | blockedFirst t m' k hu hav hl hq hran hg hsh =>
    have htasks := h.blockFirst (q := .mutex m') hu.1 hq
    rw [← hsh] at htasks
    refine hmoved t _ rfl fun hc => .inr (Tasks.sleepsOn_iff htasks |>.mpr ?_)
    obtain rfl : m' = m := by simpa using hc
    simp
  | blocked t m' k hd last hu hav hl hq hran hw hg hsh =>
    have htasks := h.lock_blocks hu.1 hq hw
    rw [← hsh] at htasks
    refine hmoved t _ rfl fun hc => .inr (Tasks.sleepsOn_iff htasks |>.mpr ?_)
    obtain rfl : m' = m := by simpa using hc
    simp
  | waited t d k hu | launched t hu | waitReturned t hu | heldLock t m' hu | lockReturned t m' hu =>
    exact hmoved t _ rfl fun hc => by simp at hc
  | switchedIn t pc hcur hctl => exact hmoved t _ rfl fun hc => .inl (by simpa [hctl] using hc)
  | tookLock t m' hu =>
    exact hmoved t _ rfl fun hc => .inl (.inl (by simpa [hu.2] using hc))
  | preempted t pc millis k k' hu => exact hmoved t _ rfl fun hc => .inl (by simpa [hu.2] using hc)

end System

end Lab4Kernel
