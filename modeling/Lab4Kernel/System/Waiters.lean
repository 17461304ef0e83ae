import Lab4Kernel.System.Exclusion
import Lab4Kernel.Place.Priority

/-!
# No stranded waiter

* `Waiting live σ L place`: the tasks are at the places `place` and in the queues `L`; a mutex with
  waiters is locked, or a task that was taken off its queue is awake and about to lock it; a mutex
  that was not created is free;
* `StepCase.waiting`: every step keeps this, for some queues and places (`Attended`);
* **`no_stranded_waiter`**: in every state of every run, no task sleeps on a free mutex that nobody
  is about to take.
-/

namespace Lab4Kernel

open Kernel Intrusive

variable {T : Type}

/-- The mutex that a point of control inside `mutex_lock` is about. -/
def Pc.mutex : Pc → Option MutexId
  | .user | .waitEnable => none
  | .lockTake m | .lockHold m | .lockEnable m => some m

namespace System

variable {fuel : ℕ} {live : Set T} {σ σ' : System T} {t : T} {m : MutexId} {e : Event}
  {L L' : QId → List T} {place place' : T → Option Place}

/-- No mutex is unlocked, and the mutexes that are not created are as they were. -/
structure KeepsLocked (s s' : Kernel T) : Prop where
  lock : ∀ m, (s.gtMutex m).bLock = true → (s'.gtMutex m).bLock = true
  available : ∀ m, (s'.gtMutex m).bAvailable = true →
    (s.gtMutex m).bAvailable = true ∧ (s'.gtMutex m).bLock = (s.gtMutex m).bLock ∧
      (s'.gtMutex m).pHoldingTcb = (s.gtMutex m).pHoldingTcb

theorem KeepsLocked.of_eq {s s' : Kernel T} (hg : s'.gtMutex = s.gtMutex) : KeepsLocked s s' := by
  refine ⟨fun m hm => ?_, fun m hm => ?_⟩
  · rwa [hg]
  · rw [hg] at hm ⊢
    exact ⟨hm, rfl, rfl⟩

theorem KeepsLocked.of_update {s s' : Kernel T} {x : Mutex T}
    (hg : s'.gtMutex = Function.update s.gtMutex m x) (hav : x.bAvailable = false)
    (hl : (s.gtMutex m).bLock = true → x.bLock = true) : KeepsLocked s s' := by
  refine ⟨fun m' hm => ?_, fun m' hm => ?_⟩
  · by_cases e : m' = m
    · subst e
      rw [hg, Function.update_self]
      exact hl hm
    · rwa [hg, Function.update_of_ne e]
  · by_cases e : m' = m
    · subst e
      rw [hg, Function.update_self, hav] at hm
      cases hm
    · rw [hg, Function.update_of_ne e] at hm ⊢
      exact ⟨hm, rfl, rfl⟩

/-- A step that changes no mutex but `m`, which was created. -/
structure OnlyMutex (m : MutexId) (s s' : Kernel T) : Prop where
  available : (s'.gtMutex m).bAvailable = false
  other : ∀ m', m' ≠ m → s'.gtMutex m' = s.gtMutex m'

theorem OnlyMutex.of_eq {s s' : Kernel T} (hg : s'.gtMutex = s.gtMutex)
    (hav : (s.gtMutex m).bAvailable = false) : OnlyMutex m s s' :=
  ⟨by rwa [hg], fun m' _ => by rw [hg]⟩

theorem OnlyMutex.of_update {s s' : Kernel T} {x : Mutex T}
    (hg : s'.gtMutex = Function.update s.gtMutex m x) (hav : x.bAvailable = false) :
    OnlyMutex m s s' :=
  ⟨by rwa [hg, Function.update_self], fun m' e => by rw [hg, Function.update_of_ne e]⟩

/-- **The waiters of every mutex are looked after.** -/
structure Waiting (live : Set T) (σ : System T) (L : QId → List T) (place : T → Option Place) :
    Prop where
  tasks : Tasks live σ.kernel.shape L place
  guarded : ∀ m, L (.mutex m) ≠ [] →
    (σ.kernel.gtMutex m).bLock = true ∨ ∃ t, σ.taken t = some m
  taken : ∀ t m, σ.taken t = some m → (σ.ctl t).pc = .lockTake m ∧ Awake place t
  asleep : ∀ t m, place t = some (.asleep (.mutex m)) → (σ.ctl t).pc = .lockTake m
  available : ∀ m, (σ.kernel.gtMutex m).bAvailable = true →
    (σ.kernel.gtMutex m).bLock = false ∧ (σ.kernel.gtMutex m).pHoldingTcb = none ∧
      L (.mutex m) = []
  created : ∀ t m, (σ.ctl t).pc.mutex = some m → (σ.kernel.gtMutex m).bAvailable = false

/-- The waiters are looked after, for some queues and places. -/
def Attended (live : Set T) (σ : System T) : Prop :=
  ∃ L place, Waiting live σ L place

theorem Waiting.queue_eq_nil (h : Waiting live σ L place) (m : MutexId) :
    L (.mutex m) = [] ↔ (σ.kernel.gtMutex m).pSleepQueue = none := by
  have hchain := h.tasks.chain (.mutex m)
  constructor
  · intro hl
    rw [hl] at hchain
    exact hchain
  · intro hq
    rw [show σ.kernel.shape.head (.mutex m) = none from hq] at hchain
    exact hchain.eq_nil

theorem Waiting.taken_user (h : Waiting live σ L place) (hpc : (σ.ctl t).pc.mutex = none) :
    σ.taken t = none := by
  by_contra hne
  obtain ⟨m, hm⟩ := Option.ne_none_iff_exists'.mp hne
  rw [(h.taken t m hm).1] at hpc
  cases hpc

/-- A step that neither frees a mutex nor changes the queue of one, and keeps the tasks that are
about to lock one awake. -/
theorem Waiting.frame (h : Waiting live σ L place) (htasks : Tasks live σ'.kernel.shape L' place')
    (hkeeps : KeepsLocked σ.kernel σ'.kernel)
    (hL : ∀ m, L' (.mutex m) = L (.mutex m))
    (htake : ∀ u m, (σ.ctl u).pc = .lockTake m → (σ'.ctl u).pc = .lockTake m)
    (hmutex : ∀ u m, (σ'.ctl u).pc.mutex = some m → (σ.ctl u).pc.mutex = some m)
    (htaken : σ'.taken = σ.taken)
    (hawake : ∀ u m, σ.taken u = some m → Awake place u → Awake place' u)
    (hasleep : ∀ u m, place' u = some (.asleep (.mutex m)) →
      place u = some (.asleep (.mutex m))) : Waiting live σ' L' place' where
  tasks := htasks
  guarded m hm := by
    rw [hL] at hm
    rw [htaken]
    exact (h.guarded m hm).imp_left (hkeeps.lock m)
  taken u m hu := by
    rw [htaken] at hu
    obtain ⟨hpc, hup⟩ := h.taken u m hu
    exact ⟨htake u m hpc, hawake u m hu hup⟩
  asleep u m hu := htake u m (h.asleep u m (hasleep u m hu))
  available m hm := by
    obtain ⟨hav, hl, hh⟩ := hkeeps.available m hm
    rw [hl, hh, hL]
    exact h.available m hav
  created u m hu := by
    by_contra hav
    rw [Bool.not_eq_false] at hav
    have hold := h.created u m (hmutex u m hu)
    rw [(hkeeps.available m hav).1] at hold
    cases hold

theorem Waiting.quiet {k : Kernel T} {inside : T → MutexId → Bool} (h : Waiting live σ L place)
    (hsh : k.shape = σ.kernel.shape) (hkeeps : KeepsLocked σ.kernel k) :
    Waiting live { σ with kernel := k, inside := inside } L place := by
  refine h.frame ?_ hkeeps (fun _ => rfl) (fun _ _ hu => hu) (fun _ _ hu => hu) rfl
    (fun _ _ _ hu => hu) fun _ _ hu => hu
  change Tasks live k.shape L place
  rw [hsh]
  exact h.tasks

theorem Waiting.available_of {k : Kernel T} (h : Waiting live σ L place)
    (hg : OnlyMutex m σ.kernel k) (hL : ∀ m', m' ≠ m → L' (.mutex m') = L (.mutex m'))
    (m' : MutexId) (hm : (k.gtMutex m').bAvailable = true) :
    (k.gtMutex m').bLock = false ∧ (k.gtMutex m').pHoldingTcb = none ∧ L' (.mutex m') = [] := by
  have hne : m' ≠ m := by
    rintro rfl
    rw [hg.available] at hm
    cases hm
  rw [hg.other m' hne] at hm ⊢
  rw [hL m' hne]
  exact h.available m' hm

theorem Waiting.created_of {k : Kernel T} {m' : MutexId} (h : Waiting live σ L place)
    (hg : OnlyMutex m σ.kernel k) (hm : m' = m ∨ ∃ u, (σ.ctl u).pc.mutex = some m') :
    (k.gtMutex m').bAvailable = false := by
  by_cases e : m' = m
  · subst e
    exact hg.available
  · obtain ⟨u, hu⟩ := hm.resolve_left e
    rw [hg.other m' e]
    exact h.created u m' hu

theorem Waiting.unlock {k : Kernel T} {inside : T → MutexId → Bool} (h : Waiting live σ L place)
    (hq : (σ.kernel.gtMutex m).pSleepQueue = none) (hg : OnlyMutex m σ.kernel k)
    (hsh : k.shape = σ.kernel.shape) :
    Waiting live { σ with kernel := k, inside := inside } L place := by
  refine ⟨?_, fun m' hm => ?_, h.taken, h.asleep, h.available_of hg fun _ _ => rfl,
    fun u m' hu => h.created_of hg (.inr ⟨u, hu⟩)⟩
  · change Tasks live k.shape L place
    rw [hsh]
    exact h.tasks
  · by_cases e : m' = m
    · subst e
      exact absurd ((h.queue_eq_nil m').mpr hq) hm
    · rw [hg.other m' e]
      exact h.guarded m' hm

variable [DecidableEq T]

theorem Waiting.proceed {k : Kernel T} {inside : T → MutexId → Bool} {c : Ctl}
    (h : Waiting live σ L place) (hsh : k.shape = σ.kernel.shape)
    (hkeeps : KeepsLocked σ.kernel k)
    (htake : ∀ m, (σ.ctl t).pc = .lockTake m → c.pc = .lockTake m)
    (hmutex : ∀ m, c.pc.mutex = some m → (σ.ctl t).pc.mutex = some m) :
    Waiting live { σ with kernel := k, ctl := Function.update σ.ctl t c, inside := inside }
      L place := by
  refine h.frame ?_ hkeeps (fun _ => rfl) (fun u m hu => ?_) (fun u m hu => ?_) rfl
    (fun _ _ _ hu => hu) fun _ _ hu => hu
  · change Tasks live k.shape L place
    rw [hsh]
    exact h.tasks
  · by_cases e : u = t
    · subst e
      simpa using htake m hu
    · simpa [Function.update_of_ne e] using hu
  · by_cases e : u = t
    · subst e
      exact hmutex m (by simpa using hu)
    · simpa [Function.update_of_ne e] using hu

theorem asleep_afterSwitch {sh : Shape T} {pl : Place} {u : T} {q : QId}
    (hu : Tasks.afterSwitch sh place t pl u = some (.asleep q)) :
    u = t ∧ pl = .asleep q ∨ u ≠ t ∧ place u = some (.asleep q) := by
  have hold : Function.update place t (some pl) u = some (.asleep q) := by
    unfold Tasks.afterSwitch at hu
    rcases hr : sh.highest with _ | r
    · rwa [hr] at hu
    · rw [hr] at hu
      by_cases e : u = r
      · subst e
        simp [switchTo] at hu
      · rwa [switchTo, Function.update_of_ne e] at hu
  by_cases e : u = t
  · subst e
    rw [Function.update_self] at hold
    exact .inl ⟨rfl, Option.some.inj hold⟩
  · rw [Function.update_of_ne e] at hold
    exact .inr ⟨e, hold⟩

theorem Waiting.block {k : Kernel T} (h : Waiting live σ L place) (hu : σ.AtUser t)
    (hg : OnlyMutex m σ.kernel k) (hl : (k.gtMutex m).bLock = true)
    (htasks : Tasks live k.shape (Function.update L (.mutex m) (L (.mutex m) ++ [t]))
      (Tasks.afterSwitch σ.kernel.shape place t (.asleep (.mutex m)))) :
    Waiting live
      { σ with kernel := k, ctl := Function.update σ.ctl t (.switched (.lockTake m)) }
      (Function.update L (.mutex m) (L (.mutex m) ++ [t]))
      (Tasks.afterSwitch σ.kernel.shape place t (.asleep (.mutex m))) := by
  have hnone : σ.taken t = none := h.taken_user (by rw [hu.2]; rfl)
  have hL : ∀ m', m' ≠ m → Function.update L (.mutex m) (L (.mutex m) ++ [t]) (.mutex m') =
      L (.mutex m') := fun m' e => Function.update_of_ne (by simpa using e) _ _
  refine ⟨htasks, fun m' hm => ?_, fun u m' hu' => ?_, fun u m' hu' => ?_, h.available_of hg hL,
    fun u m' hu' => h.created_of hg ?_⟩
  · by_cases e : m' = m
    · subst e
      exact .inl hl
    · rw [hL m' e] at hm
      rw [hg.other m' e]
      exact h.guarded m' hm
  · have hne : u ≠ t := by
      rintro rfl
      rw [hnone] at hu'
      cases hu'
    obtain ⟨hpc, hup⟩ := h.taken u m' hu'
    exact ⟨by simpa [Function.update_of_ne hne] using hpc, Tasks.awake_afterSwitch hup hne⟩
  · rcases asleep_afterSwitch hu' with ⟨rfl, hq⟩ | ⟨hne, hq⟩
    · cases hq
      simp
    · simpa [Function.update_of_ne hne] using h.asleep u m' hq
  · by_cases e : u = t
    · subst e
      simp only [Function.update_self] at hu'
      exact .inl (Option.some.inj hu').symm
    · simp only [Function.update_of_ne e] at hu'
      exact .inr ⟨u, hu'⟩

theorem Waiting.wake {k : Kernel T} {inside : T → MutexId → Bool} {next : T}
    (h : Waiting live σ L place) (hq : (σ.kernel.gtMutex m).pSleepQueue = some next)
    (hg : OnlyMutex m σ.kernel k)
    (hsh : k.shape = (σ.kernel.shape.pop (.mutex m) next).add next) :
    ∃ L' place', Waiting live
      { σ with kernel := k, inside := inside, taken := Function.update σ.taken next (some m) }
      L' place' := by
  obtain ⟨l, hl⟩ := h.tasks.head_cons hq
  have hnext : place next = some (.asleep (.mutex m)) :=
    (h.tasks.asleep _ next).mp (by rw [hl]; exact List.mem_cons_self)
  have hne : ∀ u m', σ.taken u = some m' → u ≠ next := by
    rintro u m' hu rfl
    have hup := (h.taken u m' hu).2
    simp [Awake, hnext] at hup
  have hL : ∀ m', m' ≠ m → Function.update L (.mutex m) l (.mutex m') = L (.mutex m') :=
    fun m' e => Function.update_of_ne (by simpa using e) _ _
  have htasks := h.tasks.wake hl
  rw [← hsh] at htasks
  refine ⟨_, _, htasks, fun m' hm => ?_, fun u m' hu => ?_, fun u m' hu => ?_,
    h.available_of hg hL, fun u m' hu => h.created_of hg (.inr ⟨u, hu⟩)⟩
  · by_cases e : m' = m
    · subst e
      exact .inr ⟨next, Function.update_self _ _ _⟩
    · rw [hL m' e] at hm
      rw [hg.other m' e]
      rcases h.guarded m' hm with hlock | ⟨u, hu⟩
      · exact .inl hlock
      · exact .inr ⟨u, (Function.update_of_ne (hne u m' hu) _ _).trans hu⟩
  · by_cases e : u = next
    · subst e
      simp only [Function.update_self] at hu
      cases hu
      exact ⟨h.asleep u m hnext, .inr (Function.update_self _ _ _)⟩
    · simp only [Function.update_of_ne e] at hu
      obtain ⟨hpc, hup⟩ := h.taken u m' hu
      exact ⟨hpc, by simpa only [Awake, Function.update_of_ne e] using hup⟩
  · by_cases e : u = next
    · subst e
      simp at hu
    · rw [Function.update_of_ne e] at hu
      exact h.asleep u m' hu

theorem Waiting.take (h : Waiting live σ L place) (hpc : σ.AtPc t (.lockTake m)) :
    Waiting live { σ with
      kernel := σ.kernel.lockTake m, ctl := Function.update σ.ctl t (.running (.lockHold m))
      taken := Function.update σ.taken t none } L place := by
  have hpc' : (σ.ctl t).pc = .lockTake m := by rw [hpc.2]; rfl
  have hcur : place t = some .current := (h.tasks.current t).mp hpc.1
  have hav : (σ.kernel.gtMutex m).bAvailable = false := h.created t m (by rw [hpc']; rfl)
  have hg : OnlyMutex m σ.kernel (σ.kernel.lockTake m) :=
    .of_update rfl hav
  refine ⟨?_, fun m' hm => ?_, fun u m' hu => ?_, fun u m' hu => ?_,
    h.available_of hg fun _ _ => rfl, fun u m' hu => h.created_of hg ?_⟩
  · change Tasks live (σ.kernel.lockTake m).shape L place
    rw [lockTake, shape_setLock]
    exact h.tasks
  · by_cases e : m' = m
    · subst e
      exact .inl (by simp [lockTake])
    · rw [hg.other m' e]
      rcases h.guarded m' hm with hlock | ⟨u, hu⟩
      · exact .inl hlock
      · have hne : u ≠ t := by
          rintro rfl
          rw [(h.taken u m' hu).1] at hpc'
          exact e (Pc.lockTake.inj hpc')
        exact .inr ⟨u, (Function.update_of_ne hne _ _).trans hu⟩
  · by_cases e : u = t
    · subst e
      simp at hu
    · simp only [Function.update_of_ne e] at hu ⊢
      exact h.taken u m' hu
  · have hne : u ≠ t := by
      rintro rfl
      rw [hcur] at hu
      cases hu
    simp only [Function.update_of_ne hne]
    exact h.asleep u m' hu
  · by_cases e : u = t
    · subst e
      simp only [Function.update_self] at hu
      exact .inl (Option.some.inj hu).symm
    · simp only [Function.update_of_ne e] at hu
      exact .inr ⟨u, hu⟩

/-! ## Every step -/

theorem Waiting.tick {k : Kernel T} {millis : Word} (h : Waiting live σ L place)
    (hk : σ.kernel.disableInterrupts.devUpdate fuel millis = some k) :
    ∃ L' place', Waiting live { σ with kernel := k } L' place' := by
  have hg := (Background.devUpdate hk).gtMutex
  have hsig := devUpdate_spec (s := σ.kernel.disableInterrupts) h.tasks hk
  refine ⟨_, _, h.frame hsig.tasks (.of_eq hg) (fun _ => rfl) (fun _ _ hu => hu)
    (fun _ _ hu => hu) rfl (fun _ _ _ hu => awake_woken hu) fun u m hu => ?_⟩
  unfold woken at hu
  split_ifs at hu
  · cases hu
  · exact hu

theorem Waiting.preempt {k : Kernel T} {pc : Pc} (h : Waiting live σ L place)
    (hpc : σ.AtPc t pc) (hk : σ.kernel.dispatchSave = some k) :
    ∃ L' place', Waiting live
      { σ with kernel := k, ctl := Function.update σ.ctl t (.switched pc) } L' place' := by
  obtain ⟨-, hg, -, hsh⟩ := dispatchSave_cases hpc.1 hk
  have htasks := (h.tasks.preempt hpc.1).2
  rw [← hsh (h.tasks.native_eq t (h.tasks.cur_mem hpc.1))] at htasks
  have hctl : ∀ u, (Function.update σ.ctl t (.switched pc) u).pc = (σ.ctl u).pc := by
    intro u
    by_cases e : u = t
    · subst e
      simp [hpc.2]
    · rw [Function.update_of_ne e]
  refine ⟨_, _, h.frame htasks (.of_eq hg) (fun _ => rfl) (fun u m hu => (hctl u).trans hu)
    (fun u m hu => ?_) rfl (fun u _ _ hu => ?_) fun u m hu => ?_⟩
  · rwa [← hctl u]
  · by_cases e : u = t
    · subst e
      exact awake_switchTo (.inr (Function.update_self _ _ _))
    · exact Tasks.awake_afterSwitch hu e
  · rcases asleep_afterSwitch hu with ⟨-, hq⟩ | ⟨-, hq⟩
    · cases hq
    · exact hq

theorem Waiting.wait {k : Kernel T} {d : DevId} (h : Waiting live σ L place) (hu : σ.AtUser t)
    (hg : k.gtMutex = σ.kernel.gtMutex) (hsh : k.shape = (σ.kernel.shape.push (.dev d) t).pick) :
    ∃ L' place', Waiting live
      { σ with kernel := k, ctl := Function.update σ.ctl t (.switched .waitEnable) } L' place' := by
  have htasks := h.tasks.sleep hu.1 (.dev d)
  rw [← hsh] at htasks
  have hnone : σ.taken t = none := h.taken_user (by rw [hu.2]; rfl)
  refine ⟨_, _, h.frame htasks (.of_eq hg) (fun _ => Function.update_of_ne (by simp) _ _)
    (fun u m hpc => ?_) (fun u m hpc => ?_) rfl (fun u m htk hup => ?_) fun u m hq => ?_⟩
  · by_cases e : u = t
    · subst e
      simp [hu.2] at hpc
    · simpa [Function.update_of_ne e] using hpc
  · by_cases e : u = t
    · subst e
      simp [Pc.mutex] at hpc
    · simpa [Function.update_of_ne e] using hpc
  · refine Tasks.awake_afterSwitch hup ?_
    rintro rfl
    rw [hnone] at htk
    cases htk
  · rcases asleep_afterSwitch hq with ⟨-, hq⟩ | ⟨-, hq⟩
    · cases hq
    · exact hq

/-- **Every step looks after the waiters.** -/
theorem StepCase.waiting (hs : StepCase fuel σ e σ') (h : Waiting live σ L place) :
    Attended live σ' := by
  cases hs with
  | quiet t c k hu hquiet => exact ⟨_, _, h.quiet hquiet.shape (.of_eq hquiet.gtMutex)⟩
  | created t m k hu hav hran hg hsh =>
    exact ⟨_, _, h.quiet hsh (.of_update hg rfl id)⟩
  | locked t m k hu hav hl hran hg hsh =>
    exact ⟨_, _, h.quiet hsh (.of_update hg hav fun _ => rfl)⟩
  | blockedFirst t m k hu hav hl hq hran hg hsh =>
    have htasks := h.tasks.blockFirst (q := .mutex m) hu.1 hq
    rw [← hsh] at htasks
    exact ⟨_, _, h.block hu (.of_update hg hav) (by simp [hg, hl]) htasks⟩
  | blocked t m k hd last hu hav hl hq hran hw hg hsh =>
    have htasks := h.tasks.lock_blocks hu.1 hq hw
    rw [← hsh] at htasks
    exact ⟨_, _, h.block hu (.of_eq hg hav) (by rw [hg]; exact hl) htasks⟩
  | unlocked t m k hu hav hheld hq hran hg hsh =>
    exact ⟨_, _, h.unlock hq (.of_update hg hav) hsh⟩
  | woke t m k next hu hav hheld hq hran hg hsh =>
    exact h.wake hq (.of_update hg hav) hsh
  | waited t d k hu hran hg hsh => exact h.wait hu hg hsh
  | launched t hc hctl =>
    exact ⟨_, _, h.proceed rfl (.of_eq rfl) (by simp [hctl])
      (by simp [Pc.mutex])⟩
  | switchedIn t pc hc hctl =>
    exact ⟨_, _, h.proceed rfl (.of_eq rfl) (by simp [hctl])
      (by simp [hctl])⟩
  | waitReturned t hpc =>
    exact ⟨_, _, h.proceed rfl (.of_eq rfl) (by simp [hpc.2])
      (by simp [Pc.mutex])⟩
  | tookLock t m hpc => exact ⟨_, _, h.take hpc⟩
  | heldLock t m hpc =>
    have hav := h.created t m (by rw [hpc.2]; rfl)
    exact ⟨_, _, h.proceed (shape_setHolding _ _) (.of_update rfl hav id) (by simp [hpc.2])
      (by simp [hpc.2, Pc.mutex])⟩
  | lockReturned t m hpc =>
    exact ⟨_, _, h.proceed rfl (.of_eq rfl) (by simp [hpc.2])
      (by simp [Pc.mutex])⟩
  | ticked t pc millis k hpc hm hk =>
    obtain ⟨L', place', h'⟩ := h.tick hk
    exact ⟨L', place', h'.quiet rfl (.of_eq rfl)⟩
  | preempted t pc millis k k' hpc hm hk hk' =>
    obtain ⟨L', place', h'⟩ := h.tick hk
    have hcur := (Background.devUpdate hk).curTcb
    exact h'.preempt ⟨hcur.trans hpc.1, hpc.2⟩ hk'

/-! ## Runs -/

theorem start_waiting {k : Kernel T} (h : Tasks live (start k).kernel.shape L place) :
    Waiting live (start k) L place := by
  have hL : ∀ m, L (.mutex m) = [] := fun m => IsChain.eq_nil (h.chain (.mutex m))
  have hpc : ∀ t, ((start k).ctl t).pc = .user := by
    intro t
    by_cases hc : k.curTcb = some t <;> simp [start, hc]
  refine ⟨h, fun m hm => absurd (hL m) hm, fun t m ht => (by cases ht), fun t m ht => ?_,
    fun m _ => ⟨rfl, rfl, hL m⟩, fun t m ht => ?_⟩
  · have hmem := (h.asleep _ t).mpr ht
    rw [hL m] at hmem
    cases hmem
  · rw [hpc t] at ht
    cases ht

theorem attended_of_run {σ₀ : System T} {tr : List (System T × Event)} (h₀ : Attended live σ₀)
    (hrun : SystemRun fuel σ₀ tr σ) : Attended live σ := by
  refine hrun.invariant (fun σ e σ' (hi : Attended live σ) (hs : step fuel σ e = some σ') => ?_) h₀
  obtain ⟨L, place, h⟩ := hi
  exact (step_cases hs).waiting h

/-- **No stranded waiter**: in every state of every run from placed tasks, when the queue of a mutex
is not empty, the mutex is locked, or a task that `mutex_unlock` took off this queue is current or
in the run queue and has not yet set `bLock`; and a mutex that was not created is free. -/
theorem no_stranded_waiter (fuel : ℕ) (live : Set T) (k : Kernel T) (L : QId → List T)
    (place : T → Option Place) (hk : Tasks live (start k).kernel.shape L place)
    (tr : List (System T × Event)) (σ : System T) (hrun : SystemRun fuel (start k) tr σ)
    (m : MutexId) :
    ((σ.kernel.gtMutex m).pSleepQueue ≠ none → (σ.kernel.gtMutex m).bLock = true ∨
      ∃ t, σ.taken t = some m ∧ (σ.ctl t).pc = .lockTake m ∧
        (σ.kernel.curTcb = some t ∨ Queued σ.kernel t)) ∧
    ((σ.kernel.gtMutex m).bAvailable = true → (σ.kernel.gtMutex m).bLock = false ∧
      (σ.kernel.gtMutex m).pHoldingTcb = none ∧ (σ.kernel.gtMutex m).pSleepQueue = none) := by
  obtain ⟨L, place, h⟩ := attended_of_run ⟨L, place, start_waiting hk⟩ hrun
  constructor
  · intro hq
    rcases h.guarded m (fun hl => hq ((h.queue_eq_nil m).mp hl)) with hlock | ⟨t, ht⟩
    · exact .inl hlock
    · obtain ⟨hpc, hcur | hready⟩ := h.taken t m ht
      · exact .inr ⟨t, ht, hpc, .inl ((h.tasks.current t).mpr hcur)⟩
      · exact .inr ⟨t, ht, hpc, .inr (h.tasks.queued_iff.mpr hready)⟩
  · intro hav
    obtain ⟨hl, hh, hq⟩ := h.available m hav
    exact ⟨hl, hh, (h.queue_eq_nil m).mp hq⟩

theorem threeTasks_placed : Tasks {t | t ∈ [0, 1, 2]}
    (start (boot threeTasks 0 [1, 2])).kernel.shape (fun _ => []) (bootPlace 0 [1, 2]) :=
  boot_tasks (by decide) (by decide)

theorem no_stranded_waiter_contended :
    ∃ tr σ, SystemRun osMaxTasks (start (boot threeTasks 0 [1, 2])) tr σ ∧
      σ.taken 1 = some 0 ∧
      ∀ m, ((σ.kernel.gtMutex m).pSleepQueue ≠ none → (σ.kernel.gtMutex m).bLock = true ∨
        ∃ t, σ.taken t = some m ∧ (σ.ctl t).pc = .lockTake m ∧
          (σ.kernel.curTcb = some t ∨ Queued σ.kernel t)) ∧
      ((σ.kernel.gtMutex m).bAvailable = true → (σ.kernel.gtMutex m).bLock = false ∧
        (σ.kernel.gtMutex m).pHoldingTcb = none ∧ (σ.kernel.gtMutex m).pSleepQueue = none) := by
  have hrun : (contended.foldlM (step osMaxTasks) (start (boot threeTasks 0 [1, 2]))).map
      (fun σ => σ.taken 1) = some (some 0) := by decide +kernel
  obtain ⟨σ, htr, htaken⟩ := Runs.run_of_map hrun
  exact ⟨_, σ, htr, htaken, fun m => no_stranded_waiter _ _ _ _ _ threeTasks_placed _ _ htr m⟩

end System

end Lab4Kernel
