import Lab4Kernel.System.Waiters
import Lab4Kernel.Lib.LockTable

/-!
# Mutex calls and their waiters

The mutexes and their sleep queues represent a table of locks whose waiters are queues.

* `Represents s tab`: the fields and the linked lists of the mutexes are those of the table;
* `LockRight`, `UnlockRight`: what a call returns, what it changes and what it leaves alone, and
  that it is the call of the table;
* **`lockEnd`**, **`unlockEnd`**: the ways in which a call ends, over the queues of sleepers;
* **`LockEnd.right`**, **`UnlockEnd.right`**: every one of them is right.
-/

namespace Lab4Kernel

open Kernel Intrusive LockTable

variable {T : Type} {live : Set T} {fuel : ℕ} {s s' : Kernel T} {c t u : T} {m : MutexId} {i : ℤ}
  {q : QId} {l : List T} {L L' : QId → List T} {place place' : T → Option Place}

/-- The tasks asleep on a queue, in its order. -/
def Sleepers (s : Kernel T) (q : QId) (l : List T) : Prop :=
  IsChain s.shape.link (s.shape.head q) l

theorem Tasks.sleepers (h : Tasks live s.shape L place) (q : QId) : Sleepers s q (L q) := h.chain q

theorem Tasks.eq_of_sleepers (h : Tasks live s.shape L place) (hl : Sleepers s q l) : l = L q :=
  hl.unique (h.chain q)

/-- The mutexes and their sleep queues are the locks of the table. -/
def Represents (s : Kernel T) (tab : Table MutexId T) : Prop :=
  ∀ m, (tab m).created = !(s.gtMutex m).bAvailable ∧ (tab m).locked = (s.gtMutex m).bLock ∧
    (tab m).holder = (s.gtMutex m).pHoldingTcb ∧ Sleepers s (.mutex m) (tab m).waiters

/-- The table of the mutexes, when the sleep queues are `L`. -/
def tableOf (s : Kernel T) (L : QId → List T) : Table MutexId T := fun m =>
  { created := !(s.gtMutex m).bAvailable
    locked := (s.gtMutex m).bLock
    holder := (s.gtMutex m).pHoldingTcb
    waiters := L (.mutex m) }

theorem Tasks.represents_iff {tab : Table MutexId T} (h : Tasks live s.shape L place) :
    Represents s tab ↔ tab = tableOf s L := by
  constructor
  · intro htab
    funext m
    obtain ⟨hcreated, hlocked, hholder, hwaiters⟩ := htab m
    exact Entry.ext hcreated hlocked hholder (h.eq_of_sleepers hwaiters)
  · rintro rfl m
    exact ⟨rfl, rfl, rfl, h.chain (.mutex m)⟩

/-- How the code answers a call. -/
def outcomeOf : Reply → Outcome
  | .invalid => .returned (-einval)
  | .deadlock => .returned (-edeadlock)
  | .notHolder => .returned (-eperm)
  | .waits => .switchedOut
  | .done => .returned 0

/-- No mutex, TCB, sleep queue or slot of the run queue changed, and neither did `cur_tcb`. -/
structure Unchanged (s s' : Kernel T) : Prop where
  gtMutex : s'.gtMutex = s.gtMutex
  tcb : s'.tcb = s.tcb
  devices : s'.devices = s.devices
  rq : s'.rq = s.rq
  curTcb : s'.curTcb = s.curTcb

theorem Kernel.Quiet.unchanged (h : Quiet s s') : Unchanged s s' := by
  constructor <;> rw [h.eq]

/-- The id is in range and its mutex was created. -/
def CreatedId (s : Kernel T) (i : ℤ) (m : MutexId) : Prop :=
  mutexOf i = some m ∧ (s.gtMutex m).bAvailable = false

/-- What a call of `mutex_lock` by `c` does that blocks on `m`, up to its context switch. -/
structure Blocks (c : T) (m : MutexId) (s s' : Kernel T) : Prop where
  queue : ∀ l, Sleepers s (.mutex m) l → Sleepers s' (.mutex m) (l ++ [c])
  queues : ∀ q, q ≠ .mutex m → ∀ l, Sleepers s q l → Sleepers s' q l
  locks : ∀ m', (s'.gtMutex m').bLock = (s.gtMutex m').bLock ∧
    (s'.gtMutex m').pHoldingTcb = (s.gtMutex m').pHoldingTcb
  curTcb : s'.curTcb = s.highestTcb
  runList : ∀ p t, s'.rq.runList p = some t ↔ s.rq.runList p = some t ∧ s'.curTcb ≠ some t

/-- What a call of `mutex_lock` by `c` does that takes `m`. -/
structure Takes (c : T) (m : MutexId) (s s' : Kernel T) : Prop where
  gtMutex : s'.gtMutex = Function.update s.gtMutex m
    { s.gtMutex m with bLock := true, pHoldingTcb := some c }
  shape : s'.shape = s.shape

/-- **What a call of `mutex_lock(i)` by `c` does**: it ends with `o`, in the state `s'`. -/
structure LockRight [DecidableEq T] (c : T) (i : ℤ) (s : Kernel T) (o : Outcome) (s' : Kernel T) :
    Prop where
  refines : ∀ tab, Represents s tab → o = outcomeOf (tab.lock c (mutexOf i)).1 ∧
    Represents s' (tab.lock c (mutexOf i)).2
  invalid : o = .returned (-einval) ↔ ∀ m, ¬CreatedId s i m
  deadlock : o = .returned (-edeadlock) ↔
    ∃ m, CreatedId s i m ∧ (s.gtMutex m).pHoldingTcb = some c
  fails : ∀ r, o = .returned r → r ≠ 0 → (r = -einval ∨ r = -edeadlock) ∧ Unchanged s s'
  blocks : ∀ m, CreatedId s i m → (s.gtMutex m).pHoldingTcb ≠ some c →
    (s.gtMutex m).bLock = true → o = .switchedOut ∧ Blocks c m s s'
  takes : ∀ m, CreatedId s i m → (s.gtMutex m).pHoldingTcb ≠ some c →
    (s.gtMutex m).bLock = false → o = .returned 0 ∧ Takes c m s s'

/-- What a call of `mutex_unlock` does that releases `m`. -/
structure Releases (m : MutexId) (s s' : Kernel T) : Prop where
  queue : ∀ l, Sleepers s (.mutex m) l → Sleepers s' (.mutex m) l.tail
  queues : ∀ q, q ≠ .mutex m → ∀ l, Sleepers s q l → Sleepers s' q l
  lock : (s'.gtMutex m).bLock = false ∧ (s'.gtMutex m).pHoldingTcb = none
  locks : ∀ m', m' ≠ m → s'.gtMutex m' = s.gtMutex m'
  curTcb : s'.curTcb = s.curTcb
  wakes : ∀ u l, Sleepers s (.mutex m) (u :: l) → s.rq.runList (s.tcb u).curPrio = none ∧
    ∀ p, s'.rq.runList p = if p = (s.tcb u).curPrio then some u else s.rq.runList p
  wakesNone : Sleepers s (.mutex m) [] → s'.rq = s.rq

/-- **What a call of `mutex_unlock(i)` by `c` does**: it returns `r`, in the state `s'`. -/
structure UnlockRight [DecidableEq T] (c : T) (i : ℤ) (s : Kernel T) (r : ℤ) (s' : Kernel T) :
    Prop where
  refines : ∀ tab, Represents s tab → .returned r = outcomeOf (tab.unlock c (mutexOf i)).1 ∧
    Represents s' (tab.unlock c (mutexOf i)).2
  invalid : r = -einval ↔ ∀ m, ¬CreatedId s i m
  notHolder : r = -eperm ↔ ∃ m, CreatedId s i m ∧ (s.gtMutex m).pHoldingTcb ≠ some c
  fails : r ≠ 0 → (r = -einval ∨ r = -eperm) ∧ Unchanged s s'
  releases : ∀ m, CreatedId s i m → (s.gtMutex m).pHoldingTcb = some c → r = 0 ∧ Releases m s s'

theorem not_createdId_of_bad (h : i < 0 ∨ i ≥ osNumMutex) (m : MutexId) : ¬CreatedId s i m := by
  rintro ⟨hm, -⟩
  rw [System.mutexOf_bad h] at hm
  cases hm

theorem createdId_iff {m' : MutexId} :
    CreatedId s (m.val : ℤ) m' ↔ m = m' ∧ (s.gtMutex m).bAvailable = false := by
  unfold CreatedId
  rw [mutexOf_val, Option.some.injEq]
  constructor
  · rintro ⟨rfl, hav⟩
    exact ⟨rfl, hav⟩
  · rintro ⟨rfl, hav⟩
    exact ⟨rfl, hav⟩

theorem CreatedId.unique {m' : MutexId} (h : CreatedId s i m) (h' : CreatedId s i m') : m = m' :=
  Option.some.inj (h.1.symm.trans h'.1)

theorem outcomeOf_injective : Function.Injective outcomeOf := by
  intro r r' h
  cases r <;> cases r' <;> first | rfl | exact absurd h (by decide)

theorem Kernel.Quiet.represents {tab : Table MutexId T} (h : Quiet s s') (htab : Represents s tab) :
    Represents s' tab := by
  intro m
  unfold Sleepers
  rw [h.gtMutex, h.shape]
  exact htab m

/-! ## Lists of sleepers after a call -/

theorem Tasks.sleepers_same (h : Tasks live s.shape L place) (h' : Tasks live s'.shape L' place')
    (hq : L' q = L q) (hl : Sleepers s q l) : Sleepers s' q l := by
  rw [h.eq_of_sleepers hl, ← hq]
  exact h'.sleepers q

theorem tableOf_same (hg : s'.gtMutex m = s.gtMutex m) (hL : L' (.mutex m) = L (.mutex m)) :
    tableOf s' L' m = tableOf s L m := by
  unfold tableOf
  rw [hg, hL]

theorem tableOf_not_created (hno : ∀ m, ¬CreatedId s i m) (m : MutexId) (hm : mutexOf i = some m) :
    (tableOf s L m).created = false := by
  have hav : (s.gtMutex m).bAvailable = true := by
    rw [← Bool.not_eq_false]
    exact fun hav => hno m ⟨hm, hav⟩
  simp [tableOf, hav]

theorem Tasks.blocks (h : Tasks live s.shape L place)
    (h' : Tasks live s'.shape (Function.update L (.mutex m) (L (.mutex m) ++ [c])) place')
    (hg : ∀ m', (s'.gtMutex m').bLock = (s.gtMutex m').bLock ∧
      (s'.gtMutex m').pHoldingTcb = (s.gtMutex m').pHoldingTcb)
    (hcur : s'.shape.cur = s.shape.highest)
    (hrq : s'.shape.rq = (s.shape.remove s.shape.rq.highestPrio).rq) : Blocks c m s s' := by
  refine ⟨fun l hl => ?_, fun q hq l hl => ?_, hg, hcur, fun p t => ?_⟩
  · rw [h.eq_of_sleepers hl]
    have hchain := h'.sleepers (.mutex m)
    rwa [Function.update_self] at hchain
  · exact h.sleepers_same h' (Function.update_of_ne hq _ _) hl
  · change s'.shape.rq.runList p = some t ↔ s.shape.rq.runList p = some t ∧ s'.shape.cur ≠ some t
    rw [hrq, hcur]
    simp only [Shape.remove_rq, RunQueue.runList_remove]
    unfold Shape.highest
    constructor
    · intro ht
      split_ifs at ht with hp
      refine ⟨ht, fun hhigh => hp ?_⟩
      rw [← ((h.ready p t).mp ht).1, ← ((h.ready _ t).mp hhigh).1]
    · rintro ⟨ht, hne⟩
      have hp : p ≠ s.shape.rq.highestPrio := by
        rintro rfl
        exact hne ht
      rwa [if_neg hp]

theorem Tasks.releases (h : Tasks live s.shape L place)
    (h' : Tasks live s'.shape (Function.update L (.mutex m) (L (.mutex m)).tail) place')
    (hg : s'.gtMutex = Function.update s.gtMutex m { s.gtMutex m with
      bLock := false, pHoldingTcb := none, pSleepQueue := (s'.gtMutex m).pSleepQueue })
    (hcur : s'.curTcb = s.curTcb)
    (hwakes : ∀ u l, L (.mutex m) = u :: l → s.rq.runList (s.tcb u).curPrio = none ∧
      s'.rq = s.rq.runqueueAdd u (s.tcb u).curPrio)
    (hnone : L (.mutex m) = [] → s'.rq = s.rq) : Releases m s s' := by
  constructor
  case queue =>
    intro l hl
    rw [h.eq_of_sleepers hl]
    have hchain := h'.sleepers (.mutex m)
    rwa [Function.update_self] at hchain
  case queues => exact fun q hq l hl => h.sleepers_same h' (Function.update_of_ne hq _ _) hl
  case lock =>
    rw [hg, Function.update_self]
    exact ⟨rfl, rfl⟩
  case locks =>
    intro m' e
    rw [hg, Function.update_of_ne e]
  case curTcb => exact hcur
  case wakes =>
    intro u l hl
    obtain ⟨hslot, hrq⟩ := hwakes u l (h.eq_of_sleepers hl).symm
    refine ⟨hslot, fun p => ?_⟩
    rw [hrq, RunQueue.runList_add]
  case wakesNone => exact fun hl => hnone (h.eq_of_sleepers hl).symm

variable [DecidableEq T] {o : Outcome} {tab : Table MutexId T}

/-! ## `mutex_lock` -/

/-- The ways in which a call of `mutex_lock` by `c` ends, with the queues `L` before it. -/
inductive LockEnd (live : Set T) (L : QId → List T) (c : T) (i : ℤ) (s s' : Kernel T) :
    Outcome → Prop
  | noMutex : (∀ m, ¬CreatedId s i m) → Quiet s s' → LockEnd live L c i s s' (.returned (-einval))
  | deadlock (m : MutexId) : CreatedId s i m → (s.gtMutex m).pHoldingTcb = some c → Quiet s s' →
      LockEnd live L c i s s' (.returned (-edeadlock))
  | takes (m : MutexId) : CreatedId s i m → (s.gtMutex m).pHoldingTcb ≠ some c →
      (s.gtMutex m).bLock = false → Takes c m s s' → LockEnd live L c i s s' (.returned 0)
  | blocks (m : MutexId) (place' : T → Option Place) : CreatedId s i m →
      (s.gtMutex m).pHoldingTcb ≠ some c → (s.gtMutex m).bLock = true →
      (∀ m', (s'.gtMutex m').bAvailable = (s.gtMutex m').bAvailable) →
      Tasks live s'.shape (Function.update L (.mutex m) (L (.mutex m) ++ [c])) place' →
      Blocks c m s s' → LockEnd live L c i s s' .switchedOut

/-- **The ends of `mutex_lock`.** -/
theorem lockEnd (h : Tasks live s.shape L place) (hc : s.curTcb = some c)
    (hs : LockCase fuel c i s s' o) : LockEnd live L c i s s' o := by
  cases hs with
  | badId hi hquiet => exact .noMutex (not_createdId_of_bad hi) hquiet
  | notCreated m hi hav hquiet =>
    subst hi
    refine .noMutex (fun m' hm => ?_) hquiet
    rw [createdId_iff, hav] at hm
    cases hm.2
  | deadlock m hi hav hheld hquiet =>
    subst hi
    exact .deadlock m (createdId_iff.mpr ⟨rfl, hav⟩) hheld hquiet
  | taken m hi hav hheld hl hran hg hsh =>
    subst hi
    exact .takes m (createdId_iff.mpr ⟨rfl, hav⟩) hheld hl ⟨hg, hsh⟩
  | blockedFirst m hi hav hheld hl hq hran hg hsh =>
    subst hi
    have h' := h.blockFirst (q := .mutex m) hc hq
    rw [← hsh] at h'
    have hkeeps : ∀ m', (s'.gtMutex m').bAvailable = (s.gtMutex m').bAvailable ∧
        (s'.gtMutex m').bLock = (s.gtMutex m').bLock ∧
        (s'.gtMutex m').pHoldingTcb = (s.gtMutex m').pHoldingTcb := by
      intro m'
      rw [hg]
      by_cases e : m' = m
      · subst e
        rw [Function.update_self]
        exact ⟨rfl, rfl, rfl⟩
      · rw [Function.update_of_ne e]
        exact ⟨rfl, rfl, rfl⟩
    exact .blocks m _ (createdId_iff.mpr ⟨rfl, hav⟩) hheld hl (fun m' => (hkeeps m').1) h'
      (h.blocks h' (fun m' => (hkeeps m').2) (by rw [hsh]; rfl) (by rw [hsh]; rfl))
  | blocked m hd last hi hav hheld hl hq hran hw hg hsh =>
    subst hi
    have h' := h.lock_blocks hc hq hw
    rw [← hsh] at h'
    exact .blocks m _ (createdId_iff.mpr ⟨rfl, hav⟩) hheld hl (fun m' => by rw [hg]) h'
      (h.blocks h' (fun m' => by rw [hg]; exact ⟨rfl, rfl⟩) (by rw [hsh]; rfl) (by rw [hsh]; rfl))

theorem LockEnd.refines (h : Tasks live s.shape L place) (he : LockEnd live L c i s s' o)
    (htab : Represents s tab) : o = outcomeOf (tab.lock c (mutexOf i)).1 ∧
      Represents s' (tab.lock c (mutexOf i)).2 := by
  obtain rfl := h.represents_iff.mp htab
  cases he with
  | noMutex hno hquiet =>
    rw [Table.lock_invalid (tableOf_not_created hno)]
    exact ⟨rfl, hquiet.represents htab⟩
  | deadlock m hm hheld hquiet =>
    rw [hm.1, Table.lock_deadlock (by simp [tableOf, hm.2]) hheld]
    exact ⟨rfl, hquiet.represents htab⟩
  | takes m hm hheld hl htakes =>
    rw [hm.1, Table.lock_done (by simp [tableOf, hm.2]) hheld hl]
    have h' : Tasks live s'.shape L place := by rw [htakes.shape]; exact h
    refine ⟨rfl, h'.represents_iff.mpr (Function.eq_update_iff.mpr ⟨?_, fun m' e => ?_⟩).symm⟩
    · simp [tableOf, htakes.gtMutex]
    · exact tableOf_same (by rw [htakes.gtMutex, Function.update_of_ne e]) rfl
  | blocks m place' hm hheld hl hav h' hblocks =>
    rw [hm.1, Table.lock_waits (by simp [tableOf, hm.2]) hheld hl]
    refine ⟨rfl, h'.represents_iff.mpr (Function.eq_update_iff.mpr ⟨?_, fun m' e => ?_⟩).symm⟩
    · simp [tableOf, hav m, hblocks.locks m]
    · simp [tableOf, hav m', hblocks.locks m', e]

/-- **`mutex_lock`.** -/
theorem LockEnd.right (h : Tasks live s.shape L place) (he : LockEnd live L c i s s' o) :
    LockRight c i s o s' := by
  have hrefines := fun tab (htab : Represents s tab) => he.refines h htab
  cases he with
  | noMutex hno hquiet =>
    exact { refines := hrefines
            invalid := iff_of_true rfl hno
            deadlock := iff_of_false (by decide) fun ⟨m, hm, _⟩ => hno m hm
            fails := fun r hr _ => ⟨.inl (Outcome.returned.inj hr).symm, hquiet.unchanged⟩
            blocks := fun m hm => absurd hm (hno m)
            takes := fun m hm => absurd hm (hno m) }
  | deadlock m hm hheld hquiet =>
    exact { refines := hrefines
            invalid := iff_of_false (by decide) fun hno => hno m hm
            deadlock := iff_of_true rfl ⟨m, hm, hheld⟩
            fails := fun r hr _ => ⟨.inr (Outcome.returned.inj hr).symm, hquiet.unchanged⟩
            blocks := fun m' hm' hne => absurd (hm.unique hm' ▸ hheld) hne
            takes := fun m' hm' hne => absurd (hm.unique hm' ▸ hheld) hne }
  | takes m hm hheld hl htakes =>
    refine { refines := hrefines
             invalid := iff_of_false (by decide) fun hno => hno m hm
             deadlock := iff_of_false (by decide) ?_
             fails := fun r hr hne => absurd (Outcome.returned.inj hr).symm hne
             blocks := ?_
             takes := ?_ }
    · rintro ⟨m', hm', hheld'⟩
      exact hheld (hm.unique hm' ▸ hheld')
    · intro m' hm' _ hl'
      rw [← hm.unique hm', hl] at hl'
      cases hl'
    · intro m' hm' _ _
      rw [← hm.unique hm']
      exact ⟨rfl, htakes⟩
  | blocks m place' hm hheld hl hav h' hblocks =>
    refine { refines := hrefines
             invalid := iff_of_false (by decide) fun hno => hno m hm
             deadlock := iff_of_false (by decide) ?_
             fails := fun r hr => (by cases hr)
             blocks := ?_
             takes := ?_ }
    · rintro ⟨m', hm', hheld'⟩
      exact hheld (hm.unique hm' ▸ hheld')
    · intro m' hm' _ _
      rw [← hm.unique hm']
      exact ⟨rfl, hblocks⟩
    · intro m' hm' _ hl'
      rw [← hm.unique hm', hl] at hl'
      cases hl'

/-! ## `mutex_unlock` -/

/-- The ways in which a call of `mutex_unlock` by `c` ends, with the queues `L` before it. -/
inductive UnlockEnd (live : Set T) (L : QId → List T) (c : T) (i : ℤ) (s s' : Kernel T) :
    ℤ → Prop
  | noMutex : (∀ m, ¬CreatedId s i m) → Quiet s s' → UnlockEnd live L c i s s' (-einval)
  | notHolder (m : MutexId) : CreatedId s i m → (s.gtMutex m).pHoldingTcb ≠ some c → Quiet s s' →
      UnlockEnd live L c i s s' (-eperm)
  | releases (m : MutexId) (place' : T → Option Place) : CreatedId s i m →
      (s.gtMutex m).pHoldingTcb = some c → (s'.gtMutex m).bAvailable = false →
      Tasks live s'.shape (Function.update L (.mutex m) (L (.mutex m)).tail) place' →
      Releases m s s' → UnlockEnd live L c i s s' 0

/-- **The ends of `mutex_unlock`.** -/
theorem unlockEnd {r : ℤ} (h : Tasks live s.shape L place) (hs : UnlockCase c i s s' r) :
    UnlockEnd live L c i s s' r := by
  cases hs with
  | badId hi hquiet => exact .noMutex (not_createdId_of_bad hi) hquiet
  | notCreated m hi hav hquiet =>
    subst hi
    refine .noMutex (fun m' hm => ?_) hquiet
    rw [createdId_iff, hav] at hm
    cases hm.2
  | notHolder m hi hav hheld hquiet =>
    subst hi
    exact .notHolder m (createdId_iff.mpr ⟨rfl, hav⟩) hheld hquiet
  | free m hi hav hheld hq hran hg hsh =>
    subst hi
    have hchain := h.chain (.mutex m)
    rw [show s.shape.head (.mutex m) = none from hq] at hchain
    have hempty : L (.mutex m) = [] := hchain.eq_nil
    have hL : Function.update L (.mutex m) (L (.mutex m)).tail = L := by
      rw [hempty, List.tail_nil, ← hempty, Function.update_eq_self]
    have h' : Tasks live s'.shape (Function.update L (.mutex m) (L (.mutex m)).tail) place := by
      rw [hL, hsh]
      exact h
    refine .releases m place (createdId_iff.mpr ⟨rfl, hav⟩) hheld (by simp [hg, hav]) h'
      (h.releases h' (by simp [hg]) (congrArg Shape.cur hsh) (fun u l hl => ?_)
        fun _ => congrArg Shape.rq hsh)
    rw [hempty] at hl
    cases hl
  | wake m next hi hav hheld hq hran hg hsh =>
    subst hi
    obtain ⟨l, hl⟩ := h.head_cons hq
    have h' := h.wake hl
    rw [← hsh, ← show (L (.mutex m)).tail = l by rw [hl]; rfl] at h'
    refine .releases m _ (createdId_iff.mpr ⟨rfl, hav⟩) hheld (by simp [hg, hav]) h'
      (h.releases h' (by simp [hg]) (congrArg Shape.cur hsh) (fun u l' hl' => ?_) fun hl' => ?_)
    · have hu : next = u := (List.cons.inj (hl.symm.trans hl')).1
      subst hu
      have hplace : place next = some (.asleep (.mutex m)) :=
        (h.asleep _ next).mp (by rw [hl]; exact List.mem_cons_self)
      exact ⟨h.slot_free (h.mem_of_place hplace) (by simp [hplace]), congrArg Shape.rq hsh⟩
    · rw [hl] at hl'
      cases hl'

theorem UnlockEnd.refines {r : ℤ} (h : Tasks live s.shape L place)
    (he : UnlockEnd live L c i s s' r) (htab : Represents s tab) :
    .returned r = outcomeOf (tab.unlock c (mutexOf i)).1 ∧
      Represents s' (tab.unlock c (mutexOf i)).2 := by
  obtain rfl := h.represents_iff.mp htab
  cases he with
  | noMutex hno hquiet =>
    rw [Table.unlock_invalid (tableOf_not_created hno)]
    exact ⟨rfl, hquiet.represents htab⟩
  | notHolder m hm hheld hquiet =>
    rw [hm.1, Table.unlock_notHolder (by simp [tableOf, hm.2]) hheld]
    exact ⟨rfl, hquiet.represents htab⟩
  | releases m place' hm hheld hav h' hrel =>
    rw [hm.1, Table.unlock_done (by simp [tableOf, hm.2]) hheld]
    refine ⟨rfl, h'.represents_iff.mpr (Function.eq_update_iff.mpr ⟨?_, fun m' e => ?_⟩).symm⟩
    · simp [tableOf, hm.2, hav, hrel.lock]
    · exact tableOf_same (hrel.locks m' e) (Function.update_of_ne (by simp [e]) _ _)

/-- **`mutex_unlock`.** -/
theorem UnlockEnd.right {r : ℤ} (h : Tasks live s.shape L place)
    (he : UnlockEnd live L c i s s' r) : UnlockRight c i s r s' := by
  have hrefines := fun tab (htab : Represents s tab) => he.refines h htab
  cases he with
  | noMutex hno hquiet =>
    exact { refines := hrefines
            invalid := iff_of_true rfl hno
            notHolder := iff_of_false (by decide) fun ⟨m, hm, _⟩ => hno m hm
            fails := fun _ => ⟨.inl rfl, hquiet.unchanged⟩
            releases := fun m hm => absurd hm (hno m) }
  | notHolder m hm hheld hquiet =>
    refine { refines := hrefines
             invalid := iff_of_false (by decide) fun hno => hno m hm
             notHolder := iff_of_true rfl ⟨m, hm, hheld⟩
             fails := fun _ => ⟨.inr rfl, hquiet.unchanged⟩
             releases := fun m' hm' hheld' => ?_ }
    exact absurd (hm.unique hm' ▸ hheld') hheld
  | releases m place' hm hheld hav h' hrel =>
    refine { refines := hrefines
             invalid := iff_of_false (by decide) fun hno => hno m hm
             notHolder := iff_of_false (by decide) ?_
             fails := fun hne => absurd rfl hne
             releases := fun m' hm' _ => ⟨rfl, hm.unique hm' ▸ hrel⟩ }
    rintro ⟨m', hm', hne⟩
    exact hne (hm.unique hm' ▸ hheld)

end Lab4Kernel
