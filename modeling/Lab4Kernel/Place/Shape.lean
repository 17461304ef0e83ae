import Lab4Kernel.Kernel.Mutex
import Lab4Kernel.Kernel.Device
import Mathlib.Data.Fintype.Card

/-!
# Where the tasks are

The abstract view of the scheduler: every task is current, ready, asleep on one queue, or not
placed at all, and each queue is a list. `Placed sh L place` says that the pointers of the kernel
(the `Shape`) represent the queues `L` and the places `place`; a place is a function of the task,
so a placed task is in exactly one place.

* `Shape.add`, `Shape.push`, `Shape.linkAfter`, `Shape.pop`, `Shape.pick`: the pointer updates of
  the kernel;
* `Placed.unsetCur`, `Placed.add`, `Placed.push`, `Placed.append`, `Placed.pop`, `Placed.pick`:
  taking a task out of its place and putting a task that has no place somewhere;
* `Placed.fresh_slot`: the slot of a task that is not in the run queue is empty;
* `Placed.length_le`: no queue is longer than `osMaxTasks`.
-/

namespace Lab4Kernel

open Intrusive

/-- A queue of sleeping tasks. -/
inductive QId where
  | dev (d : DevId)
  | mutex (m : MutexId)
  deriving DecidableEq

/-- Where a task is. -/
inductive Place where
  | current
  | ready
  | asleep (q : QId)
  deriving DecidableEq

/-- The part of the kernel state that says where the tasks are. -/
structure Shape (T : Type) where
  link : T → Option T
  native : T → Prio
  prio : T → Prio
  cur : Option T
  rq : RunQueue T
  head : QId → Option T

variable {T : Type}

/-- The head pointer of a queue. -/
def Kernel.head (s : Kernel T) : QId → Option T
  | .dev d => (s.devices d).sleepQueue
  | .mutex m => (s.gtMutex m).pSleepQueue

/-- The shape of a kernel state. -/
def Kernel.shape (s : Kernel T) : Shape T where
  link t := (s.tcb t).sleepQueue
  native t := (s.tcb t).nativePrio
  prio t := (s.tcb t).curPrio
  cur := s.curTcb
  rq := s.rq
  head := s.head

namespace Shape

variable (sh : Shape T)

/-- `cur_tcb = p`. -/
@[simps -fullyApplied] def setCur (p : Option T) : Shape T := { sh with cur := p }

/-- The task is added to the run queue, at its priority. -/
@[simps -fullyApplied] def add (t : T) : Shape T :=
  { sh with rq := sh.rq.runqueueAdd t (sh.prio t) }

/-- The slot `p` of the run queue is emptied. -/
@[simps -fullyApplied] def remove (p : Prio) : Shape T :=
  { sh with rq := (sh.rq.runqueueRemove p).2 }

/-- The TCB that the dispatcher takes from the run queue. -/
def highest : Option T := sh.rq.runList sh.rq.highestPrio

/-- `cur_tcb = runqueue_remove(highest_prio())`. -/
def pick : Shape T := (sh.remove sh.rq.highestPrio).setCur sh.highest

variable [DecidableEq T]

/-- The task is pushed in front of a queue. -/
@[simps -fullyApplied] def push (q : QId) (t : T) : Shape T :=
  { sh with
    link := Function.update sh.link t (sh.head q)
    head := Function.update sh.head q (some t) }

/-- The task is linked behind `last`, and ends its queue. -/
@[simps -fullyApplied] def linkAfter (last t : T) : Shape T :=
  { sh with link := Function.update (Function.update sh.link last (some t)) t none }

/-- The head `t` of a queue is taken off it, and its link cleared. -/
@[simps -fullyApplied] def pop (q : QId) (t : T) : Shape T :=
  { sh with
    link := Function.update sh.link t none
    head := Function.update sh.head q (sh.link t) }

end Shape

/-- The places after the task `r` that the dispatcher found became the current one. -/
def switchTo [DecidableEq T] (r : Option T) (place : T → Option Place) : T → Option Place :=
  match r with
  | none => place
  | some t => Function.update place t (some .current)

/-- **The kernel's pointers represent the queues `L` and the places `place`.** -/
structure Placed (sh : Shape T) (L : QId → List T) (place : T → Option Place) : Prop where
  chain : ∀ q, IsChain sh.link (sh.head q) (L q)
  current : ∀ t, sh.cur = some t ↔ place t = some .current
  ready : ∀ p t, sh.rq.runList p = some t ↔ sh.prio t = p ∧ place t = some .ready
  asleep : ∀ q t, t ∈ L q ↔ place t = some (.asleep q)
  agree : sh.rq.Agree

namespace Placed

variable {sh : Shape T} {L : QId → List T} {place : T → Option Place} {t u : T} {q : QId}

theorem notMem (h : Placed sh L place) (hp : place t ≠ some (.asleep q)) : t ∉ L q :=
  fun ht => hp ((h.asleep q t).mp ht)

theorem runList_prio (h : Placed sh L place) (hp : place t = some .ready) :
    sh.rq.runList (sh.prio t) = some t :=
  (h.ready _ t).mpr ⟨rfl, hp⟩

/-- **No add overwrites**: when priorities are distinct, the slot of a placed task that is not
ready is empty. -/
theorem fresh_slot (h : Placed sh L place)
    (hinj : ∀ u, (place u).isSome → sh.prio u = sh.prio t → u = t)
    (hp : place t ≠ some .ready) : sh.rq.runList (sh.prio t) = none := by
  by_contra hne
  obtain ⟨u, hu⟩ := Option.ne_none_iff_exists'.mp hne
  obtain ⟨hprio, hready⟩ := (h.ready _ u).mp hu
  rw [hinj u (by rw [hready]; rfl) hprio] at hready
  exact hp hready

theorem length_le (h : Placed sh L place)
    (hinj : ∀ t u, (place t).isSome → (place u).isSome → sh.prio t = sh.prio u → t = u)
    (q : QId) : (L q).length ≤ osMaxTasks := by
  have hplaced : ∀ t ∈ L q, (place t).isSome := fun t ht => by rw [(h.asleep q t).mp ht]; rfl
  have hnodup : ((L q).map sh.prio).Nodup :=
    (h.chain q).nodup.map_on fun t ht u hu e => hinj t u (hplaced t ht) (hplaced u hu) e
  have hcard := List.Nodup.length_le_card hnodup
  rwa [List.length_map, Fintype.card_fin] at hcard

theorem remove_none {p : Prio} (h : Placed sh L place) (ht : sh.rq.runList p = none) :
    Placed (sh.remove p) L place := by
  refine { chain := h.chain, current := h.current, ready := fun p' u => ?_, asleep := h.asleep,
           agree := h.agree.remove }
  simp only [Shape.remove_rq, Shape.remove_prio, RunQueue.runList_remove]
  rw [← h.ready p' u]
  by_cases hp : p' = p
  · rw [if_pos hp, hp, ht]
  · rw [if_neg hp]

section Move

variable [DecidableEq T] {x : Option Place}

/-! ### Frames: moving `t` to `x` says nothing about the places it neither leaves nor enters -/

theorem current_frame (h : Placed sh L place) (ht : place t ≠ some .current)
    (hx : x ≠ some .current) (u : T) :
    sh.cur = some u ↔ Function.update place t x u = some .current := by
  rw [h.current u]
  by_cases e : u = t
  · subst e
    simp [ht, hx]
  · rw [Function.update_of_ne e]

theorem ready_frame (h : Placed sh L place) (ht : place t ≠ some .ready) (hx : x ≠ some .ready)
    (p : Prio) (u : T) :
    sh.rq.runList p = some u ↔ sh.prio u = p ∧ Function.update place t x u = some .ready := by
  rw [h.ready p u]
  by_cases e : u = t
  · subst e
    simp [ht, hx]
  · rw [Function.update_of_ne e]

theorem asleep_frame (h : Placed sh L place) (ht : place t ≠ some (.asleep q))
    (hx : x ≠ some (.asleep q)) (u : T) :
    u ∈ L q ↔ Function.update place t x u = some (.asleep q) := by
  rw [h.asleep q u]
  by_cases e : u = t
  · subst e
    simp [ht, hx]
  · rw [Function.update_of_ne e]

/-! ### Taking a task out of its place, and giving a place to a task without one -/

theorem unsetCur (h : Placed sh L place) (hc : sh.cur = some t) :
    Placed (sh.setCur none) L (Function.update place t none) := by
  have ht : place t = some .current := (h.current t).mp hc
  refine { chain := h.chain, current := fun u => ?_,
           ready := h.ready_frame (by simp [ht]) (by simp),
           asleep := fun q => h.asleep_frame (by simp [ht]) (by simp), agree := h.agree }
  by_cases e : u = t
  · simp [e]
  · have hu := h.current u
    rw [hc] at hu
    simp [Function.update_of_ne e, ← hu, Ne.symm e]

theorem setCur (h : Placed sh L place) (hc : sh.cur = none) (ht : place t = none) :
    Placed (sh.setCur (some t)) L (Function.update place t (some .current)) := by
  refine { chain := h.chain, current := fun u => ?_,
           ready := h.ready_frame (by simp [ht]) (by simp),
           asleep := fun q => h.asleep_frame (by simp [ht]) (by simp), agree := h.agree }
  by_cases e : u = t
  · simp [e]
  · have hu := h.current u
    rw [hc] at hu
    simp [Function.update_of_ne e, ← hu, Ne.symm e]

theorem add (h : Placed sh L place) (ht : place t = none)
    (hslot : sh.rq.runList (sh.prio t) = none) :
    Placed (sh.add t) L (Function.update place t (some .ready)) := by
  refine { chain := h.chain, current := h.current_frame (by simp [ht]) (by simp),
           ready := fun p u => ?_, asleep := fun q => h.asleep_frame (by simp [ht]) (by simp),
           agree := h.agree.add }
  have hu := h.ready p u
  simp only [Shape.add_rq, Shape.add_prio, RunQueue.runList_add]
  by_cases e : u = t
  · subst e
    simp only [ht, reduceCtorEq, and_false, iff_false] at hu
    by_cases hp : p = sh.prio u
    · simp [hp]
    · simp [hp, hu, Ne.symm hp]
  · rw [Function.update_of_ne e, ← hu]
    by_cases hp : p = sh.prio t
    · simp [hp, hslot, Ne.symm e]
    · rw [if_neg hp]

theorem remove {p : Prio} (h : Placed sh L place) (ht : sh.rq.runList p = some t) :
    Placed (sh.remove p) L (Function.update place t none) := by
  obtain ⟨hprio, hready⟩ := (h.ready p t).mp ht
  refine { chain := h.chain, current := h.current_frame (by simp [hready]) (by simp),
           ready := fun p' u => ?_, asleep := fun q => h.asleep_frame (by simp [hready]) (by simp),
           agree := h.agree.remove }
  have hu := h.ready p' u
  simp only [Shape.remove_rq, Shape.remove_prio, RunQueue.runList_remove]
  by_cases e : u = t
  · subst e
    by_cases hp : p' = p
    · simp [hp]
    · simp [hp, hu, hprio, Ne.symm hp]
  · rw [Function.update_of_ne e, ← hu]
    by_cases hp : p' = p
    · simp [hp, ht, Ne.symm e]
    · rw [if_neg hp]

/-- The places after a task moved to queue `q`, whose list is now `l`: the queue of every other
task, and the place of every other task, is as before. -/
theorem moveAsleep {link' : T → Option T} {head' : QId → Option T} {l : List T}
    (h : Placed sh L place) (ht : place t = none)
    (hchain : ∀ q', IsChain link' (head' q') (Function.update L q l q'))
    (hl : ∀ u, u ∈ l ↔ u = t ∨ u ∈ L q) :
    Placed { sh with link := link', head := head' } (Function.update L q l)
      (Function.update place t (some (.asleep q))) := by
  refine { chain := hchain, current := h.current_frame (by simp [ht]) (by simp),
           ready := h.ready_frame (by simp [ht]) (by simp),
           asleep := fun q' u => ?_, agree := h.agree }
  by_cases hq : q' = q
  · subst hq
    rw [Function.update_self, hl]
    by_cases e : u = t
    · simp [e]
    · simpa [Function.update_of_ne e, e] using h.asleep q' u
  · rw [Function.update_of_ne hq]
    exact h.asleep_frame (by simp [ht]) (by simp [Ne.symm hq]) u

theorem push (h : Placed sh L place) (ht : place t = none) (q : QId) :
    Placed (sh.push q t) (Function.update L q (t :: L q))
      (Function.update place t (some (.asleep q))) := by
  have hmem : ∀ q', t ∉ L q' := fun q' => h.notMem (by simp [ht])
  refine h.moveAsleep ht (fun q' => ?_) fun u => List.mem_cons
  by_cases hq : q' = q
  · subst hq
    simpa using ((h.chain q').push (hmem q')).2
  · simpa [Function.update_of_ne hq] using (h.chain q').frame (hmem q')

theorem start (h : Placed sh L place) (ht : place t = none) (hq : sh.head q = none) :
    Placed (sh.push q t) (Function.update L q (L q ++ [t]))
      (Function.update place t (some (.asleep q))) := by
  have hnil : L q = [] := IsChain.eq_nil (hq ▸ h.chain q)
  have hpush := h.push ht q
  rwa [hnil] at hpush ⊢

theorem append {last : T} (h : Placed sh L place) (ht : place t = none)
    (hl : (L q).getLast? = some last) :
    Placed (sh.linkAfter last t) (Function.update L q (L q ++ [t]))
      (Function.update place t (some (.asleep q))) := by
  have hmem : ∀ q', t ∉ L q' := fun q' => h.notMem (by simp [ht])
  have hlast : place last = some (.asleep q) := (h.asleep q last).mp (List.mem_of_getLast? hl)
  refine h.moveAsleep ht (fun q' => ?_) fun u => by simp [or_comm]
  by_cases hq : q' = q
  · subst hq
    simpa using (h.chain q').append hl (hmem q')
  · have hlast' : last ∉ L q' := h.notMem (by simp [hlast, Ne.symm hq])
    simpa [Function.update_of_ne hq] using ((h.chain q').frame hlast').frame (hmem q')

theorem pop {l : List T} (h : Placed sh L place) (hl : L q = t :: l) :
    Placed (sh.pop q t) (Function.update L q l) (Function.update place t none) := by
  have ht : place t = some (.asleep q) := (h.asleep q t).mp (by rw [hl]; exact List.mem_cons_self)
  have hchain := h.chain q
  rw [hl] at hchain
  refine { chain := fun q' => ?_, current := h.current_frame (by simp [ht]) (by simp),
           ready := h.ready_frame (by simp [ht]) (by simp),
           asleep := fun q' u => ?_, agree := h.agree }
  · by_cases hq : q' = q
    · subst hq
      simpa using hchain.pop
    · have hmem : t ∉ L q' := h.notMem (by simp [ht, Ne.symm hq])
      simpa [Function.update_of_ne hq] using (h.chain q').frame hmem
  · by_cases hq : q' = q
    · subst hq
      have hu := h.asleep q' u
      rw [hl, List.mem_cons] at hu
      rw [Function.update_self]
      by_cases e : u = t
      · subst e
        simpa using (List.nodup_cons.mp hchain.nodup).1
      · simpa [Function.update_of_ne e, e] using hu
    · rw [Function.update_of_ne hq]
      exact h.asleep_frame (by simp [ht, Ne.symm hq]) (by simp) u

/-- **The dispatcher's choice**: with no current task, the TCB at the highest priority becomes the
current task; on an empty run queue nothing moves. -/
theorem pick (h : Placed sh L place) (hc : sh.cur = none) :
    Placed sh.pick L (switchTo sh.highest place) := by
  rcases hr : sh.highest with _ | r
  · have hp := h.remove_none hr
    rw [Shape.pick, hr]
    rwa [show sh.remove sh.rq.highestPrio = (sh.remove sh.rq.highestPrio).setCur sh.cur from rfl,
      hc] at hp
  · have hp := (h.remove hr).setCur (t := r) hc (Function.update_self _ _ _)
    rw [Function.update_idem] at hp
    rwa [Shape.pick, hr]

end Move

end Placed

end Lab4Kernel
