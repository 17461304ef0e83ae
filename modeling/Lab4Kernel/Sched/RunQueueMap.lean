import Lab4Kernel.Sched.RunQueue
import Mathlib.Data.List.Basic

/-!
# The run queue refines a finite map

A client of the run queue sees a partial map from priorities to TCBs. `Op` lists the calls that a
client makes after `runqueue_init`; `Op.run` is what a call does to the run queue and `Op.apply`
what it does to the map.

* `Refines`: the run queue holds the map, and its bits agree with its slots;
* `refines_step`, `refines_run`: one call, and any sequence of calls, keep the two related;
* **`runQueue_refines_map`**: the slots, both levels of bits, `runqueue_remove` and
  `highest_prio` after any sequence of calls.
-/

namespace Lab4Kernel.RunQueue

variable {T : Type*}

/-- A call on the run queue. -/
inductive Op (T : Type*) where
  | add (tcb : T) (prio : Prio)
  | remove (prio : Prio)
  | highest

/-- What a call does to the run queue; `highest_prio` only reads it. -/
def Op.run (rq : RunQueue T) : Op T → RunQueue T
  | .add tcb prio => rq.runqueueAdd tcb prio
  | .remove prio => (rq.runqueueRemove prio).2
  | .highest => rq

/-- What a call does to the finite map. -/
def Op.apply (m : Prio → Option T) : Op T → Prio → Option T
  | .add tcb prio => Function.update m prio (some tcb)
  | .remove prio => Function.update m prio none
  | .highest => m

/-- The run queue holds exactly the map. -/
structure Refines (rq : RunQueue T) (m : Prio → Option T) : Prop where
  slots : rq.runList = m
  agree : rq.Agree

theorem refines_init : Refines (runqueueInit : RunQueue T) fun _ => none :=
  ⟨rfl, agree_init⟩

/-- **One call keeps the run queue and the map related.** -/
theorem refines_step {rq : RunQueue T} {m : Prio → Option T} (h : Refines rq m) (op : Op T) :
    Refines (op.run rq) (op.apply m) := by
  obtain ⟨rfl, ha⟩ := h
  cases op with
  | add tcb prio => exact ⟨rfl, ha.add⟩
  | remove prio => exact ⟨rfl, ha.remove⟩
  | highest => exact ⟨rfl, ha⟩

theorem refines_run (ops : List (Op T)) :
    Refines (ops.foldl Op.run runqueueInit) (ops.foldl Op.apply fun _ => none) :=
  List.foldl_rel refines_init fun op _ _ _ h => refines_step h op

/-- **The bitmap run queue refines a finite map.** -/
theorem runQueue_refines_map (ops : List (Op T)) :
    let rq := ops.foldl Op.run runqueueInit
    let m := ops.foldl Op.apply fun _ => none
    (∀ p, rq.runList p = m p) ∧
    (∀ p, (rq.runBits (group p)).getLsbD (position p) = true ↔ rq.runList p ≠ none) ∧
    (∀ g : Fin (osMaxTasks / 8), rq.groupRunBits.getLsbD g = true ↔ rq.runBits g ≠ 0) ∧
    (∀ p, (rq.runqueueRemove p).1 = m p ∧ (rq.runqueueRemove p).2.runList p = none ∧
      ∀ q ≠ p, (rq.runqueueRemove p).2.runList q = m q) ∧
    ((∃ p, m p ≠ none) → IsLeast {p | m p ≠ none} rq.highestPrio) := by
  intro rq m
  have h : Refines rq m := refines_run ops
  have hslot : ∀ p, rq.runList p = m p := congrFun h.slots
  refine ⟨hslot, h.agree.bit, h.agree.groupBit, fun p => ⟨hslot p, ?_, fun q hq => ?_⟩, ?_⟩
  · rw [runList_remove, if_pos rfl]
  · rw [runList_remove, if_neg hq, hslot]
  · rintro ⟨p, hp⟩
    have hleast := h.agree.highestPrio_isLeast (p := p) (by rwa [hslot])
    rwa [h.slots] at hleast

end Lab4Kernel.RunQueue
