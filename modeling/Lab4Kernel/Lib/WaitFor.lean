import Mathlib.Data.Set.Basic
import Mathlib.Logic.Relation
import Mathlib.Order.WellFounded

/-!
# Who waits for whom

Tasks wait for resources and hold resources. A task waits for another one when it waits for a
resource that the other one holds.

* `WaitsFor`: this relation, and `Ordered`: whoever waits holds only resources below;
* **`Ordered.acyclic`**: then no task waits, over any number of others, for itself;
* **`Ordered.exists_end`**: and every wait leads to a resource none of whose holders waits;
* `Stuck`: a set of tasks that all wait for one another;
* **`exists_stuck`**: a task that waits for itself lies in such a set, when tasks wait for one
  resource at a time and resources have one holder.
-/

namespace WaitFor

open Relation

variable {T R : Type*} (waits : T → R → Prop) (holds : R → T → Prop)

/-- The task `t` waits for a resource that `u` holds. -/
def WaitsFor (t u : T) : Prop := ∃ r, waits t r ∧ holds r u

/-- A task that waits for a resource holds only resources below it. -/
def Ordered [LT R] : Prop := ∀ t r r', waits t r → holds r' t → r' < r

/-- Every task of the set waits for another one, or for itself. -/
def Stuck (D : Set T) : Prop := ∀ t ∈ D, ∃ u ∈ D, WaitsFor waits holds t u

variable {waits holds} {t u : T} {r : R}

theorem Ordered.lt_of_chain [Preorder R] (h : Ordered waits holds)
    (hchain : TransGen (WaitsFor waits holds) t u) {r' : R} (ht : waits t r) (hu : waits u r')
    (hone : ∀ v r r', waits v r → waits v r' → r = r') : r < r' := by
  induction hchain generalizing r' with
  | single hedge =>
    obtain ⟨s, hs, hheld⟩ := hedge
    rw [hone _ _ _ ht hs]
    exact h _ _ _ hu hheld
  | tail _ hedge ih =>
    obtain ⟨s, hs, hheld⟩ := hedge
    exact (ih hs).trans (h _ _ _ hu hheld)

/-- **No circular wait.** -/
theorem Ordered.acyclic [Preorder R] (h : Ordered waits holds)
    (hone : ∀ v r r', waits v r → waits v r' → r = r') (t : T) :
    ¬TransGen (WaitsFor waits holds) t t := by
  intro hcycle
  obtain ⟨_, ⟨r, hr, -⟩, -⟩ := TransGen.head'_iff.mp hcycle
  exact lt_irrefl r (h.lt_of_chain hcycle hr hr hone)

/-- **Every wait ends**, at a resource that is held by nobody who waits. The induction is downwards
on the resource waited for. -/
theorem Ordered.exists_end [LT R] [WellFoundedGT R] (h : Ordered waits holds) (hr : waits t r) :
    ∃ u r', ReflTransGen (WaitsFor waits holds) t u ∧ waits u r' ∧
      ∀ v, holds r' v → ∀ s, ¬waits v s := by
  induction r using WellFoundedGT.induction generalizing t with
  | ind r ih =>
    by_cases hend : ∀ v, holds r v → ∀ s, ¬waits v s
    · exact ⟨t, r, .refl, hr, hend⟩
    · push Not at hend
      obtain ⟨v, hv, s, hs⟩ := hend
      obtain ⟨u, r', hchain, hu, hlast⟩ := ih s (h v s r hs hv) hs
      exact ⟨u, r', hchain.head ⟨r, hr, hv⟩, hu, hlast⟩

/-- **A circular wait is a set of tasks that wait for one another.** -/
theorem exists_stuck (hone : ∀ v r r', waits v r → waits v r' → r = r')
    (hholder : ∀ r v v', holds r v → holds r v' → v = v')
    (hcycle : TransGen (WaitsFor waits holds) t t) :
    Stuck waits holds {u | TransGen (WaitsFor waits holds) t u} := by
  -- nobody waits for two tasks, so every step of the wait stays on the way back to `t`
  have hback : ∀ u v, TransGen (WaitsFor waits holds) u t → WaitsFor waits holds u v →
      TransGen (WaitsFor waits holds) v t := by
    rintro u v hu ⟨r, hr, hv⟩
    obtain ⟨w, ⟨r', hr', hw⟩, hrest⟩ := TransGen.head'_iff.mp hu
    obtain rfl := hone _ _ _ hr hr'
    obtain rfl := hholder _ _ _ hv hw
    exact TransGen.trans_right hrest hcycle
  have hall : ∀ u, TransGen (WaitsFor waits holds) t u → TransGen (WaitsFor waits holds) u t := by
    intro u hu
    induction hu with
    | single hedge => exact hback _ _ hcycle hedge
    | tail _ hedge ih => exact hback _ _ ih hedge
  intro u hu
  obtain ⟨v, hedge, -⟩ := TransGen.head'_iff.mp (hall u hu)
  exact ⟨v, TransGen.tail hu hedge, hedge⟩

end WaitFor
