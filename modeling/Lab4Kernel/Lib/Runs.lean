import Mathlib.Data.List.Basic

/-!
# Runs of a labelled transition relation

`Run step s₀ tr s`: the run from `s₀` to `s` whose trace `tr` lists, for each step, the state
before it and its event.

* `Run.invariant`: what every step keeps holds at the end of every run;
* `Run.guarded`: the same for runs all of whose steps meet a condition on the state before the
  step and the event;
* `Run.append`, `Run.relates`: runs compose, and a relation kept by every step relates the ends;
* `Run.of_mem`: every step of a run is taken at the end of a run;
* `run_trace`, `run_of_map`: the run of a step function over a list of events.
-/

namespace Runs

variable {S E : Type*}

/-- A run, with the state before each step and the event of the step. -/
inductive Run (step : S → E → S → Prop) (s₀ : S) : List (S × E) → S → Prop
  | nil : Run step s₀ [] s₀
  | snoc {tr : List (S × E)} {s s' : S} (e : E) :
      Run step s₀ tr s → step s e s' → Run step s₀ (tr ++ [(s, e)]) s'

variable {step : S → E → S → Prop} {s₀ s s' : S} {tr tr' : List (S × E)}

/-- **Guarded invariant rule.** An invariant kept by every step that meets the condition `ok`
holds at the end of every run whose steps all meet it. -/
theorem Run.guarded {inv : S → Prop} {ok : S → E → Prop}
    (hstep : ∀ s e s', inv s → ok s e → step s e s' → inv s') (h₀ : inv s₀)
    (h : Run step s₀ tr s) (hok : ∀ p ∈ tr, ok p.1 p.2) : inv s := by
  induction h with
  | nil => exact h₀
  | snoc e _ hs ih =>
    have hinit := ih fun p hp => hok p (List.mem_append_left _ hp)
    exact hstep _ e _ hinit (hok _ (List.mem_append_right _ List.mem_cons_self)) hs

/-- **Invariant rule.** -/
theorem Run.invariant {inv : S → Prop} (hstep : ∀ s e s', inv s → step s e s' → inv s')
    (h₀ : inv s₀) (h : Run step s₀ tr s) : inv s :=
  h.guarded (fun s e s' hi (_ : True) hs => hstep s e s' hi hs) h₀ fun _ _ => trivial

theorem Run.append (h : Run step s₀ tr s) (h' : Run step s tr' s') :
    Run step s₀ (tr ++ tr') s' := by
  induction h' with
  | nil => rwa [List.append_nil]
  | snoc e _ hs ih =>
    rw [← List.append_assoc]
    exact ih.snoc e hs

/-- A transitive relation kept by the steps from every state that the start is related to relates
the ends of a run. -/
theorem Run.relates {r : S → S → Prop} (htrans : ∀ a b c, r a b → r b c → r a c)
    (hstep : ∀ s e s', r s₀ s → step s e s' → r s s') (h₀ : r s₀ s₀)
    (h : Run step s₀ tr s) : r s₀ s := by
  induction h with
  | nil => exact h₀
  | snoc e _ hs ih => exact htrans _ _ _ ih (hstep _ e _ ih hs)

theorem Run.of_mem {e : E} (h : Run step s₀ tr s') (hmem : (s, e) ∈ tr) :
    ∃ tr₁ s₁, tr₁ ++ [(s, e)] <+: tr ∧ Run step s₀ tr₁ s ∧ step s e s₁ := by
  induction h with
  | nil => cases hmem
  | @snoc tr s₂ s₃ e' hrun hs ih =>
    rw [List.mem_append, List.mem_singleton] at hmem
    rcases hmem with hmem | heq
    · obtain ⟨tr₁, s₁, hpre, hrun₁, hs₁⟩ := ih hmem
      exact ⟨tr₁, s₁, hpre.trans (List.prefix_append _ _), hrun₁, hs₁⟩
    · cases heq
      exact ⟨tr, s₃, List.prefix_rfl, hrun, hs⟩

/-- The trace of a step function over a list of events, up to the first event that is refused. -/
def trace (f : S → E → Option S) (s : S) : List E → List (S × E)
  | [] => []
  | e :: es => (s, e) :: ((f s e).map fun s' => trace f s' es).getD []

theorem run_trace {f : S → E → Option S} {es : List E} (h : es.foldlM f s = some s') :
    Run (fun s e s' => f s e = some s') s (trace f s es) s' := by
  induction es generalizing s with
  | nil =>
    cases h
    exact .nil
  | cons e es ih =>
    rw [List.foldlM_cons] at h
    obtain ⟨s₁, hs₁, h⟩ := Option.bind_eq_some_iff.mp h
    have hfirst : Run (fun s e s' => f s e = some s') s [(s, e)] s₁ := Run.nil.snoc e hs₁
    rw [trace, hs₁]
    exact hfirst.append (ih h)

theorem run_of_map {V : Type*} {f : S → E → Option S} {es : List E} {g : S → V} {v : V}
    (h : (es.foldlM f s).map g = some v) :
    ∃ s', Run (fun s e s' => f s e = some s') s (trace f s es) s' ∧ g s' = v := by
  obtain ⟨s', hs', hv⟩ := Option.map_eq_some_iff.mp h
  exact ⟨s', run_trace hs', hv⟩

end Runs
