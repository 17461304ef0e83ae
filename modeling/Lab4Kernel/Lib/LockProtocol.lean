import Mathlib.Logic.Function.Basic

/-!
# A lock whose woken waiters take it again

A lock with a flag and a recorded holder. A waiter that was woken sets the flag itself, then records
itself as the holder, then enters: between its wake-up and these writes other tasks may step.

* `Step s a s'`: task by task, what the lock does;
* **`Inv.step`**: when no woken waiter sets a flag that is set, `Inv` is kept;
* **`Inv.exclusive`**: then at most one task is inside, and it is the recorded holder.
-/

namespace LockProtocol

variable {T : Type}

/-- Where a task is in its way through the lock. -/
inductive Phase where
  | idle
  | waiting
  | took
  | held
  deriving DecidableEq

/-- The flag, the recorded holder, the phase of each task, and who is inside. -/
@[ext] structure State (T : Type) where
  lock : Bool
  holder : Option T
  phase : T → Phase
  inside : T → Bool

/-- What a task does to the lock. -/
inductive Act where
  | acquire
  | block
  | release
  | retake
  | hold
  | enter
  deriving DecidableEq

/-- One step of one task. -/
inductive Step [DecidableEq T] (s : State T) : Act → State T → Prop
  | acquire (t : T) : s.phase t = .idle → s.lock = false →
      Step s .acquire { s with
        lock := true, holder := some t, inside := Function.update s.inside t true }
  | block (t : T) : s.phase t = .idle →
      Step s .block { s with phase := Function.update s.phase t .waiting }
  | release (t : T) : s.phase t = .idle → s.holder = some t →
      Step s .release { s with
        lock := false, holder := none, inside := Function.update s.inside t false }
  | retake (t : T) : s.phase t = .waiting →
      Step s .retake { s with lock := true, phase := Function.update s.phase t .took }
  | hold (t : T) : s.phase t = .took →
      Step s .hold { s with holder := some t, phase := Function.update s.phase t .held }
  | enter (t : T) : s.phase t = .held →
      Step s .enter { s with
        phase := Function.update s.phase t .idle, inside := Function.update s.inside t true }

/-- The tasks that count as owners of the lock. -/
def State.Owner (s : State T) (t : T) : Prop :=
  s.inside t = true ∨ s.phase t = .took ∨ s.phase t = .held

/-- Owners hold the flag, there is at most one, and it is the recorded holder exactly when it has
made that record. -/
structure Inv (s : State T) : Prop where
  flag : ∀ t, s.Owner t → s.lock = true
  unique : ∀ t u, s.Owner t → s.Owner u → t = u
  recorded : ∀ t, s.holder = some t ↔ s.inside t = true ∨ s.phase t = .held

variable {s s' : State T} {t : T}

/-- **Mutual exclusion.** -/
theorem Inv.exclusive (h : Inv s) :
    (∀ t u, s.inside t = true → s.inside u = true → t = u) ∧
      ∀ t, s.inside t = true → s.holder = some t :=
  ⟨fun t u ht hu => h.unique t u (.inl ht) (.inl hu), fun t ht => (h.recorded t).mpr (.inl ht)⟩

theorem Inv.no_owner (h : Inv s) (hl : s.lock = false) (t : T) : ¬s.Owner t := by
  intro ht
  rw [h.flag t ht] at hl
  cases hl

theorem Inv.no_holder (h : Inv s) (hl : s.lock = false) : s.holder = none := by
  by_contra hne
  obtain ⟨t, ht⟩ := Option.ne_none_iff_exists'.mp hne
  rcases (h.recorded t).mp ht with hin | hheld
  · exact h.no_owner hl t (.inl hin)
  · exact h.no_owner hl t (.inr (.inr hheld))

theorem Inv.of_owner (hflag : s.lock = true) (howner : ∀ u, s.Owner u → u = t)
    (hrec : ∀ u, s.holder = some u ↔ s.inside u = true ∨ s.phase u = .held) : Inv s where
  flag _ _ := hflag
  unique u v hu hv := (howner u hu).trans (howner v hv).symm
  recorded := hrec

theorem Inv.congr (h : Inv s) (hlock : s'.lock = s.lock) (hholder : s'.holder = s.holder)
    (howner : ∀ u, s'.Owner u ↔ s.Owner u)
    (hrec : ∀ u, s'.inside u = true ∨ s'.phase u = .held ↔ s.inside u = true ∨ s.phase u = .held) :
    Inv s' where
  flag u hu := hlock.trans (h.flag u ((howner u).mp hu))
  unique u v hu hv := h.unique u v ((howner u).mp hu) ((howner v).mp hv)
  recorded u := by rw [hholder, hrec]; exact h.recorded u

variable [DecidableEq T]

theorem Inv.acquire (h : Inv s) (hl : s.lock = false) :
    Inv { s with
      lock := true, holder := some t, inside := Function.update s.inside t true } := by
  refine .of_owner (t := t) rfl (fun u hu => ?_) fun u => ?_
  · by_contra e
    refine h.no_owner hl u ?_
    simpa only [State.Owner, Function.update_of_ne e] using hu
  · by_cases e : u = t
    · subst e
      simp
    · have hu := h.no_owner hl u
      simp only [State.Owner, not_or] at hu
      simp [Function.update_of_ne e, hu, Ne.symm e]

theorem Inv.retake (h : Inv s) (hl : s.lock = false) :
    Inv { s with lock := true, phase := Function.update s.phase t .took } := by
  refine .of_owner (t := t) rfl (fun u hu => ?_) fun u => ?_
  · by_contra e
    refine h.no_owner hl u ?_
    simpa only [State.Owner, Function.update_of_ne e] using hu
  · have hu := h.no_owner hl u
    simp only [State.Owner, not_or] at hu
    by_cases e : u = t
    · subst e
      simp [hu, h.no_holder hl]
    · simp [Function.update_of_ne e, hu, h.no_holder hl]

/-- The recorded holder is the only owner, so nobody owns the lock after its release. -/
theorem Inv.release (h : Inv s) (hp : s.phase t = .idle) (ht : s.holder = some t) :
    Inv { s with
      lock := false, holder := none, inside := Function.update s.inside t false } := by
  have hin : s.Owner t := by
    rcases (h.recorded t).mp ht with hin | hheld
    · exact .inl hin
    · exact .inr (.inr hheld)
  have hnone : ∀ u, ¬(Function.update s.inside t false u = true ∨ s.phase u = .took ∨
      s.phase u = .held) := by
    intro u
    by_cases e : u = t
    · subst e
      simp [hp]
    · rw [Function.update_of_ne e]
      exact fun hu => e (h.unique u t hu hin)
  exact ⟨fun u hu => absurd hu (hnone u), fun u v hu => absurd hu (hnone u), fun u =>
    iff_of_false (by simp) fun hu => hnone u (hu.imp_right .inr)⟩

theorem Inv.hold (h : Inv s) (hp : s.phase t = .took) :
    Inv { s with holder := some t, phase := Function.update s.phase t .held } := by
  have ht : s.Owner t := .inr (.inl hp)
  refine .of_owner (t := t) (h.flag t ht) (fun u hu => ?_) fun u => ?_
  · by_contra e
    refine e (h.unique u t ?_ ht)
    simpa only [State.Owner, Function.update_of_ne e] using hu
  · by_cases e : u = t
    · subst e
      simp
    · have hu : ¬s.Owner u := fun hu => e (h.unique u t hu ht)
      simp only [State.Owner, not_or] at hu
      simp [Function.update_of_ne e, hu, Ne.symm e]

/-- **One step keeps the invariant**, if no waiter sets a flag that is set. -/
theorem Inv.step {a : Act} (h : Inv s) (hs : Step s a s')
    (hguard : a = .retake → s.lock = false) : Inv s' := by
  cases hs with
  | acquire t _ hl => exact h.acquire hl
  | release t hp ht => exact h.release hp ht
  | retake t _ => exact h.retake (hguard rfl)
  | hold t hp => exact h.hold hp
  | block t hp =>
    refine h.congr rfl rfl (fun u => ?_) fun u => ?_
    · by_cases e : u = t
      · subst e
        simp [State.Owner, hp]
      · simp [State.Owner, e]
    · by_cases e : u = t
      · subst e
        simp [hp]
      · simp [e]
  | enter t hp =>
    refine h.congr rfl rfl (fun u => ?_) fun u => ?_
    · by_cases e : u = t
      · subst e
        simp [State.Owner, hp]
      · simp [State.Owner, e]
    · by_cases e : u = t
      · subst e
        simp [hp]
      · simp [e]

end LockProtocol
