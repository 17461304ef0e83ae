import Lab4Kernel.System.Mask
import Lab4Kernel.System.Schedule

/-!
# The kernel does not get stuck

* `Allowed`: idle does not block, and `dispatch_save` is called only while the run queue is not
  empty;
* `Alive`: the tasks are conserved and one of them is current; `Alive.step`: an allowed step keeps
  this;
* `Responsive`: the steps of the current task and the timer interrupts can be taken;
* **`never_stuck`**: in every run of allowed steps the kernel stays alive and responsive.
-/

namespace Lab4Kernel

open Kernel Intrusive

variable {T : Type} [DecidableEq T] {live : Set T} {idle t : T} {s s' s'' : Kernel T}

omit [DecidableEq T] in
theorem Conserves.trans (h : Conserves live idle s s') (h' : Conserves live idle s' s'') :
    Conserves live idle s s'' where
  wellFormed := h'.wellFormed
  lost := h'.lost.trans h.lost
  cur hc := h'.cur (h.cur hc)

namespace System

variable {fuel : ℕ} {σ σ' : System T} {e : Event} {tr : List (System T × Event)}

/-- **The events that keep the kernel running**: idle neither locks a mutex nor waits for a device,
and a timer interrupt calls `dispatch_save` only while some task is in the run queue. -/
def Allowed (fuel : ℕ) (idle : T) (σ : System T) : Event → Prop
  | .call (.lock _) | .call (.wait _) => σ.kernel.curTcb ≠ some idle
  | .timer millis true => ∀ k, σ.kernel.disableInterrupts.devUpdate fuel millis = some k →
      ∃ u, Queued k u
  | _ => True

theorem call_conserves {c : Call} (h : WellFormed live idle σ.kernel) (hf : osMaxTasks ≤ fuel)
    (hok : Allowed fuel idle σ (.call c)) (hs : step fuel σ (.call c) = some σ') :
    Conserves live idle σ.kernel σ'.kernel := by
  obtain ⟨t, hc, hcall⟩ := exists_caller hs
  cases c with
  | create =>
    cases hcall
    exact mutexCreate_conserves h rfl
  | lock i =>
    have hne : t ≠ idle := fun he => hok (he ▸ hc)
    obtain ⟨⟨o, k⟩, hk, rfl⟩ := Option.map_eq_some_iff.mp hcall
    obtain ⟨o', k', hk', hcons⟩ := mutexLock_conserves h hc hne hf i
    rw [hk] at hk'
    cases hk'
    rwa [afterLock_kernel]
  | unlock i =>
    cases hcall
    rw [afterUnlock_kernel]
    exact mutexUnlock_conserves h hc rfl
  | wait d =>
    have hne : t ≠ idle := fun he => hok (he ▸ hc)
    obtain ⟨k, hk, rfl⟩ := Option.map_eq_some_iff.mp hcall
    obtain ⟨k', hk', hcons⟩ := devWait_conserves h hc hne d
    rw [hk] at hk'
    cases hk'
    exact hcons

theorem resume_conserves (h : WellFormed live idle σ.kernel) (hs : StepCase fuel σ .resume σ') :
    Conserves live idle σ.kernel σ'.kernel := by
  cases hs with
  | launched t hc hctl => exact .of_shape h rfl rfl
  | switchedIn t pc hc hctl => exact .of_shape h rfl rfl
  | waitReturned t hpc => exact .of_shape h rfl rfl
  | tookLock t m hpc => exact .of_shape h (shape_setLock _ _) rfl
  | heldLock t m hpc => exact .of_shape h (shape_setHolding _ _) rfl
  | lockReturned t m hpc => exact .of_shape h rfl rfl

theorem timer_conserves {millis : Word} {b : Bool} (h : WellFormed live idle σ.kernel)
    (hf : osMaxTasks ≤ fuel) (hok : Allowed fuel idle σ (.timer millis b))
    (hs : StepCase fuel σ (.timer millis b) σ') : Conserves live idle σ.kernel σ'.kernel := by
  obtain ⟨k, hk, hcons⟩ := devUpdate_conserves (s := σ.kernel.disableInterrupts) h hf millis
  have hcons' : Conserves live idle σ.kernel k := ⟨hcons.wellFormed, hcons.lost, hcons.cur⟩
  cases hs with
  | ticked t pc millis k' hpc hm hk' =>
    rw [hk] at hk'
    cases hk'
    exact ⟨hcons'.wellFormed, hcons'.lost, hcons'.cur⟩
  | preempted t pc millis k' k'' hpc hm hk' hsave =>
    rw [hk] at hk'
    cases hk'
    obtain ⟨u, p, hp⟩ := hok k hk
    have hc : k.curTcb = some t := (Background.devUpdate hk).curTcb.trans hpc.1
    obtain ⟨k₁, hk₁, hsaved⟩ := dispatchSave_conserves hcons.wellFormed hc hp
    rw [hsave] at hk₁
    cases hk₁
    exact hcons'.trans hsaved

/-- The tasks of `σ₀` are conserved. -/
def Alive (live : Set T) (idle : T) (σ₀ σ : System T) : Prop :=
  Conserves live idle σ₀.kernel σ.kernel

/-- **An allowed step conserves the tasks.** -/
theorem Alive.step {σ₀ : System T} (h : Alive live idle σ₀ σ) (hf : osMaxTasks ≤ fuel)
    (hok : Allowed fuel idle σ e) (hs : System.step fuel σ e = some σ') :
    Alive live idle σ₀ σ' := by
  refine h.trans ?_
  cases e with
  | call c => exact call_conserves h.wellFormed hf hok hs
  | resume => exact resume_conserves h.wellFormed (step_cases hs)
  | timer millis b => exact timer_conserves h.wellFormed hf hok (step_cases hs)

/-- **The current task `t` can go on**: outside the kernel every call returns or switches, inside it
the next step is taken, and a task that runs accepts timer interrupts. -/
structure Responsive (fuel : ℕ) (σ : System T) (t : T) : Prop where
  current : σ.kernel.curTcb = some t
  call : σ.ctl t = .running .user → ∀ c, (step fuel σ (.call c)).isSome
  resume : σ.ctl t ≠ .running .user → (step fuel σ .resume).isSome
  timer : ∀ pc, σ.ctl t = .running pc → ∀ millis b, (step fuel σ (.timer millis b)).isSome

theorem responsive_of_wellFormed (h : WellFormed live idle σ.kernel) (hmask : MaskInv σ)
    (hf : osMaxTasks ≤ fuel) (hc : σ.kernel.curTcb = some t) : Responsive fuel σ t where
  current := hc
  call hu c := by
    obtain ⟨L, place, ht, -⟩ := h
    unfold step
    rw [hc]
    dsimp only
    rw [if_pos hu]
    cases c with
    | create => rfl
    | unlock i => rfl
    | lock i =>
      obtain ⟨o, k, hk⟩ := mutexLock_total i ht hc hf
      simp [System.call, hk]
    | wait d =>
      obtain ⟨k, hk⟩ := devWait_total hc d
      simp [System.call, hk]
  resume hu := by
    unfold step
    rw [hc]
    show (σ.resume t).isSome
    unfold System.resume
    rcases hctl : σ.ctl t with _ | pc | pc
    · rfl
    · rfl
    · cases pc with
      | user => exact absurd hctl hu
      | _ => rfl
  timer pc hpc millis b := by
    obtain ⟨L, place, ht, -⟩ := h
    obtain ⟨k, hk⟩ := devUpdate_total (s := σ.kernel.disableInterrupts) millis ht hf
    have hcur : k.curTcb = some t := (Background.devUpdate hk).curTcb.trans hc
    unfold step
    rw [hc]
    dsimp only
    rw [(hmask t pc hpc).2, hpc]
    show (σ.timer fuel millis b t pc).isSome
    unfold System.timer
    rw [hk, Option.bind_some, dispatchSave_of_cur hcur]
    split_ifs <;> rfl

/-- **The kernel does not get stuck**: in every run of allowed steps from a well-formed start with a
current task, exactly the live tasks have a place, no TCB was overwritten in the run queue, and the
current task can go on and accepts interrupts. -/
theorem never_stuck (fuel : ℕ) (live : Set T) (idle : T) (hf : osMaxTasks ≤ fuel) (k : Kernel T)
    (hk : WellFormed live idle (start k).kernel) (hc : (start k).kernel.curTcb.isSome)
    (tr : List (System T × Event)) (σ : System T) (hrun : SystemRun fuel (start k) tr σ)
    (hok : ∀ p ∈ tr, Allowed fuel idle p.1 p.2) :
    WellFormed live idle σ.kernel ∧ σ.kernel.lost = (start k).kernel.lost ∧
      ∃ t, Responsive fuel σ t := by
  have hcons : Alive live idle (start k) σ := hrun.guarded
    (fun σ e σ' (hi : Alive live idle (start k) σ) (he : Allowed fuel idle σ e)
      (hs : step fuel σ e = some σ') => hi.step hf he hs) ⟨hk, rfl, id⟩ hok
  have hmask : MaskInv σ := hrun.invariant
    (fun σ e σ' (hi : MaskInv σ) (hs : step fuel σ e = some σ') => (step_cases hs).maskInv hi)
    (start_maskInv k)
  obtain ⟨t, ht⟩ := Option.isSome_iff_exists.mp (hcons.cur hc)
  exact ⟨hcons.wellFormed, hcons.lost, t, responsive_of_wellFormed hcons.wellFormed hmask hf ht⟩

instance [Fintype T] (fuel : ℕ) (idle : T) (σ : System T) :
    (e : Event) → Decidable (Allowed fuel idle σ e)
  | .call (.lock _) => inferInstanceAs (Decidable (σ.kernel.curTcb ≠ some idle))
  | .call (.wait _) => inferInstanceAs (Decidable (σ.kernel.curTcb ≠ some idle))
  | .timer millis true => inferInstanceAs (Decidable
      (∀ k ∈ σ.kernel.disableInterrupts.devUpdate fuel millis, ∃ u p, k.rq.runList p = some u))
  | .timer _ false => .isTrue trivial
  | .call .create => .isTrue trivial
  | .call (.unlock _) => .isTrue trivial
  | .resume => .isTrue trivial

/-- Task 1 blocks on a mutex, and task 0 goes on. -/
theorem never_stuck_contended :
    ∃ tr σ, SystemRun osMaxTasks (start (boot threeTasks 0 [1, 2])) tr σ ∧
      WellFormed {t | t ∈ [0, 1, 2]} 2 σ.kernel ∧ σ.kernel.lost = [] ∧
      ∃ t, Responsive osMaxTasks σ t := by
  have hrun : (contended.foldlM (step osMaxTasks) (start (boot threeTasks 0 [1, 2]))).map
      (fun _ => ()) = some () := by decide +kernel
  obtain ⟨σ, htr, -⟩ := Runs.run_of_map hrun
  have hok : ∀ p ∈ Runs.trace (step osMaxTasks) (start (boot threeTasks 0 [1, 2])) contended,
      Allowed osMaxTasks 2 p.1 p.2 := by decide +kernel
  have hwf : WellFormed {t | t ∈ [0, 1, 2]} 2 (start (boot threeTasks 0 [1, 2])).kernel :=
    ⟨_, _, threeTasks_placed, by unfold Awake; decide⟩
  exact ⟨_, σ, htr, never_stuck osMaxTasks _ 2 le_rfl _ hwf rfl _ _ htr hok⟩

end System

end Lab4Kernel
