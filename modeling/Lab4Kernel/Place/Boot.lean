import Lab4Kernel.Place.Update

/-!
# The state after boot

* `boot tcb cur ts`: `mutex_init`, `dev_init` and `runqueue_init` ran, `cur` is current, and the
  TCBs `ts` were added to the run queue, each at its priority;
* **`boot_tasks`**: the current task and the TCBs in `ts` are placed there, and nothing is asleep;
* `threeTasks`: the TCBs of a system of two tasks and idle.
-/

namespace Lab4Kernel

open Intrusive

variable {T : Type} {tcb : T → Tcb T} {cur : T} {ts : List T}

/-- The state after boot. -/
def boot (tcb : T → Tcb T) (cur : T) (ts : List T) : Kernel T where
  tcb := tcb
  curTcb := some cur
  rq := ts.foldl (fun rq t => rq.runqueueAdd t (tcb t).curPrio) .runqueueInit
  gtMutex _ := { bAvailable := true, pHoldingTcb := none, bLock := false, pSleepQueue := none }
  devices i := { sleepQueue := none, nextMatch := devFreq i }

theorem devInit_boot : (boot tcb cur ts).devInit = boot tcb cur ts := rfl

theorem foldl_agree {rq : RunQueue T} (f : T → Prio) (h : rq.Agree) :
    (ts.foldl (fun rq t => rq.runqueueAdd t (f t)) rq).Agree := by
  induction ts generalizing rq with
  | nil => exact h
  | cons u ts ih => exact ih h.add

theorem boot_agree : (boot tcb cur ts).rq.Agree := foldl_agree _ RunQueue.agree_init

theorem mem_of_foldl {rq : RunQueue T} {f : T → Prio} {p : Prio} {t : T}
    (h : (ts.foldl (fun rq t => rq.runqueueAdd t (f t)) rq).runList p = some t) :
    t ∈ ts ∨ rq.runList p = some t := by
  induction ts generalizing rq with
  | nil => exact .inr h
  | cons u ts ih =>
    rcases ih h with ht | ht
    · exact .inl (List.mem_cons_of_mem _ ht)
    · rw [RunQueue.runList_add] at ht
      split_ifs at ht
      · exact .inl (Option.some.inj ht ▸ List.mem_cons_self)
      · exact .inr ht

theorem boot_queued {p : Prio} {t : T} (h : (boot tcb cur ts).rq.runList p = some t) : t ∈ ts := by
  rcases mem_of_foldl h with ht | ht
  · exact ht
  · cases ht

theorem foldl_add_shape (sh : Shape T) :
    ts.foldl Shape.add sh =
      { sh with rq := ts.foldl (fun rq t => rq.runqueueAdd t (sh.prio t)) sh.rq } := by
  induction ts generalizing sh with
  | nil => rfl
  | cons u ts ih => rw [List.foldl_cons, ih]; rfl

variable [DecidableEq T]

/-- The places after boot. -/
def bootPlace (cur : T) (ts : List T) (t : T) : Option Place :=
  if t = cur then some .current else if t ∈ ts then some .ready else none

theorem placed_foldl {sh : Shape T} {L : QId → List T} {place : T → Option Place}
    (h : Placed sh L place) (hts : (ts.map sh.prio).Nodup) (hplace : ∀ t ∈ ts, place t = none)
    (hslot : ∀ t ∈ ts, sh.rq.runList (sh.prio t) = none) :
    Placed (ts.foldl Shape.add sh) L fun t => if t ∈ ts then some .ready else place t := by
  induction ts generalizing sh place with
  | nil => simpa using h
  | cons u ts ih =>
    rw [List.map_cons, List.nodup_cons, List.mem_map, not_exists] at hts
    have hu := h.add (hplace u List.mem_cons_self) (hslot u List.mem_cons_self)
    have hne : ∀ t ∈ ts, sh.prio t ≠ sh.prio u := fun t ht e => hts.1 t ⟨ht, e⟩
    have hrest := ih hu hts.2
      (fun t ht => by
        rw [Function.update_of_ne (fun e => hne t ht (congrArg sh.prio e))]
        exact hplace t (List.mem_cons_of_mem _ ht))
      (fun t ht => by
        simp only [Shape.add_rq, Shape.add_prio, RunQueue.runList_add, if_neg (hne t ht)]
        exact hslot t (List.mem_cons_of_mem _ ht))
    have heq : (fun t => if t ∈ u :: ts then some .ready else place t) =
        fun t => if t ∈ ts then some .ready else Function.update place u (some .ready) t := by
      funext t
      by_cases e : t = u <;> by_cases ht : t ∈ ts <;> simp [e, ht]
    rw [heq]
    exact hrest

/-- **The tasks after boot.** -/
theorem boot_tasks
    (hnative : ∀ t ∈ cur :: ts, (tcb t).nativePrio = (tcb t).curPrio)
    (hprio : ((cur :: ts).map fun t => (tcb t).curPrio).Nodup) :
    Tasks {t | t ∈ cur :: ts} (boot tcb cur ts).shape (fun _ => []) (bootPlace cur ts) := by
  have hcur : ∀ t ∈ ts, t ≠ cur := by
    rintro t ht rfl
    rw [List.map_cons, List.nodup_cons] at hprio
    exact hprio.1 (List.mem_map_of_mem ht)
  have hbase : Placed (boot tcb cur []).shape (fun _ => [])
      (fun t => if t = cur then some .current else none) := by
    refine { chain := fun q => ?_, current := fun t => ?_, ready := fun p t => ?_,
             asleep := fun q t => ?_, agree := RunQueue.agree_init }
    · cases q <;> rfl
    · by_cases e : t = cur
      · simp [boot, Kernel.shape, e]
      · simp [boot, Kernel.shape, e, Ne.symm e]
    · by_cases e : t = cur <;> simp [boot, Kernel.shape, e]
    · by_cases e : t = cur <;> simp [e]
  have hplaced : Placed (ts.foldl Shape.add (boot tcb cur []).shape) (fun _ => [])
      (fun t => if t ∈ ts then some .ready else if t = cur then some .current else none) :=
    placed_foldl hbase (List.nodup_cons.mp hprio).2 (fun t ht => if_neg (hcur t ht))
      (fun t _ => rfl)
  have hplace : bootPlace cur ts = fun t =>
      if t ∈ ts then some .ready else if t = cur then some .current else none := by
    funext t
    by_cases ht : t ∈ ts
    · simp [bootPlace, ht, hcur t ht]
    · simp [bootPlace, ht]
  rw [foldl_add_shape, ← hplace] at hplaced
  refine { toPlaced := hplaced, live_iff := fun t => ?_, native_eq := hnative,
           prio_inj := fun t ht u hu e => ?_ }
  · by_cases e : t = cur <;> by_cases ht : t ∈ ts <;> simp [bootPlace, e, ht]
  · exact List.inj_on_of_nodup_map hprio ht hu e

/-- The priorities of two tasks and idle. -/
def threePrios : Fin 3 → Prio := ![Fin.castSucc 1, Fin.castSucc 0, idlePrio]

/-- The TCBs of two tasks and idle. -/
def threeTasks (t : Fin 3) : Tcb (Fin 3) where
  nativePrio := threePrios t
  curPrio := threePrios t

end Lab4Kernel
