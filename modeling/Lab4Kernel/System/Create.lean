import Lab4Kernel.System.Waits

/-!
# The ids of mutexes

* `createdLog`: what the calls of `mutex_create` in a run return;
* `mutexCreate_eq`: the call finds the first entry that is available;
* `CreatedBelow`: the entries below a number are created, and the others are not;
* **`mutex_ids`**: in every run the ids returned are the indices of the table, in order and each
  once, and then `-ENOMEM`; and the entries created are those whose ids were returned.
-/

namespace Lab4Kernel

open Kernel

variable {T : Type}

/-- Of the mutexes, the first `n` are created. -/
def CreatedBelow (n : ℕ) (s : Kernel T) : Prop :=
  ∀ m, (s.gtMutex m).bAvailable = false ↔ m.val < n

/-- The result of `mutex_create` when `n` calls were made before. -/
def idAfter (n : ℕ) : ℤ := if n < osNumMutex then n else -enomem

theorem idAfter_eq_iff {n : ℕ} {m : MutexId} : idAfter n = m.val ↔ n = m.val := by
  have hm : m.val < osNumMutex := m.isLt
  unfold idAfter enomem
  split_ifs
  · exact Int.natCast_inj
  · exact iff_of_false id (by omega)

/-- **`mutex_create` returns the first index that is available.** -/
theorem mutexCreate_eq {n : ℕ} {s : Kernel T} (h : CreatedBelow n s) :
    s.mutexCreate.1 = idAfter n := by
  obtain ⟨hfound, -⟩ := firstAvailable_spec (List.finRange osNumMutex) s.disableInterrupts
  unfold mutexCreate idAfter
  simp only [hfound, disableInterrupts_gtMutex]
  by_cases hn : n < osNumMutex
  · have hfind : (List.finRange osNumMutex).find? (fun j => (s.gtMutex j).bAvailable) =
        some ⟨n, hn⟩ := by
      rw [List.find?_eq_some_iff_getElem]
      refine ⟨?_, n, by simpa using hn, by simp, fun j hj => ?_⟩
      · rw [← Bool.not_eq_false, h]
        exact lt_irrefl n
      · rw [Bool.not_eq_true', h]
        simpa using hj
    rw [hfind, if_pos hn]
  · have hfind : (List.finRange osNumMutex).find? (fun j => (s.gtMutex j).bAvailable) = none := by
      rw [List.find?_eq_none]
      intro j _
      rw [Bool.not_eq_true, h]
      exact j.isLt.trans_le (not_lt.mp hn)
    rw [hfind, if_neg hn]

namespace System

variable [DecidableEq T] {fuel : ℕ} {σ σ' : System T} {e : Event} {tr : List (System T × Event)}

/-- What a call of `mutex_create` returns. -/
def created : System T × Event → Option ℤ
  | (σ, .call .create) => some σ.kernel.mutexCreate.1
  | _ => none

/-- What the calls of `mutex_create` return, in the order of the calls. -/
def createdLog (tr : List (System T × Event)) : List ℤ := tr.filterMap created

theorem StepCase.createdBelow {n : ℕ} (hs : StepCase fuel σ e σ') (he : e ≠ .call .create)
    (h : CreatedBelow n σ.kernel) : CreatedBelow n σ'.kernel := by
  intro m
  rw [← h m]
  cases hs.mutexStep m with
  | created hcreate hg => exact absurd hcreate he
  | same hg | locked t hu hc hl hg | queued q hg | released t q hu hheld hg | took t hpc hg
  | held t hpc hc hg => rw [hg]

theorem create_createdBelow {n : ℕ} (hs : step fuel σ (.call .create) = some σ')
    (h : CreatedBelow n σ.kernel) : CreatedBelow (n + 1) σ'.kernel := by
  obtain ⟨t, -, hcall⟩ := exists_caller hs
  cases hcall
  have hid := mutexCreate_eq h
  obtain ⟨⟨r, k⟩, hk⟩ : ∃ p, σ.kernel.mutexCreate = p := ⟨_, rfl⟩
  rw [hk] at hid ⊢
  intro m
  cases mutexCreate_cases hk with
  | created m' hav hran hg hsh =>
    have hn : n = m'.val := idAfter_eq_iff.mp hid.symm
    by_cases hm : m = m'
    · subst hm
      simp [hg, hn]
    · have hne : m.val ≠ n := by rwa [hn, Ne, ← Fin.ext_iff]
      rw [hg, Function.update_of_ne hm, h m]
      omega
  | full hall hquiet =>
    rw [hquiet.gtMutex]
    exact iff_of_true (hall m) (((h m).mp (hall m)).trans (Nat.lt_succ_self n))

omit [DecidableEq T] in
theorem createdLog_concat (p : System T × Event) :
    createdLog (tr ++ [p]) = createdLog tr ++ (created p).toList := by
  unfold createdLog
  rw [List.filterMap_append, List.filterMap_cons, List.filterMap_nil]
  cases created p <;> rfl

/-- The calls made so far say which mutexes are created, and what they returned. -/
theorem createdLog_run {k : Kernel T} (hrun : SystemRun fuel (start k) tr σ) :
    createdLog tr = (List.range (createdLog tr).length).map idAfter ∧
      CreatedBelow (createdLog tr).length σ.kernel := by
  induction hrun with
  | nil =>
    refine ⟨rfl, fun m => ?_⟩
    exact iff_of_false (fun hav => by cases hav) (Nat.not_lt_zero _)
  | @snoc tr σ σ' e hrun hs ih =>
    obtain ⟨hlog, hbelow⟩ := ih
    rw [createdLog_concat]
    by_cases he : e = .call .create
    · subst he
      have hcreated : created (σ, Event.call .create) = some (idAfter (createdLog tr).length) :=
        congrArg some (mutexCreate_eq hbelow)
      rw [hcreated, Option.toList_some, List.length_append, List.length_singleton, List.range_succ,
        List.map_append, ← hlog]
      exact ⟨rfl, create_createdBelow hs hbelow⟩
    · have hnone : created (σ, e) = none := by
        cases e with
        | call c =>
          cases c with
          | create => exact absurd rfl he
          | _ => rfl
        | _ => rfl
      rw [hnone, Option.toList_none, List.append_nil]
      exact ⟨hlog, (step_cases hs).createdBelow he hbelow⟩

/-- **The ids of mutexes**: in every run from the start, the calls of `mutex_create` return `0`,
`1`, … in the order of the calls, as long as there are entries, and `-ENOMEM` from then on; and the
entries that are created are those whose indices were returned. -/
theorem mutex_ids (fuel : ℕ) (k : Kernel T) (tr : List (System T × Event)) (σ : System T)
    (hrun : SystemRun fuel (start k) tr σ) :
    createdLog tr = (List.range (createdLog tr).length).map idAfter ∧
      ∀ m, (σ.kernel.gtMutex m).bAvailable = false ↔ (m.val : ℤ) ∈ createdLog tr := by
  obtain ⟨hlog, hbelow⟩ := createdLog_run hrun
  refine ⟨hlog, fun m => ?_⟩
  rw [hbelow m, hlog, List.length_map, List.length_range, List.mem_map]
  constructor
  · intro hm
    exact ⟨m.val, List.mem_range.mpr hm, idAfter_eq_iff.mpr rfl⟩
  · rintro ⟨n, hn, hid⟩
    rw [← idAfter_eq_iff.mp hid]
    exact List.mem_range.mp hn

/-- Two mutexes are created by two tasks. -/
theorem mutex_ids_crossed :
    ∃ tr σ, SystemRun osMaxTasks (start (boot threeTasks 0 [1, 2])) tr σ ∧
      createdLog tr = [0, 1] ∧ createdLog tr = (List.range (createdLog tr).length).map idAfter ∧
      ∀ m, (σ.kernel.gtMutex m).bAvailable = false ↔ (m.val : ℤ) ∈ createdLog tr := by
  have hrun : (([.call .create, .timer 10 true, .resume, .call .create] : List Event).foldlM
      (step osMaxTasks) (start (boot threeTasks 0 [1, 2]))).map (fun _ => ()) = some () := by
    decide +kernel
  obtain ⟨σ, htr, -⟩ := Runs.run_of_map hrun
  exact ⟨_, σ, htr, by decide +kernel, mutex_ids osMaxTasks _ _ _ htr⟩

end System

end Lab4Kernel
