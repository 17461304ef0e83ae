import Lab4Kernel.System.Periodic
import Lab4Kernel.Place.Priority

/-!
# Devices that are left behind

`dev_update` is called with increasing times, whatever the gaps between them.

* `NoneLeft`: a call leaves every match value ahead of the time, and wakes every sleeper of a device
  whose match value was not;
* `run_matches`: the match values in a run, from the times passed so far;
* **`noneLeft_iff`**: every call of a run leaves no device behind exactly when the times hit every
  multiple of the smallest period, up to the last time.
-/

namespace Lab4Kernel

open Periods

variable {T : Type} {live : Set T} {fuel : ℕ} {s k : Kernel T} {d : DevId} {u : T} {millis : Word}
  {ts : List ℕ} {L : QId → List T} {place : T → Option Place}

theorem dvd_devFreq (d : DevId) : 50 ∣ (devFreq d).toNat := by
  revert d
  decide

theorem devFreq_bounds (d : DevId) : 0 < (devFreq d).toNat ∧ (devFreq d).toNat ≤ 500 := by
  revert d
  decide

/-- The match values after the times `ts`. -/
def Matches (ts : List ℕ) (s : Kernel T) : Prop :=
  ∀ d, (s.devices d).nextMatch.toNat = matchAfter (devFreq d).toNat ts

theorem matches_devInit (h : s.devInit = s) : Matches [] s := by
  intro d
  rw [← h]
  rfl

variable [DecidableEq T]

/-- `dev_update(millis)` leaves no device behind, and no sleeper of a device. -/
def NoneLeft (fuel : ℕ) (millis : Word) (s : Kernel T) : Prop :=
  ∃ k, s.devUpdate fuel millis = some k ∧ (∀ d, millis < (k.devices d).nextMatch) ∧
    ∀ d u, OnDevice s d u → (s.devices d).nextMatch ≤ millis → Queued k u

/-- One call, at a time to which a period can be added. -/
theorem Matches.devUpdate (h : Matches ts s) (ht : Tasks live s.shape L place)
    (hk : s.devUpdate fuel millis = some k) (hsmall : millis.toNat + 500 < 2 ^ 32) :
    Matches (ts ++ [millis.toNat]) k := by
  intro d
  have hmatch : d ∈ s.matching millis ↔ matchAfter (devFreq d).toNat ts = millis.toNat := by
    rw [Kernel.mem_matching, ← BitVec.toNat_inj, h d]
  rw [(Kernel.devUpdate_spec ht hk).nextMatch, matchAfter_concat]
  simp only [hmatch]
  split_ifs with heq
  · have hle := (devFreq_bounds d).2
    rw [BitVec.toNat_add, h d, heq, Nat.mod_eq_of_lt (by omega)]
  · exact h d

theorem Matches.noneLeft (h : Matches ts s) (ht : Tasks live s.shape L place)
    (hk : s.devUpdate fuel millis = some k) (hsmall : millis.toNat + 500 < 2 ^ 32)
    (hts : (ts ++ [millis.toNat]).Pairwise (· < ·)) (hhits : Hits 50 (ts ++ [millis.toNat])) :
    NoneLeft fuel millis s := by
  have hinit := hhits.of_prefix hts (List.prefix_append _ _)
  have hts' := (List.pairwise_append.mp hts).1
  refine ⟨k, hk, fun d => ?_, fun d u hu hle => ?_⟩
  · have hahead := (hhits.mono (dvd_devFreq d)).lt_matchAfter (devFreq_bounds d).1 hts
    rw [BitVec.lt_def, h.devUpdate ht hk hsmall d]
    exact hahead _ (by simp)
  · rw [BitVec.le_def, h d] at hle
    have hahead := (hinit.mono (dvd_devFreq d)).lt_matchAfter (devFreq_bounds d).1 hts'
    have heq := (hhits.mono (dvd_devFreq d)).matchAfter_eq_of_le (devFreq_bounds d).1 hahead hle
    have hm : (s.devices d).nextMatch = millis := by
      rw [← BitVec.toNat_inj, h d, heq]
    exact ⟨_, (ht.wakes_sleeper hk hm hu).1⟩

namespace System

variable {σ σ₀ : System T} {tr : List (System T × Event)}

/-- The time that an event passes to `dev_update`. -/
def timerValue : System T × Event → Option ℕ
  | (_, .timer millis _) => some millis.toNat
  | _ => none

/-- The times that the timer interrupts of a run pass to `dev_update`. -/
def timerValues (tr : List (System T × Event)) : List ℕ := tr.filterMap timerValue

/-- **The match values in a run.** -/
theorem run_matches (hrun : SystemRun fuel σ₀ tr σ) (ht : Tasks live σ₀.kernel.shape L place)
    (hinit : σ₀.kernel.devInit = σ₀.kernel) (hsmall : ∀ t ∈ timerValues tr, t + 500 < 2 ^ 32) :
    (∃ L place, Tasks live σ.kernel.shape L place) ∧ Matches (timerValues tr) σ.kernel := by
  induction hrun with
  | nil => exact ⟨⟨L, place, ht⟩, matches_devInit hinit⟩
  | @snoc tr σ σ' e _ hs ih =>
    unfold timerValues at hsmall ⊢
    rw [List.filterMap_append] at hsmall ⊢
    obtain ⟨⟨L', place', ht'⟩, hmatch⟩ := ih fun t ht => hsmall t (List.mem_append_left _ ht)
    have hquiet : (∀ millis b, e ≠ .timer millis b) → timerValue (σ, e) = none →
        (∃ L place, Tasks live σ'.kernel.shape L place) ∧
          Matches (timerValues tr ++ [(σ, e)].filterMap timerValue) σ'.kernel := by
      intro he hnone
      have hb := (step_cases hs).between he ht'
      rw [List.filterMap_cons_none hnone, List.filterMap_nil, List.append_nil]
      exact ⟨hb.placed, fun d => by rw [hb.nextMatch]; exact hmatch d⟩
    cases e with
    | timer millis b =>
      obtain ⟨k, hk, hb⟩ := (step_cases hs).timed ht'
      have hmatch' : Matches _ σ.kernel.disableInterrupts := hmatch
      have hnext := hmatch'.devUpdate ht' hk (hsmall _ (by simp [timerValue]))
      exact ⟨hb.placed, fun d => by rw [hb.nextMatch]; exact hnext d⟩
    | call c => exact hquiet (by simp) rfl
    | resume => exact hquiet (by simp) rfl

theorem run_timer {b : Bool} (hrun : SystemRun fuel σ₀ tr σ)
    (ht : Tasks live σ₀.kernel.shape L place) (hinit : σ₀.kernel.devInit = σ₀.kernel)
    (hsmall : ∀ t ∈ timerValues tr, t + 500 < 2 ^ 32) {σ₁ : System T}
    (hmem : (σ₁, .timer millis b) ∈ tr) :
    ∃ ts k L place, ts ++ [millis.toNat] <+: timerValues tr ∧
      Tasks live σ₁.kernel.disableInterrupts.shape L place ∧
      Matches ts σ₁.kernel.disableInterrupts ∧
      σ₁.kernel.disableInterrupts.devUpdate fuel millis = some k := by
  obtain ⟨tr₁, σ₂, hpre, hrun₁, hs⟩ := hrun.of_mem hmem
  have hvalues : timerValues tr₁ ++ [millis.toNat] <+: timerValues tr := by
    have := hpre.filterMap timerValue
    rwa [List.filterMap_append] at this
  have hsmall₁ : ∀ t ∈ timerValues tr₁, t + 500 < 2 ^ 32 := fun t ht =>
    hsmall t (hvalues.subset (List.mem_append_left _ ht))
  obtain ⟨⟨L', place', ht'⟩, hmatch⟩ := run_matches hrun₁ ht hinit hsmall₁
  obtain ⟨k, hk, -⟩ := (step_cases hs).timed ht'
  exact ⟨_, k, L', place', hvalues, ht', hmatch, hk⟩

/-- Every timer interrupt of the run leaves no device behind. -/
def RunNoneLeft (fuel : ℕ) (tr : List (System T × Event)) : Prop :=
  ∀ σ millis b, (σ, .timer millis b) ∈ tr → NoneLeft fuel millis σ.kernel.disableInterrupts

/-- A multiple of the smallest period that was passed by leaves device 3 behind. -/
theorem hits_of_noneLeft (hrun : SystemRun fuel σ₀ tr σ) (ht : Tasks live σ₀.kernel.shape L place)
    (hinit : σ₀.kernel.devInit = σ₀.kernel) (hsmall : ∀ t ∈ timerValues tr, t + 500 < 2 ^ 32)
    (h : RunNoneLeft fuel tr) : Hits 50 (timerValues tr) := by
  rintro m hm hd ⟨t, ht', hle⟩
  obtain ⟨⟨σ₁, e⟩, hmem, hvalue⟩ := List.mem_filterMap.mp ht'
  cases e with
  | timer millis b =>
    obtain rfl : millis.toNat = t := Option.some.inj hvalue
    obtain ⟨ts, k, L', place', hpre, htasks, hmatch, hk⟩ := run_timer hrun ht hinit hsmall hmem
    obtain ⟨k', hk', hahead, -⟩ := h σ₁ millis b hmem
    obtain rfl : k = k' := Option.some.inj (hk.symm.trans hk')
    have hnext := hmatch.devUpdate htasks hk (hsmall _ ht') 3
    have hlt := hahead 3
    rw [BitVec.lt_def, hnext] at hlt
    exact hpre.subset (mem_of_lt_matchAfter hm hd (hle.trans_lt hlt))
  | call c => cases hvalue
  | resume => cases hvalue

/-- **When no device is left behind.** In a run from placed tasks after `dev_init`, with increasing
times to which a period can be added, every call of `dev_update` leaves every match value ahead of
its time and wakes every sleeper of a device whose match value was not, exactly when every multiple
of 50 milliseconds up to the last time is one of the times. -/
theorem noneLeft_iff (fuel : ℕ) (live : Set T) (σ₀ σ : System T) (L : QId → List T)
    (place : T → Option Place) (tr : List (System T × Event))
    (hplaced : Tasks live σ₀.kernel.shape L place) (hinit : σ₀.kernel.devInit = σ₀.kernel)
    (hrun : SystemRun fuel σ₀ tr σ) (htimes : (timerValues tr).Pairwise (· < ·))
    (hsmall : ∀ t ∈ timerValues tr, t + 500 < 2 ^ 32) :
    RunNoneLeft fuel tr ↔
      ∀ m, 0 < m → 50 ∣ m → (∃ t ∈ timerValues tr, m ≤ t) → m ∈ timerValues tr := by
  constructor
  · exact hits_of_noneLeft hrun hplaced hinit hsmall
  · intro hhits σ₁ millis b hmem
    obtain ⟨ts, k, L', place', hpre, ht, hmatch, hk⟩ :=
      run_timer hrun hplaced hinit hsmall hmem
    have hvalue := hpre.subset (List.mem_append_right _ List.mem_cons_self)
    exact hmatch.noneLeft ht hk (hsmall _ hvalue) (htimes.sublist hpre.sublist)
      (Hits.of_prefix hhits htimes hpre)

/-- Task 0 calls `dev_wait(3)`, task 1 is launched, and two timer interrupts come, at the given
times. -/
def waitEvents (first second : Word) : List Event :=
  [.call (.wait 3), .resume, .timer first false, .timer second false]

theorem timerValues_waitEvents : timerValues (Runs.trace (step osMaxTasks)
    (start (boot threeTasks 0 [1, 2])) (waitEvents 50 100)) = [50, 100] := by decide +kernel

theorem noneLeft_iff_hit : RunNoneLeft osMaxTasks (Runs.trace (step osMaxTasks)
    (start (boot threeTasks 0 [1, 2])) (waitEvents 50 100)) := by
  have hend : ((waitEvents 50 100).foldlM (step osMaxTasks) (start (boot threeTasks 0 [1, 2]))).map
      (fun σ => (σ.kernel.devices 3).nextMatch) = some 150 := by decide +kernel
  obtain ⟨σ, hrun, -⟩ := Runs.run_of_map hend
  refine (noneLeft_iff osMaxTasks _ _ σ _ _ _ threeTasks_placed devInit_boot hrun ?_ ?_).mpr ?_
  · rw [timerValues_waitEvents]
    decide
  · rw [timerValues_waitEvents]
    decide
  · rw [timerValues_waitEvents]
    rintro m hm ⟨k, rfl⟩ ⟨t, ht, hle⟩
    have hk : k = 1 ∨ k = 2 := by
      simp only [List.mem_cons, List.not_mem_nil, or_false] at ht
      omega
    rcases hk with rfl | rfl <;> decide

/-- The first interrupt comes at 60 milliseconds: device 3 keeps its match value of 50, and its
sleeper sleeps on at 60 and at 100. -/
theorem noneLeft_late : ∃ tr σ, SystemRun osMaxTasks (start (boot threeTasks 0 [1, 2])) tr σ ∧
    timerValues tr = [60, 100] ∧ (σ.kernel.devices 3).nextMatch = 50 ∧
    (σ.kernel.devices 3).sleepQueue = some 0 ∧ ¬RunNoneLeft osMaxTasks tr := by
  have hend : ((waitEvents 60 100).foldlM (step osMaxTasks) (start (boot threeTasks 0 [1, 2]))).map
      (fun σ => ((σ.kernel.devices 3).nextMatch, (σ.kernel.devices 3).sleepQueue)) =
      some (50, some 0) := by decide +kernel
  obtain ⟨σ, hrun, heq⟩ := Runs.run_of_map hend
  have hvalues : timerValues (Runs.trace (step osMaxTasks) (start (boot threeTasks 0 [1, 2]))
      (waitEvents 60 100)) = [60, 100] := by decide +kernel
  refine ⟨_, σ, hrun, hvalues, congrArg Prod.fst heq, congrArg Prod.snd heq, fun h => ?_⟩
  have hhits := hits_of_noneLeft hrun threeTasks_placed devInit_boot
    (by rw [hvalues]; decide) h
  rw [hvalues] at hhits
  exact absurd (hhits 50 (by decide) (by decide) ⟨60, by decide, by decide⟩) (by decide)

end System

end Lab4Kernel
