import Lab4Kernel.Kernel.Time
import Lab4Kernel.Lib.Ranges
import Mathlib.Algebra.Order.Archimedean.Real.Basic
import Mathlib.Tactic.Linarith

/-!
# How long `sleep` waits

Moments are real numbers, in milliseconds from the tick before the call. The tick counter advances
by one, modulo `2 ^ 32`, every ten milliseconds.

* `sleepLoop_exit`: the loop ends at a read that finds the counter at its target;
* `sleepsEnough_iff_exits`: only the first such moment matters;
* **`sleepsEnough_iff`**: the wait is long enough exactly when nothing was asked for, or a multiple
  of ten milliseconds was asked for right at a tick and the target does not wrap around.
-/

namespace Lab4Kernel

open Ranges

/-- `num_of_10ms` at the moment `y`, when it was `n` at the tick before the call. -/
noncomputable def ticksAt (n : Word) (y : ℝ) : Word := n + BitVec.ofNat 32 ⌊y / 10⌋₊

/-- A call of `sleep(millis)` at the moment `δ` lasts at least `millis` milliseconds, at whatever
later moments its loop reads the counter. -/
def SleepsEnough (n millis : Word) (δ : ℝ) : Prop :=
  ∀ moments : List ℝ, moments.Pairwise (· ≤ ·) → (∀ y ∈ moments, δ ≤ y) →
    ∀ y, sleep (ticksAt n) δ millis moments = some y → (millis.toNat : ℝ) ≤ y - δ

variable {n millis : Word} {δ y : ℝ}

theorem sleepLoop_exit {M : Type*} {now : M → Word} {expected : Word} {moments : List M} {y : M}
    (h : sleepLoop now expected moments = some y) : y ∈ moments ∧ ¬now y < expected := by
  induction moments with
  | nil => cases h
  | cons x moments ih =>
    unfold sleepLoop at h
    split_ifs at h with hlt
    · obtain ⟨hy, hexit⟩ := ih h
      exact ⟨List.mem_cons_of_mem _ hy, hexit⟩
    · cases h
      exact ⟨List.mem_cons_self, hlt⟩

theorem sleepsEnough_iff_exits : SleepsEnough n millis δ ↔
    ∀ y, δ ≤ y → ¬ticksAt n y < ticksAt n δ + millis / 10 → (millis.toNat : ℝ) ≤ y - δ := by
  constructor
  · intro h y hy hexit
    refine h [y] (List.pairwise_singleton _ _) ?_ y ?_
    · intro x hx
      rwa [List.mem_singleton.mp hx]
    · unfold sleep sleepLoop
      exact if_neg hexit
  · intro h moments _ hlater y hy
    obtain ⟨hmem, hexit⟩ := sleepLoop_exit hy
    exact h y (hlater y hmem) hexit

theorem le_floor_tenth_iff (k : ℕ) (hy : 0 ≤ y) : k ≤ ⌊y / 10⌋₊ ↔ (10 * k : ℝ) ≤ y := by
  rw [Nat.le_floor_iff (by linarith)]
  constructor <;> intro h <;> linarith

/-- Within the first ten milliseconds the counter has not moved. -/
theorem ticksAt_call (h₁ : δ < 10) : ticksAt n δ = n := by
  have hfloor : ⌊δ / 10⌋₊ = 0 := by
    rw [Nat.floor_eq_zero]
    linarith
  unfold ticksAt
  rw [hfloor]
  exact BitVec.add_zero n

theorem toNat_target (n millis : Word) :
    (n + millis / 10).toNat = (n.toNat + millis.toNat / 10) % 2 ^ 32 := by
  rw [BitVec.toNat_add, BitVec.toNat_udiv]
  rfl

theorem ticks_of_exit (hwrap : n.toNat + millis.toNat / 10 < 2 ^ 32) (hy : 0 ≤ y)
    (hexit : ¬ticksAt n y < n + millis / 10) : (10 * (millis.toNat / 10 : ℕ) : ℝ) ≤ y := by
  rw [← le_floor_tenth_iff _ hy]
  by_contra hlt
  apply hexit
  have hk : (ticksAt n y).toNat = n.toNat + ⌊y / 10⌋₊ := toNat_offset (by omega)
  rw [BitVec.lt_def, toNat_target, hk, Nat.mod_eq_of_lt hwrap]
  omega

theorem exit_at_target (hwrap : n.toNat + millis.toNat / 10 < 2 ^ 32) :
    ¬ticksAt n (10 * (millis.toNat / 10 : ℕ)) < n + millis / 10 := by
  have hfloor : ⌊(10 * (millis.toNat / 10 : ℕ) : ℝ) / 10⌋₊ = millis.toNat / 10 := by
    rw [mul_div_cancel_left₀ _ (by norm_num), Nat.floor_natCast]
  rw [BitVec.lt_def, toNat_target, Nat.mod_eq_of_lt hwrap]
  unfold ticksAt
  rw [hfloor, toNat_offset hwrap]
  exact lt_irrefl _

theorem no_wrap_of_waits (hwaits : n < n + millis / 10) :
    n.toNat + millis.toNat / 10 < 2 ^ 32 ∧ 1 ≤ millis.toNat / 10 := by
  rw [BitVec.lt_def, toNat_target] at hwaits
  have hlt := millis.isLt
  have hn := n.isLt
  have hwrap : n.toNat + millis.toNat / 10 < 2 ^ 32 := by
    by_contra hge
    rw [Nat.mod_eq_sub_mod (by omega), Nat.mod_eq_of_lt (by omega)] at hwaits
    omega
  rw [Nat.mod_eq_of_lt hwrap] at hwaits
  exact ⟨hwrap, by omega⟩

/-- **When `sleep` waits long enough.** -/
theorem sleepsEnough_iff (n millis : Word) (δ : ℝ) (h₀ : 0 ≤ δ) (h₁ : δ < 10) :
    SleepsEnough n millis δ ↔ millis = 0 ∨
      (10 ∣ millis.toNat ∧ δ = 0 ∧ n.toNat + millis.toNat / 10 < 2 ^ 32) := by
  rw [sleepsEnough_iff_exits, ticksAt_call h₁]
  constructor
  · intro h
    by_cases hzero : millis.toNat = 0
    · exact .inl (BitVec.eq_of_toNat_eq hzero)
    · have hpos : (1 : ℝ) ≤ millis.toNat := by exact_mod_cast Nat.one_le_iff_ne_zero.mpr hzero
      -- a loop that ends at the call waits no time at all
      have hwaits : ticksAt n δ < n + millis / 10 := by
        by_contra hexit
        have hle := h δ le_rfl hexit
        linarith
      rw [ticksAt_call h₁] at hwaits
      obtain ⟨hwrap, hticks⟩ := no_wrap_of_waits hwaits
      have hone : (1 : ℝ) ≤ (millis.toNat / 10 : ℕ) := by exact_mod_cast hticks
      have hdiv : (10 * (millis.toNat / 10 : ℕ) : ℝ) ≤ millis.toNat := by
        exact_mod_cast Nat.mul_div_le millis.toNat 10
      -- otherwise it may end at the tick that reaches the target
      have hle := h _ (by linarith) (exit_at_target hwrap)
      have hδ : δ = 0 := by linarith
      have heq : (millis.toNat : ℝ) ≤ (10 * (millis.toNat / 10) : ℕ) := by
        push_cast
        linarith
      have heq' : millis.toNat ≤ 10 * (millis.toNat / 10) := by exact_mod_cast heq
      exact .inr ⟨⟨millis.toNat / 10, by omega⟩, hδ, hwrap⟩
  · rintro (rfl | ⟨hten, rfl, hwrap⟩) y hy hexit
    · show ((0 : ℕ) : ℝ) ≤ y - δ
      rw [Nat.cast_zero]
      linarith
    · have hlater := ticks_of_exit hwrap hy hexit
      have hmul : 10 * (millis.toNat / 10) = millis.toNat := Nat.mul_div_cancel' hten
      have hcast : (millis.toNat : ℝ) = 10 * (millis.toNat / 10 : ℕ) := by exact_mod_cast hmul.symm
      rw [hcast]
      linarith

theorem sleepsEnough_iff_tick : SleepsEnough 0 10 0 :=
  (sleepsEnough_iff 0 10 0 le_rfl (by norm_num)).mpr (.inr ⟨by decide, rfl, by decide⟩)

/-- Ten milliseconds, asked for one millisecond before a tick: the loop ends at that tick. -/
theorem sleep_short : sleep (ticksAt 0) 9 10 [10] = some 10 ∧ ¬SleepsEnough 0 10 9 := by
  have htarget : ticksAt 0 9 = 0 := ticksAt_call (by norm_num)
  have hread : ticksAt 0 10 = 1 := by
    unfold ticksAt
    norm_num
    rfl
  have hexit : sleep (ticksAt 0) 9 10 [10] = some (10 : ℝ) := by
    unfold sleep sleepLoop
    rw [htarget, hread]
    exact if_neg (by decide)
  refine ⟨hexit, fun h => ?_⟩
  have hle := h [10] (List.pairwise_singleton _ _) (by norm_num) 10 hexit
  norm_num at hle
  exact absurd hle (by decide)

end Lab4Kernel
