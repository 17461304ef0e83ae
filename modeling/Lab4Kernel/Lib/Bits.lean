import Mathlib.Data.Nat.Cast.Basic
import Mathlib.Tactic.ByContra

/-!
# The highest set bit, by halving a window

A word `v` below `2 ^ (2 * k)` is reduced to its upper or its lower `k` bits, whichever holds its
highest set bit.

* `and_window_ne_zero_iff`: the upper half of the window holds a set bit exactly when `2 ^ k ≤ v`;
* `Narrowed x w v r`: `v` is `x` shifted right by `r`, it fits in `w` bits, and it is not zero
  unless `x` is;
* `Narrowed.upper`, `Narrowed.lower`: the two ways to halve the window;
* **`Narrowed.eq_log2`**: a window of one bit has found the highest set bit.
-/

namespace Bits

variable {n k : ℕ} {v mask : BitVec n}

/-- **The upper half of a window of `2 * k` bits.** -/
theorem and_window_ne_zero_iff (hmask : ∀ j, mask.getLsbD j = decide (k ≤ j ∧ j < 2 * k))
    (hv : v.toNat < 2 ^ (2 * k)) : v &&& mask ≠ 0 ↔ 2 ^ k ≤ v.toNat := by
  constructor
  · intro hne
    by_contra hlt
    apply hne
    apply BitVec.eq_of_getLsbD_eq
    intro j _
    rw [BitVec.getLsbD_and, hmask]
    by_cases hj : k ≤ j
    · have hbit : v.getLsbD j = false :=
        Nat.testBit_lt_two_pow
          (Nat.lt_of_lt_of_le (not_le.mp hlt) (Nat.pow_le_pow_right (by omega) hj))
      simp [hbit]
    · simp [hj]
  · intro hle he
    obtain ⟨j, hj, hbit⟩ := Nat.exists_ge_and_testBit_of_ge_two_pow hle
    have hlt : j < 2 * k := by
      by_contra hge
      have hzero : v.toNat.testBit j = false :=
        Nat.testBit_lt_two_pow
          (Nat.lt_of_lt_of_le hv (Nat.pow_le_pow_right (by omega) (not_lt.mp hge)))
      rw [hzero] at hbit
      cases hbit
    have hand : (v &&& mask).getLsbD j = true := by
      rw [BitVec.getLsbD_and, hmask]
      have hv' : v.getLsbD j = true := hbit
      simp [hv', hj, hlt]
    rw [he] at hand
    simp at hand

/-- The search has narrowed `x` to a window of `w` bits from bit `r` on. -/
structure Narrowed (x w v r : ℕ) : Prop where
  shifted : v = x / 2 ^ r
  fits : v < 2 ^ w
  nonzero : x ≠ 0 → v ≠ 0
  aligned : w ∣ r

variable {x w u r : ℕ}

theorem Narrowed.start (h : x < 2 ^ w) : Narrowed x w x 0 :=
  ⟨by simp, h, id, Nat.dvd_zero w⟩

theorem Narrowed.lower (h : Narrowed x (2 * w) u r) (hu : u < 2 ^ w) : Narrowed x w u r :=
  ⟨h.shifted, hu, h.nonzero, Nat.dvd_trans (Nat.dvd_mul_left w 2) h.aligned⟩

theorem Narrowed.upper (h : Narrowed x (2 * w) u r) (hu : 2 ^ w ≤ u) :
    Narrowed x w (u / 2 ^ w) (r + w) where
  shifted := by rw [h.shifted, Nat.div_div_eq_div_mul, Nat.pow_add]
  fits := by
    have hlt := h.fits
    rw [Nat.two_mul, Nat.pow_add] at hlt
    exact Nat.div_lt_of_lt_mul hlt
  nonzero _ := Nat.ne_of_gt (Nat.div_pos hu (Nat.two_pow_pos w))
  aligned := Nat.dvd_add (Nat.dvd_trans (Nat.dvd_mul_left w 2) h.aligned) (Nat.dvd_refl w)

/-- **A window of one bit**: it is the highest set bit of `x`. -/
theorem Narrowed.eq_log2 (h : Narrowed x 1 u r) (hx : x ≠ 0) : r = x.log2 := by
  have hone : x / 2 ^ r = 1 := by
    have hfits := h.fits
    have hne := h.nonzero hx
    rw [← h.shifted]
    omega
  symm
  rw [Nat.log2_eq_iff hx]
  have hpos := Nat.two_pow_pos r
  have hmod := Nat.div_add_mod x (2 ^ r)
  have hlt := Nat.mod_lt x hpos
  rw [hone] at hmod
  rw [Nat.pow_succ]
  omega

end Bits
