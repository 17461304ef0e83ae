import Lab4Kernel.Kernel.State
import Lab4Kernel.Lib.Bits

/-!
# Integer logarithms

`kernel/math.c` has two functions `ilog2`, one for the debug build and one for the `NDEBUG` build.

* `ilog2Debug`: shifts by one until nothing is left;
* `ilog2Ndebug`: a binary search with the tables `b` and `S`;
* `ilog2Debug_eq`, `ilog2Ndebug_eq`: both compute `Nat.log2`;
* **`ilog2_agree`**: the two builds return the same value.
-/

namespace Lab4Kernel

open Bits

/-- `while (x >>= 1) r++;`. -/
def ilog2Loop (x r : Word) : Word :=
  if x >>> 1 = 0 then r else ilog2Loop (x >>> 1) (r + 1)
termination_by x.toNat
decreasing_by
  rename_i h
  have hne : (x >>> 1).toNat ≠ 0 := fun he => h (BitVec.eq_of_toNat_eq he)
  rw [BitVec.toNat_ushiftRight, Nat.shiftRight_one] at hne ⊢
  omega

/-- `ilog2`, without `NDEBUG`. -/
def ilog2Debug (x : Word) : Word := ilog2Loop x 0

/-- `b`. -/
def ilog2B : Fin 5 → Word := ![0x2, 0xC, 0xF0, 0xFF00, 0xFFFF0000]

/-- `S`. -/
def ilog2S : Fin 5 → Word := ![1, 2, 4, 8, 16]

/-- The body of the loop over the tables, on `v` and `r`. -/
def ilog2Stage (p : Word × Word) (i : Fin 5) : Word × Word :=
  if p.1 &&& ilog2B i ≠ 0 then (p.1 >>> ilog2S i, p.2 ||| ilog2S i) else p

/-- `ilog2`, with `NDEBUG`. The tables are visited from their last entry down to their first. -/
def ilog2Ndebug (v : Word) : Word := ((List.finRange 5).reverse.foldl ilog2Stage (v, 0)).2

/-! ## The loop by one -/

theorem ilog2Loop_eq (x r : Word) :
    ilog2Loop x r = r + BitVec.ofNat 32 x.toNat.log2 := by
  induction x, r using ilog2Loop.induct with
  | case1 x r h =>
    have hsmall : ¬2 ≤ x.toNat := by
      have hzero := congrArg BitVec.toNat h
      rw [BitVec.toNat_ushiftRight, Nat.shiftRight_one] at hzero
      change x.toNat / 2 = 0 at hzero
      omega
    rw [ilog2Loop, if_pos h, Nat.log2_def, if_neg hsmall]
    simp
  | case2 x r h ih =>
    have hlarge : 2 ≤ x.toNat := by
      by_contra hlt
      apply h
      apply BitVec.eq_of_toNat_eq
      rw [BitVec.toNat_ushiftRight, Nat.shiftRight_one]
      change x.toNat / 2 = 0
      omega
    rw [ilog2Loop, if_neg h, ih, Nat.log2_def x.toNat, if_pos hlarge, BitVec.toNat_ushiftRight,
      Nat.shiftRight_one, BitVec.ofNat_add, BitVec.add_assoc, BitVec.add_comm 1]
    rfl

theorem ilog2Debug_eq (x : Word) : ilog2Debug x = BitVec.ofNat 32 x.toNat.log2 := by
  unfold ilog2Debug
  rw [ilog2Loop_eq]
  exact BitVec.zero_add _

/-! ## The search with the tables -/

theorem toNat_ilog2S (i : Fin 5) : (ilog2S i).toNat = 2 ^ i.val := by
  revert i
  decide

theorem getLsbD_ilog2B (i : Fin 5) (j : ℕ) :
    (ilog2B i).getLsbD j = decide (2 ^ i.val ≤ j ∧ j < 2 * 2 ^ i.val) := by
  have hlow : ∀ i : Fin 5, ∀ j : Fin 32,
      (ilog2B i).getLsbD j.val = decide (2 ^ i.val ≤ j.val ∧ j.val < 2 * 2 ^ i.val) := by
    decide
  by_cases hj : j < 32
  · exact hlow i ⟨j, hj⟩
  · have hpow : 2 ^ i.val ≤ 2 ^ 4 := Nat.pow_le_pow_right (by omega) (by omega)
    rw [BitVec.getLsbD_of_ge _ _ (by omega)]
    symm
    rw [decide_eq_false_iff_not]
    omega

/-- The offset found so far has no bits below the window, so `|=` adds to it. -/
theorem or_ilog2S {r : Word} (i : Fin 5) (h : 2 * 2 ^ i.val ∣ r.toNat) :
    (r ||| ilog2S i).toNat = r.toNat + 2 ^ i.val := by
  obtain ⟨m, hm⟩ := h
  have hlt : 2 ^ i.val < 2 ^ (i.val + 1) := Nat.pow_lt_pow_succ (by omega)
  rw [Nat.mul_comm 2, ← Nat.pow_succ] at hm
  rw [BitVec.toNat_or, toNat_ilog2S, hm, Nat.two_pow_add_eq_or_of_lt hlt]

/-- **One stage halves the window.** -/
theorem ilog2Stage_narrowed {x : ℕ} {p : Word × Word} (i : Fin 5)
    (h : Narrowed x (2 * 2 ^ i.val) p.1.toNat p.2.toNat) :
    Narrowed x (2 ^ i.val) (ilog2Stage p i).1.toNat (ilog2Stage p i).2.toNat := by
  have hiff := and_window_ne_zero_iff (getLsbD_ilog2B i) h.fits
  unfold ilog2Stage
  by_cases hbit : p.1 &&& ilog2B i ≠ 0
  · rw [if_pos hbit]
    have hupper := h.upper (hiff.mp hbit)
    rwa [← toNat_ilog2S, ← Nat.shiftRight_eq_div_pow, ← BitVec.toNat_ushiftRight,
      ← BitVec.ushiftRight_eq', toNat_ilog2S, ← or_ilog2S i h.aligned] at hupper
  · rw [if_neg hbit]
    exact h.lower (not_le.mp fun hle => hbit (hiff.mpr hle))

theorem ilog2Ndebug_eq (x : Word) : ilog2Ndebug x = BitVec.ofNat 32 x.toNat.log2 := by
  by_cases hx : x.toNat = 0
  · rw [show x = 0 from BitVec.eq_of_toNat_eq hx]
    decide
  · have h₅ : Narrowed x.toNat (2 * 2 ^ 4) x.toNat (0 : Word).toNat := .start x.isLt
    have h₄ := ilog2Stage_narrowed (p := (x, 0)) 4 h₅
    have h₃ := ilog2Stage_narrowed 3 h₄
    have h₂ := ilog2Stage_narrowed 2 h₃
    have h₁ := ilog2Stage_narrowed 1 h₂
    have h₀ := ilog2Stage_narrowed 0 h₁
    have hlog := h₀.eq_log2 hx
    apply BitVec.eq_of_toNat_eq
    rw [← hlog, BitVec.toNat_ofNat, Nat.mod_eq_of_lt (BitVec.isLt _)]
    rfl

/-- **The two builds agree**, on the position of the highest set bit, and on `0` for `0`. -/
theorem ilog2_agree (x : Word) :
    ilog2Debug x = ilog2Ndebug x ∧
      (0 < x → 2 ^ (ilog2Debug x).toNat ≤ x.toNat ∧ x.toNat < 2 ^ ((ilog2Debug x).toNat + 1)) ∧
      (x = 0 → ilog2Debug x = 0 ∧ ilog2Ndebug x = 0) := by
  refine ⟨by rw [ilog2Debug_eq, ilog2Ndebug_eq], fun hx => ?_, fun hx => ?_⟩
  · have hne : x.toNat ≠ 0 := by
      rw [BitVec.lt_def] at hx
      exact Nat.ne_of_gt hx
    have hlog : (ilog2Debug x).toNat = x.toNat.log2 := by
      have hle := Nat.log2_lt hne |>.mpr x.isLt
      rw [ilog2Debug_eq, BitVec.toNat_ofNat, Nat.mod_eq_of_lt (by omega)]
    exact (Nat.log2_eq_iff hne).mp hlog.symm
  · subst hx
    exact ⟨by rw [ilog2Debug_eq]; rfl, by decide⟩

end Lab4Kernel
