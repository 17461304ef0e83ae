import Mathlib.Algebra.Group.Nat.Defs

/-!
# Ranges of machine addresses

Addresses are words of `w` bits, and their sums wrap around.

* `Region`: the addresses from a base on and below a bound;
* `add_cases`, `toNat_offset`: a sum with and without wrap-around;
* `offset_eq_iff`: the addresses of a range are distinct;
* `Region.Encloses`: a range that lies in a region, with its end taken in the integers;
* **`Region.Encloses.holds`**: every address of such a range is one of the region.
-/

namespace Ranges

variable {w : ℕ}

theorem add_cases (a b : BitVec w) :
    (a.toNat + b.toNat < 2 ^ w ∧ (a + b).toNat = a.toNat + b.toNat) ∨
      (2 ^ w ≤ a.toNat + b.toNat ∧ (a + b).toNat + 2 ^ w = a.toNat + b.toNat) := by
  have ha := a.isLt
  have hb := b.isLt
  rw [BitVec.toNat_add]
  by_cases h : a.toNat + b.toNat < 2 ^ w
  · exact .inl ⟨h, Nat.mod_eq_of_lt h⟩
  · rw [Nat.mod_eq_sub_mod (by omega), Nat.mod_eq_of_lt (by omega)]
    omega

theorem toNat_offset {a : BitVec w} {i : ℕ} (h : a.toNat + i < 2 ^ w) :
    (a + BitVec.ofNat w i).toNat = a.toNat + i := by
  rw [BitVec.toNat_add, BitVec.toNat_ofNat, Nat.mod_eq_of_lt (show i < 2 ^ w by omega)]
  exact Nat.mod_eq_of_lt h

theorem offset_eq_iff {a : BitVec w} {i j : ℕ} (hi : i < 2 ^ w) (hj : j < 2 ^ w) :
    a + BitVec.ofNat w i = a + BitVec.ofNat w j ↔ i = j := by
  rw [BitVec.add_right_inj, ← BitVec.toNat_inj, BitVec.toNat_ofNat, BitVec.toNat_ofNat,
    Nat.mod_eq_of_lt hi, Nat.mod_eq_of_lt hj]

theorem toInt_le_toNat (a : BitVec w) : a.toInt ≤ a.toNat := by
  rw [BitVec.toInt_eq_toNat_cond]
  split <;> omega

theorem toInt_eq_toNat {a : BitVec w} (h : 0 ≤ a.toInt) : a.toInt = a.toNat := by
  have ha := a.isLt
  rw [BitVec.toInt_eq_toNat_cond] at h ⊢
  split at h
  · rw [if_pos ‹_›]
  · omega

/-- The addresses from `base` on and below `bound`. -/
structure Region (w : ℕ) where
  base : BitVec w
  bound : BitVec w
  deriving DecidableEq

namespace Region

variable {r : Region w} {buf count : BitVec w}

/-- The address lies in the region. -/
def Holds (r : Region w) (a : BitVec w) : Prop := r.base ≤ a ∧ a < r.bound

/-- The range from `buf` to `buf + count`, without wrap-around, lies in the region. -/
def Encloses (r : Region w) (buf count : BitVec w) : Prop :=
  r.base.toNat ≤ buf.toNat ∧ buf.toNat + count.toNat < r.bound.toNat

instance (r : Region w) (a : BitVec w) : Decidable (r.Holds a) :=
  inferInstanceAs (Decidable (_ ∧ _))

instance (r : Region w) (buf count : BitVec w) : Decidable (r.Encloses buf count) :=
  inferInstanceAs (Decidable (_ ∧ _))

theorem Encloses.no_wrap (h : r.Encloses buf count) : buf.toNat + count.toNat < 2 ^ w := by
  have hbound := r.bound.isLt
  have hend := h.2
  omega

theorem Encloses.holds (h : r.Encloses buf count) {i : ℕ} (hi : i < count.toNat) :
    r.Holds (buf + BitVec.ofNat w i) := by
  obtain ⟨hbase, hend⟩ := h
  have hbound := r.bound.isLt
  have ha : (buf + BitVec.ofNat w i).toNat = buf.toNat + i := toNat_offset (by omega)
  constructor
  · rw [BitVec.le_def, ha]
    omega
  · rw [BitVec.lt_def, ha]
    omega

end Region

/-- The addresses touched are among `buf`, …, `buf + count - 1`. -/
def Among (buf count : BitVec w) (touched : List (BitVec w)) : Prop :=
  ∀ a ∈ touched, ∃ i, i < count.toNat ∧ a = buf + BitVec.ofNat w i

theorem Among.holds {r : Region w} {buf count : BitVec w} {touched : List (BitVec w)}
    (h : Among buf count touched) (henc : r.Encloses buf count) : ∀ a ∈ touched, r.Holds a := by
  intro a ha
  obtain ⟨i, hi, rfl⟩ := h a ha
  exact henc.holds hi

end Ranges
