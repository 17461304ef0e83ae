import Mathlib.Data.Nat.Digits.Lemmas

/-!
# Numerals

A number in a base, as the list of its digits with the first one first. Zero has one digit.

* `numeral`, with its recursion `numeral_of_lt`, `numeral_of_le`;
* `value`, read from the left with an accumulator: **`value_numeral`**, and leading zeros change
  nothing, `value_replicate_append`;
* `numeral_lt`, `length_numeral_le`: the digits are below the base, and how many there are;
* `scan`, **`scan_append`**: characters that are read as digits into a machine word.
-/

namespace Numeral

/-- The digits of `n`, the first one first. -/
def numeral (b n : ℕ) : List ℕ :=
  if n = 0 then [0] else (Nat.digits b n).reverse

/-- The number that the digits make, read on from `v`. -/
def valueFrom (b v : ℕ) (ds : List ℕ) : ℕ := ds.foldl (fun v d => v * b + d) v

/-- The number that the digits make. -/
def value (b : ℕ) (ds : List ℕ) : ℕ := valueFrom b 0 ds

variable {b n : ℕ}

/-! ## The digits -/

theorem numeral_of_lt (h : n < b) : numeral b n = [n] := by
  unfold numeral
  split_ifs with hz
  · rw [hz]
  · rw [Nat.digits_of_lt b n hz h, List.reverse_singleton]

theorem numeral_of_le (hb : 1 < b) (h : b ≤ n) :
    numeral b n = numeral b (n / b) ++ [n % b] := by
  have hn : n ≠ 0 := by omega
  have hq : n / b ≠ 0 := (Nat.div_pos h (by omega)).ne'
  unfold numeral
  rw [if_neg hn, if_neg hq, Nat.digits_eq_cons_digits_div hb hn, List.reverse_cons]

theorem numeral_ne_nil (b n : ℕ) : numeral b n ≠ [] := by
  unfold numeral
  split_ifs with hz
  · exact List.cons_ne_nil _ _
  · rw [ne_eq, List.reverse_eq_nil_iff]
    exact Nat.digits_ne_nil_iff_ne_zero.mpr hz

theorem length_numeral_pos (b n : ℕ) : 0 < (numeral b n).length :=
  List.length_pos_iff.mpr (numeral_ne_nil b n)

theorem numeral_lt (hb : 1 < b) : ∀ d ∈ numeral b n, d < b := by
  intro d hd
  unfold numeral at hd
  split_ifs at hd
  · rw [List.mem_singleton.mp hd]
    omega
  · exact Nat.digits_lt_base hb (List.mem_reverse.mp hd)

theorem length_numeral_le {k : ℕ} (hb : 1 < b) (hk : 0 < k) (h : n < b ^ k) :
    (numeral b n).length ≤ k := by
  unfold numeral
  split_ifs
  · exact hk
  · rw [List.length_reverse]
    exact (Nat.digits_length_le_iff hb n).mpr h

theorem head_numeral_ne_zero (hn : n ≠ 0) : (numeral b n).head (numeral_ne_nil b n) ≠ 0 := by
  have hlast := Nat.getLast_digit_ne_zero b hn
  unfold numeral
  simp only [if_neg hn, List.head_reverse]
  exact hlast

/-! ## Reading them -/

theorem valueFrom_append (v : ℕ) (ds es : List ℕ) :
    valueFrom b v (ds ++ es) = valueFrom b (valueFrom b v ds) es :=
  List.foldl_append

theorem le_valueFrom (hb : 0 < b) (v : ℕ) (ds : List ℕ) : v ≤ valueFrom b v ds := by
  induction ds generalizing v with
  | nil => exact le_refl v
  | cons d ds ih =>
    have hstep : v ≤ v * b + d := (Nat.le_mul_of_pos_right v hb).trans (Nat.le_add_right _ d)
    exact hstep.trans (ih _)

theorem value_append_singleton (ds : List ℕ) (d : ℕ) :
    value b (ds ++ [d]) = value b ds * b + d :=
  valueFrom_append 0 ds [d]

theorem value_replicate_append (k : ℕ) (ds : List ℕ) :
    value b (List.replicate k 0 ++ ds) = value b ds := by
  induction k with
  | zero => rfl
  | succ k ih =>
    rw [List.replicate_succ, List.cons_append]
    unfold value valueFrom at ih ⊢
    rw [List.foldl_cons, Nat.zero_mul, Nat.add_zero, ih]

/-- **A numeral reads back.** -/
theorem value_numeral (hb : 1 < b) (n : ℕ) : value b (numeral b n) = n := by
  induction n using Nat.strong_induction_on with
  | _ n ih =>
    by_cases hlt : n < b
    · rw [numeral_of_lt hlt]
      show 0 * b + n = n
      omega
    · have hdiv : n / b < n := Nat.div_lt_self (by omega) hb
      rw [numeral_of_le hb (not_lt.mp hlt), value_append_singleton, ih _ hdiv, Nat.mul_comm]
      exact Nat.div_add_mod n b

/-! ## Reading them into a word -/

section Scan

variable {C : Type*} {w : ℕ} (digit : C → Option ℕ)

/-- The characters that are digits are added to `v`, up to the first one that is none. -/
def scan (base : BitVec w) : List C → BitVec w → BitVec w × List C
  | [], v => (v, [])
  | c :: cs, v =>
    match digit c with
    | some d => scan base cs (v * base + BitVec.ofNat w d)
    | none => (v, c :: cs)

/-- What follows is no digit. -/
def EndsScan (cs : List C) : Prop := ∀ c ∈ cs.head?, digit c = none

variable {digit}

theorem scan_of_ends {base v : BitVec w} {cs : List C} (h : EndsScan digit cs) :
    scan digit base cs v = (v, cs) := by
  cases cs with
  | nil => rfl
  | cons c cs =>
    rw [scan, h c rfl]

/-- **The digits are read as the number that they make, modulo `2 ^ w`.** -/
theorem scan_append {cs rest : List C} {ds : List ℕ} (hcs : cs.map digit = ds.map some)
    (hrest : EndsScan digit rest) (v : ℕ) :
    scan digit (BitVec.ofNat w b) (cs ++ rest) (BitVec.ofNat w v) =
      (BitVec.ofNat w (valueFrom b v ds), rest) := by
  induction cs generalizing ds v with
  | nil =>
    rw [List.map_nil, eq_comm, List.map_eq_nil_iff] at hcs
    rw [hcs]
    exact scan_of_ends hrest
  | cons c cs ih =>
    cases ds with
    | nil => cases hcs
    | cons d ds =>
      rw [List.map_cons, List.map_cons, List.cons.injEq] at hcs
      rw [List.cons_append, scan, hcs.1]
      show scan digit _ (cs ++ rest)
        (BitVec.ofNat w v * BitVec.ofNat w b + BitVec.ofNat w d) = _
      rw [← BitVec.ofNat_mul, ← BitVec.ofNat_add, ih hcs.2]
      rfl

end Scan

end Numeral
