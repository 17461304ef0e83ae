import Mathlib.Data.Nat.Cast.Basic
import Mathlib.Data.List.Infix

/-!
# Multiples of a period, and counters that wrap around

* `nextMultiple g n`: the first multiple of `g` after `n`;
* **`nextMultiple_eq_succ`**, **`nextMultiple_succ`**: it is reached exactly at the multiples of
  `g`, and moves on by `g` there;
* `ofNat_eq_iff`: two numbers less than one round apart have the same residue only when they are
  equal;
* `matchAfter g ts`: a match value that starts at `g` and moves on by `g` when it is equal to the
  time, after the times `ts`;
* **`mem_of_lt_matchAfter`**, **`Hits.lt_matchAfter`**: it stays ahead of increasing times exactly
  when they hit every multiple of `g`.
-/

namespace Periods

/-- The first multiple of `g` after `n`. -/
def nextMultiple (g n : ℕ) : ℕ := g * (n / g + 1)

variable {g n : ℕ}

theorem lt_nextMultiple (hg : 0 < g) : n < nextMultiple g n := by
  unfold nextMultiple
  exact Nat.lt_mul_div_succ n hg

theorem nextMultiple_le : nextMultiple g n ≤ n + g := by
  unfold nextMultiple
  have h := Nat.mul_div_le n g
  rw [Nat.mul_add, Nat.mul_one]
  omega

theorem nextMultiple_succ :
    nextMultiple g (n + 1) = if g ∣ n + 1 then nextMultiple g n + g else nextMultiple g n := by
  unfold nextMultiple
  rw [Nat.succ_div]
  split_ifs
  · rw [Nat.mul_add, Nat.mul_one]
  · rw [Nat.add_zero]

theorem nextMultiple_eq_succ : nextMultiple g n = n + 1 ↔ g ∣ n + 1 := by
  constructor
  · intro h
    rw [← h]
    exact Dvd.intro _ rfl
  · intro h
    unfold nextMultiple
    rw [← Nat.succ_div_of_dvd h]
    exact Nat.mul_div_cancel' h

theorem ofNat_eq_iff {w a b : ℕ} (hab : b ≤ a) (hlt : a < b + 2 ^ w) :
    BitVec.ofNat w a = BitVec.ofNat w b ↔ a = b := by
  constructor
  · intro h
    have hmod : a % 2 ^ w = b % 2 ^ w := by simpa using congrArg BitVec.toNat h
    have hzero := Nat.sub_mod_eq_zero_of_mod_eq hmod
    rw [Nat.mod_eq_of_lt (by omega)] at hzero
    omega
  · rintro rfl
    rfl

/-! ## Match values that move on at equality -/

/-- The match value after the times `ts`. -/
def matchAfter (g : ℕ) (ts : List ℕ) : ℕ := ts.foldl (fun m t => if m = t then m + g else m) g

/-- Every multiple of `g` up to the last time is one of the times. -/
def Hits (g : ℕ) (ts : List ℕ) : Prop := ∀ m, 0 < m → g ∣ m → (∃ t ∈ ts, m ≤ t) → m ∈ ts

variable {t m : ℕ} {ts : List ℕ}

theorem matchAfter_concat : matchAfter g (ts ++ [t]) =
    if matchAfter g ts = t then matchAfter g ts + g else matchAfter g ts := by
  unfold matchAfter
  rw [List.foldl_append]
  rfl

theorem matchAfter_le_concat : matchAfter g ts ≤ matchAfter g (ts ++ [t]) := by
  rw [matchAfter_concat]
  split_ifs <;> omega

theorem dvd_matchAfter : g ∣ matchAfter g ts := by
  induction ts using List.reverseRecOn with
  | nil => exact dvd_refl g
  | append_singleton ts t ih =>
    rw [matchAfter_concat]
    split_ifs
    · exact Nat.dvd_add ih (dvd_refl g)
    · exact ih

theorem le_matchAfter : g ≤ matchAfter g ts := by
  induction ts using List.reverseRecOn with
  | nil => exact le_rfl
  | append_singleton ts t ih => exact ih.trans matchAfter_le_concat

theorem mem_of_lt_matchAfter (hm : 0 < m) (hd : g ∣ m) (hlt : m < matchAfter g ts) : m ∈ ts := by
  induction ts using List.reverseRecOn with
  | nil => exact absurd (Nat.le_of_dvd hm hd) (Nat.not_le.mpr hlt)
  | append_singleton ts t ih =>
    rw [matchAfter_concat] at hlt
    split_ifs at hlt with h
    · rcases Nat.lt_or_ge m (matchAfter g ts) with hbelow | hge
      · exact List.mem_append_left _ (ih hbelow)
      · -- no multiple lies strictly between two match values
        have heq : m = t := by
          obtain ⟨k, hk⟩ := (Nat.dvd_sub hd dvd_matchAfter : g ∣ m - matchAfter g ts)
          have hzero : k = 0 := by
            by_contra hpos
            have := Nat.le_mul_of_pos_right g (Nat.pos_of_ne_zero hpos)
            omega
          rw [hzero, Nat.mul_zero] at hk
          omega
        simp [heq]
    · exact List.mem_append_left _ (ih hlt)

theorem Hits.mono {g' : ℕ} (h : Hits g ts) (hg : g ∣ g') : Hits g' ts :=
  fun m hm hd => h m hm (hg.trans hd)

theorem Hits.of_prefix {ts' : List ℕ} (h : Hits g ts') (hts : ts'.Pairwise (· < ·))
    (hp : ts <+: ts') : Hits g ts := by
  obtain ⟨rest, rfl⟩ := hp
  rintro m hm hd ⟨u, hu, hle⟩
  have hmem := h m hm hd ⟨u, List.mem_append_left _ hu, hle⟩
  rw [List.mem_append] at hmem
  rcases hmem with hmem | hmem
  · exact hmem
  · exact absurd ((List.pairwise_append.mp hts).2.2 u hu m hmem) (Nat.not_lt.mpr hle)

theorem Hits.matchAfter_eq_of_le (h : Hits g (ts ++ [t])) (hg : 0 < g)
    (hahead : ∀ u ∈ ts, u < matchAfter g ts) (hle : matchAfter g ts ≤ t) :
    matchAfter g ts = t := by
  have hmem := h _ (hg.trans_le le_matchAfter) dvd_matchAfter ⟨t, by simp, hle⟩
  rw [List.mem_append, List.mem_singleton] at hmem
  rcases hmem with hmem | heq
  · exact absurd (hahead _ hmem) (Nat.lt_irrefl _)
  · exact heq

/-- With every multiple hit the match value stays ahead of the times. -/
theorem Hits.lt_matchAfter (hg : 0 < g) (hts : ts.Pairwise (· < ·)) (h : Hits g ts) :
    ∀ u ∈ ts, u < matchAfter g ts := by
  induction ts using List.reverseRecOn with
  | nil => exact fun u hu => absurd hu List.not_mem_nil
  | append_singleton ts t ih =>
    have hinit := h.of_prefix hts (List.prefix_append _ _)
    rw [List.pairwise_append] at hts
    have hlt : ∀ u ∈ ts, u < t := fun u hu => hts.2.2 u hu t List.mem_cons_self
    have hahead := ih hts.1 hinit
    have hlast : t < matchAfter g (ts ++ [t]) := by
      rw [matchAfter_concat]
      split_ifs with heq
      · omega
      · by_contra hge
        exact heq (h.matchAfter_eq_of_le hg hahead (Nat.not_lt.mp hge))
    intro u hu
    rw [List.mem_append, List.mem_singleton] at hu
    rcases hu with hu | rfl
    · exact (hlt u hu).trans hlast
    · exact hlast

end Periods
