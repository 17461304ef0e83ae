import Lab4Kernel.Kernel.State
import Mathlib.Data.Finite.Prod
import Mathlib.Dynamics.PeriodicPts.Lemmas

/-!
# Random numbers

`tasks/libc/stdlib/rand.c`.

* `srand`, `rand`, with the two words of the seed;
* `unstep`: the seed before a call, from the one after it;
* **`rand_periodic`**: from every seed, some number of calls leads back to it, the numbers come
  round again, and none is negative.
-/

namespace Lab4Kernel

/-- `seed`. -/
abbrev Seed : Type := Word × Word

/-- `srand`. -/
def srand (newSeed : Word) : Seed := (newSeed, newSeed)

/-- `rand`, with the seed that it leaves. -/
def rand (seed : Seed) : ℤ × Seed :=
  let seed0 := seed.1 + 0xa859c317
  let seed0 := seed0 + (seed.2 <<< 13 ||| seed.2 >>> 19)
  let seed1 := seed.2 + seed0
  ((seed0 &&& 0x7fffffff).toInt, (seed0, seed1))

/-- The seed after `k` calls. -/
def seedAfter (seed : Seed) (k : ℕ) : Seed := (fun s => (rand s).2)^[k] seed

/-- The number that the `k`-th call returns, counted from zero. -/
def randNumber (seed : Seed) (k : ℕ) : ℤ := (rand (seedAfter seed k)).1

/-- The seed before a call. -/
def unstep (seed : Seed) : Seed :=
  let seed1 := seed.2 - seed.1
  (seed.1 - (seed1 <<< 13 ||| seed1 >>> 19) - 0xa859c317, seed1)

theorem unstep_rand (seed : Seed) : unstep (rand seed).2 = seed := by
  obtain ⟨seed0, seed1⟩ := seed
  unfold rand unstep
  dsimp only
  rw [BitVec.add_sub_cancel, BitVec.add_sub_cancel, BitVec.add_sub_cancel]

theorem toInt_and_nonneg (x : Word) : 0 ≤ (x &&& 0x7fffffff).toInt := by
  have hle : (x &&& 0x7fffffff).toNat ≤ 0x7fffffff := by
    rw [BitVec.toNat_and]
    exact Nat.and_le_right
  rw [BitVec.toInt_eq_toNat_of_lt (by omega)]
  exact Int.natCast_nonneg _

instance : Finite Seed :=
  Finite.of_injective (fun s => (s.1.toFin, s.2.toFin)) fun s s' h => by
    rw [Prod.mk.injEq] at h
    exact Prod.ext (BitVec.eq_of_toFin_eq h.1) (BitVec.eq_of_toFin_eq h.2)

theorem seedAfter_periodic (seed : Seed) :
    ∃ n > 0, ∀ k, seedAfter seed (k + n) = seedAfter seed k := by
  have hinj : Function.Injective fun s : Seed => (rand s).2 :=
    Function.LeftInverse.injective unstep_rand
  obtain ⟨n, hn, hper⟩ := Function.mem_periodicPts.mp (hinj.mem_periodicPts seed)
  refine ⟨n, hn, fun k => ?_⟩
  unfold seedAfter
  rw [Function.iterate_add_apply, hper.eq]

/-- **The random numbers are a cycle.** From every seed, some number of calls leads back to the
seed, so that the numbers come round again from the first one on; none of them is negative. -/
theorem rand_periodic (newSeed : Word) :
    (∃ n > 0, seedAfter (srand newSeed) n = srand newSeed ∧
      ∀ k, randNumber (srand newSeed) (k + n) = randNumber (srand newSeed) k) ∧
      ∀ k, 0 ≤ randNumber (srand newSeed) k := by
  obtain ⟨n, hn, hper⟩ := seedAfter_periodic (srand newSeed)
  have hback : seedAfter (srand newSeed) n = srand newSeed := by
    rw [← Nat.zero_add n, hper]
    rfl
  refine ⟨⟨n, hn, hback, fun k => ?_⟩, fun k => toInt_and_nonneg _⟩
  unfold randNumber
  rw [hper]

end Lab4Kernel
