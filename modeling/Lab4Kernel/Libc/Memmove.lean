import Lab4Kernel.Kernel.Io
import Lab4Kernel.Lib.Copy
import Lab4Kernel.Lib.Ranges

/-!
# `memmove`

`tasks/libc/string/memmove.c`. The ranges may overlap: the copy goes up when the destination is
below the source, and down otherwise.

* `memmove`, `memcpy`, with the loops `copyUp` and `copyDown`;
* `copyUp_eq`, `copyDown_eq`: the loops copy cell by cell, in the order of their indices;
* **`memmove_copies`**: the destination gets the bytes that the source had before the call, and no
  other byte changes.
-/

namespace Lab4Kernel

open Copy Ranges

/-- `p[i]`. -/
def cell (p : Word) (i : ℕ) : Word := p + BitVec.ofNat 32 i

/-- `for (i = 0; i != count; i++) d[i] = s[i];`, with `n` iterations left at index `i`. -/
def copyUp (d s : Word) : ℕ → ℕ → Memory → Memory
  | 0, _, mem => mem
  | n + 1, i, mem => copyUp d s n (i + 1) (Function.update mem (cell d i) (mem (cell s i)))

/-- `for (i = count; i != 0; i--) d[i-1] = s[i-1];`. -/
def copyDown (d s : Word) : ℕ → Memory → Memory
  | 0, mem => mem
  | i + 1, mem => copyDown d s i (Function.update mem (cell d i) (mem (cell s i)))

/-- `memmove`, with the pointer it returns. -/
def memmove (dest src count : Word) (mem : Memory) : Word × Memory :=
  if dest < src then (dest, copyUp dest src count.toNat 0 mem)
  else (dest, copyDown dest src count.toNat mem)

/-- `memcpy`. -/
def memcpy (dest src count : Word) (mem : Memory) : Word × Memory := memmove dest src count mem

variable {d s dest src count : Word}

theorem copyUp_eq (n i : ℕ) (mem : Memory) :
    copyUp d s n i mem = copyAll (cell d) (cell s) (List.range' i n) mem := by
  induction n generalizing i mem with
  | zero => rfl
  | succ n ih =>
    rw [List.range'_succ, copyAll_cons, ← ih]
    rfl

theorem copyDown_eq (n : ℕ) (mem : Memory) :
    copyDown d s n mem = copyAll (cell d) (cell s) (List.range n).reverse mem := by
  induction n generalizing mem with
  | zero => rfl
  | succ n ih =>
    rw [List.range_succ, List.reverse_concat, copyAll_cons, ← ih]
    rfl

theorem toNat_cell {p : Word} {n i : ℕ} (hp : p.toNat + n ≤ 2 ^ 32) (hi : i < n) :
    (cell p i).toNat = p.toNat + i :=
  toNat_offset (by omega)

theorem cell_ne {p q : Word} {n i j : ℕ} (hp : p.toNat + n ≤ 2 ^ 32) (hq : q.toNat + n ≤ 2 ^ 32)
    (hi : i < n) (hj : j < n) (hne : p.toNat + i ≠ q.toNat + j) : cell p i ≠ cell q j := by
  intro he
  apply hne
  rw [← toNat_cell hp hi, ← toNat_cell hq hj, he]

/-- The bytes of `[dest, dest + count)` are those that `[src, src + count)` had, and the others are
as they were. -/
def Copied (dest src count : Word) (mem mem' : Memory) : Prop :=
  (∀ i, i < count.toNat → mem' (cell dest i) = mem (cell src i)) ∧
    ∀ a, (∀ i, i < count.toNat → a ≠ cell dest i) → mem' a = mem a

/-- A copy in an order that writes no byte of the source before it was read. -/
theorem copied_of_order {is : List ℕ} {mem : Memory} (hd : dest.toNat + count.toNat ≤ 2 ^ 32)
    (hs : src.toNat + count.toNat ≤ 2 ^ 32) (hmem : ∀ i, i ∈ is ↔ i < count.toNat)
    (hwrite : is.Pairwise (· ≠ ·))
    (hread : is.Pairwise fun i j => dest.toNat + i ≠ src.toNat + j) :
    Copied dest src count mem (copyAll (cell dest) (cell src) is mem) := by
  constructor
  · intro i hi
    apply copyAll_eq
    · refine hwrite.imp_of_mem fun hi hj hne => ?_
      exact cell_ne hd hd ((hmem _).mp hi) ((hmem _).mp hj) (by omega)
    · refine hread.imp_of_mem fun hi hj hne => ?_
      exact cell_ne hd hs ((hmem _).mp hi) ((hmem _).mp hj) hne
    · exact (hmem i).mpr hi
  · intro a ha
    exact copyAll_other fun i hi => ha i ((hmem i).mp hi)

/-- **`memmove` and `memcpy` copy**, however the two ranges overlap. -/
theorem memmove_copies (dest src count : Word) (mem : Memory)
    (hd : dest.toNat + count.toNat ≤ 2 ^ 32) (hs : src.toNat + count.toNat ≤ 2 ^ 32) :
    Copied dest src count mem (memmove dest src count mem).2 ∧
      Copied dest src count mem (memcpy dest src count mem).2 := by
  have hmove : Copied dest src count mem (memmove dest src count mem).2 := by
    unfold memmove
    by_cases hlt : dest < src
    · rw [if_pos hlt]
      rw [BitVec.lt_def] at hlt
      show Copied dest src count mem (copyUp dest src count.toNat 0 mem)
      rw [copyUp_eq, ← List.range_eq_range']
      apply copied_of_order hd hs (fun i => List.mem_range)
      · exact List.pairwise_lt_range.imp fun h => by omega
      · -- going up, a byte is written below all those still to be read
        exact List.pairwise_lt_range.imp fun h => by omega
    · rw [if_neg hlt]
      rw [BitVec.not_lt, BitVec.le_def] at hlt
      show Copied dest src count mem (copyDown dest src count.toNat mem)
      rw [copyDown_eq]
      apply copied_of_order hd hs (fun i => by rw [List.mem_reverse, List.mem_range])
      · exact List.pairwise_reverse.mpr (List.pairwise_lt_range.imp fun h => by omega)
      · -- going down, it is written above them, or onto itself
        exact List.pairwise_reverse.mpr (List.pairwise_lt_range.imp fun h => by omega)
  exact ⟨hmove, hmove⟩

/-- Three bytes moved up by one, onto two of themselves. -/
theorem memmove_copies_overlap :
    Copied 1 0 3 (BitVec.setWidth 8) (memmove 1 0 3 (BitVec.setWidth 8)).2 ∧
      Copied 1 0 3 (BitVec.setWidth 8) (memcpy 1 0 3 (BitVec.setWidth 8)).2 :=
  memmove_copies 1 0 3 (BitVec.setWidth 8) (by decide) (by decide)

end Lab4Kernel
