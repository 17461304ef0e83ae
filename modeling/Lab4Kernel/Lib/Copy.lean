import Mathlib.Data.List.Basic
import Mathlib.Logic.Function.Basic

/-!
# Copying cell by cell

A memory `A → V` is copied from the cells `s i` to the cells `d i`, for the indices `i` of a list in
their order. The cells may overlap.

* `copyAll`: the copy;
* `copyAll_other`: the cells that are no target keep their value;
* **`copyAll_eq`**: when no cell is written twice, and none is written before it is read, every
  target gets the value that its source had at the start.
-/

namespace Copy

variable {I A V : Type*} [DecidableEq A] (d s : I → A)

/-- One cell is copied. -/
def copyCell (mem : A → V) (i : I) : A → V := Function.update mem (d i) (mem (s i))

/-- The cells of a list of indices are copied one after the other. -/
def copyAll (is : List I) (mem : A → V) : A → V := is.foldl (copyCell d s) mem

variable {d s} {is : List I} {mem : A → V}

theorem copyAll_cons (i : I) :
    copyAll d s (i :: is) mem = copyAll d s is (copyCell d s mem i) := rfl

theorem copyAll_other {a : A} (ha : ∀ i ∈ is, a ≠ d i) : copyAll d s is mem a = mem a := by
  induction is generalizing mem with
  | nil => rfl
  | cons i is ih =>
    rw [copyAll_cons, ih fun j hj => ha j (List.mem_cons_of_mem _ hj)]
    exact Function.update_of_ne (ha i List.mem_cons_self) _ _

/-- **The targets hold what the sources held.** -/
theorem copyAll_eq (hwrite : is.Pairwise fun i j => d i ≠ d j)
    (hread : is.Pairwise fun i j => d i ≠ s j) :
    ∀ i ∈ is, copyAll d s is mem (d i) = mem (s i) := by
  induction is generalizing mem with
  | nil =>
    intro i hi
    cases hi
  | cons i is ih =>
    rw [List.pairwise_cons] at hwrite hread
    intro j hj
    rw [copyAll_cons]
    rcases List.mem_cons.mp hj with rfl | hj
    · rw [copyAll_other hwrite.1]
      exact Function.update_self _ _ _
    · rw [ih hwrite.2 hread.2 j hj]
      exact Function.update_of_ne (hread.1 j hj).symm _ _

end Copy
