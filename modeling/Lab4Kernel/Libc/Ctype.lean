import Lab4Kernel.Kernel.Io
import Lab4Kernel.Lib.Numeral

/-!
# Characters

The classes of `ctype.h` that the library uses, the digit characters, and `int` arithmetic. `char`
is unsigned, as the tasks are compiled.

* `chr`, `isdigit`, `isspace`, `isgraph`;
* `digs`, `digitChar`: the digits that are printed, and `numerals`, those of a number;
* `wrap`: the result of `int` arithmetic.
-/

namespace Lab4Kernel

open Numeral

/-- A character constant. -/
def chr (c : Char) : Byte := BitVec.ofNat 8 c.toNat

/-- `isdigit`. -/
def isdigit (c : Byte) : Bool := chr '0' ≤ c && c ≤ chr '9'

/-- `isspace`. -/
def isspace (c : Byte) : Bool :=
  c = chr ' ' || c = 12 || c = chr '\n' || c = chr '\r' || c = chr '\t' || c = 11

/-- `isgraph`. -/
def isgraph (c : Byte) : Bool := chr ' ' < c && c ≤ 126

/-- What `int` arithmetic makes of a result: it keeps 32 bits, in two's complement. -/
def wrap (x : ℤ) : ℤ := x.bmod (2 ^ 32)

theorem wrap_eq {x : ℤ} (hlo : -2 ^ 31 ≤ x) (hhi : x < 2 ^ 31) : wrap x = x := by
  apply Int.bmod_eq_of_le_mul_two <;> push_cast <;> omega

/-- `digs`, and `digits` of `_doprnt`, with the zero that ends them. -/
def digs : List Byte :=
  ['0', '1', '2', '3', '4', '5', '6', '7', '8', '9', 'a', 'b', 'c', 'd', 'e', 'f'].map chr ++ [0]

/-- The character of a digit. -/
def digitChar (d : ℕ) : Byte := digs.getD d 0

/-- The characters of a number. -/
def numerals (b n : ℕ) : List Byte := (numeral b n).map digitChar

theorem digs_get {d : ℕ} (h : d < 16) : digs[d]? = some (digitChar d) := by
  revert d
  decide

theorem toNat_digitChar {d : ℕ} (h : d < 10) : (digitChar d).toNat = 48 + d := by
  revert d
  decide

theorem isdigit_digitChar {d : ℕ} (h : d < 10) : isdigit (digitChar d) = true := by
  revert d
  decide

theorem length_numerals (b n : ℕ) : (numerals b n).length = (numeral b n).length :=
  List.length_map _

end Lab4Kernel
