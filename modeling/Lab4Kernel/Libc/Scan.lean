import Lab4Kernel.Libc.Ctype

/-!
# `strtol`, `strtoul`, `atol` and `_doscan`

`tasks/libc/stdlib/` and `tasks/libc/stdio/doscan.c`. A string is the list of its characters before
the zero that ends it, and a pointer into it the list of those that are left. Numbers are words.

* `strtoDigit`, `skipPrefix`, `strtol`, `strtoul`, `atol`;
* `scanNumber`, `scanWord`, `doscanLoop`, `doscan`.
-/

namespace Lab4Kernel

open Numeral

/-! ## `strtol` -/

/-- The digit that a character is in a base. -/
def strtoDigit (base : ℤ) (c : Byte) : Option ℕ :=
  if chr '0' ≤ c ∧ c ≤ chr '9' ∧ (c.toNat : ℤ) - (chr '0').toNat < base then
    some (c.toNat - (chr '0').toNat)
  else if chr 'a' ≤ c ∧ c ≤ chr 'z' ∧ (c.toNat : ℤ) - (chr 'a').toNat + 10 < base then
    some (c.toNat - (chr 'a').toNat + 10)
  else if chr 'A' ≤ c ∧ c ≤ chr 'Z' ∧ (c.toNat : ℤ) - (chr 'A').toNat + 10 < base then
    some (c.toNat - (chr 'A').toNat + 10)
  else none

/-- The prefix and the base that it selects. -/
def skipPrefix (base : ℤ) (p : List Byte) : ℤ × List Byte :=
  let (base, p) :=
    if (base = 16 ∨ base = 0) ∧ p.headD 0 = chr '0' ∧
        (p.tail.headD 0 = chr 'x' ∨ p.tail.headD 0 = chr 'X') then (16, p.tail.tail)
    else (base, p)
  (if base = 0 then if p.headD 0 = chr '0' then 8 else 10 else base, p)

/-- `strtoul`, with the pointer stored in `*out_p`. -/
def strtoul (p : List Byte) (base : ℤ) : Word × List Byte :=
  let (base, p) := skipPrefix base (p.dropWhile isspace)
  scan (strtoDigit base) (BitVec.ofInt 32 base) p 0

/-- `strtol`, with the pointer stored in `*out_p`. A `+` is not skipped. -/
def strtol (p : List Byte) (base : ℤ) : Word × List Byte :=
  let p := p.dropWhile isspace
  let (isNeg, p) := if p.headD 0 = chr '-' then (true, p.tail) else (false, p)
  let (base, p) := skipPrefix base p
  let (v, p) := scan (strtoDigit base) (BitVec.ofInt 32 base) p 0
  (if isNeg then -v else v, p)

/-- The digit that a character is for `isdigit`. -/
def decDigit (c : Byte) : Option ℕ :=
  if isdigit c then some (c.toNat - (chr '0').toNat) else none

/-- `atol`. -/
def atol (str : List Byte) : Word := (scan decDigit 10 str 0).1

/-! ## `_doscan` -/

/-- What is stored through a pointer argument. -/
inductive Stored where
  | int (n : Word)
  | chars (s : List Byte)
  deriving DecidableEq

/-- The digit that a character is for `%x`. -/
def hexDigit (c : Byte) : Option ℕ :=
  if chr '0' ≤ c ∧ c ≤ chr '9' then some (c.toNat - (chr '0').toNat)
  else if chr 'a' ≤ c ∧ c ≤ chr 'f' then some (c.toNat - (chr 'a').toNat + 10)
  else if chr 'A' ≤ c ∧ c ≤ chr 'F' then some (c.toNat - (chr 'A').toNat + 10)
  else none

/-- A number of `%d` or `%x`. The character that ends it is put back. -/
def scanNumber (digit : Byte → Option ℕ) (base : Word) (inp : List Byte) : Word × List Byte :=
  let (neg, inp) := if inp.headD 0 = chr '-' then (true, inp.tail) else (false, inp)
  let (n, inp) := scan digit base inp 0
  (if neg then -n else n, inp)

/-- The characters of `%s`. The zero that ends the input is no space: the loop takes it for a
character, and reads behind it. -/
def scanWord : List Byte → Option (List Byte × List Byte)
  | [] => none
  | c :: inp =>
    if isspace c then some ([], c :: inp) else (scanWord inp).map fun (s, inp) => (c :: s, inp)

/-- A value that is stored unless it is discarded. -/
def keepUnless (discard : Bool) (v : Stored) (r : ℕ × List Stored) : ℕ × List Stored :=
  if discard then r else (r.1, v :: r.2)

/-- The loop of `_doscan`. `pending` is `discard`, between `%` and the letter of a conversion. The
result is the count returned and what was stored, and `none` where a string is read past its end. -/
def doscanLoop : List Byte → Option Bool → List Byte → ℕ → Option (ℕ × List Stored)
  | [], none, _, vals => some (vals, [])
  | [], some _, _, _ => none
  | c :: fmt, none, inp, vals =>
    if c = 0 then some (vals, [])
    else if c ≠ chr '%' then
      if isspace c then doscanLoop fmt none (inp.dropWhile isspace) vals
      else if c = inp.headD 0 then doscanLoop fmt none inp.tail vals
      else some (vals, [])
    else doscanLoop fmt (some false) inp vals
  | c :: fmt, some discard, inp, vals =>
    let vals' := if discard then vals else vals + 1
    if c = chr 'd' then
      let (n, inp) := scanNumber decDigit 10 inp
      (doscanLoop fmt none inp vals').map (keepUnless discard (.int n))
    else if c = chr 'x' then
      let (n, inp) := scanNumber hexDigit 16 inp
      (doscanLoop fmt none inp vals').map (keepUnless discard (.int n))
    else if c = chr 's' then
      (scanWord inp).bind fun (s, inp) =>
        (doscanLoop fmt none inp vals').map (keepUnless discard (.chars s))
    else if c = chr '*' then doscanLoop fmt (some true) inp vals
    else doscanLoop fmt none inp vals'

/-- `_doscan`, on the input that `getc` reads. -/
def doscan (fmt inp : List Byte) : Option (ℕ × List Stored) := doscanLoop fmt none inp 0

end Lab4Kernel
