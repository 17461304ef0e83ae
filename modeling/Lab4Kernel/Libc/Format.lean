import Lab4Kernel.Libc.Doprnt

/-!
# Formats and their output

Formats as data: literal characters and directives, with the text that writes them and the output
that they stand for.

* `Amount`, `Conv`, `Directive`, `Item`, and their text `chars`;
* `Layout`: the width, adjustment, padding and so on of one field; `field`, `textField`,
  `tidField`: how a field is laid out;
* `Conv.render`, `render`: the output.
-/

namespace Lab4Kernel

open Numeral

/-! ## Formats -/

/-- A flag. -/
inductive Flag where
  | alt
  | left
  | plus
  | blank
  deriving DecidableEq

/-- The character of a flag. -/
def Flag.char : Flag → Byte
  | .alt => chr '#'
  | .left => chr '-'
  | .plus => chr '+'
  | .blank => chr ' '

/-- A width or a precision: left out, in digits, or an argument. -/
inductive Amount where
  | absent
  | digits (d : Fin 10) (ds : List (Fin 10))
  | star

/-- The number that decimal digits make. -/
def decimal (ds : List (Fin 10)) : ℕ := value 10 (ds.map Fin.val)

/-- The characters of decimal digits. -/
def digitChars (ds : List (Fin 10)) : List Byte := ds.map fun d : Fin 10 => digitChar d.val

def Amount.chars : Amount → List Byte
  | .absent => []
  | .digits d ds => digitChars (d :: ds)
  | .star => [chr '*']

/-- A precision follows a point, which may stand alone. -/
def precChars : Option Amount → List Byte
  | none => []
  | some a => chr '.' :: a.chars

/-- An amount in digits is an `int`. -/
def Amount.Fits : Amount → Prop
  | .digits d ds => decimal (d :: ds) < 2 ^ 31
  | _ => True

theorem noPrec_fits : ∀ a ∈ (none : Option Amount), a.Fits := nofun

/-- The first digit is a zero. -/
def Amount.LeadsZero : Amount → Prop
  | .digits d _ => d.val = 0
  | _ => False

/-- The kinds of conversion. -/
inductive Conv where
  | bits
  | char
  | tid
  | string
  | octal
  | decimal
  | unsigned
  | pointer
  | hex
  | signedHex
  | radix
  | unsignedRadix
  | other
  deriving DecidableEq

/-- The letters of the conversions, the last kind apart. -/
def Conv.letters : Conv → List Byte
  | .bits => [chr 'b', chr 'B']
  | .char => [chr 'c']
  | .tid => [chr 't']
  | .string => [chr 's']
  | .octal => [chr 'o', chr 'O']
  | .decimal => [chr 'd', chr 'D']
  | .unsigned => [chr 'u', chr 'U']
  | .pointer => [chr 'p']
  | .hex => [chr 'x', chr 'X']
  | .signedHex => [chr 'z', chr 'Z']
  | .radix => [chr 'r', chr 'R']
  | .unsignedRadix => [chr 'n', chr 'N']
  | .other => []

/-- The characters that are read as a modifier in some place, and the zero. -/
def isModifier (c : Byte) : Bool :=
  isdigit c || [0, chr '#', chr '-', chr '+', chr ' ', chr '.', chr '*', chr 'l'].contains c

/-- `c` is a letter of the conversion. Any character that is no modifier and no letter prints
itself, `%` among them. -/
def Conv.HasLetter (k : Conv) (c : Byte) : Prop :=
  c ∈ k.letters ∨ k = .other ∧ isModifier c = false ∧ ∀ k' : Conv, c ∉ k'.letters

theorem decimal_letter : Conv.decimal.HasLetter (chr 'd') := Or.inl (by decide)

theorem hex_letter : Conv.hex.HasLetter (chr 'x') := Or.inl (by decide)

theorem string_letter : Conv.string.HasLetter (chr 's') := Or.inl (by decide)

/-- A directive. A width that begins with a zero has the zero flag before it. -/
structure Directive where
  flags : List Flag
  zero : Bool
  width : Amount
  prec : Option Amount
  longs : ℕ
  conv : Conv
  letter : Byte
  width_fits : width.Fits
  prec_fits : ∀ a ∈ prec, a.Fits
  zero_first : zero = false → ¬width.LeadsZero
  has_letter : conv.HasLetter letter

theorem zero_taken {P : Prop} (h : true = false) : P := Bool.noConfusion h

/-- A directive without modifiers. -/
def Directive.plain (k : Conv) (letter : Byte) (h : k.HasLetter letter) : Directive :=
  ⟨[], false, .absent, none, 0, k, letter, trivial, noPrec_fits, fun _ => id, h⟩

/-- A piece of a format. -/
inductive Item where
  | lit (c : Byte) (hc : c ≠ 0 ∧ c ≠ chr '%')
  | dir (d : Directive)

/-- The modifiers of a directive, before `rest`. -/
def Directive.modifiers (d : Directive) (rest : List Byte) : List Byte :=
  d.flags.map Flag.char ++ ((if d.zero then [chr '0'] else []) ++ (d.width.chars ++
    (precChars d.prec ++ (List.replicate d.longs (chr 'l') ++ rest))))

/-- The text of a format. -/
def formatChars : List Item → List Byte
  | [] => []
  | .lit c _ :: items => c :: formatChars items
  | .dir d :: items => chr '%' :: d.modifiers (d.letter :: formatChars items)

/-! ## Layout -/

/-- How a field is laid out. -/
structure Layout where
  width : ℕ
  left : Bool
  zero : Bool
  /-- The sign of numbers that are not negative. -/
  plus : List Byte
  alt : Bool
  longs : ℕ
  prec : ℤ
  width_lt : width < 2 ^ 31
  plus_eq : plus = [] ∨ plus = [chr '+'] ∨ plus = [chr ' ']

/-- The layout of the digits of `%p`. -/
def Layout.pointer (L : Layout) : Layout :=
  { L with zero := true, width := 8, width_lt := by decide }

def blanks (n : ℕ) : List Byte := List.replicate n (chr ' ')

def zeros (n : ℕ) : List Byte := List.replicate n (chr '0')

/-- The field of a number: `head` is its sign and its prefix. Zeros go between the head and the
digits, whatever the adjustment. -/
def Layout.field (L : Layout) (head digits : List Byte) : List Byte :=
  let pad := L.width - (head.length + digits.length)
  if L.zero then head ++ zeros pad ++ digits
  else if L.left then head ++ digits ++ blanks pad
  else blanks pad ++ head ++ digits

/-- How many characters of a string are printed at most. -/
def Layout.limit (L : Layout) : ℕ := if L.prec = -1 then 2 ^ 31 - 1 else L.prec.toNat

/-- The field of a string. On the left of its field, a string that the precision cuts short is
taken to be one character longer than what is printed. -/
def Layout.textField (L : Layout) (s : List Byte) : List Byte :=
  let text := s.take L.limit
  if L.left then
    text ++ blanks (L.width - (text.length + if L.limit < s.length then 1 else 0))
  else blanks (L.width - text.length) ++ text

/-- The brackets of `%#t`. -/
def Layout.bracket (L : Layout) (text : List Byte) : List Byte :=
  if L.alt then [chr '['] ++ text ++ [chr ']'] else text

/-- The field of a thread id in two words. -/
def Layout.tidLongField (L : Layout) (high low : Word) : List Byte :=
  let word (w : Word) := zeros (8 - (numerals 16 w.toNat).length) ++ numerals 16 w.toNat
  let text := L.bracket (word high ++ [chr ':'] ++ word low)
  if L.left then text ++ blanks (L.width - text.length)
  else blanks (L.width - text.length) ++ text

/-- The field of a thread id, `task.thread`. The thread is padded to two characters at most, and the
rest of the padding goes before the task. -/
def Layout.tidField (L : Layout) (high : Word) : List Byte :=
  let task := numerals 16 (tidTask high).toNat
  let thread := numerals 16 (tidLthread high).toNat
  let room := L.width - (L.bracket (task ++ [chr '.'] ++ thread)).length
  let inner := min room (2 - thread.length)
  if L.left then L.bracket (task ++ [chr '.'] ++ thread) ++ blanks room
  else if L.zero then
    L.bracket (zeros (room - inner) ++ task ++ [chr '.'] ++ zeros inner ++ thread)
  else blanks (room - inner) ++ L.bracket (task ++ [chr '.'] ++ blanks inner ++ thread)

/-! ## Output -/

/-- The characters of a number, where they are defined and fit the buffer. -/
def baseDigits (base : ℤ) (n : ℕ) : Option (List Byte) :=
  if 1 < base ∧ base ≤ 16 ∧ (numeral base.toNat n).length ≤ maxbuf then
    some (numerals base.toNat n) else none

/-- The prefix of the alternate form. -/
def Layout.altPrefix (L : Layout) (base : ℤ) (n : ℕ) : List Byte :=
  if L.alt ∧ n ≠ 0 then
    if base = 8 then [chr '0'] else if base = 16 then [chr '0', chr 'x'] else []
  else []

def Layout.renderUnsigned (L : Layout) (base : ℤ) (n : ℕ) : Option (List Byte) :=
  (baseDigits base n).map (L.field (L.altPrefix base n))

def Layout.renderSigned (L : Layout) (base n : ℤ) : Option (List Byte) :=
  (baseDigits base n.natAbs).map
    (L.field ((if n < 0 then [chr '-'] else L.plus) ++ L.altPrefix base n.natAbs))

/-- The bits of a number argument: a word, or two with `ll`. -/
def takeNumber (longs : ℕ) : VaList → Option ((Σ w, BitVec w) × VaList)
  | .long w :: args => if longs ≤ 1 then some (⟨32, w⟩, args) else none
  | .longLong w :: args => if longs ≤ 1 then none else some (⟨64, w⟩, args)
  | _ => none

/-- The number that is taken as an argument is printed by `out`. -/
def Layout.number (L : Layout) (out : (Σ w, BitVec w) → Option (List Byte)) (args : VaList) :
    Option (List Byte × VaList) :=
  (takeNumber L.longs args).bind fun (n, args) => (out n).map fun o => (o, args)

/-- The output of a conversion, and the arguments left. -/
def Conv.render (radix : ℤ) (L : Layout) (letter : Byte) (k : Conv) (args : VaList) :
    Option (List Byte × VaList) :=
  match k with
  | .bits =>
    match args with
    | .long u :: .string (some p) :: args => (printBits u p).map (·, args)
    | _ => none
  | .char =>
    match args with
    | .long w :: args => some ([w.setWidth 8], args)
    | _ => none
  | .tid =>
    match args with
    | .tid high low :: args =>
      some (if L.longs = 0 then L.tidField high else L.tidLongField high low, args)
    | _ => none
  | .string =>
    match args with
    | .string s :: args => some (L.textField ((s.getD []).takeWhile (· ≠ 0)), args)
    | _ => none
  | .octal => L.number (fun n => L.renderUnsigned 8 n.2.toNat) args
  | .decimal => L.number (fun n => L.renderSigned 10 n.2.toInt) args
  | .unsigned => L.number (fun n => L.renderUnsigned 10 n.2.toNat) args
  | .pointer =>
    (L.number (fun n => L.pointer.renderUnsigned 16 n.2.toNat) args).map fun (out, args) =>
      (chr '0' :: chr 'x' :: out, args)
  | .hex => L.number (fun n => L.renderUnsigned 16 n.2.toNat) args
  | .signedHex => L.number (fun n => L.renderSigned 16 n.2.toInt) args
  | .radix => L.number (fun n => L.renderSigned radix n.2.toInt) args
  | .unsignedRadix => L.number (fun n => L.renderUnsigned radix n.2.toNat) args
  | .other => some ([letter], args)

/-- The value of an amount, and the arguments left. -/
def Amount.take : Amount → VaList → Option (Option ℤ × VaList)
  | .absent, args => some (none, args)
  | .digits d ds, args => some (some (decimal (d :: ds)), args)
  | .star, .long w :: args => some (some w.toInt, args)
  | .star, _ => none

/-- The layout of a directive, once its amounts are known. A negative width changes sides. -/
def Directive.layout (d : Directive) (width prec : ℤ) (h : width.natAbs < 2 ^ 31) : Layout where
  width := width.natAbs
  left := (d.flags.contains .left) != (decide (width < 0))
  zero := d.zero
  plus := if d.flags.contains .plus then [chr '+'] else
    if d.flags.contains .blank then [chr ' '] else []
  alt := d.flags.contains .alt
  longs := d.longs
  prec := prec
  width_lt := h
  plus_eq := by
    split_ifs
    · exact Or.inr (Or.inl rfl)
    · exact Or.inr (Or.inr rfl)
    · exact Or.inl rfl

/-- The layout of a directive, and the arguments left. The width `INT_MIN` has no opposite. -/
def Directive.take (d : Directive) (args : VaList) : Option (Layout × VaList) :=
  (d.width.take args).bind fun (width, args) =>
    ((d.prec.getD .absent).take args).bind fun (prec, args) =>
      if h : (width.getD 0).natAbs < 2 ^ 31 then
        some (d.layout (width.getD 0) (prec.getD (-1)) h, args)
      else none

/-- The output of a format. -/
def render (radix : ℤ) : List Item → VaList → Option (List Byte)
  | [], _ => some []
  | .lit c _ :: items, args => (render radix items args).map (c :: ·)
  | .dir d :: items, args =>
    (d.take args).bind fun (L, args) =>
      (d.conv.render radix L d.letter args).bind fun (out, args) =>
        (render radix items args).map (out ++ ·)

end Lab4Kernel
