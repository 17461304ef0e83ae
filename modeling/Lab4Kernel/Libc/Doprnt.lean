import Lab4Kernel.Libc.Ctype

/-!
# `_doprnt`

`tasks/libc/stdio/doprnt.c`. A string is the list of its characters before the zero that ends it.
The output is the list of the characters given to `putc`; it is `none` where the behaviour is
undefined: `va_arg` of another type, a number longer than its buffer, a division by zero, a shift
by a negative amount or by more than 31 bits, a read past the end of a string.

* `parseFlags`, `parseWidth`, `parsePrec`, `parseSpec`: the modifiers of a conversion;
* `printNum`, `printSigned`, `printUnsigned`, `printString`, `printBits`, `printTid`;
* `convert`, `doprntLoop`, `doprnt`: the switch, the loop and the function.
-/

namespace Lab4Kernel

/-- What the caller passes: a number of 32 bits, one of 64 bits, a string or `NULL`, and the two
words of a thread id. -/
inductive Arg where
  | long (w : Word)
  | longLong (w : BitVec 64)
  | string (s : Option (List Byte))
  | tid (high low : Word)
  deriving DecidableEq

/-- `va_list`. -/
abbrev VaList : Type := List Arg

/-- `va_arg(args, long)`. -/
def vaLong : VaList → Option (Word × VaList)
  | .long w :: args => some (w, args)
  | _ => none

/-- `va_arg(args, long long)`. -/
def vaLongLong : VaList → Option (BitVec 64 × VaList)
  | .longLong w :: args => some (w, args)
  | _ => none

/-- `va_arg(args, char *)`. -/
def vaString : VaList → Option (Option (List Byte) × VaList)
  | .string s :: args => some (s, args)
  | _ => none

/-- `va_arg(args, union tid_t)`. -/
def vaTid : VaList → Option ((Word × Word) × VaList)
  | .tid high low :: args => some ((high, low), args)
  | _ => none

/-- `*p`. -/
def peek (p : List Byte) : Byte := p.headD 0

/-- The local variables that the modifiers set. A `plus_sign` of `0` is none. -/
structure Locals where
  length : ℤ := 0
  prec : ℤ := -1
  ladjust : Bool := false
  padc : Byte := chr ' '
  plusSign : Byte := 0
  altfmt : Bool := false
  longopt : ℕ := 0

/-! ## Modifiers -/

/-- The loop over the flags. -/
def parseFlags : List Byte → Locals → Locals × List Byte
  | [], st => (st, [])
  | c :: fmt, st =>
    if c = chr '#' then parseFlags fmt { st with altfmt := true }
    else if c = chr '-' then parseFlags fmt { st with ladjust := true }
    else if c = chr '+' then parseFlags fmt { st with plusSign := chr '+' }
    else if c = chr ' ' then
      parseFlags fmt (if st.plusSign = 0 then { st with plusSign := chr ' ' } else st)
    else (st, c :: fmt)

/-- `if (*fmt == '0')`. -/
def parseZero (fmt : List Byte) (st : Locals) : Locals × List Byte :=
  if peek fmt = chr '0' then ({ st with padc := chr '0' }, fmt.tail) else (st, fmt)

/-- `while (isdigit(*fmt)) n = 10 * n + Ctod(*fmt++);`. -/
def numberLoop : List Byte → ℤ → ℤ × List Byte
  | [], n => (n, [])
  | c :: fmt, n =>
    if isdigit c then numberLoop fmt (wrap (10 * n + (c.toNat - (chr '0').toNat)))
    else (n, c :: fmt)

/-- The field width. -/
def parseWidth (fmt : List Byte) (args : VaList) (st : Locals) :
    Option (Locals × List Byte × VaList) :=
  if isdigit (peek fmt) then
    let (length, fmt) := numberLoop fmt st.length
    some ({ st with length }, fmt, args)
  else if peek fmt = chr '*' then
    (vaLong args).map fun (w, args) =>
      let length := w.toInt
      if length < 0 then
        ({ st with ladjust := !st.ladjust, length := wrap (-length) }, fmt.tail, args)
      else ({ st with length }, fmt.tail, args)
  else some (st, fmt, args)

/-- The precision. A point alone leaves it as it was. -/
def parsePrec (fmt : List Byte) (args : VaList) (st : Locals) :
    Option (Locals × List Byte × VaList) :=
  if peek fmt = chr '.' then
    let fmt := fmt.tail
    if isdigit (peek fmt) then
      let (prec, fmt) := numberLoop fmt 0
      some ({ st with prec }, fmt, args)
    else if peek fmt = chr '*' then
      (vaLong args).map fun (w, args) => ({ st with prec := w.toInt }, fmt.tail, args)
    else some (st, fmt, args)
  else some (st, fmt, args)

/-- `while (*fmt == 'l')`. -/
def longLoop : List Byte → ℕ → ℕ × List Byte
  | [], n => (n, [])
  | c :: fmt, n => if c = chr 'l' then longLoop fmt (n + 1) else (n, c :: fmt)

/-- What comes between `%` and the letter of the conversion. -/
def parseSpec (fmt : List Byte) (args : VaList) : Option (Locals × List Byte × VaList) := do
  let (st, fmt) := parseFlags fmt {}
  let (st, fmt) := parseZero fmt st
  let (st, fmt, args) ← parseWidth fmt args st
  let (st, fmt, args) ← parsePrec fmt args st
  let (longopt, fmt) := longLoop fmt st.longopt
  some ({ st with longopt }, fmt, args)

/-! ## Numbers -/

/-- `MAXBUF`. -/
def maxbuf : ℕ := 32

/-- `do { *p-- = digs[u % base]; u /= base; } while (u != 0);`, with room for `room` more characters
below those in `buf`. -/
def digitLoop (base : ℕ) : ℕ → ℕ → List Byte → Option (List Byte)
  | 0, _, _ => none
  | room + 1, u, buf =>
    if base = 0 then none
    else
      match digs[u % base]? with
      | none => none
      | some c =>
        let u := u / base
        if u = 0 then some (c :: buf) else digitLoop base room u (c :: buf)

/-- `printnum`. -/
def printnum (u : Word) (base : ℤ) : Option (List Byte) :=
  digitLoop (BitVec.ofInt 32 base).toNat maxbuf u.toNat []

/-- The loop of `printnum_16` that fills the buffer, with `n` characters left. -/
def nibbleLoop : ℕ → Word → List Byte → List Byte
  | 0, _, buf => buf
  | n + 1, u, buf => nibbleLoop n (u >>> 4) (digitChar (u &&& 0x0f).toNat :: buf)

/-- `printnum_16`. -/
def printnum16 (u : Word) : List Byte := nibbleLoop 8 u []

/-- `while (--length >= 0) putc(c);`, with `length` after it. -/
def countdown (c : Byte) (length : ℤ) : List Byte × ℤ :=
  let length := wrap (length - 1)
  if length ≥ 0 then (List.replicate (length + 1).toNat c, -1) else ([], length)

/-- `while (n + k < length) { putc(c); n++; }`, with `n` after it. -/
def padTo (c : Byte) (k n length : ℤ) : List Byte × ℤ :=
  (List.replicate (length - (n + k)).toNat c, max n (length - k))

/-- The end of `print_num`. `head` is the sign and the prefix, `length` what the width leaves. -/
def printPadded (st : Locals) (length : ℤ) (head buf : List Byte) : List Byte :=
  -- blank padding goes before the prefix
  let (before, length) :=
    if st.padc = chr ' ' ∧ ¬st.ladjust then countdown (chr ' ') length else ([], length)
  -- zero padding goes after the sign and the prefix
  let (inner, length) := if st.padc = chr '0' then countdown (chr '0') length else ([], length)
  let (after, _) := if st.ladjust then countdown (chr ' ') length else ([], length)
  before ++ head ++ inner ++ buf ++ after

/-- `print_num`. -/
def printNum (u : BitVec 64) (base : ℤ) (signChar : Byte) (st : Locals) : Option (List Byte) :=
  let altPrefix : List Byte :=
    if u ≠ 0 ∧ st.altfmt then
      if base = 8 then [chr '0'] else if base = 16 then [chr '0', chr 'x'] else []
    else []
  (digitLoop (BitVec.ofInt 64 base).toNat maxbuf u.toNat []).map fun buf =>
    let length := wrap (st.length - buf.length)
    let length := if signChar ≠ 0 then wrap (length - 1) else length
    let length := wrap (length - altPrefix.length)
    printPadded st length ((if signChar ≠ 0 then [signChar] else []) ++ altPrefix) buf

/-- The sign and the magnitude of a signed number, printed. -/
def printMagnitude (n : BitVec 64) (base : ℤ) (st : Locals) : Option (List Byte) :=
  if n.toInt ≥ 0 then printNum n base st.plusSign st else printNum (-n) base (chr '-') st

/-- `print_signed`. -/
def printSigned (base : ℤ) (st : Locals) (args : VaList) : Option (List Byte × VaList) := do
  let (n, args) ← if st.longopt > 1 then vaLongLong args
    else (vaLong args).map fun (w, args) => (w.signExtend 64, args)
  let out ← printMagnitude n base st
  some (out, args)

/-- `print_unsigned`. -/
def printUnsigned (base : ℤ) (st : Locals) (args : VaList) : Option (List Byte × VaList) := do
  let (u, args) ← if st.longopt > 1 then vaLongLong args
    else (vaLong args).map fun (w, args) => (w.setWidth 64, args)
  let out ← printNum u base 0 st
  some (out, args)

/-! ## Bit fields, thread ids and strings -/

/-- The loop of `%b` over the bit names, for at most `fuel` of them. -/
def bitsLoop (u : Word) (base : ℤ) : ℕ → List Byte → Bool → Option (List Byte)
  | 0, _, _ => none
  | fuel + 1, p, any =>
    let i := (peek p).toNat
    let p := p.tail
    if i = 0 then some (if any then [chr '>'] else [])
    else if peek p ≤ 32 then
      -- a field of bits
      let j := (peek p).toNat
      let p := p.tail
      let name := p.takeWhile (· > 32)
      if j = 0 ∨ i < j ∨ i - j > 31 then none
      else do
        let num ← printnum ((u >>> (j - 1)) &&& ((2#32 <<< (i - j)) - 1)) base
        let rest ← bitsLoop u base fuel (p.dropWhile (· > 32)) true
        some ((if any then chr ',' else chr '<') :: name ++ num ++ rest)
    else if i - 1 > 31 then none
    else if u &&& (1#32 <<< (i - 1)) ≠ 0 then do
      let rest ← bitsLoop u base fuel (p.dropWhile (· > 32)) true
      some ((if any then chr ',' else chr '<') :: p.takeWhile (· > 32) ++ rest)
    else bitsLoop u base fuel (p.dropWhile (· > 32)) any

/-- `%b`: the number, and the names of its bits. -/
def printBits (u : Word) (p : List Byte) : Option (List Byte) := do
  let base : ℤ := (peek p).toNat
  let p := p.tail
  let num ← printnum u base
  if u = 0 then some num
  else do
    let names ← bitsLoop u base (p.length + 1) p false
    some (num ++ names)

/-- `tid.id.lthread`. -/
def tidLthread (high : Word) : Word := (high >>> 10) &&& 0x7f

/-- `tid.id.task`. -/
def tidTask (high : Word) : Word := (high >>> 17) &&& 0x7ff

/-- `%lt`. -/
def printTidLong (high low : Word) (st : Locals) : List Byte :=
  let n : ℤ := if st.altfmt then 19 else 17
  let (before, n) :=
    if st.length > 0 ∧ ¬st.ladjust then padTo (chr ' ') 0 n st.length else ([], n)
  let (after, _) := if st.length > 0 ∧ st.ladjust then padTo (chr ' ') 0 n st.length else ([], n)
  before ++ (if st.altfmt then [chr '['] else []) ++ printnum16 high ++ [chr ':'] ++
    printnum16 low ++ (if st.altfmt then [chr ']'] else []) ++ after

/-- `%t`. -/
def printTidShort (high : Word) (st : Locals) : Option (List Byte) := do
  let n : ℤ := if st.altfmt then 4 else 2
  let m : ℤ := 1 + if tidLthread high ≥ 0x10 then 1 else 0
  let n := n + (if tidTask high ≥ 0x10 then 1 else 0) + if tidTask high ≥ 0x100 then 1 else 0
  let (blanks, n) := if st.length > 0 ∧ ¬st.ladjust ∧ st.padc = chr ' ' then
      padTo (chr ' ') 2 n st.length else ([], n)
  let (zeros, n) := if st.length > 0 ∧ ¬st.ladjust ∧ st.padc = chr '0' then
      padTo (chr '0') 2 n st.length else ([], n)
  let task ← printnum (tidTask high) 16
  let (inner, n) :=
    if st.length > 0 ∧ ¬st.ladjust then padTo st.padc m n st.length else ([], n)
  let lthread ← printnum (tidLthread high) 16
  let (after, _) :=
    if n + m < st.length ∧ st.ladjust then padTo (chr ' ') m n st.length else ([], n)
  some (blanks ++ (if st.altfmt then [chr '['] else []) ++ zeros ++ task ++ [chr '.'] ++ inner ++
    lthread ++ (if st.altfmt then [chr ']'] else []) ++ after)

/-- `for (; *p != '\0' && n < prec; p++) n++;`. -/
def countLoop (prec : ℤ) : List Byte → ℤ → ℤ
  | [], n => n
  | c :: p, n => if c ≠ 0 ∧ n < prec then countLoop prec p (n + 1) else n

/-- The loop of `%s` that prints, with `n` after it. -/
def stringLoop (prec : ℤ) : List Byte → ℤ → List Byte × ℤ
  | [], n => ([], n)
  | c :: p, n =>
    if c ≠ 0 then
      if n + 1 > prec then ([], n + 1)
      else
        let (out, n) := stringLoop prec p (n + 1)
        (c :: out, n)
    else ([], n)

/-- `%s`. -/
def printString (s : Option (List Byte)) (st : Locals) : List Byte :=
  let prec := if st.prec = -1 then 0x7fffffff else st.prec
  let p := s.getD []
  let before := if st.length > 0 ∧ ¬st.ladjust then
      (padTo (chr ' ') 0 (countLoop prec p 0) st.length).1 else []
  let (out, n) := stringLoop prec p 0
  let after := if n < st.length ∧ st.ladjust then (padTo (chr ' ') 0 n st.length).1 else []
  before ++ out ++ after

/-! ## The function -/

/-- The switch, on a letter that is not zero. -/
def convert (radix : ℤ) (st : Locals) (c : Byte) (args : VaList) :
    Option (List Byte × VaList) :=
  if c = chr 'b' ∨ c = chr 'B' then do
    let (u, args) ← vaLong args
    let (p, args) ← vaString args
    let out ← printBits u (← p)
    some (out, args)
  else if c = chr 'c' then (vaLong args).map fun (w, args) => ([w.setWidth 8], args)
  else if c = chr 't' then do
    let ((high, low), args) ← vaTid args
    let out ← if st.longopt ≠ 0 then some (printTidLong high low st) else printTidShort high st
    some (out, args)
  else if c = chr 's' then (vaString args).map fun (s, args) => (printString s st, args)
  else if c = chr 'o' ∨ c = chr 'O' then printUnsigned 8 st args
  else if c = chr 'd' ∨ c = chr 'D' then printSigned 10 st args
  else if c = chr 'u' ∨ c = chr 'U' then printUnsigned 10 st args
  else if c = chr 'p' then
    (printUnsigned 16 { st with padc := chr '0', length := 8 } args).map fun (out, args) =>
      (chr '0' :: chr 'x' :: out, args)
  else if c = chr 'x' ∨ c = chr 'X' then printUnsigned 16 st args
  else if c = chr 'z' ∨ c = chr 'Z' then printSigned 16 st args
  else if c = chr 'r' ∨ c = chr 'R' then printSigned radix st args
  else if c = chr 'n' ∨ c = chr 'N' then printUnsigned radix st args
  else some ([c], args)

/-- The loop of `_doprnt`, for at most `fuel` iterations. -/
def doprntLoop (radix : ℤ) : ℕ → List Byte → VaList → Option (List Byte)
  | 0, _, _ => none
  | fuel + 1, fmt, args =>
    if peek fmt = 0 then some []
    else if peek fmt ≠ chr '%' then
      (doprntLoop radix fuel fmt.tail args).map (peek fmt :: ·)
    else do
      let (st, fmt, args) ← parseSpec fmt.tail args
      if peek fmt = 0 then
        -- `fmt--`: the loop then finds the end of the format
        doprntLoop radix fuel fmt args
      else do
        let (out, args) ← convert radix st (peek fmt) args
        let rest ← doprntLoop radix fuel fmt.tail args
        some (out ++ rest)

/-- `_doprnt`. Each iteration takes a character of the format, or is the last but one. -/
def doprnt (fmt : List Byte) (args : VaList) (radix : ℤ) : Option (List Byte) :=
  doprntLoop radix (fmt.length + 1) fmt args

end Lab4Kernel
