import Lab4Kernel.Libc.Format

/-!
# `_doprnt` prints what the format stands for

* `parseSpec_chars`: the modifiers of a directive read back as its layout;
* `digitLoop_eq`, `printNum_eq`, `printString_eq`, `printTidShort_eq`: the fields;
* `convert_render`: the switch prints the field;
* **`doprnt_render`**: `_doprnt` prints what the format stands for.
-/

namespace Lab4Kernel

open Numeral

/-! ## Reading the modifiers -/

theorem peek_cons (c : Byte) (p : List Byte) : peek (c :: p) = c := rfl

/-- What a flag does to the variables. -/
def Locals.flag (st : Locals) : Flag → Locals
  | .alt => { st with altfmt := true }
  | .left => { st with ladjust := true }
  | .plus => { st with plusSign := chr '+' }
  | .blank => if st.plusSign = 0 then { st with plusSign := chr ' ' } else st

/-- No flag. -/
def NoFlag (c : Byte) : Prop := c ≠ chr '#' ∧ c ≠ chr '-' ∧ c ≠ chr '+' ∧ c ≠ chr ' '

theorem parseFlags_chars (flags : List Flag) {rest : List Byte} (h : NoFlag (peek rest))
    (st : Locals) :
    parseFlags (flags.map Flag.char ++ rest) st = (flags.foldl Locals.flag st, rest) := by
  induction flags generalizing st with
  | nil =>
    cases rest with
    | nil => rfl
    | cons c rest =>
      obtain ⟨h1, h2, h3, h4⟩ := h
      rw [peek_cons] at h1 h2 h3 h4
      show parseFlags (c :: rest) st = (st, c :: rest)
      rw [parseFlags, if_neg h1, if_neg h2, if_neg h3, if_neg h4]
  | cons f flags ih =>
    rw [List.map_cons, List.cons_append, List.foldl_cons, ← ih]
    cases f <;> rfl

theorem foldl_flag (flags : List Flag) (st : Locals) :
    flags.foldl Locals.flag st =
      { st with
        altfmt := st.altfmt || flags.contains .alt
        ladjust := st.ladjust || flags.contains .left
        plusSign := if flags.contains .plus then chr '+' else
          if st.plusSign = 0 ∧ flags.contains .blank then chr ' ' else st.plusSign } := by
  induction flags generalizing st with
  | nil => simp
  | cons f flags ih =>
    rw [List.foldl_cons, ih]
    cases f
    · simp [Locals.flag]
    · simp [Locals.flag]
    · have hplus : chr '+' ≠ 0#8 := by decide
      simp [Locals.flag, hplus]
    · have hblank : chr ' ' ≠ 0#8 := by decide
      by_cases hz : st.plusSign = 0#8 <;> simp [Locals.flag, hz, hblank]

theorem numberLoop_chars (ds : List (Fin 10)) {rest : List Byte} (h : isdigit (peek rest) = false)
    (n : ℕ) (hfit : valueFrom 10 n (ds.map Fin.val) < 2 ^ 31) :
    numberLoop (digitChars ds ++ rest) n =
      (((valueFrom 10 n (ds.map Fin.val) : ℕ) : ℤ), rest) := by
  induction ds generalizing n with
  | nil =>
    cases rest with
    | nil => rfl
    | cons c rest =>
      show numberLoop (c :: rest) n = ((n : ℤ), c :: rest)
      rw [numberLoop, if_neg (by rw [← peek_cons c rest, h]; exact Bool.false_ne_true)]
  | cons d ds ih =>
    have hle := le_valueFrom (b := 10) (by decide) (n * 10 + d) (ds.map Fin.val)
    have hval : valueFrom 10 n ((d :: ds).map Fin.val) =
        valueFrom 10 (n * 10 + d) (ds.map Fin.val) := rfl
    have hdigit := toNat_digitChar d.isLt
    have hzero : (chr '0').toNat = 48 := by decide
    rw [hval] at hfit ⊢
    show numberLoop (digitChar d :: (digitChars ds ++ rest)) n = _
    rw [numberLoop, if_pos (isdigit_digitChar d.isLt), ← ih _ hfit, hdigit, hzero,
      wrap_eq (by omega) (by omega)]
    congr 1
    push_cast
    omega

theorem numberLoop_decimal (d : Fin 10) (ds : List (Fin 10)) {rest : List Byte}
    (h : isdigit (peek rest) = false) (hfit : (Amount.digits d ds).Fits) :
    numberLoop ((Amount.digits d ds).chars ++ rest) 0 = (((decimal (d :: ds) : ℕ) : ℤ), rest) :=
  numberLoop_chars (d :: ds) h 0 hfit

theorem peek_digits (d : Fin 10) (ds : List (Fin 10)) (rest : List Byte) :
    peek ((Amount.digits d ds).chars ++ rest) = digitChar d := rfl

/-- What the width does to the variables. -/
def Locals.withWidth (st : Locals) (width : ℤ) : Locals :=
  { st with ladjust := st.ladjust != decide (width < 0), length := width.natAbs }

theorem Locals.withWidth_zero {st : Locals} (h : st.length = 0) : st.withWidth 0 = st := by
  cases st
  simp_all [Locals.withWidth]

theorem parseWidth_chars {a : Amount} {args args' : VaList} {v : Option ℤ} {rest : List Byte}
    {st : Locals} (hfit : a.Fits) (htake : a.take args = some (v, args'))
    (habs : (v.getD 0).natAbs < 2 ^ 31) (hst : st.length = 0)
    (hdig : isdigit (peek rest) = false) (hstar : peek rest ≠ chr '*') :
    parseWidth (a.chars ++ rest) args st = some (st.withWidth (v.getD 0), rest, args') := by
  cases a with
  | absent =>
    cases htake
    show parseWidth rest args st = _
    unfold parseWidth
    rw [if_neg (by rw [hdig]; exact Bool.false_ne_true), if_neg hstar]
    rw [Option.getD_none, Locals.withWidth_zero hst]
  | digits d ds =>
    cases htake
    unfold parseWidth
    rw [peek_digits, if_pos (isdigit_digitChar d.isLt), hst, numberLoop_decimal d ds hdig hfit]
    have hpos : ¬((decimal (d :: ds) : ℕ) : ℤ) < 0 := by omega
    simp [Locals.withWidth, hpos]
  | star =>
    cases args with
    | nil => cases htake
    | cons x args =>
      cases x with
      | long w =>
        cases htake
        have hnot : isdigit (chr '*') = false := by decide
        rw [Option.getD_some] at habs ⊢
        unfold parseWidth
        show (if isdigit (chr '*') = true then _ else if chr '*' = chr '*' then _ else _) = _
        rw [if_neg (by rw [hnot]; exact Bool.false_ne_true), if_pos rfl]
        unfold vaLong
        rw [Option.map_some]
        by_cases hneg : w.toInt < 0
        · have hw : wrap (-w.toInt) = w.toInt.natAbs := by
            rw [wrap_eq (by omega) (by omega)]
            omega
          simp [Locals.withWidth, Amount.chars, hneg, hw]
        · have hw : (w.toInt.natAbs : ℤ) = w.toInt := by omega
          simp [Locals.withWidth, Amount.chars, hneg, hw]
      | longLong w => cases htake
      | string s => cases htake
      | tid high low => cases htake

theorem parsePrec_chars {p : Option Amount} {args args' : VaList} {v : Option ℤ}
    {rest : List Byte} {st : Locals} (hfit : ∀ a ∈ p, a.Fits)
    (htake : (p.getD .absent).take args = some (v, args')) (hst : st.prec = -1)
    (hdig : isdigit (peek rest) = false) (hstar : peek rest ≠ chr '*')
    (hpoint : peek rest ≠ chr '.') :
    parsePrec (precChars p ++ rest) args st =
      some ({ st with prec := v.getD (-1) }, rest, args') := by
  cases p with
  | none =>
    cases htake
    show parsePrec rest args st = _
    unfold parsePrec
    rw [if_neg hpoint]
    simp [← hst]
  | some a =>
    unfold parsePrec
    show (if chr '.' = chr '.' then
      if isdigit (peek (a.chars ++ rest)) then _ else if peek (a.chars ++ rest) = chr '*' then _
        else some (st, a.chars ++ rest, args)
      else _) = _
    rw [if_pos rfl]
    cases a with
    | absent =>
      cases htake
      show (if isdigit (peek rest) then _ else if peek rest = chr '*' then _
        else some (st, rest, args)) = _
      rw [if_neg (by rw [hdig]; exact Bool.false_ne_true), if_neg hstar]
      simp [← hst]
    | digits d ds =>
      cases htake
      rw [peek_digits, if_pos (isdigit_digitChar d.isLt)]
      show some ({ st with prec := (numberLoop ((Amount.digits d ds).chars ++ rest) 0).1 },
        (numberLoop ((Amount.digits d ds).chars ++ rest) 0).2, args) = _
      rw [numberLoop_decimal d ds hdig (hfit _ rfl)]
      rfl
    | star =>
      cases args with
      | nil => cases htake
      | cons x args =>
        cases x with
        | long w =>
          cases htake
          have hnot : isdigit (chr '*') = false := by decide
          show (if isdigit (chr '*') = true then _ else if chr '*' = chr '*' then _ else _) = _
          rw [if_neg (by rw [hnot]; exact Bool.false_ne_true), if_pos rfl]
          rfl
        | longLong w => cases htake
        | string s => cases htake
        | tid high low => cases htake

theorem longLoop_chars (k n : ℕ) {rest : List Byte} (h : peek rest ≠ chr 'l') :
    longLoop (List.replicate k (chr 'l') ++ rest) n = (n + k, rest) := by
  induction k generalizing n with
  | zero =>
    cases rest with
    | nil => rfl
    | cons c rest => exact if_neg h
  | succ k ih =>
    rw [List.replicate_succ, List.cons_append, longLoop, if_pos rfl, ih]
    congr 1
    omega

/-! ## The characters that follow a modifier -/

theorem not_modifier {c : Byte} (h : isModifier c = false) :
    isdigit c = false ∧ NoFlag c ∧ c ≠ 0 ∧ c ≠ chr '.' ∧ c ≠ chr '*' ∧ c ≠ chr 'l' := by
  unfold isModifier at h
  simp only [Bool.or_eq_false_iff, List.contains_eq_mem, decide_eq_false_iff_not, List.mem_cons,
    not_or, List.not_mem_nil, not_false_eq_true, and_true] at h
  obtain ⟨hdig, h0, h1, h2, h3, h4, h5, h6, h7⟩ := h
  exact ⟨hdig, ⟨h1, h2, h3, h4⟩, h0, h5, h6, h7⟩

theorem letter_not_modifier (k : Conv) : ∀ c ∈ k.letters, isModifier c = false := by
  cases k <;> decide +kernel

theorem Conv.HasLetter.not_modifier {k : Conv} {c : Byte} (h : k.HasLetter c) :
    isModifier c = false :=
  h.elim (letter_not_modifier k c) fun ho => ho.2.1

/-- What may follow a width. -/
def EndsWidth (c : Byte) : Prop := isdigit c = false ∧ NoFlag c ∧ c ≠ chr '*'

theorem noFlag_digit (d : Fin 10) : NoFlag (digitChar d) := by
  revert d
  unfold NoFlag
  decide

theorem endsWidth_long : EndsWidth (chr 'l') := by
  unfold EndsWidth NoFlag
  decide

theorem endsWidth_point : EndsWidth (chr '.') := by
  unfold EndsWidth NoFlag
  decide

section After

variable {rest : List Byte}

theorem endsWidth_longs (k : ℕ) (h : EndsWidth (peek rest)) (hp : peek rest ≠ chr '.') :
    EndsWidth (peek (List.replicate k (chr 'l') ++ rest)) ∧
      peek (List.replicate k (chr 'l') ++ rest) ≠ chr '.' := by
  cases k with
  | zero => exact ⟨h, hp⟩
  | succ k =>
    rw [List.replicate_succ, List.cons_append, peek_cons]
    exact ⟨endsWidth_long, by decide⟩

theorem endsWidth_prec (p : Option Amount) (h : EndsWidth (peek rest)) :
    EndsWidth (peek (precChars p ++ rest)) := by
  cases p with
  | none => exact h
  | some a => exact endsWidth_point

theorem noFlag_width (a : Amount) (h : NoFlag (peek rest)) : NoFlag (peek (a.chars ++ rest)) := by
  cases a with
  | absent => exact h
  | digits d ds => exact noFlag_digit d
  | star =>
    show NoFlag (chr '*')
    unfold NoFlag
    decide

theorem digitChar_ne_zero {d : Fin 10} (h : d.val ≠ 0) : digitChar d ≠ chr '0' := by
  revert d
  decide

theorem width_no_zero {a : Amount} (ha : ¬a.LeadsZero) (h : isdigit (peek rest) = false) :
    peek (a.chars ++ rest) ≠ chr '0' := by
  cases a with
  | absent =>
    intro he
    have hz : isdigit (chr '0') = true := by decide
    rw [← he] at hz
    exact absurd (h.symm.trans hz) Bool.false_ne_true
  | digits d ds => exact digitChar_ne_zero ha
  | star =>
    show chr '*' ≠ chr '0'
    decide

theorem parseZero_chars (zero : Bool) (h : zero = false → peek rest ≠ chr '0') (st : Locals) :
    parseZero ((if zero then [chr '0'] else []) ++ rest) st =
      ({ st with padc := if zero then chr '0' else st.padc }, rest) := by
  cases zero with
  | false => exact if_neg (h rfl)
  | true => rfl

end After

/-- The variables that hold a layout. -/
def Layout.locals (L : Layout) : Locals where
  length := L.width
  prec := L.prec
  ladjust := L.left
  padc := if L.zero then chr '0' else chr ' '
  plusSign := L.plus.headD 0
  altfmt := L.alt
  longopt := L.longs

/-- **The modifiers of a directive read back as its layout.** -/
theorem parseSpec_chars {d : Directive} {args args' : VaList} {L : Layout}
    (h : d.take args = some (L, args')) (rest : List Byte) :
    parseSpec (d.modifiers (d.letter :: rest)) args =
      some (L.locals, d.letter :: rest, args') := by
  obtain ⟨hdig, hflag, -, hpoint, hstar, hlong⟩ := not_modifier d.has_letter.not_modifier
  unfold Directive.take at h
  obtain ⟨⟨width, args₁⟩, hwidth, h⟩ := Option.bind_eq_some_iff.mp h
  obtain ⟨⟨prec, args₂⟩, hprec, h⟩ := Option.bind_eq_some_iff.mp h
  dsimp only at h hprec
  by_cases habs : (width.getD 0).natAbs < 2 ^ 31
  · rw [dif_pos habs] at h
    cases h
    have hletter : EndsWidth (peek (d.letter :: rest)) := ⟨hdig, hflag, hstar⟩
    have hletter' : peek (d.letter :: rest) ≠ chr 'l' := hlong
    obtain ⟨hlongs, hlongs'⟩ := endsWidth_longs d.longs hletter hpoint
    have hends := endsWidth_prec d.prec hlongs
    have hzero := fun hz => width_no_zero (d.zero_first hz) hends.1
    have hnoflag : NoFlag (peek ((if d.zero then [chr '0'] else []) ++ (d.width.chars ++
        (precChars d.prec ++
          (List.replicate d.longs (chr 'l') ++ d.letter :: rest))))) := by
      cases d.zero with
      | false => exact noFlag_width d.width hends.2.1
      | true => exact noFlag_digit 0
    unfold parseSpec Directive.modifiers
    rw [parseFlags_chars d.flags hnoflag, foldl_flag]
    dsimp only
    rw [parseZero_chars d.zero hzero]
    dsimp only
    rw [parseWidth_chars d.width_fits hwidth habs rfl hends.1 hends.2.2]
    dsimp only [Option.bind_eq_bind, Option.bind_some]
    rw [parsePrec_chars d.prec_fits hprec rfl hlongs.1 hlongs.2.2 hlongs']
    dsimp only [Option.bind_some]
    rw [longLoop_chars d.longs _ hletter']
    simp only [Locals.withWidth, Layout.locals, Directive.layout]
    simp only [Bool.false_or, Nat.zero_add, true_and]
    congr 2
    congr 1
    split_ifs <;> rfl
  · rw [dif_neg habs] at h
    cases h

/-! ## Numbers -/

theorem digitLoop_eq {b : ℕ} (hlo : 1 < b) (hhi : b ≤ 16) {room u : ℕ} {buf : List Byte}
    (h : (numeral b u).length ≤ room) :
    digitLoop b room u buf = some (numerals b u ++ buf) := by
  induction room generalizing u buf with
  | zero => exact absurd (length_numeral_pos b u) (by omega)
  | succ room ih =>
    have hmod : u % b < 16 := lt_of_lt_of_le (Nat.mod_lt u (by omega)) hhi
    rw [digitLoop, if_neg (by omega), digs_get hmod]
    dsimp only
    by_cases hlt : u < b
    · rw [if_pos (Nat.div_eq_of_lt hlt), Nat.mod_eq_of_lt hlt, numerals, numeral_of_lt hlt]
      rfl
    · have hdiv : u / b ≠ 0 := (Nat.div_pos (not_lt.mp hlt) (by omega)).ne'
      have hrec := numeral_of_le hlo (not_lt.mp hlt)
      have hlen : (numeral b (u / b)).length ≤ room := by
        rw [hrec, List.length_append, List.length_singleton] at h
        omega
      rw [if_neg hdiv, ih hlen, numerals, numerals, hrec, List.map_append, List.append_assoc]
      rfl

theorem digitLoop_baseDigits {base : ℤ} {w n : ℕ} {ds : List Byte} (hw : 5 ≤ w)
    (h : baseDigits base n = some ds) :
    digitLoop (BitVec.ofInt w base).toNat maxbuf n [] = some ds := by
  unfold baseDigits at h
  by_cases hok : 1 < base ∧ base ≤ 16 ∧ (numeral base.toNat n).length ≤ maxbuf
  · rw [if_pos hok] at h
    obtain ⟨hlo, hhi, hlen⟩ := hok
    have hpow : (2 : ℤ) ^ 5 ≤ 2 ^ w := pow_le_pow_right₀ (by decide) hw
    have hbase : (BitVec.ofInt w base).toNat = base.toNat := by
      rw [BitVec.toNat_ofInt]
      push_cast
      rw [Int.emod_eq_of_lt (by omega) (by omega)]
    rw [hbase, digitLoop_eq (by omega) (by omega) hlen, List.append_nil]
    exact h
  · rw [if_neg hok] at h
    cases h

theorem length_baseDigits {base : ℤ} {n : ℕ} {ds : List Byte} (h : baseDigits base n = some ds) :
    ds.length ≤ 32 := by
  unfold baseDigits at h
  split_ifs at h with hok
  cases h
  rw [length_numerals]
  exact hok.2.2

/-- The buffer holds any word in the bases from 2 on, and any two words in those from 4 on. -/
theorem baseDigits_eq {base n : ℕ} (hlo : 1 < base) (hhi : base ≤ 16) (h : n < base ^ 32) :
    baseDigits base n = some (numerals base n) := by
  have hlen : (numeral base n).length ≤ maxbuf := length_numeral_le hlo (by decide) h
  unfold baseDigits
  rw [if_pos ⟨by omega, by omega, hlen⟩]
  rfl

theorem countdown_eq (c : Byte) {length : ℤ} (hlo : -2 ^ 30 ≤ length) (hhi : length < 2 ^ 31) :
    countdown c length =
      (List.replicate length.toNat c, if 1 ≤ length then -1 else length - 1) := by
  unfold countdown
  rw [wrap_eq (by omega) (by omega)]
  dsimp only
  by_cases h : 1 ≤ length
  · rw [if_pos (by omega), if_pos h]
    congr 2
    omega
  · have hz : length.toNat = 0 := by omega
    rw [if_neg (by omega), if_neg h, hz]
    rfl

theorem length_altPrefix (L : Layout) (base : ℤ) (n : ℕ) : (L.altPrefix base n).length ≤ 2 := by
  unfold Layout.altPrefix
  split_ifs <;> decide

theorem printPadded_eq (L : Layout) {head ds : List Byte} (hhead : head.length ≤ 3)
    (hds : ds.length ≤ 32) :
    printPadded L.locals (L.width - (head.length + ds.length : ℕ)) head ds = L.field head ds := by
  have hwidth := L.width_lt
  generalize hlength : (L.width : ℤ) - (head.length + ds.length : ℕ) = length
  have hpad : length.toNat = L.width - (head.length + ds.length) := by omega
  have hlo : -2 ^ 30 ≤ length := by omega
  have hhi : length < 2 ^ 31 := by omega
  have hcount := fun c => countdown_eq c hlo hhi
  have hblank : chr ' ' ≠ chr '0' := by decide
  unfold printPadded Layout.field Layout.locals
  rw [← hpad]
  cases hz : L.zero with
  | false =>
    cases hl : L.left with
    | false => simp [hcount, hblank, blanks]
    | true => simp [hcount, hblank, blanks]
  | true =>
    -- the loop over the blanks finds the padding used up
    have hneg : (countdown (chr ' ') (countdown (chr '0') length).2).1 = [] := by
      rw [hcount]
      dsimp only
      split_ifs
      · rw [countdown_eq _ (by decide) (by decide)]
        rfl
      · rw [countdown_eq _ (by omega) (by omega)]
        have hnone : (length - 1).toNat = 0 := by omega
        rw [hnone]
        rfl
    have hzeros : (countdown (chr '0') length).1 = zeros length.toNat := by
      rw [hcount]
      rfl
    cases hl : L.left <;> simp [hblank.symm, hneg, hzeros]

theorem printNum_eq (L : Layout) {base : ℤ} {u : BitVec 64} {sign ds : List Byte}
    (hsign : sign = [] ∨ ∃ c, c ≠ 0 ∧ sign = [c]) (h : baseDigits base u.toNat = some ds) :
    printNum u base (sign.headD 0) L.locals =
      some (L.field (sign ++ L.altPrefix base u.toNat) ds) := by
  have hlen := length_baseDigits h
  have hpre := length_altPrefix L base u.toNat
  have hwidth := L.width_lt
  have halt : (if u ≠ 0 ∧ L.locals.altfmt = true then
      if base = 8 then [chr '0'] else if base = 16 then [chr '0', chr 'x'] else []
      else []) = L.altPrefix base u.toNat := by
    unfold Layout.altPrefix
    refine if_congr ?_ rfl rfl
    rw [and_comm, ne_eq, ← BitVec.toNat_inj]
    rfl
  have hfirst : wrap (L.locals.length - ds.length) = L.width - ds.length :=
    wrap_eq (by show -2 ^ 31 ≤ (L.width : ℤ) - ds.length; omega)
      (by show (L.width : ℤ) - ds.length < 2 ^ 31; omega)
  unfold printNum
  rw [halt, digitLoop_baseDigits (by decide) h, Option.map_some]
  dsimp only
  rw [hfirst]
  rcases hsign with rfl | ⟨c, hc, rfl⟩
  · rw [← printPadded_eq L (by rw [List.nil_append]; omega) hlen]
    have hnone : ¬([] : List Byte).headD 0 ≠ 0 := by simp
    rw [if_neg hnone, if_neg hnone, wrap_eq (by omega) (by omega), List.nil_append]
    push_cast
    rw [sub_sub, add_comm (ds.length : ℤ)]
  · rw [← printPadded_eq L (by rw [List.length_append, List.length_singleton]; omega) hlen]
    have hsome : [c].headD 0 ≠ 0 := hc
    have hsecond : wrap (L.width - ds.length - 1) = L.width - ds.length - 1 :=
      wrap_eq (by omega) (by omega)
    rw [if_pos hsome, if_pos hsome, hsecond, wrap_eq (by omega) (by omega), List.length_append,
      List.length_singleton]
    congr 2
    push_cast
    omega

theorem longopt_locals (L : Layout) : L.locals.longopt = L.longs := rfl

theorem plusSign_locals (L : Layout) : L.locals.plusSign = L.plus.headD 0 := rfl

theorem printUnsigned_eq {L : Layout} {base : ℤ} {args : VaList} {r : List Byte × VaList}
    (h : L.number (fun n => L.renderUnsigned base n.2.toNat) args = some r) :
    printUnsigned base L.locals args = some r := by
  obtain ⟨⟨n, args'⟩, htake, h⟩ := Option.bind_eq_some_iff.mp h
  obtain ⟨out, hout, rfl⟩ := Option.map_eq_some_iff.mp h
  obtain ⟨ds, hds, rfl⟩ := Option.map_eq_some_iff.mp hout
  have hnum := fun (u : BitVec 64) (hu : baseDigits base u.toNat = some ds) =>
    printNum_eq L (Or.inl (rfl : ([] : List Byte) = [])) hu
  unfold printUnsigned
  rw [longopt_locals]
  unfold takeNumber at htake
  split at htake
  · split_ifs at htake with hl
    cases htake
    rename_i w args
    have hext : (w.setWidth 64).toNat = w.toNat := by
      rw [BitVec.toNat_setWidth]
      exact Nat.mod_eq_of_lt (lt_trans w.isLt (by decide))
    have hprint := hnum (w.setWidth 64) (by rw [hext]; exact hds)
    rw [hext] at hprint
    rw [if_neg (by omega)]
    simp only [vaLong, Option.map_some, Option.bind_eq_bind, Option.bind_some]
    exact congrArg (Option.bind · _) hprint
  · split_ifs at htake with hl
    cases htake
    rename_i w args
    have hprint := hnum w hds
    rw [if_pos (by omega)]
    simp only [vaLongLong, Option.bind_eq_bind, Option.bind_some]
    exact congrArg (Option.bind · _) hprint
  · cases htake

theorem toNat_magnitude (n : BitVec 64) :
    (if n.toInt ≥ 0 then n else -n).toNat = n.toInt.natAbs := by
  have hint := BitVec.toInt_eq_toNat_cond n
  have hlt := n.isLt
  by_cases h : n.toInt ≥ 0
  · rw [if_pos h]
    split_ifs at hint <;> omega
  · rw [if_neg h, BitVec.toNat_neg]
    split_ifs at hint
    · omega
    · rw [Nat.mod_eq_of_lt (by omega)]
      omega

theorem printMagnitude_eq {L : Layout} {base : ℤ} {n : BitVec 64} {out : List Byte}
    (h : L.renderSigned base n.toInt = some out) :
    printMagnitude n base L.locals = some out := by
  unfold printMagnitude
  obtain ⟨ds, hds, rfl⟩ := Option.map_eq_some_iff.mp h
  have hmag := toNat_magnitude n
  by_cases hpos : n.toInt ≥ 0
  · rw [if_pos hpos] at hmag ⊢
    have hplus : L.plus = [] ∨ ∃ c, c ≠ 0 ∧ L.plus = [c] := by
      rcases L.plus_eq with he | he | he
      · exact Or.inl he
      · exact Or.inr ⟨_, by decide, he⟩
      · exact Or.inr ⟨_, by decide, he⟩
    rw [plusSign_locals, printNum_eq L hplus (by rw [hmag]; exact hds), hmag,
      if_neg (not_lt.mpr hpos)]
  · rw [if_neg hpos] at hmag ⊢
    have hsign : [chr '-'] = [] ∨ ∃ c, c ≠ 0 ∧ [chr '-'] = [c] := Or.inr ⟨_, by decide, rfl⟩
    have hminus := printNum_eq L (u := -n) hsign (by rw [hmag]; exact hds)
    rw [hmag] at hminus
    rw [if_pos (not_le.mp hpos)]
    exact hminus

theorem printSigned_eq {L : Layout} {base : ℤ} {args : VaList} {r : List Byte × VaList}
    (h : L.number (fun n => L.renderSigned base n.2.toInt) args = some r) :
    printSigned base L.locals args = some r := by
  obtain ⟨⟨n, args'⟩, htake, h⟩ := Option.bind_eq_some_iff.mp h
  obtain ⟨out, hout, rfl⟩ := Option.map_eq_some_iff.mp h
  unfold printSigned
  rw [longopt_locals]
  unfold takeNumber at htake
  split at htake
  · split_ifs at htake with hl
    cases htake
    rename_i w args
    have hext : (w.signExtend 64).toInt = w.toInt := BitVec.toInt_signExtend_of_le (by decide)
    have hprint := printMagnitude_eq (L := L) (n := w.signExtend 64) (by rw [hext]; exact hout)
    rw [if_neg (by omega)]
    simp only [vaLong, Option.map_some, Option.bind_eq_bind, Option.bind_some]
    exact congrArg (Option.bind · _) hprint
  · split_ifs at htake with hl
    cases htake
    rename_i w args
    have hprint := printMagnitude_eq hout
    rw [if_pos (by omega)]
    simp only [vaLongLong, Option.bind_eq_bind, Option.bind_some]
    exact congrArg (Option.bind · _) hprint
  · cases htake

/-! ## Strings -/

theorem countLoop_eq (s : List Byte) (n prec : ℤ) :
    countLoop prec s n = n + min (s.takeWhile (· ≠ 0)).length (prec - n).toNat := by
  induction s generalizing n with
  | nil => simp [countLoop]
  | cons c s ih =>
    rw [countLoop, List.takeWhile_cons]
    by_cases hc : c = 0
    · simp [hc]
    · by_cases hn : n < prec
      · rw [if_pos ⟨hc, hn⟩, ih, if_pos (decide_eq_true hc), List.length_cons]
        omega
      · rw [if_neg fun h => hn h.2]
        omega

theorem stringLoop_eq (s : List Byte) (n prec : ℤ) :
    stringLoop prec s n =
      ((s.takeWhile (· ≠ 0)).take (prec - n).toNat,
        n + min (s.takeWhile (· ≠ 0)).length ((prec - n).toNat + 1)) := by
  induction s generalizing n with
  | nil => simp [stringLoop]
  | cons c s ih =>
    rw [stringLoop, List.takeWhile_cons]
    by_cases hc : c = 0
    · simp [hc]
    · rw [if_pos hc, if_pos (decide_eq_true hc), List.length_cons]
      by_cases hn : n + 1 > prec
      · have hz : (prec - n).toNat = 0 := by omega
        rw [if_pos hn, hz, List.take_zero]
        congr 1
        omega
      · obtain ⟨k, hk⟩ : ∃ k, (prec - n).toNat = k + 1 := ⟨(prec - n).toNat - 1, by omega⟩
        have hk' : (prec - (n + 1)).toNat = k := by omega
        rw [if_neg hn, ih, hk, hk', List.take_succ_cons]
        dsimp only
        congr 1
        omega

theorem length_locals (L : Layout) : L.locals.length = L.width := rfl

theorem ladjust_locals (L : Layout) : L.locals.ladjust = L.left := rfl

theorem padTo_fst (c : Byte) (k n length : ℤ) :
    (padTo c k n length).1 = List.replicate (length - (n + k)).toNat c := rfl

/-- A guard that the padding makes redundant. -/
theorem guard_replicate {p : Prop} [Decidable p] {n : ℕ} (c : Byte) (h : ¬p → n = 0) :
    (if p then List.replicate n c else []) = List.replicate n c := by
  split_ifs with hp
  · rfl
  · rw [h hp]
    rfl

theorem printString_eq (L : Layout) (s : Option (List Byte)) :
    printString s L.locals = L.textField ((s.getD []).takeWhile (· ≠ 0)) := by
  have hlimit : (if L.locals.prec = -1 then 0x7fffffff else L.locals.prec).toNat = L.limit := by
    show (if L.prec = -1 then (0x7fffffff : ℤ) else L.prec).toNat = _
    unfold Layout.limit
    split_ifs <;> rfl
  unfold printString Layout.textField
  dsimp only
  rw [countLoop_eq, stringLoop_eq, sub_zero, hlimit, length_locals, ladjust_locals, padTo_fst,
    padTo_fst]
  generalize (s.getD []).takeWhile (· ≠ 0) = text
  dsimp only
  rw [List.length_take]
  cases L.left with
  | false =>
    simp only [Bool.false_eq_true, not_false_eq_true, and_true, and_false, if_false,
      List.append_nil]
    rw [guard_replicate _ fun h => by omega]
    unfold blanks
    congr 2
    omega
  | true =>
    simp only [not_true, and_true, and_false, if_false, if_true, List.nil_append]
    rw [guard_replicate _ fun h => by omega]
    unfold blanks
    congr 2
    split_ifs <;> omega

/-! ## Thread ids -/

theorem printnum_eq {base : ℕ} (hlo : 1 < base) (hhi : base ≤ 16) (u : Word) :
    printnum u base = some (numerals base u.toNat) := by
  have hpow : 2 ^ 32 ≤ base ^ 32 := Nat.pow_le_pow_left hlo 32
  have hdigits := baseDigits_eq hlo hhi (lt_of_lt_of_le u.isLt hpow)
  exact digitLoop_baseDigits (by decide) hdigits

theorem length_numerals_hex {n : ℕ} (h : n < 2 ^ 12) :
    (numerals 16 n).length = 1 + (if 16 ≤ n then 1 else 0) + if 256 ≤ n then 1 else 0 := by
  rw [length_numerals]
  by_cases h1 : n < 16
  · rw [numeral_of_lt h1, if_neg (by omega), if_neg (by omega), List.length_singleton]
  · rw [numeral_of_le (by decide) (not_lt.mp h1), List.length_append, List.length_singleton,
      if_pos (not_lt.mp h1)]
    by_cases h2 : n / 16 < 16
    · rw [numeral_of_lt h2, if_neg (by omega), List.length_singleton]
    · rw [numeral_of_le (by decide) (not_lt.mp h2), numeral_of_lt (by omega), if_pos (by omega)]
      rfl

theorem tidTask_lt (high : Word) : (tidTask high).toNat < 2 ^ 11 := by
  unfold tidTask
  rw [BitVec.toNat_and]
  exact Nat.lt_of_le_of_lt Nat.and_le_right (by decide)

theorem tidLthread_lt (high : Word) : (tidLthread high).toNat < 2 ^ 7 := by
  unfold tidLthread
  rw [BitVec.toNat_and]
  exact Nat.lt_of_le_of_lt Nat.and_le_right (by decide)

/-- A guard that is false only when there is nothing to pad. -/
theorem padTo_guard {p : Prop} [Decidable p] {c : Byte} {k n length : ℤ}
    (h : ¬p → length ≤ n + k) :
    (if p then padTo c k n length else ([], n)) = padTo c k n length := by
  split_ifs with hp
  · rfl
  · have hle := h hp
    unfold padTo
    rw [Int.toNat_of_nonpos (by omega), max_eq_left (by omega)]
    rfl

theorem printTidShort_eq (L : Layout) (high : Word) :
    printTidShort high L.locals = some (L.tidField high) := by
  have htask := length_numerals_hex (lt_trans (tidTask_lt high) (by decide))
  have hthread := length_numerals_hex (lt_trans (tidLthread_lt high) (by decide))
  have hsmall : ¬256 ≤ (tidLthread high).toNat := by
    have := tidLthread_lt high
    omega
  have hge16 (w : Word) : w ≥ 0x10 ↔ 16 ≤ w.toNat := Iff.rfl
  have hge256 (w : Word) : w ≥ 0x100 ↔ 256 ≤ w.toNat := Iff.rfl
  rw [if_neg hsmall, add_zero] at hthread
  have hn (b : ℤ) : b + (if tidTask high ≥ 0x10 then 1 else 0) +
      (if tidTask high ≥ 0x100 then 1 else 0) =
        b + (numerals 16 (tidTask high).toNat).length - 1 := by
    rw [htask, if_congr (hge16 _) rfl rfl, if_congr (hge256 _) rfl rfl]
    push_cast
    omega
  have hm : (1 + if tidLthread high ≥ 0x10 then 1 else 0 : ℤ) =
      (numerals 16 (tidLthread high).toNat).length := by
    rw [hthread, if_congr (hge16 _) rfl rfl]
    push_cast
    rfl
  have hthread2 : (numerals 16 (tidLthread high).toNat).length ≤ 2 := by
    rw [hthread]
    split_ifs <;> omega
  have hprint (w : Word) : printnum w 16 = some (numerals 16 w.toNat) :=
    printnum_eq (by decide) (by decide) w
  unfold printTidShort Layout.tidField
  rw [hprint, hprint]
  dsimp only
  rw [hm, hn]
  generalize numerals 16 (tidTask high).toNat = task
  generalize numerals 16 (tidLthread high).toNat = thread at *
  have halt : L.locals.altfmt = L.alt := rfl
  have hpadc : L.locals.padc = if L.zero then chr '0' else chr ' ' := rfl
  rw [length_locals, ladjust_locals, halt, hpadc]
  have hbracket : ((L.bracket (task ++ [chr '.'] ++ thread)).length : ℤ) =
      ((if L.alt then 4 else 2 : ℤ) + task.length - 1) + thread.length := by
    unfold Layout.bracket
    cases L.alt <;> simp <;> omega
  have hbase : 1 ≤ (if L.alt then 4 else 2 : ℤ) + task.length - 1 := by
    split_ifs <;> omega
  generalize hn0 : (if L.alt then 4 else 2 : ℤ) + task.length - 1 = n at *
  generalize hroom : L.width - (L.bracket (task ++ [chr '.'] ++ thread)).length = room
  have houter : (L.width - (n + 2)).toNat = room - min room (2 - thread.length) := by omega
  have hinner : (L.width - (max n (L.width - 2) + thread.length)).toNat =
      min room (2 - thread.length) := by omega
  have hall : (L.width - (n + thread.length)).toNat = room := by omega
  have hfirst (c : Byte) : (padTo c 2 n L.width).1 =
      List.replicate (room - min room (2 - thread.length)) c := by
    rw [padTo_fst, houter]
  have hsecond (c c' : Byte) :
      (padTo c thread.length (padTo c' 2 n L.width).2 L.width).1 =
        List.replicate (min room (2 - thread.length)) c := by
    rw [padTo_fst]
    show List.replicate (L.width - (max n (L.width - 2) + thread.length)).toNat c = _
    rw [hinner]
  have hsnd (c : Byte) : 0 ≤ (padTo c 2 n L.width).2 := le_max_of_le_left (by omega)
  have hne : chr '0' ≠ chr ' ' := by decide
  cases L.left with
  | true =>
    simp only [not_true, false_and, and_false, if_false, and_true, if_true]
    rw [padTo_guard (fun h => not_lt.mp h), padTo_fst, hall]
    unfold Layout.bracket
    cases L.alt <;> simp [blanks]
  | false =>
    cases L.zero with
    | false =>
      simp only [Bool.false_eq_true, if_false, not_false_eq_true, and_true, hne.symm, and_false]
      have hpos := hsnd (chr ' ')
      rw [padTo_guard (fun h => by omega), padTo_guard (fun h => by omega), hfirst, hsecond]
      unfold Layout.bracket
      cases L.alt <;> simp [blanks]
    | true =>
      simp only [Bool.false_eq_true, if_false, if_true, not_false_eq_true, and_true, hne,
        and_false]
      have hpos := hsnd (chr '0')
      rw [padTo_guard (fun h => by omega), padTo_guard (fun h => by omega), hfirst, hsecond]
      unfold Layout.bracket
      cases L.alt <;> simp [zeros]

theorem zeros_concat (k : ℕ) : zeros k ++ [digitChar 0] = zeros (k + 1) :=
  List.replicate_succ'.symm

theorem toNat_nibble (u : Word) : (u &&& 0x0f).toNat = u.toNat % 16 := by
  rw [BitVec.toNat_and]
  exact Nat.and_two_pow_sub_one_eq_mod u.toNat 4

theorem toNat_shift_nibble (u : Word) : (u >>> 4).toNat = u.toNat / 16 := by
  rw [BitVec.toNat_ushiftRight, Nat.shiftRight_eq_div_pow]

theorem nibbleLoop_eq (k : ℕ) {u : Word} {buf : List Byte} (h : u.toNat < 16 ^ (k + 1)) :
    nibbleLoop (k + 1) u buf =
      zeros (k + 1 - (numerals 16 u.toNat).length) ++ numerals 16 u.toNat ++ buf := by
  induction k generalizing u buf with
  | zero =>
    have hlt : u.toNat < 16 := h
    show [digitChar (u &&& 0x0f).toNat] ++ buf = _
    rw [toNat_nibble, Nat.mod_eq_of_lt hlt, numerals, numeral_of_lt hlt]
    rfl
  | succ k ih =>
    have hlt : (u >>> 4).toNat < 16 ^ (k + 1) := by
      rw [toNat_shift_nibble, Nat.div_lt_iff_lt_mul (by decide), ← pow_succ]
      exact h
    rw [nibbleLoop, ih hlt, toNat_nibble, toNat_shift_nibble]
    by_cases hsmall : u.toNat < 16
    · have hquot : numerals 16 (u.toNat / 16) = [digitChar 0] := by
        rw [Nat.div_eq_of_lt hsmall]
        rfl
      have hself : numerals 16 u.toNat = [digitChar u.toNat] := by
        rw [numerals, numeral_of_lt hsmall]
        rfl
      rw [hquot, hself, Nat.mod_eq_of_lt hsmall, List.length_singleton, List.length_singleton,
        Nat.add_sub_cancel, Nat.add_sub_cancel, zeros_concat, List.append_assoc]
      rfl
    · have hself : numerals 16 u.toNat =
          numerals 16 (u.toNat / 16) ++ [digitChar (u.toNat % 16)] := by
        rw [numerals, numeral_of_le (by decide) (not_lt.mp hsmall), List.map_append]
        rfl
      rw [hself, List.length_append, List.length_singleton, Nat.add_sub_add_right,
        List.append_assoc, List.append_assoc, List.append_assoc]
      rfl

theorem printnum16_eq (u : Word) :
    printnum16 u = zeros (8 - (numerals 16 u.toNat).length) ++ numerals 16 u.toNat := by
  have h : nibbleLoop 8 u [] = _ := nibbleLoop_eq 7 u.isLt
  rw [List.append_nil] at h
  exact h

theorem length_printnum16 (u : Word) : (printnum16 u).length = 8 := by
  have hlen : (numeral 16 u.toNat).length ≤ 8 := length_numeral_le (by decide) (by decide) u.isLt
  rw [printnum16_eq, List.length_append, length_numerals, zeros, List.length_replicate]
  omega

theorem printTidLong_eq (L : Layout) (high low : Word) :
    printTidLong high low L.locals = L.tidLongField high low := by
  have halt : L.locals.altfmt = L.alt := rfl
  unfold printTidLong Layout.tidLongField
  dsimp only
  rw [length_locals, ladjust_locals, halt, ← printnum16_eq, ← printnum16_eq]
  have hlen : ((L.bracket (printnum16 high ++ [chr ':'] ++ printnum16 low)).length : ℤ) =
      if L.alt then 19 else 17 := by
    unfold Layout.bracket
    cases L.alt <;> simp [length_printnum16]
  generalize hn : (if L.alt then 19 else 17 : ℤ) = n at *
  have hpos : 0 ≤ n := by omega
  have hpad : (L.width - (n + 0)).toNat =
      L.width - (L.bracket (printnum16 high ++ [chr ':'] ++ printnum16 low)).length := by omega
  cases L.left with
  | true =>
    simp only [not_true, and_false, if_false, and_true]
    rw [padTo_guard (fun h => by omega), padTo_fst, hpad]
    unfold Layout.bracket
    cases L.alt <;> simp [blanks]
  | false =>
    simp only [Bool.false_eq_true, not_false_eq_true, and_false, if_false, and_true]
    rw [padTo_guard (fun h => by omega), padTo_fst, hpad]
    unfold Layout.bracket
    cases L.alt <;> simp [blanks]

/-! ## The switch and the loop -/

theorem pointer_locals (L : Layout) :
    { L.locals with padc := chr '0', length := 8 } = L.pointer.locals := rfl

theorem Conv.HasLetter.mem {k : Conv} {c : Byte} (h : k.HasLetter c) (hk : k ≠ .other) :
    c ∈ k.letters :=
  h.resolve_right fun ho => hk ho.1

theorem convert_other (radix : ℤ) (st : Locals) {c : Byte} (args : VaList)
    (h : ∀ k : Conv, c ∉ k.letters) : convert radix st c args = some ([c], args) := by
  have hb := h .bits
  have hc := h .char
  have ht := h .tid
  have hs := h .string
  have ho := h .octal
  have hd := h .decimal
  have hu := h .unsigned
  have hp := h .pointer
  have hx := h .hex
  have hz := h .signedHex
  have hr := h .radix
  have hn := h .unsignedRadix
  simp only [Conv.letters, List.mem_cons, List.not_mem_nil, or_false] at hb hc ht hs ho hd
  simp only [Conv.letters, List.mem_cons, List.not_mem_nil, or_false] at hu hp hx hz hr hn
  unfold convert
  rw [if_neg hb, if_neg hc, if_neg ht, if_neg hs, if_neg ho, if_neg hd, if_neg hu, if_neg hp,
    if_neg hx, if_neg hz, if_neg hr, if_neg hn]

/-- A letter of two selects the same branch as the other. -/
theorem mem_pair {c a b : Byte} (h : c ∈ [a, b]) : c = a ∨ c = b := by
  simpa using h

section Switch

variable {radix : ℤ} {st : Locals} {letter : Byte} {args : VaList}

theorem convert_bits (h : letter ∈ Conv.bits.letters) (u : Word) (p : List Byte) :
    convert radix st letter (.long u :: .string (some p) :: args) =
      (printBits u p).map (·, args) := by
  have hc : convert radix st letter (.long u :: .string (some p) :: args) =
      (printBits u p).bind fun out => some (out, args) := by
    rcases mem_pair h with rfl | rfl <;> rfl
  rw [hc]
  cases printBits u p <;> rfl

theorem convert_tid (high low : Word) :
    convert radix st (chr 't') (.tid high low :: args) =
      (if st.longopt = 0 then printTidShort high st else some (printTidLong high low st)).map
        (·, args) := by
  have hc : convert radix st (chr 't') (.tid high low :: args) =
      if st.longopt ≠ 0 then some (printTidLong high low st, args)
      else (printTidShort high st).bind fun out => some (out, args) := rfl
  rw [hc, ite_not]
  split_ifs
  · cases printTidShort high st <;> rfl
  · rfl

theorem convert_octal (h : letter ∈ Conv.octal.letters) :
    convert radix st letter args = printUnsigned 8 st args := by
  rcases mem_pair h with rfl | rfl <;> rfl

theorem convert_decimal (h : letter ∈ Conv.decimal.letters) :
    convert radix st letter args = printSigned 10 st args := by
  rcases mem_pair h with rfl | rfl <;> rfl

theorem convert_unsigned (h : letter ∈ Conv.unsigned.letters) :
    convert radix st letter args = printUnsigned 10 st args := by
  rcases mem_pair h with rfl | rfl <;> rfl

theorem convert_hex (h : letter ∈ Conv.hex.letters) :
    convert radix st letter args = printUnsigned 16 st args := by
  rcases mem_pair h with rfl | rfl <;> rfl

theorem convert_signedHex (h : letter ∈ Conv.signedHex.letters) :
    convert radix st letter args = printSigned 16 st args := by
  rcases mem_pair h with rfl | rfl <;> rfl

theorem convert_radix (h : letter ∈ Conv.radix.letters) :
    convert radix st letter args = printSigned radix st args := by
  rcases mem_pair h with rfl | rfl <;> rfl

theorem convert_unsignedRadix (h : letter ∈ Conv.unsignedRadix.letters) :
    convert radix st letter args = printUnsigned radix st args := by
  rcases mem_pair h with rfl | rfl <;> rfl

end Switch

/-- **The switch prints the field.** -/
theorem convert_render {radix : ℤ} {L : Layout} {k : Conv} {letter : Byte} {args : VaList}
    {r : List Byte × VaList} (hk : k.HasLetter letter) (h : k.render radix L letter args = some r) :
    convert radix L.locals letter args = some r := by
  cases k with
  | bits =>
    simp only [Conv.render] at h
    split at h
    · rw [convert_bits (hk.mem (by decide))]
      exact h
    · cases h
  | char =>
    have hletter := List.mem_singleton.mp (hk.mem (by decide))
    simp only [Conv.render] at h
    split at h
    · rw [hletter]
      exact h
    · cases h
  | tid =>
    have hletter := List.mem_singleton.mp (hk.mem (by decide))
    simp only [Conv.render] at h
    split at h
    · rename_i high low args
      rw [hletter, convert_tid, longopt_locals, printTidShort_eq, printTidLong_eq, ← h]
      split_ifs <;> rfl
    · cases h
  | string =>
    have hletter := List.mem_singleton.mp (hk.mem (by decide))
    simp only [Conv.render] at h
    split at h
    · rename_i s args
      rw [hletter, ← h, ← printString_eq]
      rfl
    · cases h
  | pointer =>
    have hletter := List.mem_singleton.mp (hk.mem (by decide))
    obtain ⟨⟨out, args'⟩, hout, rfl⟩ := Option.map_eq_some_iff.mp h
    rw [hletter]
    have hprint := printUnsigned_eq (L := L.pointer) hout
    rw [← pointer_locals] at hprint
    show Option.map _ (printUnsigned 16 { L.locals with padc := chr '0', length := 8 } args) = _
    rw [hprint]
    rfl
  | octal =>
    rw [convert_octal (hk.mem (by decide))]
    exact printUnsigned_eq h
  | decimal =>
    rw [convert_decimal (hk.mem (by decide))]
    exact printSigned_eq h
  | unsigned =>
    rw [convert_unsigned (hk.mem (by decide))]
    exact printUnsigned_eq h
  | hex =>
    rw [convert_hex (hk.mem (by decide))]
    exact printUnsigned_eq h
  | signedHex =>
    rw [convert_signedHex (hk.mem (by decide))]
    exact printSigned_eq h
  | radix =>
    rw [convert_radix (hk.mem (by decide))]
    exact printSigned_eq h
  | unsignedRadix =>
    rw [convert_unsignedRadix (hk.mem (by decide))]
    exact printUnsigned_eq h
  | other =>
    cases h
    exact convert_other radix _ _ (hk.resolve_left List.not_mem_nil).2.2

theorem number_long {L : Layout} (hl : L.longs ≤ 1) {out : (Σ w, BitVec w) → Option (List Byte)}
    {o : List Byte} {w : Word} {args : VaList} (ho : out ⟨32, w⟩ = some o) :
    L.number out (.long w :: args) = some (o, args) := by
  have htake : takeNumber L.longs (.long w :: args) = some (⟨32, w⟩, args) := if_pos hl
  unfold Layout.number
  rw [htake, Option.bind_some]
  dsimp only
  rw [ho]
  rfl

theorem length_modifiers (d : Directive) (rest : List Byte) :
    rest.length ≤ (d.modifiers rest).length := by
  unfold Directive.modifiers
  simp only [List.length_append]
  omega

theorem doprntLoop_render {radix : ℤ} {items : List Item} {args : VaList} {out : List Byte}
    {fuel : ℕ} (hfuel : (formatChars items).length < fuel)
    (h : render radix items args = some out) :
    doprntLoop radix fuel (formatChars items) args = some out := by
  induction items generalizing args out fuel with
  | nil =>
    cases h
    cases fuel with
    | zero => exact absurd hfuel (Nat.not_lt_zero _)
    | succ fuel => rfl
  | cons item items ih =>
    cases fuel with
    | zero => exact absurd hfuel (Nat.not_lt_zero _)
    | succ fuel =>
      cases item with
      | lit c hc =>
        obtain ⟨rest, hrest, rfl⟩ := Option.map_eq_some_iff.mp h
        have hloop := ih (Nat.lt_of_succ_lt_succ hfuel) hrest
        unfold doprntLoop
        show (if c = 0 then _ else if c ≠ chr '%' then _ else _) = _
        rw [if_neg hc.1, if_pos hc.2]
        show Option.map _ (doprntLoop radix fuel (formatChars items) args) = _
        rw [hloop]
        rfl
      | dir d =>
        obtain ⟨⟨L, args₁⟩, htake, h⟩ := Option.bind_eq_some_iff.mp h
        obtain ⟨⟨field, args₂⟩, hfield, h⟩ := Option.bind_eq_some_iff.mp h
        obtain ⟨rest, hrest, rfl⟩ := Option.map_eq_some_iff.mp h
        have hlen := length_modifiers d (d.letter :: formatChars items)
        have hloop := ih
          (lt_of_lt_of_le hlen (Nat.lt_of_succ_lt_succ hfuel).le) hrest
        have hzero := (not_modifier d.has_letter.not_modifier).2.2.1
        have hletter : peek (d.letter :: formatChars items) = d.letter := rfl
        have hpercent : peek (formatChars (.dir d :: items)) = chr '%' := rfl
        have htail : (formatChars (.dir d :: items)).tail =
            d.modifiers (d.letter :: formatChars items) := rfl
        unfold doprntLoop
        rw [hpercent, htail, if_neg (by decide), if_neg (not_not.mpr rfl), parseSpec_chars htake]
        simp only [Option.bind_eq_bind, Option.bind_some]
        rw [hletter, if_neg hzero, convert_render d.has_letter hfield, List.tail_cons]
        simp only [Option.bind_some]
        rw [hloop]
        rfl

/-- **`_doprnt` prints what the format stands for.** -/
theorem doprnt_render {radix : ℤ} {items : List Item} {args : VaList} {out : List Byte}
    (h : render radix items args = some out) :
    doprnt (formatChars items) args radix = some out :=
  doprntLoop_render (Nat.lt_succ_self _) h

/-- `"%-*d|%5s"`. -/
def sampleFormat : List Item :=
  [.dir ⟨[.left], false, .star, none, 0, .decimal, chr 'd', trivial, noPrec_fits, fun _ => id,
      decimal_letter⟩,
    .lit (chr '|') (by decide),
    .dir ⟨[], false, .digits ⟨5, by decide⟩ [], none, 0, .string, chr 's',
      by unfold Amount.Fits; decide, noPrec_fits, by unfold Amount.LeadsZero; decide,
      string_letter⟩]

theorem doprnt_render_sample :
    doprnt (formatChars sampleFormat) [.long 4, .long (-7), .string (some [chr 'a'])] 0 =
      some ([chr '-', chr '7', chr ' ', chr ' ', chr '|'] ++ blanks 4 ++ [chr 'a']) :=
  doprnt_render (by rfl)

end Lab4Kernel
