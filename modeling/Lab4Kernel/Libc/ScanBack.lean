import Lab4Kernel.Libc.ReadBack
import Mathlib.Data.List.DropRight

/-!
# `_doscan` reads back what `_doprnt` prints

* `Piece`: a literal character, or a conversion with its value, and what both functions make of it;
* `Separated`: every number ends before a character that is no digit, and every word before a space;
* `render_pieces`: what is printed;
* `scanNumber_text`, `scanWord_text`: one conversion reads its value; **`atol_padded`**: so does
  `atol`;
* **`doscan_doprnt`**: with the same format, the values printed are the values stored.
-/

namespace Lab4Kernel

open Numeral

/-- What can be read as a word: it has no spaces. -/
structure IsWord (s : List Byte) : Prop where
  ne_nil : s ≠ []
  no_space : ∀ c ∈ s, c ≠ 0 ∧ isspace c = false
  length_lt : s.length < 2 ^ 31

/-- A piece of a format, with its value. -/
inductive Piece where
  | lit (c : Byte) (hc : c ≠ 0 ∧ c ≠ chr '%')
  | dec (w : Word)
  | hex (w : Word)
  | word (s : List Byte) (hs : IsWord s)

namespace Piece

/-- The piece of the format. -/
def item : Piece → Item
  | lit c hc => .lit c hc
  | dec _ => .dir (.plain .decimal (chr 'd') decimal_letter)
  | hex _ => .dir (.plain .hex (chr 'x') hex_letter)
  | word _ _ => .dir (.plain .string (chr 's') string_letter)

/-- The argument of `_doprnt`. -/
def args : Piece → VaList
  | lit _ _ => []
  | dec w | hex w => [.long w]
  | word s _ => [.string (some s)]

/-- What `_doscan` stores. -/
def stored : Piece → List Stored
  | lit _ _ => []
  | dec w | hex w => [.int w]
  | word s _ => [.chars s]

/-- What `_doprnt` prints. -/
def text : Piece → List Byte
  | lit c _ => [c]
  | dec w => (if w.toInt < 0 then [chr '-'] else []) ++ numerals 10 w.toInt.natAbs
  | hex w => numerals 16 w.toNat
  | word s _ => s

/-- What may come next. -/
def Ends : Piece → List Piece → Prop
  | lit _ _, _ => True
  | dec _, [] | hex _, [] => True
  | dec _, lit c _ :: _ => decDigit c = none
  | hex _, lit c _ :: _ => hexDigit c = none
  | word _ _, lit c _ :: _ => isspace c = true
  | _, _ => False

end Piece

/-- Every conversion ends before what comes next. -/
def Separated : List Piece → Prop
  | [] => True
  | p :: pieces => p.Ends pieces ∧ Separated pieces

/-- The format. -/
def piecesFormat (pieces : List Piece) : List Byte := formatChars (pieces.map Piece.item)

/-- The text. -/
def piecesText (pieces : List Piece) : List Byte := pieces.flatMap Piece.text

/-! ## Printing -/

/-- The layout of a directive without modifiers. -/
def plainLayout : Layout := ⟨0, false, false, [], false, 0, -1, by decide, Or.inl rfl⟩

theorem take_plain (k : Conv) (letter : Byte) (h : k.HasLetter letter) (args : VaList) :
    (Directive.plain k letter h).take args = some (plainLayout, args) := rfl

theorem plain_field (head digits : List Byte) :
    plainLayout.field head digits = head ++ digits := by
  have hpad : plainLayout.width - (head.length + digits.length) = 0 := Nat.zero_sub _
  unfold Layout.field
  rw [hpad]
  exact List.nil_append _

theorem plain_altPrefix (base : ℤ) (n : ℕ) : plainLayout.altPrefix base n = [] :=
  if_neg fun ha => Bool.false_ne_true ha.1

theorem plain_signed (w : Word) :
    plainLayout.renderSigned 10 w.toInt = some (Piece.dec w).text := by
  have hdigits : baseDigits 10 w.toInt.natAbs = some (numerals 10 w.toInt.natAbs) :=
    baseDigits_word (b := 10) (by decide) (natAbs_toInt_le w)
  unfold Layout.renderSigned
  rw [hdigits, Option.map_some, plain_field, plain_altPrefix, List.append_nil]
  rfl

theorem plain_unsigned (w : Word) :
    plainLayout.renderUnsigned 16 w.toNat = some (Piece.hex w).text := by
  have hdigits : baseDigits 16 w.toNat = some (numerals 16 w.toNat) :=
    baseDigits_word (b := 16) (by decide) w.isLt.le
  unfold Layout.renderUnsigned
  rw [hdigits, Option.map_some, plain_field, plain_altPrefix]
  rfl

theorem plain_word {s : List Byte} (hs : IsWord s) :
    plainLayout.textField (s.takeWhile (· ≠ 0)) = s := by
  have hself : s.takeWhile (· ≠ 0) = s :=
    List.takeWhile_eq_self_iff.mpr fun c hc => decide_eq_true (hs.no_space c hc).1
  have hlen := hs.length_lt
  have htake : s.take plainLayout.limit = s :=
    List.take_of_length_le (by show s.length ≤ 2 ^ 31 - 1; omega)
  have hpad : plainLayout.width - s.length = 0 := Nat.zero_sub _
  rw [hself]
  unfold Layout.textField
  dsimp only
  rw [htake, hpad]
  rfl

theorem render_dec (w : Word) (args : VaList) :
    Conv.decimal.render 0 plainLayout (chr 'd') (.long w :: args) =
      some ((Piece.dec w).text, args) := by
  have hnum : plainLayout.number (fun n => plainLayout.renderSigned 10 n.2.toInt)
      (.long w :: args) = some ((Piece.dec w).text, args) :=
    number_long (by decide) (plain_signed w)
  exact hnum

theorem render_hex (w : Word) (args : VaList) :
    Conv.hex.render 0 plainLayout (chr 'x') (.long w :: args) =
      some ((Piece.hex w).text, args) := by
  have hnum : plainLayout.number (fun n => plainLayout.renderUnsigned 16 n.2.toNat)
      (.long w :: args) = some ((Piece.hex w).text, args) :=
    number_long (by decide) (plain_unsigned w)
  exact hnum

theorem render_word {s : List Byte} (hs : IsWord s) (args : VaList) :
    Conv.string.render 0 plainLayout (chr 's') (.string (some s) :: args) = some (s, args) := by
  show some (plainLayout.textField (s.takeWhile (· ≠ 0)), args) = _
  rw [plain_word hs]

theorem render_plain {k : Conv} {letter : Byte} {h : k.HasLetter letter} {arg : Arg}
    {args : VaList} {items : List Item} {text rest : List Byte}
    (hout : k.render 0 plainLayout letter (arg :: args) = some (text, args))
    (hrest : render 0 items args = some rest) :
    render 0 (.dir (.plain k letter h) :: items) (arg :: args) = some (text ++ rest) := by
  unfold render
  rw [take_plain, Option.bind_some]
  show ((k.render 0 plainLayout letter (arg :: args)).bind _) = _
  rw [hout, Option.bind_some]
  show (render 0 items args).map _ = _
  rw [hrest]
  rfl

theorem render_pieces (pieces : List Piece) :
    render 0 (pieces.map Piece.item) (pieces.flatMap Piece.args) = some (piecesText pieces) := by
  induction pieces with
  | nil => rfl
  | cons p pieces ih =>
    cases p with
    | lit c hc =>
      show (render 0 (pieces.map Piece.item) (pieces.flatMap Piece.args)).map _ = _
      rw [ih]
      rfl
    | dec w => exact render_plain (render_dec w _) ih
    | hex w => exact render_plain (render_hex w _) ih
    | word s hs => exact render_plain (render_word hs _) ih

/-! ## Scanning -/

section Numbers

variable {digit : Byte → Option ℕ} {b : ℕ} {rest : List Byte}

theorem scanNumber_text (hb : 1 < b) (hhi : b ≤ 16)
    (hdigit : ∀ d, d < b → digit (digitChar d) = some d) (hrest : EndsScan digit rest) (neg : Bool)
    (n : ℕ) :
    scanNumber digit (BitVec.ofNat 32 b)
      ((if neg then [chr '-'] else []) ++ numerals b n ++ rest) =
        (if neg then -BitVec.ofNat 32 n else BitVec.ofNat 32 n, rest) := by
  have hscan := scan_padded (k := 0) (n := n) hb hdigit hrest
  rw [zeros, List.replicate_zero, List.nil_append] at hscan
  obtain ⟨d, p, htext, hd, -⟩ := head_numerals hb n
  have hne : (numerals b n ++ rest).headD 0 ≠ chr '-' := by
    rw [htext]
    exact (digitChar_ne (lt_of_lt_of_le hd hhi)).2.2
  unfold scanNumber
  cases neg with
  | true =>
    show (-(scan digit _ (numerals b n ++ rest) 0).1,
      (scan digit _ (numerals b n ++ rest) 0).2) = _
    rw [hscan]
    rfl
  | false =>
    simp only [Bool.false_eq_true, if_false, List.nil_append]
    rw [if_neg hne]
    dsimp only
    rw [hscan]
    rfl

end Numbers

theorem decDigit_digitChar {d : ℕ} (h : d < 10) : decDigit (digitChar d) = some d := by
  revert d
  decide

/-- **`atol` reads a number up to a character that is no digit**, whatever zeros are in front. -/
theorem atol_padded {rest : List Byte} (hrest : EndsScan decDigit rest) (k : ℕ) (w : Word) :
    atol (zeros k ++ numerals 10 w.toNat ++ rest) = w := by
  have hscan := scan_padded (k := k) (n := w.toNat) (b := 10) (by decide)
    (fun d hd => decDigit_digitChar hd) hrest
  unfold atol
  rw [show (10 : Word) = BitVec.ofNat 32 10 from rfl, hscan]
  dsimp only
  rw [BitVec.ofNat_toNat, BitVec.setWidth_eq]

theorem hexDigit_digitChar {d : ℕ} (h : d < 16) : hexDigit (digitChar d) = some d := by
  revert d
  decide

theorem scanWord_text {s rest : List Byte} (hs : ∀ c ∈ s, isspace c = false) {c : Byte}
    (hc : isspace c = true) : scanWord (s ++ c :: rest) = some (s, c :: rest) := by
  induction s with
  | nil => exact if_pos hc
  | cons c' s ih =>
    have hc' := hs c' List.mem_cons_self
    rw [List.cons_append, scanWord, if_neg (by rw [hc']; exact Bool.false_ne_true),
      ih fun c hmem => hs c (List.mem_cons_of_mem _ hmem)]
    rfl

/-! ## Formats -/

theorem piecesText_cons (p : Piece) (pieces : List Piece) :
    piecesText (p :: pieces) = p.text ++ piecesText pieces := List.flatMap_cons

theorem text_head {p : Piece} (hp : ∀ c hc, p ≠ .lit c hc) :
    ∃ c rest, p.text = c :: rest ∧ isspace c = false := by
  cases p with
  | lit c hc => exact absurd rfl (hp c hc)
  | dec w =>
    obtain ⟨d, rest, htext, hd, -⟩ := head_numerals (b := 10) (by decide) w.toInt.natAbs
    show ∃ c rest, (if w.toInt < 0 then [chr '-'] else []) ++ numerals 10 w.toInt.natAbs =
      c :: rest ∧ isspace c = false
    rw [htext]
    split_ifs
    · exact ⟨chr '-', _, rfl, by decide⟩
    · exact ⟨digitChar d, _, rfl, isspace_digitChar (by omega)⟩
  | hex w =>
    obtain ⟨d, rest, htext, hd, -⟩ := head_numerals (b := 16) (by decide) w.toNat
    exact ⟨digitChar d, rest, htext, isspace_digitChar hd⟩
  | word s hs =>
    cases s with
    | nil => exact absurd rfl hs.ne_nil
    | cons c s => exact ⟨c, s, rfl, (hs.no_space c List.mem_cons_self).2⟩

/-- What the input may be once the pieces before were read: the text of the others, or what is left
of it when its spaces were skipped. -/
def Remains (pieces : List Piece) (inp : List Byte) : Prop :=
  inp = piecesText pieces ∨ inp = (piecesText pieces).dropWhile isspace

theorem Remains.conversion {p : Piece} {pieces : List Piece} {inp : List Byte}
    (h : Remains (p :: pieces) inp) (hp : ∀ c hc, p ≠ .lit c hc) :
    inp = p.text ++ piecesText pieces := by
  obtain ⟨c, rest, htext, hc⟩ := text_head hp
  rcases h with h | h
  · rw [h, piecesText_cons]
  · rw [h, piecesText_cons, htext, List.cons_append,
      List.dropWhile_cons_of_neg (by rw [hc]; exact Bool.false_ne_true)]

theorem endsScan_of_ends {digit : Byte → Option ℕ} {p : Piece} {pieces : List Piece}
    (h : p.Ends pieces)
    (hp : (∃ w, p = .dec w ∧ digit = decDigit) ∨ ∃ w, p = .hex w ∧ digit = hexDigit) :
    EndsScan digit (piecesText pieces) := by
  intro c hc
  cases pieces with
  | nil => cases hc
  | cons q pieces =>
    cases q with
    | lit c' hc' =>
      cases hc
      rcases hp with ⟨w, rfl, rfl⟩ | ⟨w, rfl, rfl⟩ <;> exact h
    | dec w' => rcases hp with ⟨w, rfl, -⟩ | ⟨w, rfl, -⟩ <;> exact absurd h id
    | hex w' => rcases hp with ⟨w, rfl, -⟩ | ⟨w, rfl, -⟩ <;> exact absurd h id
    | word s hs => rcases hp with ⟨w, rfl, -⟩ | ⟨w, rfl, -⟩ <;> exact absurd h id

section Conversions

variable {pieces : List Piece} {inp : List Byte} {w : Word}

theorem scanNumber_dec (hends : (Piece.dec w).Ends pieces)
    (hinp : inp = (Piece.dec w).text ++ piecesText pieces) :
    scanNumber decDigit 10 inp = (w, piecesText pieces) := by
  have hself := ofNat_natAbs w
  have hscan := scanNumber_text (b := 10) (by decide) (by decide)
    (fun d hd => decDigit_digitChar hd) (endsScan_of_ends hends (Or.inl ⟨w, rfl, rfl⟩))
    (decide (w.toInt < 0)) w.toInt.natAbs
  simp only [decide_eq_true_eq] at hscan
  rw [hself] at hscan
  rw [hinp]
  exact hscan

theorem scanNumber_hex (hends : (Piece.hex w).Ends pieces)
    (hinp : inp = (Piece.hex w).text ++ piecesText pieces) :
    scanNumber hexDigit 16 inp = (w, piecesText pieces) := by
  have hself : BitVec.ofNat 32 w.toNat = w := by
    rw [BitVec.ofNat_toNat, BitVec.setWidth_eq]
  have hscan := scanNumber_text (b := 16) (by decide) (by decide)
    (fun d hd => hexDigit_digitChar hd) (endsScan_of_ends hends (Or.inr ⟨w, rfl, rfl⟩)) false w.toNat
  rw [if_neg Bool.false_ne_true, List.nil_append, if_neg Bool.false_ne_true, hself] at hscan
  rw [hinp]
  exact hscan

theorem scanWord_piece {s : List Byte} (hs : IsWord s) (hends : (Piece.word s hs).Ends pieces)
    (hinp : inp = (Piece.word s hs).text ++ piecesText pieces) :
    scanWord inp = some (s, piecesText pieces) := by
  cases pieces with
  | nil => exact absurd hends id
  | cons q pieces =>
    cases q with
    | lit c hc =>
      rw [hinp]
      exact scanWord_text (fun c hc => (hs.no_space c hc).2) hends
    | dec w => exact absurd hends id
    | hex w => exact absurd hends id
    | word s hs => exact absurd hends id

end Conversions

/-- **The loop stores the values of the pieces.** -/
theorem doscanLoop_pieces {pieces : List Piece} (hsep : Separated pieces) {inp : List Byte}
    (hinp : Remains pieces inp) (vals : ℕ) :
    doscanLoop (piecesFormat pieces) none inp vals =
      some (vals + (pieces.flatMap Piece.stored).length, pieces.flatMap Piece.stored) := by
  induction pieces generalizing inp vals with
  | nil => rfl
  | cons p pieces ih =>
    obtain ⟨hends, hsep⟩ := hsep
    cases p with
    | lit c hc =>
      show (if c = 0 then _ else if c ≠ chr '%' then if isspace c then
        doscanLoop (piecesFormat pieces) none (inp.dropWhile isspace) vals else _ else _) = _
      rw [if_neg hc.1, if_pos hc.2]
      by_cases hspace : isspace c = true
      · have hrem : Remains pieces (inp.dropWhile isspace) := by
          right
          rcases hinp with rfl | rfl
          · exact List.dropWhile_cons_of_pos hspace
          · rw [List.dropWhile_idempotent]
            exact List.dropWhile_cons_of_pos hspace
        rw [if_pos hspace]
        exact ih hsep hrem vals
      · have htext : inp = c :: piecesText pieces := by
          rcases hinp with rfl | rfl
          · rfl
          · exact List.dropWhile_cons_of_neg hspace
        rw [if_neg hspace, htext, List.headD_cons, if_pos rfl]
        exact ih hsep (Or.inl rfl) vals
    | dec w =>
      have hscan := scanNumber_dec hends (hinp.conversion (by rintro c hc ⟨⟩))
      show (doscanLoop (piecesFormat pieces) none (scanNumber decDigit 10 inp).2 (vals + 1)).map
        (keepUnless false (.int (scanNumber decDigit 10 inp).1)) = _
      rw [hscan, ih hsep (Or.inl rfl)]
      show some (vals + 1 + _, _) = some (vals + (_ + 1), _)
      rw [Nat.add_right_comm, Nat.add_assoc]
      rfl
    | hex w =>
      have hscan := scanNumber_hex hends (hinp.conversion (by rintro c hc ⟨⟩))
      show (doscanLoop (piecesFormat pieces) none (scanNumber hexDigit 16 inp).2 (vals + 1)).map
        (keepUnless false (.int (scanNumber hexDigit 16 inp).1)) = _
      rw [hscan, ih hsep (Or.inl rfl)]
      show some (vals + 1 + _, _) = some (vals + (_ + 1), _)
      rw [Nat.add_right_comm, Nat.add_assoc]
      rfl
    | word s hs =>
      have hscan := scanWord_piece hs hends (hinp.conversion (by rintro c hc ⟨⟩))
      show (scanWord inp).bind (fun r => (doscanLoop (piecesFormat pieces) none r.2 (vals + 1)).map
        (keepUnless false (.chars r.1))) = _
      rw [hscan, Option.bind_some, ih hsep (Or.inl rfl)]
      show some (vals + 1 + _, _) = some (vals + (_ + 1), _)
      rw [Nat.add_right_comm, Nat.add_assoc]
      rfl

/-- **`_doscan` stores the values that `_doprnt` printed with the same format.** -/
theorem doscan_doprnt {pieces : List Piece} (hsep : Separated pieces) :
    ∃ text, doprnt (piecesFormat pieces) (pieces.flatMap Piece.args) 0 = some text ∧
      doscan (piecesFormat pieces) text =
        some ((pieces.flatMap Piece.stored).length, pieces.flatMap Piece.stored) := by
  refine ⟨piecesText pieces, doprnt_render (render_pieces pieces), ?_⟩
  have hloop := doscanLoop_pieces hsep (Or.inl rfl) 0
  rw [Nat.zero_add] at hloop
  exact hloop

/-- `"%s  %d:%x"`. -/
def samplePieces : List Piece :=
  [.word [chr 'i', chr 'd'] ⟨by simp, by decide, by decide⟩, .lit (chr ' ') (by decide),
    .lit (chr ' ') (by decide), .dec (-2147483648), .lit (chr ':') (by decide), .hex 0xbeef]

theorem doscan_doprnt_sample :
    ∃ text, doprnt (piecesFormat samplePieces) (samplePieces.flatMap Piece.args) 0 = some text ∧
      doscan (piecesFormat samplePieces) text =
        some ((samplePieces.flatMap Piece.stored).length, samplePieces.flatMap Piece.stored) :=
  doscan_doprnt ⟨by unfold Piece.Ends; decide, trivial, trivial, by unfold Piece.Ends; decide,
    trivial, trivial, trivial⟩

end Lab4Kernel
