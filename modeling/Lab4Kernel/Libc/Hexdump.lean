import Lab4Kernel.Libc.Render
import Lab4Kernel.Libc.Strings

/-!
# `hexdump`

`tasks/libc/stdio/hexdump.c`; `kernel/hexdump.c` is the same text over another `printf`. The output
is the characters of `_doprnt` for the calls of `printf`, one behind the other.

* `hexLoop`, `charLoop`, `hexdumpLoop`, `hexdump`;
* `rowText`: a row of sixteen bytes;
* `hexLoop_eq`, `charLoop_eq`, `hexdumpLoop_eq`: runs of the loops;
* **`hexdump_eq`**: the rows in a frame, or no end, where the index would wrap around;
* `length_hexdump`: every row is as wide as the frame.
-/

namespace Lab4Kernel

open CString Numeral

/-- A string literal of the source. -/
def literal (cs : List Char) : List Byte := cs.map chr

section Definitions

variable (mem : Memory) (b len : Word)

/-- `printf`, of a call of `hexdump`. -/
def printf (fmt : List Byte) (args : VaList) : Option (List Byte) := doprnt fmt args 0

/-- `b[j]`. -/
def byteAt (j : Word) : Byte := mem (b + j)

/-- The loop over the numbers of a row, up to `stop`. -/
def hexLoop (stop : Word) : ℕ → Word → Option (List Byte)
  | 0, _ => none
  | n + 1, j =>
    if j < stop then do
      let group ← (if j % 4 = 0 then printf (literal [' ']) [] else some [])
      let cell ← (if j ≥ len then printf (literal [' ', ' ']) []
        else printf (literal ['%', '0', '2', 'x']) [.long ((byteAt mem b j).setWidth 32)])
      let rest ← hexLoop stop n (j + 1)
      some (group ++ cell ++ rest)
    else some []

/-- The loop over the characters of a row. -/
def charLoop (stop : Word) : ℕ → Word → Option (List Byte)
  | 0, _ => none
  | n + 1, j =>
    if j < stop then do
      let shown ← (if j ≥ len then printf (literal [' ']) []
        else printf (literal ['%', 'c'])
          [.long ((if isgraph (byteAt mem b j) then byteAt mem b j else chr '.').setWidth 32)])
      let rest ← charLoop stop n (j + 1)
      some (shown ++ rest)
    else some []

/-- The outer loop. -/
def hexdumpLoop : ℕ → Word → Option (List Byte)
  | 0, _ => none
  | n + 1, i =>
    if i < len then do
      let head ← printf (literal ['|', ' ', '%', '0', '8', 'l', 'x', ' ', ' ', ' ', ' ', ' ', ' '])
        [.long i]
      let numbers ← hexLoop mem b len (i + 16) addresses i
      let middle ← printf (literal [' ', ' ', ' ', ' ', ' ', ' ', ' ']) []
      let chars ← charLoop mem b len (i + 16) addresses i
      let tail ← printf (literal [' ', '|', '\n']) []
      let rest ← hexdumpLoop n (i + 16)
      some (head ++ numbers ++ middle ++ chars ++ tail ++ rest)
    else some []

/-- A line of the frame, between its corners. -/
def frameLine (left right : Byte) : List Byte :=
  [left] ++ List.replicate 75 (chr '-') ++ [right, chr '\n']

/-- `hexdump`. The corners at the bottom are the characters 96 and 39. -/
def hexdump : Option (List Byte) := do
  let top ← printf (frameLine (chr '.') (chr '.')) []
  let rows ← hexdumpLoop mem b len addresses 0
  let bottom ← printf (frameLine 96 39) []
  some (top ++ rows ++ bottom)

/-! ## What it prints -/

/-- A number of `w` hexadecimal digits. -/
def paddedHex (w n : ℕ) : List Byte := zeros (w - (numerals 16 n).length) ++ numerals 16 n

/-- The number at an index. -/
def cellText (j : ℕ) : List Byte :=
  (if j % 4 = 0 then [chr ' '] else []) ++
    if j < len.toNat then paddedHex 2 (mem (off b j)).toNat else blanks 2

/-- The character at an index. -/
def shownAt (j : ℕ) : Byte :=
  if j < len.toNat then
    if isgraph (mem (off b j)) then mem (off b j) else chr '.'
  else chr ' '

/-- The row at an index. -/
def rowText (i : ℕ) : List Byte :=
  [chr '|', chr ' '] ++ paddedHex 8 i ++ blanks 6 ++
    (List.range' i 16).flatMap (cellText mem b len) ++ blanks 7 ++
      (List.range' i 16).map (shownAt mem b len) ++ [chr ' ', chr '|', chr '\n']

end Definitions

variable {mem : Memory} {b len : Word}

/-! ## Widths -/

theorem length_paddedHex {w n : ℕ} (hw : 0 < w) (h : n < 16 ^ w) : (paddedHex w n).length = w := by
  have hle : (numerals 16 n).length ≤ w := by
    rw [length_numerals]
    exact length_numeral_le (by decide) hw h
  unfold paddedHex zeros
  rw [List.length_append, List.length_replicate]
  omega

theorem length_cellText (mem : Memory) (b len : Word) (j : ℕ) :
    (cellText mem b len j).length = if j % 4 = 0 then 3 else 2 := by
  have hcell : (if j < len.toNat then paddedHex 2 (mem (off b j)).toNat else blanks 2).length =
      2 := by
    split_ifs
    · exact length_paddedHex (by decide) (mem (off b j)).isLt
    · rfl
  unfold cellText
  rw [List.length_append, hcell]
  split_ifs <;> rfl

theorem length_cells {i : ℕ} (hi : 16 ∣ i) :
    ((List.range' i 16).flatMap (cellText mem b len)).length = 36 := by
  obtain ⟨k, rfl⟩ := hi
  have hwidth : (List.range' (16 * k) 16).map (fun j => (cellText mem b len j).length) =
      (List.range 16).map fun j => if j % 4 = 0 then 3 else 2 := by
    rw [List.range'_eq_map_range, List.map_map]
    apply List.map_congr_left
    intro j _
    have hmod : (16 * k + j) % 4 = j % 4 := by omega
    rw [Function.comp_apply, length_cellText, hmod]
  rw [List.length_flatMap, hwidth]
  rfl

theorem length_rowText {i : ℕ} (hi : 16 ∣ i) (hlt : i < 2 ^ 32) :
    (rowText mem b len i).length = (frameLine (chr '.') (chr '.')).length := by
  unfold rowText frameLine blanks
  simp only [List.length_append, List.length_cons, List.length_nil, List.length_replicate,
    List.length_map, List.length_range', length_cells hi, length_paddedHex (w := 8) (by decide) hlt]

/-! ## The calls of `printf` -/

/-- Text that is no directive. -/
def Plain (cs : List Byte) : Prop := ∀ c ∈ cs, c ≠ 0 ∧ c ≠ chr '%'

section Plain

variable {c : Byte} {cs : List Byte}

theorem Plain.head (h : Plain (c :: cs)) : c ≠ 0 ∧ c ≠ chr '%' := h c List.mem_cons_self

theorem Plain.tail (h : Plain (c :: cs)) : Plain cs := fun d hd => h d (List.mem_cons_of_mem c hd)

/-- A text as a format. -/
def plainItems : (cs : List Byte) → Plain cs → List Item
  | [], _ => []
  | c :: cs, h => .lit c h.head :: plainItems cs h.tail

theorem plain_of_all (h : cs.all (fun c => decide (c ≠ 0 ∧ c ≠ chr '%')) = true) : Plain cs :=
  fun c hc => of_decide_eq_true (List.all_eq_true.mp h c hc)

theorem formatChars_plainItems (h : Plain cs) (items : List Item) :
    formatChars (plainItems cs h ++ items) = cs ++ formatChars items := by
  induction cs with
  | nil => rfl
  | cons c cs ih =>
    rw [plainItems, List.cons_append, formatChars, ih, List.cons_append]

theorem render_plainItems (h : Plain cs) (items : List Item) (args : VaList) :
    render 0 (plainItems cs h ++ items) args = (render 0 items args).map (cs ++ ·) := by
  induction cs with
  | nil => exact Option.map_id'.symm
  | cons c cs ih =>
    rw [plainItems, List.cons_append, render, ih, Option.map_map]
    rfl

theorem printf_plain (h : Plain cs) : printf cs [] = some cs := by
  have hout : doprnt (formatChars (plainItems cs h ++ [])) [] 0 = some (cs ++ []) :=
    doprnt_render (render_plainItems h [] [])
  rw [formatChars_plainItems] at hout
  rwa [formatChars, List.append_nil] at hout

end Plain

theorem fits_digit (w : Fin 10) : (Amount.digits w []).Fits := by
  revert w
  unfold Amount.Fits
  decide

theorem digit_lt (w : Fin 10) : w.val < 2 ^ 31 := w.isLt.trans (by decide)

theorem noPlus_eq : ([] : List Byte) = [] ∨ [] = [chr '+'] ∨ [] = [chr ' '] := Or.inl rfl

/-- `%0wx`, with `longs` times `l`. -/
def paddedDirective (w : Fin 10) (longs : ℕ) : Directive :=
  ⟨[], true, .digits w [], none, longs, .hex, chr 'x', fits_digit w, noPrec_fits, zero_taken,
    hex_letter⟩

/-- The layout of `%0wx`. -/
def paddedLayout (w : Fin 10) (longs : ℕ) : Layout where
  width := w
  left := false
  zero := true
  plus := []
  alt := false
  longs := longs
  prec := -1
  width_lt := digit_lt w
  plus_eq := noPlus_eq

theorem take_padded (w : Fin 10) (longs : ℕ) (args : VaList) :
    (paddedDirective w longs).take args = some (paddedLayout w longs, args) := by
  have hwidth : ((decimal [w] : ℕ) : ℤ).natAbs = w := by
    revert w
    decide
  have hlt : ((decimal [w] : ℕ) : ℤ).natAbs < 2 ^ 31 := hwidth.symm ▸ digit_lt w
  show (if h : ((decimal [w] : ℕ) : ℤ).natAbs < 2 ^ 31 then
    some ((paddedDirective w longs).layout (decimal [w] : ℕ) (-1) h, args) else none) = _
  rw [dif_pos hlt]
  unfold Directive.layout paddedLayout
  congr

theorem render_padded (w : Fin 10) {longs : ℕ} (hl : longs ≤ 1) (n : Word) (items : List Item)
    (args : VaList) :
    render 0 (.dir (paddedDirective w longs) :: items) (.long n :: args) =
      (render 0 items args).map (paddedHex w n.toNat ++ ·) := by
  have hout : (paddedLayout w longs).renderUnsigned 16 n.toNat = some (paddedHex w n.toNat) := by
    unfold Layout.renderUnsigned
    rw [show (16 : ℤ) = ((16 : ℕ) : ℤ) from rfl,
      baseDigits_eq (by decide) (by decide) (n.isLt.trans (by decide))]
    show some ([] ++ zeros (w - (0 + (numerals 16 n.toNat).length)) ++ numerals 16 n.toNat) = _
    rw [List.nil_append, Nat.zero_add]
    rfl
  have hnum : (paddedLayout w longs).number
      (fun n => (paddedLayout w longs).renderUnsigned 16 n.2.toNat) (.long n :: args) =
        some (paddedHex w n.toNat, args) := number_long hl hout
  have hconv : (paddedDirective w longs).conv.render 0 (paddedLayout w longs)
      (paddedDirective w longs).letter (.long n :: args) = some (paddedHex w n.toNat, args) := hnum
  rw [render, take_padded, Option.bind_some]
  dsimp only
  rw [hconv, Option.bind_some]

theorem plain_frameLine {left right : Byte} (hl : left ≠ 0 ∧ left ≠ chr '%')
    (hr : right ≠ 0 ∧ right ≠ chr '%') : Plain (frameLine left right) := by
  intro c hc
  unfold frameLine at hc
  simp only [List.mem_append, List.mem_cons, List.not_mem_nil, or_false] at hc
  rcases hc with (rfl | hc) | rfl | rfl
  · exact hl
  · rw [List.eq_of_mem_replicate hc]
    decide
  · exact hr
  · decide

theorem printf_head (i : Word) :
    printf (literal ['|', ' ', '%', '0', '8', 'l', 'x', ' ', ' ', ' ', ' ', ' ', ' ']) [.long i] =
      some ([chr '|', chr ' '] ++ paddedHex 8 i.toNat ++ blanks 6) := by
  have hbar : Plain [chr '|', chr ' '] := plain_of_all (by decide)
  have hblanks : Plain (blanks 6) := plain_of_all (by decide)
  have hout : render 0 (plainItems _ hbar ++ .dir (paddedDirective ⟨8, by decide⟩ 1) ::
      (plainItems _ hblanks ++ [])) [.long i] =
        some ([chr '|', chr ' '] ++ (paddedHex 8 i.toNat ++ (blanks 6 ++ []))) := by
    rw [render_plainItems, render_padded _ le_rfl, render_plainItems]
    rfl
  have hprint := doprnt_render hout
  rw [List.append_nil, ← List.append_assoc] at hprint
  exact hprint

theorem printf_byte (c : Byte) :
    printf (literal ['%', '0', '2', 'x']) [.long (c.setWidth 32)] =
      some (paddedHex 2 c.toNat) := by
  have hout : render 0 [.dir (paddedDirective ⟨2, by decide⟩ 0)] [.long (c.setWidth 32)] =
      some (paddedHex 2 c.toNat ++ []) := by
    rw [render_padded _ (Nat.zero_le 1), ← toNat_promote]
    rfl
  rw [List.append_nil] at hout
  exact doprnt_render hout

theorem printf_char (c : Byte) :
    printf (literal ['%', 'c']) [.long (c.setWidth 32)] = some [c] := by
  have hself : (c.setWidth 32).setWidth 8 = c := by
    rw [BitVec.setWidth_setWidth_of_le _ (by decide), BitVec.setWidth_eq]
  have hout : render 0 [.dir (.plain .char (chr 'c') (Or.inl (by decide)))]
      [.long (c.setWidth 32)] = some ([(c.setWidth 32).setWidth 8] ++ []) := rfl
  rw [List.append_nil, hself] at hout
  exact doprnt_render hout

/-! ## The loops -/

theorem ofNat_lt_ofNat {k m : ℕ} (hk : k < 2 ^ 32) (hm : m < 2 ^ 32) :
    BitVec.ofNat 32 k < BitVec.ofNat 32 m ↔ k < m := by
  rw [BitVec.lt_def, BitVec.toNat_ofNat, BitVec.toNat_ofNat, Nat.mod_eq_of_lt hk,
    Nat.mod_eq_of_lt hm]

theorem ofNat_ge {k : ℕ} (hk : k < 2 ^ 32) : BitVec.ofNat 32 k ≥ len ↔ ¬k < len.toNat := by
  rw [ge_iff_le, BitVec.le_def, BitVec.toNat_ofNat, Nat.mod_eq_of_lt hk, not_lt]

theorem printf_group {k : ℕ} (hk : k < 2 ^ 32) :
    (if BitVec.ofNat 32 k % 4 = 0 then printf (literal [' ']) [] else some []) =
      some (if k % 4 = 0 then [chr ' '] else []) := by
  have hblank : Plain (literal [' ']) := plain_of_all (by decide)
  have hmod : BitVec.ofNat 32 k % 4 = 0 ↔ k % 4 = 0 := by
    rw [← BitVec.toNat_inj, BitVec.toNat_umod, BitVec.toNat_ofNat, Nat.mod_eq_of_lt hk]
    rfl
  rw [printf_plain hblank, if_congr hmod rfl rfl]
  split_ifs <;> rfl

theorem printf_number (mem : Memory) (b len : Word) {k : ℕ} (hk : k < 2 ^ 32) :
    (if BitVec.ofNat 32 k ≥ len then printf (literal [' ', ' ']) []
      else printf (literal ['%', '0', '2', 'x'])
        [.long ((byteAt mem b (BitVec.ofNat 32 k)).setWidth 32)]) =
      some (if k < len.toNat then paddedHex 2 (mem (off b k)).toNat else blanks 2) := by
  have hblanks : Plain (literal [' ', ' ']) := plain_of_all (by decide)
  rw [printf_plain hblanks, printf_byte, if_congr (ofNat_ge hk) rfl rfl, ite_not]
  split_ifs <;> rfl

theorem printf_shown (mem : Memory) (b len : Word) {k : ℕ} (hk : k < 2 ^ 32) :
    (if BitVec.ofNat 32 k ≥ len then printf (literal [' ']) []
      else printf (literal ['%', 'c'])
        [.long ((if isgraph (byteAt mem b (BitVec.ofNat 32 k)) then
          byteAt mem b (BitVec.ofNat 32 k) else chr '.').setWidth 32)]) =
      some [shownAt mem b len k] := by
  have hblank : Plain (literal [' ']) := plain_of_all (by decide)
  have hbyte : byteAt mem b (BitVec.ofNat 32 k) = mem (off b k) := rfl
  unfold shownAt
  rw [printf_plain hblank, printf_char, if_congr (ofNat_ge hk) rfl rfl, ite_not, hbyte]
  split_ifs <;> rfl

theorem hexLoop_eq (mem : Memory) (b len : Word) {k m fuel : ℕ} (hk : k + m < 2 ^ 32)
    (hfuel : m < fuel) :
    hexLoop mem b len (BitVec.ofNat 32 (k + m)) fuel (BitVec.ofNat 32 k) =
      some ((List.range' k m).flatMap (cellText mem b len)) := by
  induction m generalizing k fuel with
  | zero =>
    cases fuel with
    | zero => exact absurd hfuel (lt_irrefl 0)
    | succ fuel => exact if_neg (BitVec.lt_irrefl _)
  | succ m ih =>
    cases fuel with
    | zero => exact absurd hfuel (Nat.not_lt_zero _)
    | succ fuel =>
      have hrec := @ih (k + 1) fuel (by omega) (by omega)
      have hstop : k + 1 + m = k + (m + 1) := by omega
      have hsucc : BitVec.ofNat 32 k + 1 = BitVec.ofNat 32 (k + 1) := (BitVec.ofNat_add k 1).symm
      rw [hstop] at hrec
      rw [hexLoop, if_pos ((ofNat_lt_ofNat (by omega) hk).mpr (by omega)), printf_group (by omega),
        printf_number mem b len (by omega), hsucc, hrec]
      rfl

theorem charLoop_eq (mem : Memory) (b len : Word) {k m fuel : ℕ} (hk : k + m < 2 ^ 32)
    (hfuel : m < fuel) :
    charLoop mem b len (BitVec.ofNat 32 (k + m)) fuel (BitVec.ofNat 32 k) =
      some ((List.range' k m).map (shownAt mem b len)) := by
  induction m generalizing k fuel with
  | zero =>
    cases fuel with
    | zero => exact absurd hfuel (lt_irrefl 0)
    | succ fuel => exact if_neg (BitVec.lt_irrefl _)
  | succ m ih =>
    cases fuel with
    | zero => exact absurd hfuel (Nat.not_lt_zero _)
    | succ fuel =>
      have hrec := @ih (k + 1) fuel (by omega) (by omega)
      have hstop : k + 1 + m = k + (m + 1) := by omega
      have hsucc : BitVec.ofNat 32 k + 1 = BitVec.ofNat 32 (k + 1) := (BitVec.ofNat_add k 1).symm
      rw [hstop] at hrec
      rw [charLoop, if_pos ((ofNat_lt_ofNat (by omega) hk).mpr (by omega)),
        printf_shown mem b len (by omega), hsucc, hrec]
      rfl

/-- The rows from the one at `16 * k` on, of which there are `m`. -/
theorem hexdumpLoop_eq (mem : Memory) (b : Word) (hlen : len.toNat ≤ 2 ^ 32 - 16) {k m fuel : ℕ}
    (hk : k + m = (len.toNat + 15) / 16) (hfuel : m < fuel) :
    hexdumpLoop mem b len fuel (BitVec.ofNat 32 (16 * k)) =
      some ((List.range' k m).flatMap fun k => rowText mem b len (16 * k)) := by
  induction m generalizing k fuel with
  | zero =>
    cases fuel with
    | zero => exact absurd hfuel (lt_irrefl 0)
    | succ fuel => exact if_neg (BitVec.not_lt.mpr ((ofNat_ge (by omega)).mpr (by omega)))
  | succ m ih =>
    cases fuel with
    | zero => exact absurd hfuel (Nat.not_lt_zero _)
    | succ fuel =>
      have hrec := @ih (k + 1) fuel (by omega) (by omega)
      have hnext : BitVec.ofNat 32 (16 * k) + 16 = BitVec.ofNat 32 (16 * k + 16) :=
        (BitVec.ofNat_add (16 * k) 16).symm
      have hlt : BitVec.ofNat 32 (16 * k) < len := by
        rw [← BitVec.not_le]
        exact fun hge => (ofNat_ge (by omega)).mp hge (by omega)
      have hblanks : Plain (literal [' ', ' ', ' ', ' ', ' ', ' ', ' ']) :=
        plain_of_all (by decide)
      have htail : Plain (literal [' ', '|', '\n']) := plain_of_all (by decide)
      have hfits : 16 * k + 16 < 2 ^ 32 := by omega
      have hrow : (BitVec.ofNat 32 (16 * k)).toNat = 16 * k := by
        rw [BitVec.toNat_ofNat, Nat.mod_eq_of_lt (by omega)]
      have hroom : 16 < addresses := by decide
      rw [hexdumpLoop, if_pos hlt, hnext, printf_head, hexLoop_eq mem b len hfits hroom,
        printf_plain hblanks, charLoop_eq mem b len hfits hroom, printf_plain htail, hrow]
      rw [show 16 * k + 16 = 16 * (k + 1) from rfl, hrec]
      rfl

/-- Where the index wraps around before it reaches the length, the loop never ends. -/
theorem hexdumpLoop_none (mem : Memory) (b : Word) (hlen : 2 ^ 32 - 16 < len.toNat) (fuel : ℕ)
    {i : Word} (hi : 16 ∣ i.toNat) : hexdumpLoop mem b len fuel i = none := by
  induction fuel generalizing i with
  | zero => rfl
  | succ fuel ih =>
    have hlt : i < len := by
      rw [BitVec.lt_def]
      omega
    have hnext : 16 ∣ (i + 16).toNat := by
      rw [BitVec.toNat_add]
      show 16 ∣ (i.toNat + 16) % 2 ^ 32
      omega
    rw [hexdumpLoop, if_pos hlt, ih hnext]
    simp

theorem plain_top : Plain (frameLine (chr '.') (chr '.')) := plain_frameLine (by decide) (by decide)

theorem plain_bottom : Plain (frameLine 96 39) := plain_frameLine (by decide) (by decide)

theorem hexdump_rows (mem : Memory) (b : Word) (hlen : len.toNat ≤ 2 ^ 32 - 16) :
    hexdump mem b len =
      some (frameLine (chr '.') (chr '.') ++
        (List.range ((len.toNat + 15) / 16)).flatMap (fun k => rowText mem b len (16 * k)) ++
          frameLine 96 39) := by
  have hfuel : (len.toNat + 15) / 16 < addresses := by
    unfold addresses
    omega
  have hrows : hexdumpLoop mem b len addresses 0 = _ :=
    hexdumpLoop_eq mem b hlen (k := 0) (Nat.zero_add _) hfuel
  unfold hexdump
  rw [printf_plain plain_top, printf_plain plain_bottom, List.range_eq_range', hrows]
  rfl

theorem hexdump_wraps (mem : Memory) (b : Word) (hlen : ¬len.toNat ≤ 2 ^ 32 - 16) :
    hexdump mem b len = none := by
  unfold hexdump
  rw [printf_plain plain_top, hexdumpLoop_none mem b (by omega) addresses (dvd_zero 16)]
  rfl

/-- **What `hexdump` prints**: the rows in a frame. For the last fifteen lengths it does not end. -/
theorem hexdump_eq (mem : Memory) (b len : Word) :
    hexdump mem b len =
      if len.toNat ≤ 2 ^ 32 - 16 then
        some (frameLine (chr '.') (chr '.') ++
          (List.range ((len.toNat + 15) / 16)).flatMap (fun k => rowText mem b len (16 * k)) ++
            frameLine 96 39)
      else none := by
  split_ifs with hlen
  · exact hexdump_rows mem b hlen
  · exact hexdump_wraps mem b hlen

/-- Every line is as wide as the frame: 78 characters with its newline. -/
theorem length_hexdump {out : List Byte} (h : hexdump mem b len = some out) :
    out.length = 78 * ((len.toNat + 15) / 16 + 2) := by
  by_cases hlen : len.toNat ≤ 2 ^ 32 - 16
  · rw [hexdump_rows mem b hlen] at h
    cases h
    have hframe (left right : Byte) : (frameLine left right).length = 78 := by simp [frameLine]
    have hrows : (List.range ((len.toNat + 15) / 16)).map
        (fun k => (rowText mem b len (16 * k)).length) =
          List.replicate ((len.toNat + 15) / 16) 78 := by
      rw [List.eq_replicate_iff, List.length_map, List.length_range]
      refine ⟨rfl, fun n hn => ?_⟩
      obtain ⟨k, hk, rfl⟩ := List.mem_map.mp hn
      have hlt := List.mem_range.mp hk
      rw [length_rowText (dvd_mul_right 16 k) (by omega), hframe]
    rw [List.length_append, List.length_append, List.length_flatMap, hrows, List.sum_replicate_nat,
      hframe, hframe]
    omega
  · rw [hexdump_wraps mem b hlen] at h
    cases h

/-- The first row of the example in the source. -/
example :
    let bytes := [0x2e, 0x2f, 0x61, 0x2e, 0x6f, 0x75, 0x74, 0x00, 0x54, 0x45, 0x52, 0x4d, 0x3d,
      0x78, 0x74, 0x65]
    let text := "| 00000000       2e2f612e 6f757400 5445524d 3d787465       ./a.out.TERM=xte |\n"
    rowText (fun a => bytes.getD a.toNat 0) 0 16 0 = literal text.toList := by
  decide +kernel

end Lab4Kernel
