import Lab4Kernel.Libc.Render
import Lab4Kernel.Libc.Scan

/-!
# `strtol` reads back what `_doprnt` prints

* `strtoDigit_digitChar`, `map_strtoDigit`: the digits that are printed are digits;
* `Reads`: the bases that suit a number as it is laid out;
* `skipPrefix_text`: the prefix selects the base of the number;
* `strtoul_field`, `strtol_field`: a field reads back as its number;
* **`strtol_signed_iff`**: a signed number reads back unless it is positive and has a `+`, which
  `strtol` does not skip;
* **`strto_unsigned`**: an unsigned number reads back.
-/

namespace Lab4Kernel

open Numeral

/-! ## Digits -/

theorem toNat_digitChar_hex {d : ℕ} (hlo : 10 ≤ d) (hhi : d < 16) :
    (digitChar d).toNat = 87 + d := by
  have h : ∀ d : Fin 16, 10 ≤ d.val → (digitChar d.val).toNat = 87 + d.val := by decide
  exact h ⟨d, hhi⟩ hlo

theorem strtoDigit_digitChar {base : ℤ} {d : ℕ} (hd : d < 16) (hbase : d < base) :
    strtoDigit base (digitChar d) = some d := by
  have h0 : (chr '0').toNat = 48 := by decide
  have h9 : (chr '9').toNat = 57 := by decide
  have ha : (chr 'a').toNat = 97 := by decide
  have hz : (chr 'z').toNat = 122 := by decide
  unfold strtoDigit
  simp only [BitVec.le_def, h0, h9, ha, hz]
  by_cases hlt : d < 10
  · rw [toNat_digitChar hlt, if_pos (by omega)]
    congr 1
    omega
  · rw [toNat_digitChar_hex (not_lt.mp hlt) hd, if_neg (by omega), if_pos (by omega)]
    congr 1
    omega

/-- The characters of a number, with zeros before them, as digits. -/
def paddedDigits (k b n : ℕ) : List ℕ := List.replicate k 0 ++ numeral b n

theorem map_digitChar_padded (k b n : ℕ) :
    zeros k ++ numerals b n = (paddedDigits k b n).map digitChar := by
  unfold paddedDigits zeros numerals
  rw [List.map_append, List.map_replicate]
  rfl

theorem paddedDigits_lt {k b n : ℕ} (hb : 1 < b) : ∀ d ∈ paddedDigits k b n, d < b := by
  intro d hd
  rcases List.mem_append.mp hd with hd | hd
  · rw [List.eq_of_mem_replicate hd]
    omega
  · exact numeral_lt hb d hd

/-- A way of reading digits that knows those below `b` reads a padded number. -/
theorem scan_padded {digit : Byte → Option ℕ} {k b n : ℕ} {rest : List Byte} (hb : 1 < b)
    (hdigit : ∀ d, d < b → digit (digitChar d) = some d) (hrest : EndsScan digit rest) :
    scan digit (BitVec.ofNat 32 b) (zeros k ++ numerals b n ++ rest) 0 =
      (BitVec.ofNat 32 n, rest) := by
  have hmap : ((paddedDigits k b n).map digitChar).map digit = (paddedDigits k b n).map some := by
    rw [List.map_map]
    exact List.map_congr_left fun d hd => hdigit d (paddedDigits_lt hb d hd)
  have hvalue : valueFrom b 0 (paddedDigits k b n) = n := by
    show value b (List.replicate k 0 ++ numeral b n) = n
    rw [value_replicate_append, value_numeral hb]
  have hscan := scan_append (w := 32) (b := b) hmap hrest 0
  rw [hvalue] at hscan
  rw [map_digitChar_padded]
  exact hscan

theorem strtoDigit_blank (base : ℤ) : strtoDigit base (chr ' ') = none := by
  unfold strtoDigit
  rw [if_neg fun h => absurd h.1 (by decide), if_neg fun h => absurd h.1 (by decide),
    if_neg fun h => absurd h.1 (by decide)]

theorem strtoDigit_plus (base : ℤ) : strtoDigit base (chr '+') = none := by
  unfold strtoDigit
  rw [if_neg fun h => absurd h.1 (by decide), if_neg fun h => absurd h.1 (by decide),
    if_neg fun h => absurd h.1 (by decide)]

theorem endsScan_blanks (base : ℤ) (k : ℕ) : EndsScan (strtoDigit base) (blanks k) := by
  intro c hc
  cases k with
  | zero => cases hc
  | succ k =>
    cases hc
    exact strtoDigit_blank base

/-! ## Fields -/

/-- A field has blanks around it, or zeros in it. -/
theorem field_eq (L : Layout) (head digits : List Byte) :
    ∃ k₁ k₂ k₃, L.field head digits =
      blanks k₁ ++ (head ++ (zeros k₂ ++ digits ++ blanks k₃)) ∧ (L.zero = false → k₂ = 0) := by
  unfold Layout.field
  dsimp only
  cases hz : L.zero with
  | true =>
    refine ⟨0, L.width - (head.length + digits.length), 0, ?_, fun h => by cases h⟩
    simp [blanks]
  | false =>
    cases L.left with
    | true =>
      refine ⟨0, 0, L.width - (head.length + digits.length), ?_, fun _ => rfl⟩
      simp [blanks, zeros]
    | false =>
      refine ⟨L.width - (head.length + digits.length), 0, 0, ?_, fun _ => rfl⟩
      simp [blanks, zeros]

/-- The base that a number in base `b` is read with: its own, or `0` when the layout shows it. -/
def Layout.Reads (L : Layout) (b : ℕ) (r : ℤ) : Prop :=
  (b = 8 ∨ b = 10 ∨ b = 16) ∧
    (r = b ∨ r = 0 ∧ (b = 10 ∧ L.zero = false ∨ b ≠ 10 ∧ L.alt = true))

theorem isspace_digitChar {d : ℕ} (h : d < 16) : isspace (digitChar d) = false := by
  revert d
  decide

theorem digitChar_ne {d : ℕ} (h : d < 16) :
    digitChar d ≠ chr 'x' ∧ digitChar d ≠ chr 'X' ∧ digitChar d ≠ chr '-' := by
  revert d
  decide

/-- The text of a number: zeros, its digits, and blanks. -/
def numberText (k b n m : ℕ) : List Byte := zeros k ++ numerals b n ++ blanks m

theorem mem_numberText {k b n m : ℕ} (hlo : 1 < b) (hhi : b ≤ 16) {c : Byte}
    (hc : c ∈ numberText k b n m) : (∃ d, d < 16 ∧ c = digitChar d) ∨ c = chr ' ' := by
  unfold numberText at hc
  rcases List.mem_append.mp hc with hc | hc
  · rw [map_digitChar_padded] at hc
    obtain ⟨d, hd, rfl⟩ := List.mem_map.mp hc
    exact Or.inl ⟨d, lt_of_lt_of_le (paddedDigits_lt hlo d hd) hhi, rfl⟩
  · exact Or.inr (List.eq_of_mem_replicate hc)

theorem head_numerals {b : ℕ} (hlo : 1 < b) (n : ℕ) :
    ∃ d p, numerals b n = digitChar d :: p ∧ d < b ∧ (d = 0 ↔ n = 0) := by
  have hne := numeral_ne_nil b n
  refine ⟨(numeral b n).head hne, (numeral b n).tail.map digitChar, ?_,
    numeral_lt hlo _ (List.head_mem hne), ?_⟩
  · rw [← List.map_cons, List.cons_head_tail]
    rfl
  · constructor
    · intro h
      by_contra hn
      exact head_numeral_ne_zero hn h
    · rintro rfl
      rfl

theorem head_numberText {b : ℕ} (hlo : 1 < b) (k n m : ℕ) :
    ∃ d p, numberText k b n m = digitChar d :: p ∧ d < b ∧ (d = 0 ↔ k ≠ 0 ∨ n = 0) := by
  cases k with
  | zero =>
    obtain ⟨d, p, htext, hd, hzero⟩ := head_numerals hlo n
    refine ⟨d, p ++ blanks m, ?_, hd, by simp [hzero]⟩
    show numerals b n ++ blanks m = _
    rw [htext]
    rfl
  | succ k => exact ⟨0, zeros k ++ numerals b n ++ blanks m, rfl, by omega, by simp⟩

theorem headD_tail_numberText {k b n m : ℕ} (hlo : 1 < b) (hhi : b ≤ 16) :
    (numberText k b n m).tail.headD 0 ≠ chr 'x' ∧ (numberText k b n m).tail.headD 0 ≠ chr 'X' := by
  cases hp : (numberText k b n m).tail with
  | nil => decide
  | cons c p =>
    have hmem : c ∈ numberText k b n m := List.mem_of_mem_tail (hp ▸ List.mem_cons_self)
    rcases mem_numberText hlo hhi hmem with ⟨d, hd, rfl⟩ | rfl
    · exact ⟨(digitChar_ne hd).1, (digitChar_ne hd).2.1⟩
    · show chr ' ' ≠ chr 'x' ∧ chr ' ' ≠ chr 'X'
      decide

theorem skipPrefix_plain {p : List Byte} (h : p.tail.headD 0 ≠ chr 'x' ∧ p.tail.headD 0 ≠ chr 'X')
    (r : ℤ) :
    skipPrefix r p = (if r = 0 then if p.headD 0 = chr '0' then 8 else 10 else r, p) := by
  unfold skipPrefix
  rw [if_neg fun hx => hx.2.2.elim h.1 h.2]

theorem skipPrefix_hex {r : ℤ} (h : r = 16 ∨ r = 0) (p : List Byte) :
    skipPrefix r (chr '0' :: chr 'x' :: p) = (16, p) := by
  unfold skipPrefix
  rw [if_pos ⟨h, rfl, Or.inl rfl⟩]
  rfl

theorem digitChar_eq_zero {d : ℕ} (h : d < 16) : digitChar d = chr '0' ↔ d = 0 := by
  revert d
  decide

/-- **The prefix selects the base of the number.** -/
theorem skipPrefix_text {L : Layout} {b : ℕ} {r : ℤ} (h : L.Reads b r) {k : ℕ}
    (hk : L.zero = false → k = 0) (n m : ℕ) :
    ∃ b' k' : ℕ, skipPrefix r (L.altPrefix b n ++ numberText k b n m) =
      ((b' : ℤ), numberText k' b' n m) ∧ 1 < b' ∧ b' ≤ 16 := by
  obtain ⟨hb, hr⟩ := h
  have hlo : 1 < b := by omega
  have hhi : b ≤ 16 := by omega
  have hplain := fun k => skipPrefix_plain (headD_tail_numberText (k := k) (n := n) (m := m) hlo hhi)
  by_cases halt : b ≠ 10 ∧ L.alt = true ∧ n ≠ 0
  · obtain ⟨hb10, halt⟩ := halt
    have hpre : L.altPrefix b n =
        if (b : ℤ) = 8 then [chr '0'] else if (b : ℤ) = 16 then [chr '0', chr 'x'] else [] :=
      if_pos halt
    rcases hb with rfl | rfl | rfl
    · -- the prefix is one more zero
      have htext : L.altPrefix (8 : ℕ) n ++ numberText k 8 n m = numberText (k + 1) 8 n m := by
        rw [hpre, if_pos (by decide)]
        rfl
      have hzero : (numberText (k + 1) 8 n m).headD 0 = chr '0' := rfl
      refine ⟨8, k + 1, ?_, hlo, hhi⟩
      rw [htext, hplain, if_pos hzero]
      congr 1
      split_ifs <;> omega
    · exact absurd rfl hb10
    · refine ⟨16, k, ?_, hlo, hhi⟩
      rw [hpre, if_neg (by decide), if_pos (by decide)]
      exact skipPrefix_hex (by omega) _
  · have hpre : L.altPrefix b n = [] := by
      unfold Layout.altPrefix
      by_cases ha : L.alt = true ∧ n ≠ 0
      · have hb10 : b = 10 := by_contra fun hb10 => halt ⟨hb10, ha⟩
        rw [if_pos ha, hb10]
        rfl
      · exact if_neg ha
    rw [hpre, List.nil_append, hplain]
    rcases hr with rfl | ⟨rfl, hz⟩
    · refine ⟨b, k, ?_, hlo, hhi⟩
      rw [if_neg (by omega)]
    · -- base `0`: the first character tells
      obtain ⟨d, p, htext, hd, hfirst⟩ := head_numberText hlo k n m
      have hhead : (numberText k b n m).headD 0 = digitChar d := by
        rw [htext]
        rfl
      rw [if_pos rfl, hhead]
      by_cases hd0 : d = 0
      · have hn : n = 0 := by
          rcases hfirst.mp hd0 with hk0 | hn
          · by_contra hn
            rcases hz with ⟨-, hzero⟩ | ⟨hb10, ha⟩
            · exact hk0 (hk hzero)
            · exact halt ⟨hb10, ha, hn⟩
          · exact hn
        refine ⟨8, k, ?_, by decide, by decide⟩
        rw [if_pos ((digitChar_eq_zero (by omega)).mpr hd0), hn]
        rfl
      · have hn : n ≠ 0 := fun hn => hd0 (hfirst.mpr (Or.inr hn))
        have hb10 : b = 10 := by
          rcases hz with ⟨hb10, -⟩ | ⟨hb10, ha⟩
          · exact hb10
          · exact absurd ⟨hb10, ha, hn⟩ halt
        refine ⟨10, k, ?_, by decide, by decide⟩
        rw [if_neg (mt (digitChar_eq_zero (by omega)).mp hd0), hb10]
        rfl

/-! ## Fields read back -/

theorem dropWhile_blanks (k : ℕ) (p : List Byte) :
    (blanks k ++ p).dropWhile isspace = p.dropWhile isspace :=
  List.dropWhile_append_of_pos fun c hc => by
    rw [List.eq_of_mem_replicate hc]
    decide

theorem head_prefixed (L : Layout) {b : ℕ} (hlo : 1 < b) (hhi : b ≤ 16) (k n m : ℕ) :
    ∃ d p, L.altPrefix b n ++ numberText k b n m = digitChar d :: p ∧ d < 16 := by
  unfold Layout.altPrefix
  split_ifs
  · exact ⟨0, _, rfl, by decide⟩
  · exact ⟨0, _, rfl, by decide⟩
  all_goals
    obtain ⟨d, p, htext, hd, -⟩ := head_numberText hlo k n m
    exact ⟨d, p, htext, lt_of_lt_of_le hd hhi⟩

theorem scan_prefixed {L : Layout} {b : ℕ} {r : ℤ} (h : L.Reads b r) {k : ℕ}
    (hk : L.zero = false → k = 0) (n m : ℕ) :
    let q := skipPrefix r (L.altPrefix b n ++ numberText k b n m)
    scan (strtoDigit q.1) (BitVec.ofInt 32 q.1) q.2 0 = (BitVec.ofNat 32 n, blanks m) := by
  obtain ⟨b', k', htext, hlo, hhi⟩ := skipPrefix_text h hk n m
  dsimp only
  rw [htext, BitVec.ofInt_natCast]
  exact scan_padded hlo (fun d hd => strtoDigit_digitChar (by omega) (by omega))
    (endsScan_blanks _ m)

theorem dropWhile_prefixed {L : Layout} {b : ℕ} {r : ℤ} (h : L.Reads b r) (k n m : ℕ) :
    (L.altPrefix b n ++ numberText k b n m).dropWhile isspace =
      L.altPrefix b n ++ numberText k b n m := by
  have hb := h.1
  obtain ⟨d, p, hhead, hd⟩ := head_prefixed L (b := b) (by omega) (by omega) k n m
  have hspace := isspace_digitChar hd
  rw [hhead, List.dropWhile_cons_of_neg (by rw [hspace]; exact Bool.false_ne_true)]

theorem dropWhile_field {L : Layout} {b : ℕ} {r : ℤ} (h : L.Reads b r) (n : ℕ) :
    ∃ k m, (L.zero = false → k = 0) ∧ (L.field (L.altPrefix b n) (numerals b n)).dropWhile isspace =
      L.altPrefix b n ++ numberText k b n m := by
  obtain ⟨k₁, k₂, k₃, hfield, hk⟩ := field_eq L (L.altPrefix b n) (numerals b n)
  refine ⟨k₂, k₃, hk, ?_⟩
  rw [hfield, dropWhile_blanks]
  exact dropWhile_prefixed h k₂ n k₃

theorem strtoul_field {L : Layout} {b : ℕ} {r : ℤ} (h : L.Reads b r) (n : ℕ) :
    ∃ m, strtoul (L.field (L.altPrefix b n) (numerals b n)) r =
      (BitVec.ofNat 32 n, blanks m) := by
  obtain ⟨k, m, hk, hdrop⟩ := dropWhile_field h n
  refine ⟨m, ?_⟩
  unfold strtoul
  rw [hdrop]
  exact scan_prefixed h hk n m

section Signed

variable {L : Layout} {b : ℕ} {r : ℤ}

theorem strtol_unsigned (h : L.Reads b r) {k : ℕ} (hk : L.zero = false → k = 0) {n m : ℕ}
    {text : List Byte} (htext : text.dropWhile isspace = L.altPrefix b n ++ numberText k b n m) :
    strtol text r = (BitVec.ofNat 32 n, blanks m) := by
  have hb := h.1
  obtain ⟨d, p, hhead, hd⟩ := head_prefixed L (b := b) (by omega) (by omega) k n m
  have hscan := scan_prefixed h hk n m
  have hne : (L.altPrefix b n ++ numberText k b n m).headD 0 ≠ chr '-' := by
    rw [hhead]
    exact (digitChar_ne hd).2.2
  unfold strtol
  dsimp only at hscan ⊢
  rw [htext, if_neg hne]
  dsimp only
  rw [hscan]
  rfl

theorem strtol_field (h : L.Reads b r) (n : ℕ) :
    ∃ m, strtol (L.field (L.altPrefix b n) (numerals b n)) r = (BitVec.ofNat 32 n, blanks m) := by
  obtain ⟨k, m, hk, hdrop⟩ := dropWhile_field h n
  exact ⟨m, strtol_unsigned h hk hdrop⟩

theorem strtol_minus (h : L.Reads b r) {k : ℕ} (hk : L.zero = false → k = 0) {n m : ℕ}
    {text : List Byte}
    (htext : text.dropWhile isspace = chr '-' :: (L.altPrefix b n ++ numberText k b n m)) :
    strtol text r = (-BitVec.ofNat 32 n, blanks m) := by
  have hscan := scan_prefixed h hk n m
  unfold strtol
  dsimp only at hscan ⊢
  rw [htext, List.headD_cons, if_pos rfl, List.tail_cons]
  dsimp only
  rw [hscan]
  rfl

/-- A plus sign is not skipped, and the number reads as zero. -/
theorem strtol_plus (h : L.Reads b r) {k n m : ℕ} {text : List Byte}
    (htext : text.dropWhile isspace = chr '+' :: (L.altPrefix b n ++ numberText k b n m)) :
    (strtol text r).1 = 0 := by
  have hb := h.1
  obtain ⟨d, p, hhead, hd⟩ := head_prefixed L (b := b) (by omega) (by omega) k n m
  have hplain : ∀ r, skipPrefix r (chr '+' :: (L.altPrefix b n ++ numberText k b n m)) = _ :=
    skipPrefix_plain (by
      rw [List.tail_cons, hhead]
      exact ⟨(digitChar_ne hd).1, (digitChar_ne hd).2.1⟩)
  have hne : chr '+' ≠ chr '-' := by decide
  unfold strtol
  dsimp only
  rw [htext, List.headD_cons, if_neg hne]
  dsimp only
  rw [hplain, scan_of_ends]
  · rfl
  · intro c hc
    cases hc
    exact strtoDigit_plus _

theorem ofNat_natAbs (w : Word) :
    (if w.toInt < 0 then -BitVec.ofNat 32 w.toInt.natAbs
      else BitVec.ofNat 32 w.toInt.natAbs) = w := by
  have hself : BitVec.ofInt 32 w.toInt = w := BitVec.ofInt_toInt
  split_ifs with hneg
  · have habs : w.toInt = -(w.toInt.natAbs : ℤ) := by omega
    rw [habs, BitVec.ofInt_neg, BitVec.ofInt_natCast] at hself
    exact hself
  · have habs : w.toInt = (w.toInt.natAbs : ℤ) := by omega
    rw [habs, BitVec.ofInt_natCast] at hself
    exact hself

/-- **When `strtol` reads a signed field back**: when there is no plus sign, or the number is not
positive. -/
theorem strtol_field_iff (h : L.Reads b r) (w : Word) :
    (strtol (L.field ((if w.toInt < 0 then [chr '-'] else L.plus) ++ L.altPrefix b w.toInt.natAbs)
      (numerals b w.toInt.natAbs)) r).1 = w ↔ L.plus ≠ [chr '+'] ∨ w.toInt ≤ 0 := by
  have hb := h.1
  have hself := ofNat_natAbs w
  generalize hn : w.toInt.natAbs = n at *
  generalize hsign : (if w.toInt < 0 then [chr '-'] else L.plus) = sign
  obtain ⟨k₁, k₂, k₃, hfield, hk⟩ := field_eq L (sign ++ L.altPrefix b n) (numerals b n)
  have hdrop : (L.field (sign ++ L.altPrefix b n) (numerals b n)).dropWhile isspace =
      (sign ++ (L.altPrefix b n ++ numberText k₂ b n k₃)).dropWhile isspace := by
    rw [hfield, dropWhile_blanks, List.append_assoc]
    rfl
  have hnone := dropWhile_prefixed h k₂ n k₃
  by_cases hneg : w.toInt < 0
  · rw [if_pos hneg] at hself hsign
    have hread := strtol_minus h hk (hdrop.trans (by rw [← hsign]; rfl))
    rw [hread]
    exact iff_of_true hself (Or.inr hneg.le)
  · rw [if_neg hneg] at hself hsign
    rcases L.plus_eq with hp | hp | hp
    · have hread := strtol_unsigned h hk (hdrop.trans (by rw [← hsign, hp]; exact hnone))
      rw [hread]
      exact iff_of_true hself (Or.inl (by rw [hp]; decide))
    · have hread := strtol_plus h (hdrop.trans (by rw [← hsign, hp]; rfl))
      rw [hread]
      constructor
      · intro hz
        right
        rw [← hz]
        decide
      · rintro (hplus | hle)
        · exact absurd hp hplus
        · rw [← hself]
          have hzero : n = 0 := by omega
          rw [hzero]
          rfl
    · have hread := strtol_unsigned h hk (hdrop.trans (by rw [← hsign, hp]; exact hnone))
      rw [hread]
      exact iff_of_true hself (Or.inl (by rw [hp]; decide))

end Signed

/-! ## Directives read back -/

section Directive

variable {d : Directive} {args args' : VaList} {L : Layout} {w : Word} {b : ℕ} {r : ℤ}

theorem take_layout {rest : VaList} (h : d.take args = some (L, rest)) :
    L.longs = d.longs ∧ (L.plus = [chr '+'] ↔ .plus ∈ d.flags) := by
  obtain ⟨⟨width, args₁⟩, -, h⟩ := Option.bind_eq_some_iff.mp h
  obtain ⟨⟨prec, args₂⟩, -, h⟩ := Option.bind_eq_some_iff.mp h
  dsimp only at h
  split_ifs at h with habs
  cases h
  refine ⟨rfl, ?_⟩
  show (if d.flags.contains .plus then [chr '+'] else
    if d.flags.contains .blank then [chr ' '] else []) = [chr '+'] ↔ _
  rw [← List.contains_iff_mem]
  split_ifs with hp
  · exact iff_of_true rfl hp
  · exact iff_of_false (by decide) hp
  · exact iff_of_false (by decide) hp

theorem render_single {out : List Byte} {rest : VaList} (hd : d.take args = some (L, rest))
    (h : d.conv.render 0 L d.letter rest = some (out, args')) :
    render 0 [.dir d] args = some out := by
  unfold render
  rw [hd, Option.bind_some]
  dsimp only
  rw [h, Option.bind_some]
  simp [render]

theorem natAbs_toInt_le (w : Word) : w.toInt.natAbs ≤ 2 ^ 32 := by
  have hlo := BitVec.le_toInt w
  have hhi := BitVec.toInt_lt (x := w)
  omega

theorem baseDigits_word (hb : b = 8 ∨ b = 10 ∨ b = 16) {n : ℕ} (hn : n ≤ 2 ^ 32) :
    baseDigits b n = some (numerals b n) := by
  have hpow : 8 ^ 32 ≤ b ^ 32 := Nat.pow_le_pow_left (by omega) 32
  have hlt : (2 : ℕ) ^ 32 < 8 ^ 32 := by decide
  exact baseDigits_eq (by omega) (by omega) (by omega)

/-- **When `strtol` reads back a number that `%d` or `%z` prints**, whatever the modifiers: when
there is no `+` flag, or the number is not positive. -/
theorem strtol_signed_iff (hconv : d.conv = .decimal ∧ b = 10 ∨ d.conv = .signedHex ∧ b = 16)
    (hlong : d.longs ≤ 1) (hd : d.take args = some (L, .long w :: args')) (hr : L.Reads b r) :
    ∃ text, doprnt (formatChars [.dir d]) args 0 = some text ∧
      ((strtol text r).1 = w ↔ .plus ∉ d.flags ∨ w.toInt ≤ 0) := by
  obtain ⟨hlongs, hplus⟩ := take_layout hd
  have habs := natAbs_toInt_le w
  have hout : L.renderSigned b w.toInt = some (L.field
      ((if w.toInt < 0 then [chr '-'] else L.plus) ++ L.altPrefix b w.toInt.natAbs)
      (numerals b w.toInt.natAbs)) := by
    unfold Layout.renderSigned
    rw [baseDigits_word hr.1 habs]
    rfl
  have hread := strtol_field_iff hr w
  have hone : L.longs ≤ 1 := by omega
  generalize L.field ((if w.toInt < 0 then [chr '-'] else L.plus) ++ _) _ = text at hout hread
  have hnum : L.number (fun n => L.renderSigned b n.2.toInt) (.long w :: args') =
      some (text, args') := number_long hone hout
  have hrender : d.conv.render 0 L d.letter (.long w :: args') = some (text, args') := by
    rcases hconv with ⟨hk, rfl⟩ | ⟨hk, rfl⟩ <;> rw [hk] <;> exact hnum
  refine ⟨text, doprnt_render (render_single hd hrender), ?_⟩
  rw [hread, ne_eq, hplus]

/-- `"%+06d"`. -/
def plusDirective : Directive :=
  ⟨[.plus], true, .digits ⟨6, by decide⟩ [], none, 0, .decimal, chr 'd',
    by unfold Amount.Fits; decide, noPrec_fits, zero_taken, decimal_letter⟩

/-- It prints `-00042`, which reads back, and `+00042`, which does not. -/
theorem strtol_signed_iff_plus :
    (∃ text, doprnt (formatChars [.dir plusDirective]) [.long (-42)] 0 = some text ∧
      ((strtol text 10).1 = -42 ↔ .plus ∉ plusDirective.flags ∨ (-42 : Word).toInt ≤ 0)) ∧
    ∃ text, doprnt (formatChars [.dir plusDirective]) [.long 42] 0 = some text ∧
      ((strtol text 10).1 = 42 ↔ .plus ∉ plusDirective.flags ∨ (42 : Word).toInt ≤ 0) :=
  ⟨strtol_signed_iff (Or.inl ⟨rfl, rfl⟩) (by decide) rfl ⟨by decide, Or.inl rfl⟩,
    strtol_signed_iff (Or.inl ⟨rfl, rfl⟩) (by decide) rfl ⟨by decide, Or.inl rfl⟩⟩

/-- **What `%o`, `%u` and `%x` print reads back**, whatever the modifiers. -/
theorem strto_unsigned (hconv : d.conv = .octal ∧ b = 8 ∨ d.conv = .unsigned ∧ b = 10 ∨
      d.conv = .hex ∧ b = 16)
    (hlong : d.longs ≤ 1) (hd : d.take args = some (L, .long w :: args')) (hr : L.Reads b r) :
    ∃ text, doprnt (formatChars [.dir d]) args 0 = some text ∧ (strtoul text r).1 = w ∧
      (strtol text r).1 = w := by
  obtain ⟨hlongs, -⟩ := take_layout hd
  have hout : L.renderUnsigned b w.toNat =
      some (L.field (L.altPrefix b w.toNat) (numerals b w.toNat)) := by
    unfold Layout.renderUnsigned
    rw [baseDigits_word hr.1 w.isLt.le]
    rfl
  have hself : BitVec.ofNat 32 w.toNat = w := by
    rw [BitVec.ofNat_toNat, BitVec.setWidth_eq]
  have hone : L.longs ≤ 1 := by omega
  obtain ⟨m, hul⟩ := strtoul_field hr w.toNat
  obtain ⟨m', hl⟩ := strtol_field hr w.toNat
  generalize L.field (L.altPrefix b w.toNat) (numerals b w.toNat) = text at hout hul hl
  have hnum : L.number (fun n => L.renderUnsigned b n.2.toNat) (.long w :: args') =
      some (text, args') := number_long hone hout
  have hrender : d.conv.render 0 L d.letter (.long w :: args') = some (text, args') := by
    rcases hconv with ⟨hk, rfl⟩ | ⟨hk, rfl⟩ | ⟨hk, rfl⟩ <;> rw [hk] <;> exact hnum
  exact ⟨text, doprnt_render (render_single hd hrender), (congrArg Prod.fst hul).trans hself,
    (congrArg Prod.fst hl).trans hself⟩

/-- `"%#08x"`, read with base `0`. -/
def hexDirective : Directive :=
  ⟨[.alt], true, .digits ⟨8, by decide⟩ [], none, 0, .hex, chr 'x',
    by unfold Amount.Fits; decide, noPrec_fits, zero_taken, hex_letter⟩

theorem strto_unsigned_hex :
    ∃ text, doprnt (formatChars [.dir hexDirective]) [.long 0xbeef] 0 = some text ∧
      (strtoul text 0).1 = 0xbeef ∧ (strtol text 0).1 = 0xbeef :=
  strto_unsigned (Or.inr (Or.inr ⟨rfl, rfl⟩)) (by decide) rfl
    ⟨by decide, Or.inr ⟨rfl, Or.inr ⟨by decide, rfl⟩⟩⟩

end Directive

end Lab4Kernel
