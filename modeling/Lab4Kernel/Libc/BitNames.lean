import Lab4Kernel.Libc.Render

/-!
# `%b`

The string that goes with `%b` names the bits and the bit fields of a register.

* `BitArg`, `BitArg.chars`: a bit or a field, and its text;
* `BitArg.shown`, `bitNames`: what is printed for it, and for all of them;
* **`printBits_names`**: `%b` prints the number, and the bits and fields that are named.
-/

namespace Lab4Kernel

open Numeral

/-- The name of the bit `hi`, counted from one, or of the field from `lo` to `hi`. -/
structure BitArg where
  hi : ℕ
  lo : Option ℕ
  name : List Byte
  hi_le : 1 ≤ hi ∧ hi ≤ 32
  lo_le : ∀ j ∈ lo, 1 ≤ j ∧ j ≤ hi
  name_gt : ∀ c ∈ name, c > 32
  name_ne : lo = none → name ≠ []

/-- The text of a name. -/
def BitArg.chars (a : BitArg) : List Byte :=
  BitVec.ofNat 8 a.hi :: (a.lo.map (BitVec.ofNat 8)).toList ++ a.name

/-- What is printed for a name: that of a bit which is set, and a field with its value. -/
def BitArg.shown (base : ℕ) (u : Word) (a : BitArg) : Option (List Byte) :=
  match a.lo with
  | none => if u.getLsbD (a.hi - 1) then some a.name else none
  | some j => some (a.name ++ numerals base (u.toNat / 2 ^ (j - 1) % 2 ^ (a.hi - j + 1)))

/-- The texts that are shown, with commas between them, in angle brackets. -/
def bitNames (base : ℕ) (u : Word) (names : List BitArg) : List Byte :=
  match names.filterMap (BitArg.shown base u) with
  | [] => []
  | text :: texts => chr '<' :: text ++ texts.flatMap (chr ',' :: ·) ++ [chr '>']

/-- The texts that are shown after the first one. -/
def moreNames (base : ℕ) (u : Word) (names : List BitArg) : List Byte :=
  (names.filterMap (BitArg.shown base u)).flatMap (chr ',' :: ·) ++ [chr '>']

/-! ## The steps of the loop -/

theorem toNat_ofNat_le {n : ℕ} (h : n ≤ 32) : (BitVec.ofNat 8 n).toNat = n := by
  rw [BitVec.toNat_ofNat]
  exact Nat.mod_eq_of_lt (by omega)

theorem not_gt_ofNat {n : ℕ} (h : n ≤ 32) : ¬BitVec.ofNat 8 n > 32 := by
  rw [gt_iff_lt, BitVec.lt_def, toNat_ofNat_le h, not_lt]
  exact h

/-- A name ends where the next one begins. -/
def NamesFollow (rest : List Byte) : Prop := ∀ c ∈ rest.head?, ¬c > 32

theorem namesFollow_chars (names : List BitArg) : NamesFollow (names.flatMap BitArg.chars) := by
  intro c hc
  cases names with
  | nil => cases hc
  | cons a names =>
    cases hc
    exact not_gt_ofNat a.hi_le.2

theorem takeWhile_name {name rest : List Byte} (hname : ∀ c ∈ name, c > 32)
    (hrest : NamesFollow rest) :
    (name ++ rest).takeWhile (· > 32) = name ∧ (name ++ rest).dropWhile (· > 32) = rest := by
  have hnone : rest.takeWhile (· > 32) = [] ∧ rest.dropWhile (· > 32) = rest := by
    cases rest with
    | nil => exact ⟨rfl, rfl⟩
    | cons c rest =>
      have hc := hrest c rfl
      exact ⟨List.takeWhile_cons_of_neg (by simpa using hc),
        List.dropWhile_cons_of_neg (by simpa using hc)⟩
  have hall : ∀ c ∈ name, decide (c > 32) = true := fun c hc => decide_eq_true (hname c hc)
  constructor
  · rw [List.takeWhile_append_of_pos hall, hnone.1, List.append_nil]
  · rw [List.dropWhile_append_of_pos hall, hnone.2]

theorem toNat_bitField (u : Word) {i j : ℕ} (hij : i - j ≤ 31) :
    ((u >>> (j - 1)) &&& ((2#32 <<< (i - j)) - 1)).toNat =
      u.toNat / 2 ^ (j - 1) % 2 ^ (i - j + 1) := by
  have hmask : ∀ k : Fin 32, ((2#32 <<< k.val) - 1).toNat = 2 ^ (k.val + 1) - 1 := by decide
  have h := hmask ⟨i - j, by omega⟩
  rw [BitVec.toNat_and, h, Nat.and_two_pow_sub_one_eq_mod, BitVec.toNat_ushiftRight,
    Nat.shiftRight_eq_div_pow]

theorem bit_set_iff (u : Word) {k : ℕ} (hk : k < 32) :
    u &&& (1#32 <<< k) ≠ 0 ↔ u.getLsbD k = true := by
  have hbit : 1#32 <<< k = BitVec.twoPow 32 k := by
    exact (BitVec.twoPow_eq 32 k).symm
  rw [hbit, BitVec.and_twoPow]
  split_ifs with h
  · refine iff_of_true ?_ h
    intro hz
    have hself := congrArg (fun x => BitVec.getLsbD x k) hz
    simp [hk] at hself
  · exact iff_of_false (fun hn => hn rfl) h

section Step

variable {base : ℕ} (hlo : 1 < base) (hhi : base ≤ 16) (u : Word) (fuel : ℕ) (any : Bool)
  {i : ℕ} {name rest : List Byte} (hi : 1 ≤ i ∧ i ≤ 32) (hname : ∀ c ∈ name, c > 32)
  (hrest : NamesFollow rest)

include hlo hhi hi hname hrest in
theorem bitsLoop_field {j : ℕ} (hj : 1 ≤ j ∧ j ≤ i) :
    bitsLoop u base (fuel + 1) (BitVec.ofNat 8 i :: BitVec.ofNat 8 j :: (name ++ rest)) any =
      (bitsLoop u base fuel rest true).map fun after =>
        (if any then chr ',' else chr '<') :: name ++
          numerals base (u.toNat / 2 ^ (j - 1) % 2 ^ (i - j + 1)) ++ after := by
  obtain ⟨htake, hdrop⟩ := takeWhile_name hname hrest
  have hle : BitVec.ofNat 8 j ≤ 32 := BitVec.not_lt.mp (not_gt_ofNat (hj.2.trans hi.2))
  rw [bitsLoop]
  simp only [peek_cons, List.tail_cons, toNat_ofNat_le hi.2, toNat_ofNat_le (hj.2.trans hi.2)]
  rw [if_neg (by omega), if_pos hle, if_neg (by omega), printnum_eq hlo hhi,
    toNat_bitField u (by omega), htake, hdrop]
  cases bitsLoop u base fuel rest true <;> rfl

include hi hname hrest in
theorem bitsLoop_bit (hne : name ≠ []) :
    bitsLoop u base (fuel + 1) (BitVec.ofNat 8 i :: (name ++ rest)) any =
      if u.getLsbD (i - 1) then
        (bitsLoop u base fuel rest true).map fun after =>
          (if any then chr ',' else chr '<') :: name ++ after
      else bitsLoop u base fuel rest any := by
  obtain ⟨htake, hdrop⟩ := takeWhile_name hname hrest
  have hgt : ¬peek (name ++ rest) ≤ 32 := by
    cases name with
    | nil => exact absurd rfl hne
    | cons c name => exact BitVec.not_le.mpr (hname c List.mem_cons_self)
  rw [bitsLoop]
  simp only [peek_cons, List.tail_cons, toNat_ofNat_le hi.2]
  rw [if_neg (by omega), if_neg hgt, if_neg (by omega), htake, hdrop,
    if_congr (bit_set_iff u (by omega)) rfl rfl]
  by_cases hbit : u.getLsbD (i - 1) = true
  · rw [if_pos hbit, if_pos hbit]
    cases bitsLoop u base fuel rest true <;> rfl
  · rw [if_neg hbit, if_neg hbit]

end Step

theorem moreNames_cons (base : ℕ) (u : Word) (a : BitArg) (names : List BitArg) :
    moreNames base u (a :: names) =
      match a.shown base u with
      | none => moreNames base u names
      | some text => chr ',' :: text ++ moreNames base u names := by
  unfold moreNames
  rw [List.filterMap_cons]
  cases a.shown base u with
  | none => rfl
  | some text => simp

theorem bitNames_cons (base : ℕ) (u : Word) (a : BitArg) (names : List BitArg) :
    bitNames base u (a :: names) =
      match a.shown base u with
      | none => bitNames base u names
      | some text => chr '<' :: text ++ moreNames base u names := by
  unfold bitNames moreNames
  rw [List.filterMap_cons]
  cases a.shown base u with
  | none => rfl
  | some text => simp

/-- **The loop prints the names that are shown.** -/
theorem bitsLoop_names {base : ℕ} (hlo : 1 < base) (hhi : base ≤ 16) (u : Word)
    (names : List BitArg) {fuel : ℕ} (hfuel : names.length < fuel) (any : Bool) :
    bitsLoop u base fuel (names.flatMap BitArg.chars) any =
      some (if any then moreNames base u names else bitNames base u names) := by
  induction names generalizing fuel any with
  | nil =>
    cases fuel with
    | zero => exact absurd hfuel (Nat.not_lt_zero _)
    | succ fuel => cases any <;> rfl
  | cons a names ih =>
    cases fuel with
    | zero => exact absurd hfuel (Nat.not_lt_zero _)
    | succ fuel =>
      have hrec := ih (Nat.lt_of_succ_lt_succ hfuel)
      have hrest := namesFollow_chars names
      rw [List.flatMap_cons, moreNames_cons, bitNames_cons]
      cases hl : a.lo with
      | none =>
        have hchars : a.chars = BitVec.ofNat 8 a.hi :: a.name := by
          unfold BitArg.chars
          rw [hl]
          rfl
        have hshown : a.shown base u = if u.getLsbD (a.hi - 1) then some a.name else none := by
          unfold BitArg.shown
          rw [hl]
        rw [hchars, List.cons_append, bitsLoop_bit u fuel any a.hi_le a.name_gt hrest
          (a.name_ne hl), hrec, hrec, hshown]
        by_cases hbit : u.getLsbD (a.hi - 1) = true
        · rw [if_pos hbit, if_pos hbit]
          cases any <;> rfl
        · rw [if_neg hbit, if_neg hbit]
      | some j =>
        have hchars : a.chars = BitVec.ofNat 8 a.hi :: BitVec.ofNat 8 j :: a.name := by
          unfold BitArg.chars
          rw [hl]
          rfl
        have hshown : a.shown base u =
            some (a.name ++ numerals base (u.toNat / 2 ^ (j - 1) % 2 ^ (a.hi - j + 1))) := by
          unfold BitArg.shown
          rw [hl]
        rw [hchars, List.cons_append, List.cons_append,
          bitsLoop_field hlo hhi u fuel any a.hi_le a.name_gt hrest (a.lo_le j hl), hrec, hshown]
        cases any <;> simp

/-- **`%b` prints the number, and the bits and the fields of it that are named.** -/
theorem printBits_names {base : ℕ} (hlo : 1 < base) (hhi : base ≤ 16) (u : Word)
    (names : List BitArg) :
    printBits u (BitVec.ofNat 8 base :: names.flatMap BitArg.chars) =
      some (numerals base u.toNat ++ if u = 0 then [] else bitNames base u names) := by
  have hbase : (BitVec.ofNat 8 base).toNat = base := toNat_ofNat_le (by omega)
  have hlen : names.length < (names.flatMap BitArg.chars).length + 1 := by
    rw [Nat.lt_succ_iff, List.length_flatMap, ← List.length_map (fun a => a.chars.length)]
    apply List.length_le_sum_of_one_le
    intro n hn
    obtain ⟨a, -, rfl⟩ := List.mem_map.mp hn
    exact Nat.succ_pos _
  unfold printBits
  simp only [peek_cons, List.tail_cons]
  rw [hbase, printnum_eq hlo hhi]
  simp only [Option.bind_eq_bind, Option.bind_some]
  split_ifs
  · rw [List.append_nil]
  · rw [bitsLoop_names hlo hhi u names hlen]
    rfl

/-- `"\4\3F=\2T\1O"`: a field of two bits, and two bits. -/
def sampleNames : List BitArg :=
  [⟨4, some 3, [chr 'F', chr '='], by decide, by simp, by decide, by simp⟩,
    ⟨2, none, [chr 'T'], by decide, by simp, by decide, by simp⟩,
    ⟨1, none, [chr 'O'], by decide, by simp, by decide, by simp⟩]

/-- A register that holds `0xb`. -/
theorem printBits_names_register :
    printBits 0xb (BitVec.ofNat 8 16 :: sampleNames.flatMap BitArg.chars) =
      some [chr 'b', chr '<', chr 'F', chr '=', chr '2', chr ',', chr 'T', chr ',', chr 'O',
        chr '>'] :=
  printBits_names (by decide) (by decide) 0xb sampleNames

end Lab4Kernel
