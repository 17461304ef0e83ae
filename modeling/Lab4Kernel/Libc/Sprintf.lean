import Lab4Kernel.Lib.CString
import Lab4Kernel.Libc.Doprnt

/-!
# `sprintf` and `snprintf`

`tasks/libc/stdio/sprintf.c`. The format and the strings among the arguments do not overlap the
buffer.

* `savechar`, `vsprintf`, `vsnprintf`;
* **`vsprintf_stores`**: the output and a zero are stored, and its length is returned;
* **`vsnprintf_stores`**: as many characters as the size says are stored, and a zero behind them;
* **`vsnprintf_within_iff`**: the buffer is kept to exactly when the output is shorter than it, and
  otherwise the zero is stored one byte behind it.
-/

namespace Lab4Kernel

open CString

/-- `SPRINTF_UNLIMITED`. -/
def sprintfUnlimited : ℤ := -1

/-- `struct sprintf_state`, with memory. -/
structure SprintfState where
  buf : Word
  len : ℤ
  max : ℤ
  mem : Memory

/-- `savechar`. -/
def savechar (st : SprintfState) (c : Byte) : SprintfState :=
  if st.max ≠ sprintfUnlimited ∧ st.len = st.max then st
  else
    { st with
      len := wrap (st.len + 1)
      mem := Function.update st.mem st.buf c
      buf := st.buf + 1 }

/-- The end of `vsprintf` and `vsnprintf`. -/
def SprintfState.finish (st : SprintfState) : ℤ × Memory :=
  (st.len, Function.update st.mem st.buf 0)

/-- `vsprintf`. -/
def vsprintf (s : Word) (fmt : List Byte) (args : VaList) (mem : Memory) : Option (ℤ × Memory) :=
  (doprnt fmt args 0).map fun out =>
    (out.foldl savechar ⟨s, 0, sprintfUnlimited, mem⟩).finish

/-- `vsnprintf`. The size becomes an `int`. -/
def vsnprintf (s size : Word) (fmt : List Byte) (args : VaList) (mem : Memory) :
    Option (ℤ × Memory) :=
  (doprnt fmt args 0).map fun out => (out.foldl savechar ⟨s, 0, size.toInt, mem⟩).finish

/-- The characters that a limit lets through. No output reaches a negative one. -/
def keptChars (max : ℤ) (out : List Byte) : List Byte :=
  if 0 ≤ max then out.take max.toNat else out

variable {s size : Word} {mem : Memory} {max : ℤ} {out : List Byte}

theorem keptChars_of_nonneg (h : 0 ≤ max) (out : List Byte) :
    keptChars max out = out.take max.toNat := if_pos h

theorem keptChars_of_neg (h : ¬0 ≤ max) (out : List Byte) : keptChars max out = out := if_neg h

theorem length_keptChars_le (max : ℤ) (out : List Byte) :
    (keptChars max out).length ≤ out.length := by
  unfold keptChars
  split_ifs
  · exact List.length_take_le' _ _
  · exact le_rfl

/-- One more character, where the limit is reached or where it is not. -/
theorem keptChars_concat (max : ℤ) (out : List Byte) (c : Byte) :
    keptChars max (out ++ [c]) =
      if max ≠ sprintfUnlimited ∧ (keptChars max out).length = max then keptChars max out
      else keptChars max out ++ [c] := by
  by_cases hmax : 0 ≤ max
  · have hlen : (keptChars max out).length = min max.toNat out.length := by
      rw [keptChars_of_nonneg hmax, List.length_take]
    have hne : max ≠ sprintfUnlimited := by
      unfold sprintfUnlimited
      omega
    by_cases hfull : max.toNat ≤ out.length
    · rw [if_pos ⟨hne, by omega⟩, keptChars_of_nonneg hmax, keptChars_of_nonneg hmax,
        List.take_append_of_le_length hfull]
    · rw [if_neg (fun h => by omega), keptChars_of_nonneg hmax, keptChars_of_nonneg hmax,
        List.take_of_length_le (by simp; omega), List.take_of_length_le (by omega)]
  · rw [if_neg (fun h => by omega), keptChars_of_neg hmax, keptChars_of_neg hmax]

/-- **The state once the output is saved.** -/
theorem foldl_savechar (s : Word) (max : ℤ) (mem : Memory) (hlen : out.length < 2 ^ 31) :
    out.foldl savechar ⟨s, 0, max, mem⟩ =
      ⟨off s (keptChars max out).length, (keptChars max out).length, max,
        put mem s (keptChars max out)⟩ := by
  induction out using List.reverseRecOn with
  | nil =>
    have hnil : keptChars max [] = [] :=
      List.eq_nil_of_length_eq_zero (Nat.le_zero.mp (length_keptChars_le max []))
    rw [hnil, List.length_nil, off_zero, put_nil]
    rfl
  | append_singleton out c ih =>
    rw [List.length_append, List.length_singleton] at hlen
    have hkept := length_keptChars_le max out
    rw [List.foldl_append, ih (by omega), keptChars_concat]
    show savechar _ c = _
    unfold savechar
    dsimp only
    by_cases hfull : max ≠ sprintfUnlimited ∧ ((keptChars max out).length : ℤ) = max
    · rw [if_pos hfull, if_pos hfull]
    · rw [if_neg hfull, if_neg hfull, put_concat (by omega), wrap_eq (by omega) (by omega),
        List.length_append, List.length_singleton]
      have hbuf : off s (keptChars max out).length + 1 = off s ((keptChars max out).length + 1) :=
        off_off s _ 1
      rw [hbuf]
      push_cast
      rfl

theorem finish_savechar (s : Word) (max : ℤ) (mem : Memory) (hlen : out.length < 2 ^ 31) :
    (out.foldl savechar ⟨s, 0, max, mem⟩).finish =
      (((keptChars max out).length : ℤ), put mem s (keptChars max out ++ [0])) := by
  have hkept := length_keptChars_le max out
  rw [foldl_savechar s max mem hlen]
  unfold SprintfState.finish
  rw [put_concat (by omega)]

variable {fmt : List Byte} {args : VaList}

/-- **`vsprintf` stores the output and a zero, and returns its length.** -/
theorem vsprintf_stores (h : doprnt fmt args 0 = some out) (hlen : out.length < 2 ^ 31) (s : Word)
    (mem : Memory) :
    vsprintf s fmt args mem = some ((out.length : ℤ), put mem s (out ++ [0])) := by
  unfold vsprintf
  rw [h, Option.map_some, finish_savechar s _ mem hlen]
  rfl

/-- A number, and a `%` that ends the format. -/
theorem vsprintf_stores_decimal :
    vsprintf 0xa0000000 [chr '%', chr 'd', chr '%'] [.long (-12)] (fun _ => 1) =
      some (([chr '-', chr '1', chr '2'].length : ℤ),
        put (fun _ => 1) 0xa0000000 ([chr '-', chr '1', chr '2'] ++ [0])) :=
  vsprintf_stores (by rfl) (by decide) _ _

/-- **`vsnprintf` stores as much of the output as `size` says, and a zero behind it.** -/
theorem vsnprintf_stores (h : doprnt fmt args 0 = some out) (hlen : out.length < 2 ^ 31)
    (s size : Word) (mem : Memory) :
    vsnprintf s size fmt args mem =
      some (((keptChars size.toInt out).length : ℤ),
        put mem s (keptChars size.toInt out ++ [0])) := by
  unfold vsnprintf
  rw [h, Option.map_some, finish_savechar s _ mem hlen]

theorem vsnprintf_fills (h : doprnt fmt args 0 = some out) (hlen : out.length < 2 ^ 31)
    {size : Word} (hfull : size.toNat ≤ out.length) (s : Word) (mem : Memory) :
    vsnprintf s size fmt args mem =
      some ((size.toNat : ℤ), put mem s (out.take size.toNat ++ [0])) := by
  have hint : size.toInt = size.toNat := BitVec.toInt_eq_toNat_of_lt (by omega)
  have hkept : keptChars size.toInt out = out.take size.toNat := by
    rw [hint, keptChars_of_nonneg (Int.natCast_nonneg _), Int.toNat_natCast]
  rw [vsnprintf_stores h hlen, hkept, List.length_take, min_eq_left hfull]

/-- Nothing outside the buffer of `size` bytes changes. -/
def KeepsWithin (s size : Word) (mem mem' : Memory) : Prop :=
  ∀ a, (∀ i, i < size.toNat → a ≠ off s i) → mem' a = mem a

theorem keepsWithin_put {l : List Byte} (h : l.length ≤ size.toNat) (s : Word) (mem : Memory) :
    KeepsWithin s size mem (put mem s l) :=
  fun _ ha => put_other fun i hi => ha i (lt_of_lt_of_le hi h)

theorem put_concat_zero {l : List Byte} (h : l.length = size.toNat) (s : Word) (mem : Memory) :
    put mem s (l ++ [0]) (off s size.toNat) = 0 := by
  rw [put_off size.isLt, ← h, List.getD_append_right _ _ _ _ le_rfl, Nat.sub_self]
  rfl

theorem not_keepsWithin_put {l : List Byte} (h : l.length = size.toNat) (s : Word) :
    ¬KeepsWithin s size (fun _ => 1) (put (fun _ => 1) s (l ++ [0])) := by
  intro hkeep
  have hother : ∀ i, i < size.toNat → off s size.toNat ≠ off s i := by
    intro i hi he
    exact absurd (off_inj size.isLt (hi.trans size.isLt) he) (by omega)
  have hcell := hkeep _ hother
  rw [put_concat_zero h] at hcell
  have hzero : (0 : Byte) = 1 := hcell
  exact absurd hzero (by decide)

/-- **When `vsnprintf` keeps to its buffer**: when the output is shorter than it. The zero behind
an output of `size` characters or more is stored one byte behind the buffer. -/
theorem vsnprintf_within_iff (h : doprnt fmt args 0 = some out) (hlen : out.length < 2 ^ 31)
    (s size : Word) :
    ((∀ mem, ∃ r, vsnprintf s size fmt args mem = some r ∧ KeepsWithin s size mem r.2) ↔
      out.length < size.toNat) ∧
    (size.toNat ≤ out.length → ∀ mem, ∃ r, vsnprintf s size fmt args mem = some r ∧
      r.2 (off s size.toNat) = 0) := by
  have htake : size.toNat ≤ out.length → (out.take size.toNat).length = size.toNat := fun hge => by
    rw [List.length_take, min_eq_left hge]
  refine ⟨⟨fun hkeep => ?_, fun hlt mem => ?_⟩, fun hge mem => ?_⟩
  · by_contra hge
    have hfull := not_lt.mp hge
    obtain ⟨r, hr, hwithin⟩ := hkeep fun _ => 1
    rw [vsnprintf_fills h hlen hfull] at hr
    cases hr
    exact not_keepsWithin_put (htake hfull) s hwithin
  · refine ⟨_, vsnprintf_stores h hlen s size mem, keepsWithin_put ?_ s mem⟩
    have hkept := length_keptChars_le size.toInt out
    rw [List.length_append, List.length_singleton]
    omega
  · exact ⟨_, vsnprintf_fills h hlen hge s mem, put_concat_zero (htake hge) s mem⟩

/-- `%d` of a number that prints as four characters, into a buffer of four. -/
theorem vsnprintf_within_four :
    ((∀ mem, ∃ r, vsnprintf 0xa0000000 4 [chr '%', chr 'd'] [.long (-123)] mem = some r ∧
      KeepsWithin 0xa0000000 4 mem r.2) ↔
      [chr '-', chr '1', chr '2', chr '3'].length < (4 : Word).toNat) ∧
    ((4 : Word).toNat ≤ [chr '-', chr '1', chr '2', chr '3'].length → ∀ mem, ∃ r,
      vsnprintf 0xa0000000 4 [chr '%', chr 'd'] [.long (-123)] mem = some r ∧
        r.2 (off 0xa0000000 (4 : Word).toNat) = 0) :=
  vsnprintf_within_iff (by rfl) (by decide) _ _

end Lab4Kernel
