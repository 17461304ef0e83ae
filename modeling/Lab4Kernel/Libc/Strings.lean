import Lab4Kernel.Kernel.Io
import Lab4Kernel.Lib.CString
import Lab4Kernel.Libc.Ctype
import Mathlib.Data.BitVec
import Mathlib.Data.List.Infix

/-!
# String functions that read

`tasks/libc/string`. A loop over memory is `none` when it has met every address and goes on.

* `strlen`, `strcmp`, `strncmp`, `strchr`, `strrchr`, `strspn`, `strcspn`, `strpbrk`, `memcmp`,
  `strstr`;
* `strlen_eq`, `strchr_eq`, `strrchr_eq`, `strspn_eq`, `strcspn_eq`, `strpbrk_eq`: what they return
  on strings;
* **`strcmp_order`**, **`strncmp_order`**: the sign of the result is the lexicographic order;
* **`strstr_leftmost`**: the result is where the second string occurs first.
-/

namespace Lab4Kernel

open CString

/-- The number of addresses. -/
def addresses : ℕ := 2 ^ 32

section Definitions

variable (mem : Memory)

/-- `while (*string++);`, with the pointer after it. -/
def strlenLoop : ℕ → Word → Option Word
  | 0, _ => none
  | n + 1, string => if mem string ≠ 0 then strlenLoop n (string + 1) else some (string + 1)

/-- `strlen`. -/
def strlen (string : Word) : Option Word :=
  (strlenLoop mem addresses string).map fun p => p - 1 - string

/-- A `char` as an `unsigned int`, or as an `int`. -/
def promote (c : Byte) : Word := c.setWidth 32

/-- The loop of `strcmp`. -/
def strcmpLoop : ℕ → Word → Word → Option ℤ
  | 0, _, _ => none
  | n + 1, s1, s2 =>
    let a := promote (mem s1)
    let b := promote (mem s2)
    if a ≠ 0 ∧ b ≠ 0 then
      if a ≠ b then some (a - b).toInt else strcmpLoop n (s1 + 1) (s2 + 1)
    else some (a - b).toInt

/-- `strcmp`. -/
def strcmp (s1 s2 : Word) : Option ℤ := strcmpLoop mem addresses s1 s2

/-- `strncmp`, for `n` further characters. -/
def strncmpLoop : ℕ → Word → Word → ℤ
  | 0, _, _ => 0
  | n + 1, s1, s2 =>
    if mem s1 ≠ mem s2 then (promote (mem s1) - promote (mem s2)).toInt
    else if mem s1 = 0 then 0
    else strncmpLoop n (s1 + 1) (s2 + 1)

/-- `strncmp`. -/
def strncmp (s1 s2 n : Word) : ℤ := strncmpLoop mem n.toNat s1 s2

/-- The loop of `strchr`. A pointer that is `NULL` is `none`. -/
def strchrLoop (c : Word) : ℕ → Word → Option (Option Word)
  | 0, _ => none
  | n + 1, s =>
    if promote (mem s) = c then some (some s)
    else if mem s = 0 then some none
    else strchrLoop c n (s + 1)

/-- `strchr`. -/
def strchr (s c : Word) : Option (Option Word) := strchrLoop mem c addresses s

/-- The loop of `strrchr`. -/
def strrchrLoop (c : Word) : ℕ → Word → Option Word → Option (Option Word)
  | 0, _, _ => none
  | n + 1, s, save =>
    if mem s ≠ 0 then strrchrLoop c n (s + 1) (if promote (mem s) = c then some s else save)
    else some save

/-- `strrchr`. -/
def strrchr (s c : Word) : Option (Option Word) := strrchrLoop mem c addresses s none

/-- `for (spanp = s2; (sc = *spanp++) != 0;)`: whether the character is met. -/
def spanLoop (c : Byte) : ℕ → Word → Option Bool
  | 0, _ => none
  | n + 1, spanp =>
    let sc := mem spanp
    if sc ≠ 0 then if sc = c then some true else spanLoop c n (spanp + 1) else some false

/-- `do … while (sc != 0);` of `strcspn`: whether the character is met. -/
def cspanLoop (c : Byte) : ℕ → Word → Option Bool
  | 0, _ => none
  | n + 1, spanp =>
    let sc := mem spanp
    if sc = c then some true else if sc ≠ 0 then cspanLoop c n (spanp + 1) else some false

/-- The outer loop of `strspn`, with `p` after it. -/
def strspnLoop (s2 : Word) : ℕ → Word → Option Word
  | 0, _ => none
  | n + 1, p =>
    (spanLoop mem (mem p) addresses s2).bind fun found =>
      if found then strspnLoop s2 n (p + 1) else some (p + 1)

/-- `strspn`. -/
def strspn (s1 s2 : Word) : Option Word :=
  (strspnLoop mem s2 addresses s1).map fun p => p - 1 - s1

/-- The outer loop of `strcspn`, with `p` after it. -/
def strcspnLoop (s2 : Word) : ℕ → Word → Option Word
  | 0, _ => none
  | n + 1, p =>
    (cspanLoop mem (mem p) addresses s2).bind fun found =>
      if found then some (p + 1) else strcspnLoop s2 n (p + 1)

/-- `strcspn`. -/
def strcspn (s1 s2 : Word) : Option Word :=
  (strcspnLoop mem s2 addresses s1).map fun p => p - 1 - s1

/-- The outer loop of `strpbrk`. -/
def strpbrkLoop (s2 : Word) : ℕ → Word → Option (Option Word)
  | 0, _ => none
  | n + 1, s1 =>
    if mem s1 ≠ 0 then
      (spanLoop mem (mem s1) addresses s2).bind fun found =>
        if found then some (some s1) else strpbrkLoop s2 n (s1 + 1)
    else some none

/-- `strpbrk`. -/
def strpbrk (s1 s2 : Word) : Option (Option Word) := strpbrkLoop mem s2 addresses s1

/-- `memcmp`, for `n` further cells. -/
def memcmpLoop : ℕ → Word → Word → ℤ
  | 0, _, _ => 0
  | n + 1, s1, s2 =>
    let a := promote (mem s1)
    let b := promote (mem s2)
    if a ≠ b then (a - b).toInt else memcmpLoop n (s1 + 1) (s2 + 1)

/-- `memcmp`. -/
def memcmp (s1 s2 size : Word) : ℤ := memcmpLoop mem size.toNat s1 s2

/-- The loop of `strstr`. -/
def strstrLoop (needle : Word) (nlen : ℤ) : ℕ → Word → ℤ → Option (Option Word)
  | 0, _, _ => none
  | n + 1, haystack, hlen =>
    if hlen ≥ nlen then
      if memcmp mem haystack needle (BitVec.ofInt 32 nlen) = 0 then some (some haystack)
      else strstrLoop needle nlen n (haystack + 1) (wrap (hlen - 1))
    else some none

/-- `strstr`. The lengths become `int`. -/
def strstr (haystack needle : Word) : Option (Option Word) := do
  let hlen ← strlen mem haystack
  let nlen ← strlen mem needle
  strstrLoop mem needle nlen.toInt addresses haystack hlen.toInt

end Definitions

variable {mem : Memory} {p q : Word} {l l' : List Byte}

theorem toNat_promote (c : Byte) : (promote c).toNat = c.toNat := by
  unfold promote
  rw [BitVec.toNat_setWidth, Nat.mod_eq_of_lt (lt_trans c.isLt (by decide))]

theorem promote_inj {c d : Byte} : promote c = promote d ↔ c = d := by
  rw [← BitVec.toNat_inj, toNat_promote, toNat_promote, BitVec.toNat_inj]

theorem promote_eq_zero {c : Byte} : promote c = 0 ↔ c = 0 := promote_inj (d := 0)

theorem toInt_promote_sub (c d : Byte) : (promote c - promote d).toInt = c.toNat - d.toNat := by
  have hc := c.isLt
  have hd := d.isLt
  rw [BitVec.toInt_sub, BitVec.toInt_eq_toNat_of_lt (by rw [toNat_promote]; omega),
    BitVec.toInt_eq_toNat_of_lt (by rw [toNat_promote]; omega), toNat_promote, toNat_promote]
  apply Int.bmod_eq_of_le_mul_two <;> omega

/-! ## Lengths -/

theorem strlenLoop_eq {n : ℕ} (h : IsString mem p l) (hn : l.length < n) :
    strlenLoop mem n p = some (off p (l.length + 1)) := by
  induction n generalizing p l with
  | zero => cases hn
  | succ n ih =>
    rw [strlenLoop]
    by_cases hz : mem p = 0
    · rw [if_neg (not_not.mpr hz), h.eq_nil hz]
      rfl
    · obtain ⟨l, rfl, htail⟩ := h.exists_cons hz
      rw [if_pos hz, ih htail (Nat.lt_of_succ_lt_succ hn), List.length_cons, off_succ]

theorem length_lt_addresses (h : IsString mem p l) : l.length < addresses := h.length_lt

theorem behind_sub (p : Word) (i : ℕ) : off p (i + 1) - 1 - p = BitVec.ofNat 32 i := by
  have hback : off p (i + 1) - 1 = off p i := by
    rw [← off_off]
    exact BitVec.add_sub_cancel _ _
  rw [hback]
  unfold off
  rw [BitVec.add_comm, BitVec.add_sub_cancel]

theorem strlen_eq (h : IsString mem p l) : strlen mem p = some (BitVec.ofNat 32 l.length) := by
  unfold strlen
  rw [strlenLoop_eq h (length_lt_addresses h), Option.map_some, behind_sub]

/-! ## Comparisons -/

/-- The sign of a result is the order of two strings. -/
def Orders (r : ℤ) (l l' : List Byte) : Prop :=
  (r < 0 ↔ l < l') ∧ (r = 0 ↔ l = l') ∧ (0 < r ↔ l' < l)

theorem orders_nil : Orders 0 [] [] := by
  unfold Orders
  simp

theorem orders_cons {c d : Byte} {r : ℤ} :
    Orders r (c :: l) (d :: l') ↔
      if c = d then Orders r l l' else (r < 0 ↔ c < d) ∧ r ≠ 0 ∧ (0 < r ↔ d < c) := by
  unfold Orders
  by_cases hcd : c = d
  · rw [if_pos hcd, hcd]
    simp
  · rw [if_neg hcd]
    simp [List.cons_lt_cons_iff, hcd, Ne.symm hcd]

theorem orders_of_ne {c d : Byte} (h : c ≠ d) (l l' : List Byte) :
    Orders (promote c - promote d).toInt (c :: l) (d :: l') := by
  have hne := mt BitVec.toNat_inj.mp h
  rw [orders_cons, if_neg h, toInt_promote_sub, BitVec.lt_def, BitVec.lt_def]
  omega

theorem orders_nil_left {r : ℤ} {c : Byte} : Orders r [] (c :: l) ↔ r < 0 := by
  unfold Orders
  simp
  omega

theorem orders_nil_right {r : ℤ} {c : Byte} : Orders r (c :: l) [] ↔ 0 < r := by
  unfold Orders
  simp
  omega

theorem orders_of_end (hl : ∀ c ∈ l, c ≠ 0) (hl' : ∀ c ∈ l', c ≠ 0)
    (hend : ¬(l.headD 0 ≠ 0 ∧ l'.headD 0 ≠ 0)) :
    Orders (promote (l.headD 0) - promote (l'.headD 0)).toInt l l' := by
  have hpos : ∀ {c : Byte}, c ≠ 0 → 0 < c.toNat := fun hc =>
    Nat.pos_of_ne_zero fun hz => hc (BitVec.toNat_inj.mp hz)
  rw [toInt_promote_sub]
  cases l with
  | nil =>
    cases l' with
    | nil => exact orders_nil
    | cons d l' =>
      have hd := hpos (hl' d List.mem_cons_self)
      rw [orders_nil_left]
      simpa using hd
  | cons c l =>
    have hc := hl c List.mem_cons_self
    cases l' with
    | nil =>
      have hc := hpos hc
      rw [orders_nil_right]
      simpa using hc
    | cons d l' => exact absurd ⟨hc, hl' d List.mem_cons_self⟩ hend

theorem strcmpLoop_order {n : ℕ} (h : IsString mem p l) (h' : IsString mem q l')
    (hn : l.length < n) : ∃ r, strcmpLoop mem n p q = some r ∧ Orders r l l' := by
  induction n generalizing p q l l' with
  | zero => cases hn
  | succ n ih =>
    unfold strcmpLoop
    simp only [Ne, promote_eq_zero, promote_inj]
    by_cases hend : mem p ≠ 0 ∧ mem q ≠ 0
    · rw [if_pos hend]
      obtain ⟨l, rfl, htail⟩ := h.exists_cons hend.1
      obtain ⟨l', rfl, htail'⟩ := h'.exists_cons hend.2
      by_cases hne : mem p = mem q
      · rw [if_neg (not_not.mpr hne)]
        obtain ⟨r, hr, hord⟩ := ih htail htail' (Nat.lt_of_succ_lt_succ hn)
        exact ⟨r, hr, orders_cons.mpr (by rwa [if_pos hne])⟩
      · rw [if_pos hne]
        exact ⟨_, rfl, orders_of_ne hne l l'⟩
    · rw [if_neg hend]
      rw [← h.headD, ← h'.headD] at hend ⊢
      exact ⟨_, rfl, orders_of_end h.ne_zero h'.ne_zero hend⟩

/-- **The sign of `strcmp` is the lexicographic order** of the strings, with `char` unsigned. -/
theorem strcmp_order (h : IsString mem p l) (h' : IsString mem q l') :
    ∃ r, strcmp mem p q = some r ∧ Orders r l l' :=
  strcmpLoop_order h h' (length_lt_addresses h)

theorem strcmp_order_ab :
    ∃ r, strcmp (put (fun _ => 0) 0xa0000000 [chr 'a', 0, chr 'a', chr 'b']) 0xa0000000
      0xa0000002 = some r ∧ Orders r [chr 'a'] [chr 'a', chr 'b'] :=
  strcmp_order ⟨by decide, by decide⟩ ⟨by decide, by decide⟩

theorem strncmpLoop_order {n : ℕ} (h : IsString mem p l) (h' : IsString mem q l') :
    Orders (strncmpLoop mem n p q) (l.take n) (l'.take n) := by
  induction n generalizing p q l l' with
  | zero =>
    rw [List.take_zero, List.take_zero]
    exact orders_nil
  | succ n ih =>
    unfold strncmpLoop
    by_cases hne : mem p = mem q
    · rw [if_neg (not_not.mpr hne)]
      by_cases hz : mem p = 0
      · rw [if_pos hz, h.eq_nil hz, h'.eq_nil (hne ▸ hz), List.take_nil]
        exact orders_nil
      · rw [if_neg hz]
        obtain ⟨l, rfl, htail⟩ := h.exists_cons hz
        obtain ⟨l', rfl, htail'⟩ := h'.exists_cons (hne ▸ hz)
        rw [List.take_succ_cons, List.take_succ_cons, orders_cons, if_pos hne]
        exact ih htail htail'
    · rw [if_pos hne]
      by_cases hend : mem p ≠ 0 ∧ mem q ≠ 0
      · obtain ⟨l, rfl, -⟩ := h.exists_cons hend.1
        obtain ⟨l', rfl, -⟩ := h'.exists_cons hend.2
        exact orders_of_ne hne _ _
      · have hhead : ∀ x : List Byte, (x.take (n + 1)).headD 0 = x.headD 0 := by
          rintro (_ | ⟨c, x⟩) <;> rfl
        rw [← h.headD, ← h'.headD, ← hhead l, ← hhead l'] at hend ⊢
        exact orders_of_end (fun c hc => h.ne_zero c (List.mem_of_mem_take hc))
          (fun c hc => h'.ne_zero c (List.mem_of_mem_take hc)) hend

/-- **The sign of `strncmp` is the lexicographic order** of the first `n` characters. -/
theorem strncmp_order (h : IsString mem p l) (h' : IsString mem q l') (n : Word) :
    Orders (strncmp mem p q n) (l.take n.toNat) (l'.take n.toNat) :=
  strncmpLoop_order h h'

theorem strncmp_order_ab :
    Orders (strncmp (put (fun _ => 0) 0xa0000000 [chr 'a', 0, chr 'a', chr 'b']) 0xa0000000
      0xa0000002 1) ([chr 'a'].take 1) ([chr 'a', chr 'b'].take 1) :=
  strncmp_order ⟨by decide, by decide⟩ ⟨by decide, by decide⟩ 1

/-! ## Searches for a character -/

theorem map_off_succ (p : Word) (r : Option ℕ) :
    (r.map (· + 1)).map (off p) = r.map (off (p + 1)) := by
  rw [Option.map_map]
  congr 1
  funext i
  exact (off_succ p i).symm

theorem map_findIdx?_cons {P : Byte → Bool} (c : Byte) (l : List Byte) :
    ((c :: l).findIdx? P).map (off p) =
      if P c then some p else (l.findIdx? P).map (off (p + 1)) := by
  rw [List.findIdx?_cons]
  split_ifs
  · rw [Option.map_some, off_zero]
  · exact map_off_succ p _

theorem strchrLoop_eq {n : ℕ} (h : IsString mem p l) (hn : l.length < n) (c : Word) :
    strchrLoop mem c n p =
      some (((l ++ [0]).findIdx? fun d => promote d = c).map (off p)) := by
  induction n generalizing p l with
  | zero => cases hn
  | succ n ih =>
    unfold strchrLoop
    by_cases hz : mem p = 0
    · rw [h.eq_nil hz, if_pos hz, hz, List.nil_append, map_findIdx?_cons]
      simp only [decide_eq_true_eq]
      split_ifs <;> rfl
    · obtain ⟨l, rfl, htail⟩ := h.exists_cons hz
      rw [List.cons_append, map_findIdx?_cons, if_neg hz, ih htail (Nat.lt_of_succ_lt_succ hn)]
      simp only [decide_eq_true_eq]
      split_ifs <;> rfl

/-- `strchr` finds the first place of the character in the string and its zero. -/
theorem strchr_eq (h : IsString mem p l) (c : Word) :
    strchr mem p c = some (((l ++ [0]).findIdx? fun d => promote d = c).map (off p)) :=
  strchrLoop_eq h (length_lt_addresses h) c

/-- The index of the last element that satisfies `P`, if one does. -/
def lastIdx? (P : Byte → Bool) : List Byte → Option ℕ
  | [] => none
  | c :: l => ((lastIdx? P l).map (· + 1)).or (if P c then some 0 else none)

theorem strrchrLoop_eq {n : ℕ} (h : IsString mem p l) (hn : l.length < n) (c : Word)
    (save : Option Word) :
    strrchrLoop mem c n p save =
      some (((lastIdx? (fun d => promote d = c) l).map (off p)).or save) := by
  induction n generalizing p l save with
  | zero => cases hn
  | succ n ih =>
    unfold strrchrLoop
    by_cases hz : mem p = 0
    · rw [h.eq_nil hz, if_neg (not_not.mpr hz)]
      rfl
    · obtain ⟨l, rfl, htail⟩ := h.exists_cons hz
      rw [if_pos hz, ih htail (Nat.lt_of_succ_lt_succ hn), lastIdx?, Option.map_or, map_off_succ,
        Option.or_assoc]
      simp only [decide_eq_true_eq]
      split_ifs
      · rw [Option.map_some, off_zero]
        rfl
      · rfl

/-- What `strrchr` finds: the last place of the character, the zero of the string apart. -/
theorem strrchr_eq (h : IsString mem p l) (c : Word) :
    strrchr mem p c = some ((lastIdx? (fun d => promote d = c) l).map (off p)) := by
  unfold strrchr
  rw [strrchrLoop_eq h (length_lt_addresses h), Option.or_none]

theorem lastIdx?_concat (P : Byte → Bool) (l : List Byte) (c : Byte) :
    lastIdx? P (l ++ [c]) = if P c then some l.length else lastIdx? P l := by
  induction l with
  | nil =>
    rw [List.nil_append, lastIdx?]
    rfl
  | cons d l ih =>
    rw [List.cons_append, lastIdx?, ih]
    by_cases hc : P c = true
    · rw [if_pos hc, if_pos hc]
      rfl
    · rw [if_neg hc, if_neg hc]
      rfl

theorem lastIdx?_none {P : Byte → Bool} (h : ∀ c ∈ l, P c = false) : lastIdx? P l = none := by
  induction l with
  | nil => rfl
  | cons c l ih =>
    rw [lastIdx?, ih fun d hd => h d (List.mem_cons_of_mem _ hd), h c List.mem_cons_self]
    rfl

/-- The loop of `strrchr` ends before the zero is compared. -/
theorem strrchr_zero (h : IsString mem p l) : strrchr mem p 0 = some none := by
  have hnone : lastIdx? (fun d => promote d = 0) l = none := by
    apply lastIdx?_none
    intro d hd
    rw [decide_eq_false_iff_not, promote_eq_zero]
    exact h.ne_zero d hd
  rw [strrchr_eq h, hnone]
  rfl

/-- **When `strrchr` finds the last place of a character in the string and its zero**, as `strchr`
finds the first: when the character is not the zero. For the zero it returns `NULL`. -/
theorem strrchr_last_iff (h : IsString mem p l) (c : Word) :
    (strrchr mem p c = some ((lastIdx? (fun d => promote d = c) (l ++ [0])).map (off p)) ↔
      c ≠ 0) ∧
    strrchr mem p 0 = some none := by
  refine ⟨?_, strrchr_zero h⟩
  by_cases hc : c = 0
  · have hzero : decide (promote 0 = (0 : Word)) = true := rfl
    rw [hc, strrchr_zero h, lastIdx?_concat, if_pos hzero]
    exact iff_of_false nofun (not_not.mpr rfl)
  · have hne : ¬decide (promote 0 = c) = true := by
      rw [decide_eq_true_eq]
      exact fun he => hc he.symm
    rw [strrchr_eq h, lastIdx?_concat, if_neg hne]
    exact iff_of_true rfl hc

theorem strrchr_last_iff_zero :
    (strrchr (put (fun _ => 0) 0xa0000000 [chr 'a']) 0xa0000000 0 =
      some ((lastIdx? (fun d => promote d = 0) ([chr 'a'] ++ [0])).map (off 0xa0000000)) ↔
        (0 : Word) ≠ 0) ∧
    strrchr (put (fun _ => 0) 0xa0000000 [chr 'a']) 0xa0000000 0 = some none :=
  strrchr_last_iff ⟨by decide, by decide⟩ 0

/-! ## Spans -/

theorem spanLoop_eq {n : ℕ} (h : IsString mem q l') (hn : l'.length < n) (c : Byte) :
    spanLoop mem c n q = some (decide (c ∈ l')) := by
  induction n generalizing q l' with
  | zero => cases hn
  | succ n ih =>
    unfold spanLoop
    by_cases hz : mem q = 0
    · rw [h.eq_nil hz, if_neg (not_not.mpr hz)]
      rfl
    · obtain ⟨l', rfl, htail⟩ := h.exists_cons hz
      rw [if_pos hz, ih htail (Nat.lt_of_succ_lt_succ hn)]
      by_cases hc : mem q = c
      · rw [if_pos hc, hc, decide_eq_true List.mem_cons_self]
      · rw [if_neg hc]
        simp [Ne.symm hc]

/-- The inner loop of `strcspn` meets the zero of the string as well. -/
theorem cspanLoop_eq {n : ℕ} (h : IsString mem q l') (hn : l'.length < n) (c : Byte) :
    cspanLoop mem c n q = some (decide (c ∈ l' ++ [0])) := by
  induction n generalizing q l' with
  | zero => cases hn
  | succ n ih =>
    unfold cspanLoop
    by_cases hc : mem q = c
    · rw [if_pos hc]
      by_cases hz : mem q = 0
      · simp [← hc, hz]
      · obtain ⟨l', rfl, -⟩ := h.exists_cons hz
        simp [hc]
    · rw [if_neg hc]
      by_cases hz : mem q = 0
      · rw [if_neg (not_not.mpr hz), h.eq_nil hz]
        simp [← hz, Ne.symm hc]
      · obtain ⟨l', rfl, htail⟩ := h.exists_cons hz
        rw [if_pos hz, ih htail (Nat.lt_of_succ_lt_succ hn)]
        simp [Ne.symm hc]

theorem strspnLoop_eq {n : ℕ} (h : IsString mem p l) (h' : IsString mem q l')
    (hn : l.length < n) :
    strspnLoop mem q n p = some (off p ((l.takeWhile (· ∈ l')).length + 1)) := by
  induction n generalizing p l with
  | zero => cases hn
  | succ n ih =>
    unfold strspnLoop
    rw [spanLoop_eq h' (length_lt_addresses h'), Option.bind_some]
    by_cases hz : mem p = 0
    · have hout : ¬decide ((0 : Byte) ∈ l') = true := by
        rw [decide_eq_true_eq]
        exact fun hmem => h'.ne_zero 0 hmem rfl
      rw [hz, if_neg hout, h.eq_nil hz]
      rfl
    · obtain ⟨l, rfl, htail⟩ := h.exists_cons hz
      rw [List.takeWhile_cons, ih htail (Nat.lt_of_succ_lt_succ hn)]
      split_ifs
      · rw [List.length_cons, off_succ]
      · rfl

/-- `strspn` returns the number of characters up to the first that is not in the second string. -/
theorem strspn_eq (h : IsString mem p l) (h' : IsString mem q l') :
    strspn mem p q = some (BitVec.ofNat 32 (l.takeWhile (· ∈ l')).length) := by
  unfold strspn
  rw [strspnLoop_eq h h' (length_lt_addresses h), Option.map_some, behind_sub]

theorem strcspnLoop_eq {n : ℕ} (h : IsString mem p l) (h' : IsString mem q l')
    (hn : l.length < n) :
    strcspnLoop mem q n p = some (off p ((l.takeWhile (· ∉ l')).length + 1)) := by
  induction n generalizing p l with
  | zero => cases hn
  | succ n ih =>
    unfold strcspnLoop
    rw [cspanLoop_eq h' (length_lt_addresses h'), Option.bind_some]
    by_cases hz : mem p = 0
    · have hin : decide ((0 : Byte) ∈ l' ++ [0]) = true := by simp
      rw [hz, if_pos hin, h.eq_nil hz]
      rfl
    · obtain ⟨l, rfl, htail⟩ := h.exists_cons hz
      have hmem : mem p ∈ l' ++ [0] ↔ mem p ∈ l' := by
        rw [List.mem_append, List.mem_singleton, or_iff_left hz]
      rw [List.takeWhile_cons, ih htail (Nat.lt_of_succ_lt_succ hn)]
      simp only [hmem, decide_eq_true_eq, ite_not]
      split_ifs
      · rfl
      · rw [List.length_cons, off_succ]

/-- `strcspn` returns the number of characters up to the first that is in the second string. -/
theorem strcspn_eq (h : IsString mem p l) (h' : IsString mem q l') :
    strcspn mem p q = some (BitVec.ofNat 32 (l.takeWhile (· ∉ l')).length) := by
  unfold strcspn
  rw [strcspnLoop_eq h h' (length_lt_addresses h), Option.map_some, behind_sub]

theorem strpbrkLoop_eq {n : ℕ} (h : IsString mem p l) (h' : IsString mem q l')
    (hn : l.length < n) :
    strpbrkLoop mem q n p = some ((l.findIdx? (· ∈ l')).map (off p)) := by
  induction n generalizing p l with
  | zero => cases hn
  | succ n ih =>
    unfold strpbrkLoop
    by_cases hz : mem p = 0
    · rw [if_neg (not_not.mpr hz), h.eq_nil hz]
      rfl
    · obtain ⟨l, rfl, htail⟩ := h.exists_cons hz
      rw [if_pos hz, spanLoop_eq h' (length_lt_addresses h'), Option.bind_some,
        map_findIdx?_cons, ih htail (Nat.lt_of_succ_lt_succ hn)]
      split_ifs <;> rfl

/-- `strpbrk` finds the first character that is in the second string. -/
theorem strpbrk_eq (h : IsString mem p l) (h' : IsString mem q l') :
    strpbrk mem p q = some ((l.findIdx? (· ∈ l')).map (off p)) :=
  strpbrkLoop_eq h h' (length_lt_addresses h)

/-! ## Substrings -/

theorem memcmpLoop_eq_zero_iff (h : IsString mem p l) (h' : IsString mem q l')
    (hle : l'.length ≤ l.length) : memcmpLoop mem l'.length p q = 0 ↔ l' <+: l := by
  induction l' generalizing p q l with
  | nil => exact iff_of_true rfl List.nil_prefix
  | cons d l' ih =>
    cases l with
    | nil => exact absurd hle (Nat.not_succ_le_zero _)
    | cons c l =>
      rw [List.length_cons, memcmpLoop, h.head, h'.head, List.cons_prefix_cons]
      by_cases hcd : c = d
      · rw [if_neg (not_not.mpr (congrArg promote hcd))]
        rw [and_iff_right hcd.symm]
        exact ih h.tail h'.tail (Nat.le_of_succ_le_succ hle)
      · rw [if_pos (mt promote_inj.mp hcd)]
        have hne : (promote c - promote d).toInt ≠ 0 := by
          have hnat := mt BitVec.toNat_inj.mp hcd
          rw [toInt_promote_sub]
          omega
        exact iff_of_false hne fun hand => hcd hand.1.symm

/-- Where a string is found in another one: nowhere, or at the first index where it begins. -/
def FoundAt (p : Word) (l l' : List Byte) : Option Word → Prop
  | none => ¬l' <:+: l
  | some a => ∃ i, a = off p i ∧ i ≤ l.length ∧ l' <+: l.drop i ∧ ∀ j < i, ¬l' <+: l.drop j

theorem foundAt_cons {c : Byte} {r : Option Word} (hhead : ¬l' <+: c :: l)
    (h : FoundAt (p + 1) l l' r) : FoundAt p (c :: l) l' r := by
  cases r with
  | none => exact fun hinfix => (List.infix_cons_iff.mp hinfix).elim hhead h
  | some a =>
    obtain ⟨i, ha, hi, hpre, hfirst⟩ := h
    refine ⟨i + 1, ha.trans (off_succ p i), Nat.succ_le_succ hi, hpre, fun j hj => ?_⟩
    cases j with
    | zero => exact hhead
    | succ j => exact hfirst j (Nat.lt_of_succ_lt_succ hj)

theorem strstrLoop_found {n : ℕ} (h : IsString mem p l) (h' : IsString mem q l')
    (hn : l.length < n) (hlen : l.length < 2 ^ 31) (hlen' : l'.length < 2 ^ 31) :
    ∃ r, strstrLoop mem q l'.length n p l.length = some r ∧ FoundAt p l l' r := by
  have hsize : (BitVec.ofInt 32 (l'.length : ℤ)).toNat = l'.length := by
    rw [BitVec.ofInt_natCast, BitVec.toNat_ofNat, Nat.mod_eq_of_lt (hlen'.trans (by decide))]
  induction n generalizing p l with
  | zero => cases hn
  | succ n ih =>
    unfold strstrLoop
    by_cases hle : l'.length ≤ l.length
    · rw [if_pos (Int.ofNat_le.mpr hle)]
      have hcmp := memcmpLoop_eq_zero_iff h h' hle
      unfold memcmp
      rw [hsize]
      by_cases hpre : l' <+: l
      · rw [if_pos (hcmp.mpr hpre)]
        exact ⟨_, rfl, 0, (off_zero p).symm, Nat.zero_le _, hpre, nofun⟩
      · have hz : mem p ≠ 0 := by
          intro hz
          rw [h.eq_nil hz] at hle hpre
          exact hpre (List.eq_nil_of_length_eq_zero (Nat.le_zero.mp hle) ▸ List.nil_prefix)
        obtain ⟨l, rfl, htail⟩ := h.exists_cons hz
        rw [List.length_cons] at hn hlen
        have hwrap : wrap ((mem p :: l).length - 1) = l.length := by
          rw [List.length_cons, Nat.cast_succ, add_sub_cancel_right]
          exact wrap_eq (by omega) (by omega)
        obtain ⟨r, hr, hfound⟩ := ih htail (Nat.lt_of_succ_lt_succ hn) (by omega)
        rw [if_neg (mt hcmp.mp hpre), hwrap]
        exact ⟨r, hr, foundAt_cons hpre hfound⟩
    · rw [if_neg (fun hge => hle (Int.ofNat_le.mp hge))]
      exact ⟨_, rfl, fun hinfix => hle hinfix.length_le⟩

/-- **`strstr` finds the first place** where the second string occurs in the first, or `NULL` when
it does not. -/
theorem strstr_leftmost (h : IsString mem p l) (h' : IsString mem q l')
    (hlen : l.length < 2 ^ 31) (hlen' : l'.length < 2 ^ 31) :
    ∃ r, strstr mem p q = some r ∧ FoundAt p l l' r := by
  have hint : ∀ {k : ℕ}, k < 2 ^ 31 → (BitVec.ofNat 32 k).toInt = k := fun hk => by
    rw [BitVec.toInt_ofNat']
    exact wrap_eq (by omega) (by omega)
  unfold strstr
  rw [strlen_eq h, strlen_eq h']
  simp only [Option.bind_eq_bind, Option.bind_some]
  rw [hint hlen, hint hlen']
  exact strstrLoop_found h h' (length_lt_addresses h) hlen hlen'

theorem strstr_leftmost_ab :
    ∃ r, strstr (put (fun _ => 0) 0xa0000000 [chr 'a', chr 'a', chr 'b', 0, chr 'a', chr 'b'])
      0xa0000000 0xa0000004 = some r ∧
      FoundAt 0xa0000000 [chr 'a', chr 'a', chr 'b'] [chr 'a', chr 'b'] r :=
  strstr_leftmost ⟨by decide, by decide⟩ ⟨by decide, by decide⟩ (by decide) (by decide)

end Lab4Kernel
