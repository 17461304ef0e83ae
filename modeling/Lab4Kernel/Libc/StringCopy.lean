import Lab4Kernel.Libc.Strings

/-!
# String functions that write

`tasks/libc/string`. The source does not overlap what is written.

* `memset`, `strcpy`, `strcat`, `strncat`, `strncpy`;
* `memset_eq`, `strcpy_eq`: what they leave in memory;
* **`strcat_appends`**, **`strncat_appends`**: the string is extended, and nothing else changes;
* **`strncpy_eq`**: a string that fits is copied and filled up with zeros; one that does not fit
  makes the function erase the whole memory.
-/

namespace Lab4Kernel

open CString

/-- `while (len-- > 0) *to++ = c;`, of `memset` and of `strncpy`. -/
def fillLoop (c : Byte) : ℕ → Word → Memory → Memory
  | 0, _, mem => mem
  | n + 1, dst, mem => fillLoop c n (dst + 1) (Function.update mem dst c)

/-- `memset`. The character is an `int`. -/
def memset (tov c len : Word) (mem : Memory) : Word × Memory :=
  (tov, fillLoop (c.setWidth 8) len.toNat tov mem)

/-- `while ((*to++ = *from++) != 0);`, of `strcpy` and of `strcat`. -/
def strcpyLoop : ℕ → Word → Word → Memory → Option Memory
  | 0, _, _, _ => none
  | n + 1, dst, src, mem =>
    let c := mem src
    let mem := Function.update mem dst c
    if c ≠ 0 then strcpyLoop n (dst + 1) (src + 1) mem else some mem

/-- `strcpy`. -/
def strcpy (dst src : Word) (mem : Memory) : Option (Word × Memory) :=
  (strcpyLoop addresses dst src mem).map fun mem => (dst, mem)

/-- `while (*s) s++;`, of `strcat` and of `strncat`. -/
def endLoop (mem : Memory) : ℕ → Word → Option Word
  | 0, _ => none
  | n + 1, s => if mem s ≠ 0 then endLoop mem n (s + 1) else some s

/-- `strcat`. -/
def strcat (s add : Word) (mem : Memory) : Option (Word × Memory) := do
  let p ← endLoop mem addresses s
  let mem ← strcpyLoop addresses p add mem
  some (s, mem)

/-- The `do` loop of `strncat`, for `n` further characters, with `d` after it. -/
def strncatLoop : ℕ → Word → Word → Memory → Word × Memory
  | 0, d, _, mem => (d, mem)
  | n + 1, d, s, mem =>
    let c := mem s
    let mem := Function.update mem d c
    if c = 0 then (d, mem) else strncatLoop n (d + 1) (s + 1) mem

/-- `strncat`. -/
def strncat (dst src n : Word) (mem : Memory) : Option (Word × Memory) :=
  if n ≠ 0 then do
    let d ← endLoop mem addresses dst
    let (d, mem) := strncatLoop n.toNat d src mem
    some (dst, Function.update mem d 0)
  else some (dst, mem)

/-- `while (count-- > 0 && (*to++ = *from++));` of `strncpy`, with `count` and `to` after it. When
the count runs out, `count--` leaves it at its largest value. -/
def strncpyLoop : ℕ → Word → Word → Memory → (ℕ × Word) × Memory
  | 0, dst, _, mem => ((2 ^ 32 - 1, dst), mem)
  | n + 1, dst, src, mem =>
    let c := mem src
    let mem := Function.update mem dst c
    if c ≠ 0 then strncpyLoop n (dst + 1) (src + 1) mem else ((n, dst + 1), mem)

/-- `strncpy`. -/
def strncpy (dst src count : Word) (mem : Memory) : Word × Memory :=
  let ((count, p), mem) := strncpyLoop count.toNat dst src mem
  (dst, fillLoop 0 count p mem)

variable {mem : Memory} {p q : Word} {l l' : List Byte}

/-! ## Filling -/

theorem fillLoop_eq {n : ℕ} (hn : n ≤ 2 ^ 32) (c : Byte) (p : Word) (mem : Memory) :
    fillLoop c n p mem = put mem p (List.replicate n c) := by
  induction n generalizing p mem with
  | zero => rfl
  | succ n ih =>
    rw [fillLoop, ih (Nat.le_of_succ_le hn), List.replicate_succ, put_cons]
    rw [List.length_replicate]
    exact hn

theorem memset_eq (tov c len : Word) (mem : Memory) :
    memset tov c len mem = (tov, put mem tov (List.replicate len.toNat (c.setWidth 8))) := by
  unfold memset
  rw [fillLoop_eq len.isLt.le]

/-! ## Copying -/

theorem isString_copied {m n : ℕ} (h : IsString mem (q + 1) l) (hn : l.length < n)
    (hapart : Apart p (m + 1) q (n + 1)) (c : Byte) :
    IsString (Function.update mem p c) (q + 1) l := by
  apply h.congr
  intro j hj
  rw [Function.update_of_ne]
  rw [off_succ, ← off_zero p]
  exact (hapart 0 (Nat.succ_pos m) _ (by omega)).symm

theorem strcpyLoop_eq {n : ℕ} (h : IsString mem q l) (hn : l.length < n)
    (hapart : Apart p (l.length + 1) q (l.length + 1)) :
    strcpyLoop n p q mem = some (put mem p (l ++ [0])) := by
  induction n generalizing mem p q l with
  | zero => cases hn
  | succ n ih =>
    unfold strcpyLoop
    by_cases hz : mem q = 0
    · rw [h.eq_nil hz, hz]
      dsimp only
      rw [if_neg (not_not.mpr rfl), List.nil_append, put_singleton]
    · obtain ⟨l, rfl, htail⟩ := h.exists_cons hz
      have hlen := h.length_lt
      rw [List.length_cons] at hn hapart hlen
      dsimp only
      rw [if_pos hz, ih (isString_copied htail (Nat.lt_succ_self _) hapart _)
        (Nat.lt_of_succ_lt_succ hn) hapart.tail, put_cons]
      · rfl
      · rw [List.length_append, List.length_singleton]
        exact hlen

/-- `strcpy` stores the string and its zero, and nothing else. -/
theorem strcpy_eq (h : IsString mem q l) (hapart : Apart p (l.length + 1) q (l.length + 1)) :
    strcpy p q mem = some (p, put mem p (l ++ [0])) := by
  unfold strcpy
  rw [strcpyLoop_eq h (length_lt_addresses h) hapart]
  rfl

theorem endLoop_eq {n : ℕ} (h : IsString mem p l) (hn : l.length < n) :
    endLoop mem n p = some (off p l.length) := by
  induction n generalizing p l with
  | zero => cases hn
  | succ n ih =>
    unfold endLoop
    by_cases hz : mem p = 0
    · rw [if_neg (not_not.mpr hz), h.eq_nil hz, List.length_nil, off_zero]
    · obtain ⟨l, rfl, htail⟩ := h.exists_cons hz
      rw [if_pos hz, ih htail (Nat.lt_of_succ_lt_succ hn), List.length_cons, off_succ]

/-- `s` holds `l` and `l'` together, and only the cells from the zero of `l` on have changed. -/
structure Extended (mem mem' : Memory) (s : Word) (l l' : List Byte) : Prop where
  isString : IsString mem' s (l ++ l')
  other : ∀ a, (∀ i ≤ l'.length, a ≠ off s (l.length + i)) → mem' a = mem a

theorem extended_put (h : IsString mem p l) (hne : ∀ c ∈ l', c ≠ 0)
    (hlen : (l ++ l').length < 2 ^ 32) :
    Extended mem (put mem (off p l.length) (l' ++ [0])) p l l' := by
  constructor
  · have hput : put mem (off p l.length) (l' ++ [0]) = put mem p ((l ++ l') ++ [0]) := by
      have happ : put (put mem p l) (off p l.length) (l' ++ [0]) = put mem p (l ++ (l' ++ [0])) := by
        apply put_append
        rw [← List.append_assoc, List.length_append, List.length_singleton]
        exact hlen
      rwa [h.put_self, ← List.append_assoc] at happ
    rw [hput]
    exact isString_put (fun c hc => (List.mem_append.mp hc).elim (h.ne_zero c) (hne c)) hlen
  · intro a ha
    apply put_other
    intro i hi
    rw [off_off]
    rw [List.length_append, List.length_singleton] at hi
    exact ha i (Nat.le_of_lt_succ hi)

/-- **`strcat` appends** the second string to the first, which it returns. -/
theorem strcat_appends (h : IsString mem p l) (h' : IsString mem q l')
    (hlen : (l ++ l').length < 2 ^ 32)
    (hapart : Apart (off p l.length) (l'.length + 1) q (l'.length + 1)) :
    ∃ mem', strcat p q mem = some (p, mem') ∧ Extended mem mem' p l l' := by
  refine ⟨_, ?_, extended_put h h'.ne_zero hlen⟩
  unfold strcat
  rw [endLoop_eq h (length_lt_addresses h)]
  simp only [Option.bind_eq_bind, Option.bind_some]
  rw [strcpyLoop_eq h' (length_lt_addresses h') hapart, Option.bind_some]

theorem strcat_appends_char :
    let mem := put (fun _ => (0 : Byte)) 0xa0000000 [chr 'a', 0, 0, 0, chr 'b']
    ∃ mem', strcat 0xa0000000 0xa0000004 mem = some (0xa0000000, mem') ∧
      Extended mem mem' 0xa0000000 [chr 'a'] [chr 'b'] :=
  strcat_appends ⟨by decide, by decide⟩ ⟨by decide, by decide⟩ (by decide)
    (by unfold Apart; decide)

/-- The zero behind the characters copied is stored whether the source ended or not. The source is
known at the cells that are read. -/
theorem strncatLoop_eq {n : ℕ} (hne : ∀ c ∈ l, c ≠ 0) (hlen : l.length < 2 ^ 32)
    (hread : ∀ j < min n (l.length + 1), mem (off q j) = l.getD j 0)
    (hapart : Apart p (min n l.length + 1) q (min n (l.length + 1))) :
    Function.update (strncatLoop n p q mem).2 (strncatLoop n p q mem).1 0 =
      put mem p (l.take n ++ [0]) := by
  induction n generalizing mem p q l with
  | zero =>
    rw [List.take_zero, List.nil_append, put_singleton]
    rfl
  | succ n ih =>
    have hhead := hread 0 (by omega)
    rw [off_zero] at hhead
    unfold strncatLoop
    dsimp only
    cases l with
    | nil =>
      have hz : mem q = 0 := hhead
      rw [if_pos hz, hz, List.take_nil, List.nil_append, put_singleton]
      exact Function.update_idem _ _ _
    | cons c l =>
      have hc : mem q = c := hhead
      have hz : mem q ≠ 0 := hc ▸ hne c List.mem_cons_self
      have htake := List.length_take_le' n l
      rw [List.length_cons] at hlen hread hapart
      rw [Nat.add_min_add_right] at hread hapart
      rw [Nat.add_min_add_right] at hapart
      have hread' : ∀ j < min n (l.length + 1),
          Function.update mem p (mem q) (off (q + 1) j) = l.getD j 0 := by
        intro j hj
        have hother : off q (j + 1) ≠ p := by
          rw [← off_zero p]
          exact (hapart 0 (Nat.succ_pos _) _ (by omega)).symm
        rw [off_succ, Function.update_of_ne hother, hread _ (by omega), List.getD_cons_succ]
      rw [if_neg hz, ih (fun d hd => hne d (List.mem_cons_of_mem _ hd)) (by omega) hread'
        hapart.tail, put_cons, List.take_succ_cons, List.cons_append, hc]
      rw [List.length_append, List.length_singleton]
      omega

/-- **`strncat` appends** the first `n` characters of the second string to the first. The cells that
are written are none of those that are read. -/
theorem strncat_appends (h : IsString mem p l) (h' : IsString mem q l') {n : Word}
    (hlen : (l ++ l'.take n.toNat).length < 2 ^ 32)
    (hapart : Apart (off p l.length) (min n.toNat l'.length + 1) q
      (min n.toNat (l'.length + 1))) :
    ∃ mem', strncat p q n mem = some (p, mem') ∧ Extended mem mem' p l (l'.take n.toNat) := by
  by_cases hn : n = 0
  · refine ⟨mem, if_neg (not_not.mpr hn), ?_, fun a _ => rfl⟩
    rw [hn]
    simpa using h
  · refine ⟨_, ?_, extended_put h (fun c hc => h'.ne_zero c (List.mem_of_mem_take hc)) hlen⟩
    have hread : ∀ j < min n.toNat (l'.length + 1), mem (off q j) = l'.getD j 0 :=
      fun j hj => h'.cells j (by omega)
    unfold strncat
    rw [if_pos hn, endLoop_eq h (length_lt_addresses h),
      ← strncatLoop_eq h'.ne_zero h'.length_lt hread hapart]
    rfl

/-- One of three characters: there is no room for all of them before the source. -/
theorem strncat_appends_char :
    let mem := put (fun _ => (0 : Byte)) 0xa0000000 [chr 'a', 0, 7, chr 'b', chr 'c', chr 'd']
    ∃ mem', strncat 0xa0000000 0xa0000003 1 mem = some (0xa0000000, mem') ∧
      Extended mem mem' 0xa0000000 [chr 'a'] ([chr 'b', chr 'c', chr 'd'].take 1) :=
  strncat_appends (n := 1) ⟨by decide, by decide⟩ ⟨by decide, by decide⟩ (by decide)
    (by unfold Apart; decide)

/-! ## `strncpy` -/

theorem strncpyLoop_eq {n : ℕ} (h : IsString mem q l) (hapart : Apart p n q (l.length + 1)) :
    strncpyLoop n p q mem =
      if l.length < n then ((n - (l.length + 1), off p (l.length + 1)), put mem p (l ++ [0]))
      else ((2 ^ 32 - 1, off p n), put mem p (l.take n)) := by
  induction n generalizing mem p q l with
  | zero =>
    rw [if_neg (Nat.not_lt_zero _), List.take_zero, off_zero, put_nil]
    rfl
  | succ n ih =>
    unfold strncpyLoop
    dsimp only
    by_cases hz : mem q = 0
    · have hfits : ([] : List Byte).length < n + 1 := Nat.succ_pos n
      rw [if_neg (not_not.mpr hz), h.eq_nil hz, hz, if_pos hfits, List.nil_append, put_singleton]
      rfl
    · obtain ⟨l, rfl, htail⟩ := h.exists_cons hz
      have hlen := h.length_lt
      have htake := List.length_take_le' n l
      rw [List.length_cons] at hapart hlen
      rw [if_pos hz, ih (isString_copied htail (Nat.lt_succ_self _) hapart _) hapart.tail,
        put_cons, put_cons, List.length_cons, off_succ, off_succ, Nat.add_sub_add_right]
      · simp only [Nat.add_lt_add_iff_right, List.take_succ_cons, List.cons_append]
      · omega
      · rw [List.length_append, List.length_singleton]
        omega

theorem put_zeros (mem : Memory) (p a : Word) :
    put mem p (List.replicate (2 ^ 32 - 1) 0) a = if a = p - 1 then mem a else 0 := by
  have hlast : off p (2 ^ 32 - 1) = p - 1 := BitVec.sub_eq_add_neg p 1 |>.symm
  by_cases ha : a = p - 1
  · rw [if_pos ha]
    apply put_of_le
    rw [List.length_replicate, ha, ← hlast, off_sub p (by omega)]
  · rw [if_neg ha]
    have hne : (a - p).toNat ≠ 2 ^ 32 - 1 := by
      intro he
      rw [← hlast, ← he, off_toNat_sub] at ha
      exact ha rfl
    have hlt : (a - p).toNat < (List.replicate (2 ^ 32 - 1) (0 : Byte)).length := by
      rw [List.length_replicate]
      omega
    unfold put
    rw [List.getD_eq_getElem _ _ hlt, List.getElem_replicate]

/-- **What `strncpy` does.** A string that is shorter than `count` is copied, and the rest of the
buffer is filled with zeros. One that is not makes the second loop start with the largest count:
every byte of memory becomes zero but the last of the buffer. -/
theorem strncpy_eq {count : Word} (h : IsString mem q l)
    (hapart : Apart p count.toNat q (l.length + 1)) :
    (strncpy p q count mem).2 =
      if l.length < count.toNat then put mem p (l ++ List.replicate (count.toNat - l.length) 0)
      else fun a => if a = p + count - 1 then put mem p (l.take count.toNat) a else 0 := by
  have hcount := count.isLt
  unfold strncpy
  rw [strncpyLoop_eq h hapart]
  split_ifs with hfit
  · have hzeros : List.replicate (count.toNat - l.length) (0 : Byte) =
        [0] ++ List.replicate (count.toNat - (l.length + 1)) 0 := by
      rw [List.singleton_append, ← List.replicate_succ]
      congr 1
      omega
    have hlast : off p (l.length + 1) = off p (l ++ [(0 : Byte)]).length := by
      rw [List.length_append, List.length_singleton]
    dsimp only
    rw [fillLoop_eq (by omega), hzeros, ← List.append_assoc, hlast, put_append]
    rw [List.length_append, List.length_append, List.length_singleton, List.length_replicate]
    omega
  · dsimp only
    rw [fillLoop_eq (Nat.sub_le _ _)]
    funext a
    have hend : off p count.toNat = p + count := by
      unfold off
      rw [BitVec.ofNat_toNat, BitVec.setWidth_eq]
    rw [put_zeros, hend]

/-- Two characters and a count of two. -/
theorem strncpy_eq_two :
    let mem := put (fun _ => (7 : Byte)) 0xa0000000 ([chr 'a', chr 'b'] ++ [0])
    (strncpy 0xa0000100 0xa0000000 2 mem).2 =
      if [chr 'a', chr 'b'].length < 2 then
        put mem 0xa0000100 ([chr 'a', chr 'b'] ++ List.replicate (2 - 2) 0)
      else fun a =>
        if a = 0xa0000100 + 2 - 1 then put mem 0xa0000100 ([chr 'a', chr 'b'].take 2) a else 0 :=
  strncpy_eq (isString_put (by decide) (by decide)) (by unfold Apart; decide)

end Lab4Kernel
