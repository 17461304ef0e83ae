import Lab4Kernel.Libc.Doprnt
import Lab4Kernel.Libc.Strings
import Lab4Kernel.Syscall.Write

/-!
# `printf`

`printf.c`, `puts.c` and `putchar.c` of `tasks/libc/stdio`, over the kernel's `write`. The format
and the strings among the arguments do not overlap the variables of `printf`.

* `flush`, `puts`, `putchar`, `printfChar`, `vprintf`: the characters are collected in a buffer,
  and a line, a full buffer or a zero writes it out;
* `Printing`: what a state holds while the output is printed, with `printing_char`, a step, and
  `printing_foldlM`, a run;
* **`vprintf_prints`**: the console gets the output, less its zeros, and no other memory changes.
-/

namespace Lab4Kernel

open CString

/-- `PRINTF_BUFMAX`. -/
def printfBufmax : ℕ := 128

/-- Where `state.buf`, the argument of `putchar` and the string of `puts` are. -/
structure PrintfVars where
  buf : Word
  c : Word
  newline : Word

/-- `state.index`, with memory and the characters that the kernel gave to `putc`. -/
structure PrintfState where
  index : Word
  mem : Memory
  console : List Byte

namespace PrintfState

/-- `write(STDOUT_FILENO, buf, count)`. -/
def write (buf count : Word) (st : PrintfState) : PrintfState :=
  { st with console := st.console ++ (Lab4Kernel.write stdoutFileno buf count st.mem).2.1 }

/-- `state->buf[state->index] = ch;`. -/
def store (vars : PrintfVars) (ch : Byte) (st : PrintfState) : PrintfState :=
  { st with mem := Function.update st.mem (vars.buf + st.index) ch }

end PrintfState

section Definitions

variable (vars : PrintfVars)

/-- `flush`. -/
def flush (st : PrintfState) : PrintfState :=
  let st := st.store vars 0
  let st := st.write vars.buf st.index
  { st with index := 0 }

/-- `puts`. -/
def puts (s : Word) (st : PrintfState) : Option PrintfState :=
  (strlen st.mem s).map fun len => (st.write s len).write vars.newline 1

/-- `putchar`. The argument is an `int`, and all of its bytes are written. -/
def putchar (c : Byte) (st : PrintfState) : PrintfState :=
  let st := { st with mem := put st.mem vars.c [c, 0, 0, 0] }
  st.write vars.c 4

/-- `printf_char`. -/
def printfChar (st : PrintfState) (c : Byte) : Option PrintfState :=
  if c = chr '\n' then
    let st := st.store vars 0
    (puts vars vars.buf st).map fun st => { st with index := 0 }
  else if c = 0 ∨ st.index.toNat ≥ printfBufmax - 1 then some (putchar vars c (flush vars st))
  else
    let st := st.store vars c
    some { st with index := st.index + 1 }

/-- `vprintf`. -/
def vprintf (fmt : List Byte) (args : VaList) (mem : Memory) : Option PrintfState := do
  let out ← doprnt fmt args 0
  let st ← out.foldlM (printfChar vars) ⟨0, mem, []⟩
  if st.index ≠ 0 then some (flush vars st) else some st

/-! ## What the console gets -/

/-- The variables lie in memory that `write` accepts, and the string of `puts` is apart from the
others. -/
structure PrintfVars.Valid (mem : Memory) : Prop where
  buf_begin : sdramBegin ≤ vars.buf
  buf_end : vars.buf.toNat + printfBufmax ≤ sdramEnd.toNat
  c_begin : sdramBegin ≤ vars.c
  c_end : vars.c.toNat + 4 ≤ sdramEnd.toNat
  newline_begin : sdramBegin ≤ vars.newline
  newline_end : vars.newline.toNat + 1 ≤ sdramEnd.toNat
  newline_cell : mem vars.newline = chr '\n'
  newline_buf : ∀ i < printfBufmax, vars.newline ≠ off vars.buf i
  newline_c : ∀ i < 4, vars.newline ≠ off vars.c i

/-- Memory that `printf` has no variable in. -/
def PrintfVars.Outside (a : Word) : Prop :=
  (∀ i < printfBufmax, a ≠ off vars.buf i) ∧ ∀ i < 4, a ≠ off vars.c i

/-- What the console gets of an output. -/
def visible (out : List Byte) : List Byte := out.filter (· ≠ 0)

end Definitions

variable {vars : PrintfVars} {mem mem₀ : Memory} {st : PrintfState} {l out : List Byte} {buf : Word}

/-- The characters that memory holds at an address. -/
def HoldsAt (mem : Memory) (buf : Word) (l : List Byte) : Prop :=
  ∀ (i : ℕ) (hi : i < l.length), mem (off buf i) = l[i]

theorem bytesFrom_eq (h : HoldsAt mem buf l) : bytesFrom mem buf l.length 0 = l := by
  apply List.ext_getElem (length_bytesFrom mem buf _ 0)
  intro i hi hl
  simp only [bytesFrom, List.getElem_map, List.getElem_range', Nat.zero_add, Nat.one_mul]
  exact h i hl

theorem isString_of_holdsAt (h : HoldsAt mem buf (l ++ [0])) (hne : ∀ c ∈ l, c ≠ 0) :
    IsString mem buf l := by
  refine ⟨hne, fun i hi => ?_⟩
  rw [h i (by rw [List.length_append]; exact Nat.lt_succ_of_le hi)]
  rcases Nat.lt_or_eq_of_le hi with hlt | rfl
  · rw [List.getElem_append_left hlt, List.getD_eq_getElem _ _ hlt]
  · rw [List.getElem_concat_length rfl, List.getD_eq_default _ _ le_rfl]

theorem holdsAt_put (hl : l.length ≤ 2 ^ 32) : HoldsAt (put mem buf l) buf l := by
  intro i hi
  rw [put_off (hi.trans_le hl), List.getD_eq_getElem _ _ hi]

theorem visible_append (out out' : List Byte) : visible (out ++ out') = visible out ++ visible out' :=
  List.filter_append _ _

theorem takeWhile_int (c : Byte) : [c, 0, 0, 0].takeWhile (· ≠ 0) = visible [c] := by
  have hzeros : [(0 : Byte), 0, 0].takeWhile (· ≠ 0) = [] := rfl
  unfold visible
  rw [List.takeWhile_cons, List.filter_cons, hzeros, List.filter_nil]

theorem write_prints (st : PrintfState) {buf : Word} {l : List Byte} (hbegin : sdramBegin ≤ buf)
    (hend : buf.toNat + l.length ≤ sdramEnd.toNat) (h : HoldsAt st.mem buf l) :
    st.write buf (BitVec.ofNat 32 l.length) =
      { st with console := st.console ++ l.takeWhile (· ≠ 0) } := by
  have hlo := BitVec.le_def.mp hbegin
  have hsize : sdramEnd.toNat < sdramBegin.toNat + 2 ^ 31 := by decide
  have hcount : (BitVec.ofNat 32 l.length).toNat = l.length := by
    rw [BitVec.toNat_ofNat]
    omega
  have hint : (BitVec.ofNat 32 l.length).toInt.toNat = l.length := by
    rw [BitVec.toInt_eq_toNat_of_lt (by omega), hcount, Int.toNat_natCast]
  have hacc : ¬WriteRefused buf (BitVec.ofNat 32 l.length) := by
    have htop := sdramEnd.isLt
    have hsum : (buf + BitVec.ofNat 32 l.length).toNat = buf.toNat + l.length := by
      rw [BitVec.toNat_add, hcount]
      omega
    refine not_not.mpr (Or.inr ⟨hbegin, ?_⟩)
    rw [BitVec.le_def, hsum]
    exact hend
  unfold PrintfState.write
  rw [write_accepted hacc, hint, writeLoop_out, bytesFrom_eq h]

/-- What a state holds when it has been given the characters `out`: `l` are those in the buffer. -/
structure Printing (vars : PrintfVars) (mem₀ : Memory) (l out : List Byte) (st : PrintfState) :
    Prop where
  index : st.index = BitVec.ofNat 32 l.length
  short : l.length < printfBufmax
  held : HoldsAt st.mem vars.buf l
  ne_zero : ∀ c ∈ l, c ≠ 0
  console : st.console ++ l = visible out
  other : ∀ a, vars.Outside a → st.mem a = mem₀ a

namespace Printing

theorem toNat_index (h : Printing vars mem₀ l out st) : st.index.toNat = l.length := by
  have hshort := h.short
  unfold printfBufmax at hshort
  rw [h.index, BitVec.toNat_ofNat]
  omega

theorem store_eq (h : Printing vars mem₀ l out st) (c : Byte) :
    st.store vars c = { st with mem := Function.update st.mem (off vars.buf l.length) c } := by
  unfold PrintfState.store off
  rw [h.index]

theorem held_store (h : Printing vars mem₀ l out st) (c : Byte) :
    HoldsAt (Function.update st.mem (off vars.buf l.length) c) vars.buf (l ++ [c]) := by
  have hshort := h.short
  unfold printfBufmax at hshort
  intro i hi
  rw [List.length_append, List.length_singleton] at hi
  rcases Nat.lt_or_eq_of_le (Nat.le_of_lt_succ hi) with hlt | rfl
  · rw [Function.update_of_ne, h.held i hlt, List.getElem_append_left hlt]
    exact fun he => hlt.ne (off_inj (by omega) (by omega) he)
  · rw [Function.update_self, List.getElem_concat_length rfl]

theorem other_store (h : Printing vars mem₀ l out st) (c : Byte) {a : Word}
    (ha : vars.Outside a) : Function.update st.mem (off vars.buf l.length) c a = mem₀ a := by
  rw [Function.update_of_ne (ha.1 _ h.short), h.other a ha]

theorem of_empty (hindex : st.index = 0) (hcon : st.console = visible out)
    (hother : ∀ a, vars.Outside a → st.mem a = mem₀ a) : Printing vars mem₀ [] out st where
  index := hindex
  short := by decide
  held := nofun
  ne_zero := nofun
  console := by rw [List.append_nil, hcon]
  other := hother

theorem write_buf (hv : vars.Valid mem₀) (h : Printing vars mem₀ l out st) :
    (st.store vars 0).write vars.buf (BitVec.ofNat 32 l.length) =
      { st with
        mem := Function.update st.mem (off vars.buf l.length) 0
        console := visible out } := by
  have hend := hv.buf_end
  have hshort := h.short
  have hheld : HoldsAt (st.store vars 0).mem vars.buf l := by
    intro i hi
    have hcell := h.held_store 0 i (by rw [List.length_append]; omega)
    rw [h.store_eq]
    rwa [List.getElem_append_left hi] at hcell
  have hall : l.takeWhile (· ≠ 0) = l :=
    List.takeWhile_eq_self_iff.mpr fun c hc => decide_eq_true (h.ne_zero c hc)
  rw [write_prints _ hv.buf_begin (by omega) hheld, hall, h.store_eq, h.console]

theorem flush (hv : vars.Valid mem₀) (h : Printing vars mem₀ l out st) :
    Printing vars mem₀ [] out (flush vars st) := by
  unfold Lab4Kernel.flush
  have hindex : (st.store vars 0).index = BitVec.ofNat 32 l.length := h.index
  dsimp only
  rw [hindex, h.write_buf hv]
  exact of_empty rfl rfl fun a ha => h.other_store 0 ha

theorem puts_eq (hv : vars.Valid mem₀) (h : Printing vars mem₀ l out st) :
    puts vars vars.buf (st.store vars 0) = some
      { st with
        mem := Function.update st.mem (off vars.buf l.length) 0
        console := visible (out ++ [chr '\n']) } := by
  have hstring : IsString (st.store vars 0).mem vars.buf l := by
    rw [h.store_eq]
    exact isString_of_holdsAt (h.held_store 0) h.ne_zero
  have hnewline : HoldsAt (Function.update st.mem (off vars.buf l.length) 0) vars.newline
      [chr '\n'] := by
    intro i hi
    obtain rfl : i = 0 := Nat.lt_one_iff.mp hi
    rw [off_zero, h.other_store 0 ⟨hv.newline_buf, hv.newline_c⟩]
    exact hv.newline_cell
  have hwrite := write_prints
    { st with mem := Function.update st.mem (off vars.buf l.length) 0, console := visible out }
    (l := [chr '\n']) hv.newline_begin hv.newline_end hnewline
  rw [List.length_singleton] at hwrite
  unfold puts
  rw [strlen_eq hstring, Option.map_some, h.write_buf hv, visible_append]
  exact congrArg some hwrite

theorem putchar (hv : vars.Valid mem₀) (h : Printing vars mem₀ [] out st) (c : Byte) :
    Printing vars mem₀ [] (out ++ [c]) (putchar vars c st) := by
  have hlen : [c, 0, 0, 0].length = 4 := rfl
  have hcells : HoldsAt (put st.mem vars.c [c, 0, 0, 0]) vars.c [c, 0, 0, 0] :=
    holdsAt_put (by rw [hlen]; omega)
  have hwrite := write_prints { st with mem := put st.mem vars.c [c, 0, 0, 0] } hv.c_begin
    (by rw [hlen]; exact hv.c_end) hcells
  have hcon := h.console
  rw [List.append_nil] at hcon
  rw [hlen, takeWhile_int] at hwrite
  unfold Lab4Kernel.putchar
  dsimp only
  rw [show (4 : Word) = BitVec.ofNat 32 4 from rfl, hwrite]
  refine of_empty h.index (by rw [hcon, visible_append]) fun a ha => ?_
  dsimp only
  rw [put_other fun i hi => ha.2 i (hlen ▸ hi), h.other a ha]

theorem hold (h : Printing vars mem₀ l out st) {c : Byte} (hc : c ≠ 0)
    (hroom : l.length + 1 < printfBufmax) :
    Printing vars mem₀ (l ++ [c]) (out ++ [c])
      { st.store vars c with index := (st.store vars c).index + 1 } := by
  rw [h.store_eq]
  constructor
  · show st.index + 1 = _
    rw [h.index, List.length_append, BitVec.ofNat_add]
    rfl
  · rw [List.length_append]
    exact hroom
  · exact h.held_store c
  · intro d hd
    rcases List.mem_append.mp hd with hd | hd
    · exact h.ne_zero d hd
    · exact List.mem_singleton.mp hd ▸ hc
  · rw [← List.append_assoc]
    show st.console ++ l ++ [c] = _
    rw [h.console, visible_append]
    unfold visible
    rw [List.filter_cons, if_pos (decide_eq_true hc), List.filter_nil]
  · exact fun a ha => h.other_store c ha

end Printing

/-- **A step.** -/
theorem printing_char (hv : vars.Valid mem₀) (h : Printing vars mem₀ l out st) (c : Byte) :
    ∃ l' st', printfChar vars st c = some st' ∧ Printing vars mem₀ l' (out ++ [c]) st' := by
  unfold printfChar
  by_cases hnl : c = chr '\n'
  · rw [if_pos hnl, hnl]
    dsimp only
    rw [h.puts_eq hv]
    exact ⟨[], _, rfl, .of_empty rfl rfl fun a ha => h.other_store 0 ha⟩
  · rw [if_neg hnl]
    by_cases hfull : c = 0 ∨ st.index.toNat ≥ printfBufmax - 1
    · have hflush := h.flush hv
      rw [if_pos hfull]
      refine ⟨[], _, rfl, hflush.putchar hv c⟩
    · rw [if_neg hfull]
      have hroom := mt Or.inr hfull
      rw [h.toNat_index] at hroom
      exact ⟨l ++ [c], _, rfl, h.hold (mt Or.inl hfull) (by omega)⟩

/-- **A run.** -/
theorem printing_foldlM (hv : vars.Valid mem₀) (out : List Byte) :
    ∃ l st, out.foldlM (printfChar vars) ⟨0, mem₀, []⟩ = some st ∧
      Printing vars mem₀ l out st := by
  induction out using List.reverseRecOn with
  | nil => exact ⟨[], _, rfl, .of_empty rfl rfl fun _ _ => rfl⟩
  | append_singleton out c ih =>
    obtain ⟨l, st, hst, h⟩ := ih
    obtain ⟨l', st', hst', h'⟩ := printing_char hv h c
    refine ⟨l', st', ?_, h'⟩
    rw [List.foldlM_append, hst, Option.bind_eq_bind, Option.bind_some, List.foldlM_cons, hst']
    rfl

/-- **What `printf` prints.** The console gets the output of `_doprnt`, less its zeros, in order;
memory changes in the variables of `printf` only. Neither the buffer nor the bytes that `putchar`
writes behind a character are seen. -/
theorem vprintf_prints (hv : vars.Valid mem₀) {fmt : List Byte} {args : VaList}
    (h : doprnt fmt args 0 = some out) :
    ∃ st, vprintf vars fmt args mem₀ = some st ∧ st.console = visible out ∧
      ∀ a, vars.Outside a → st.mem a = mem₀ a := by
  obtain ⟨l, st, hst, hprint⟩ := printing_foldlM hv out
  have hfinal : ∃ st', (if st.index ≠ 0 then some (flush vars st) else some st) = some st' ∧
      Printing vars mem₀ [] out st' := by
    by_cases hidx : st.index = 0
    · rw [if_neg (not_not.mpr hidx)]
      have hnil : l = [] := by
        apply List.eq_nil_of_length_eq_zero
        rw [← hprint.toNat_index, hidx]
        rfl
      exact ⟨st, rfl, hnil ▸ hprint⟩
    · rw [if_pos hidx]
      exact ⟨_, rfl, hprint.flush hv⟩
  obtain ⟨st', hst', hdone⟩ := hfinal
  refine ⟨st', ?_, (List.append_nil _).symm.trans hdone.console, hdone.other⟩
  unfold vprintf
  rw [h]
  simp only [Option.bind_eq_bind, Option.bind_some, hst]
  exact hst'

/-- A number, a newline, and a `%` that ends the format. -/
theorem vprintf_prints_line :
    let vars : PrintfVars := ⟨0xa1000000, 0xa1000100, 0xa0000200⟩
    ∃ st, vprintf vars [chr '%', chr 'd', chr '\n', chr '%'] [.long (-7)] (fun _ => chr '\n') =
        some st ∧
      st.console = visible [chr '-', chr '7', chr '\n'] ∧
      ∀ a, vars.Outside a → st.mem a = chr '\n' :=
  vprintf_prints ⟨by decide, by decide, by decide, by decide, by decide, by decide, rfl, by decide,
    by decide⟩ (by rfl)

end Lab4Kernel
