import Lab4Kernel.Syscall.Read
import Lab4Kernel.Lib.LineEditor

/-!
# `read` as a line editor

* `lineOf count input`: the line that the reference editor makes of the input;
* `screenOf out`: the line of a terminal that got the characters `out`;
* `EditStep`, `editStep`: what one character does to the line and to the loop's state;
* **`read_edits_line`**: the value that `read` returns, the buffer and the echo are those of the
  line.
-/

namespace Lab4Kernel

open Ranges LineEditor

/-- The key that a character is. -/
def keyOf (ch : Byte) : Key Byte :=
  if ch = eot then .stop
  else if ch = backspace then .erase
  else if ch = 10 ∨ ch = 13 then .enter
  else .char ch

/-- The line that the reference editor makes of the input. -/
def lineOf (count : Word) (input : List Byte) : Line Byte :=
  edit count.toNat 10 (input.map keyOf)

/-- What a terminal makes of a character. -/
def glyphOf (ch : Byte) : Glyph Byte :=
  if ch = 8 then .back else if ch = 10 then .newline else .text ch

/-- The line of a terminal that got the characters `out`. -/
def screenOf (out : List Byte) : Screen Byte :=
  out.foldl (fun scr ch => scr.put (glyphOf ch)) (.empty 32)

/-- A character that a terminal displays. -/
def Printable (ch : Byte) : Prop := 32 ≤ ch ∧ ch < 127

/-- The characters of the input that are read before the line is closed, and are stored or dropped,
are printable. -/
def PrintableInput (count : Word) (input : List Byte) : Prop :=
  ∀ pre ch, pre ++ [ch] <+: input → (lineOf count pre).closed = false → keyOf ch = .char ch →
    Printable ch

variable {buf count : Word} {st : ReadState} {l l' : Line Byte} {input : List Byte} {ch : Byte}
  {r : Option ℤ × ReadState} {i : ℕ}

theorem glyphOf_printable (h : Printable ch) : glyphOf ch = .text ch := by
  have hlow : 32 ≤ ch.toNat := h.1
  have hne : ch ≠ 8 := by
    rintro rfl
    exact absurd hlow (by decide)
  have hne' : ch ≠ 10 := by
    rintro rfl
    exact absurd hlow (by decide)
  unfold glyphOf
  rw [if_neg hne, if_neg hne']

theorem screenOf_append (out out' : List Byte) : screenOf (out ++ out') =
    out'.foldl (fun scr ch => scr.put (glyphOf ch)) (screenOf out) := List.foldl_append

/-! ## The loop, one character at a time -/

/-- The character is stored behind the last one held, and echoed. -/
def ReadState.push (charbuf : Word) (ch : Byte) (st : ReadState) : ReadState :=
  (({ st with readcount := st.readcount + 1 } : ReadState).store charbuf ch).putc ch

/-- The last character held is erased, in the buffer and on the screen. -/
def ReadState.rubOut (charbuf : Word) (st : ReadState) : ReadState :=
  ((({ st.store charbuf 0 with readcount := st.readcount - 1 } : ReadState).putc 8).putc 32).putc 8

theorem readLoop_cons (ch : Byte) (input : List Byte) (st : ReadState) :
    readLoop buf count (ch :: input) st =
      if (readLoop buf count [ch] st).1 = none then
        readLoop buf count input (readLoop buf count [ch] st).2
      else readLoop buf count [ch] st := by
  simp only [readLoop]
  split_ifs <;> simp_all

theorem readLoop_concat (input : List Byte) (ch : Byte) (st : ReadState) :
    readLoop buf count (input ++ [ch]) st =
      if (readLoop buf count input st).1 = none then
        readLoop buf count [ch] (readLoop buf count input st).2
      else readLoop buf count input st := by
  induction input generalizing st with
  | nil => rfl
  | cons ch' input ih =>
    rw [List.cons_append, readLoop_cons, readLoop_cons ch' input]
    by_cases hwaits : (readLoop buf count [ch'] st).1 = none
    · rw [if_pos hwaits, if_pos hwaits]
      exact ih _
    · rw [if_neg hwaits, if_neg hwaits, if_neg hwaits]

/-- What one character does to the loop's state and to the line: it is stored, and then the line
goes on or is closed; a character is erased; nothing is erased; or the line is closed. -/
inductive EditStep (buf : Word) (st : ReadState) (l : Line Byte) (ch : Byte) :
    Option ℤ × ReadState → Line Byte → Prop
  | stored : keyOf ch = .char ch →
      EditStep buf st l ch (none, st.push buf ch) ⟨l.held ++ [ch], false⟩
  | entered : EditStep buf st l ch (some ((st.push buf 10).readcount + 1), st.push buf 10)
      ⟨l.held ++ [10], true⟩
  | erased : l.held ≠ [] → EditStep buf st l ch (none, st.rubOut buf) ⟨l.held.dropLast, false⟩
  | kept : EditStep buf st l ch (none, st) ⟨l.held, false⟩
  | closed : EditStep buf st l ch (some (st.readcount + 1), st) ⟨l.held, true⟩

/-- **One character** does the same to the line and to the loop's state. -/
theorem editStep (hcount : count.toInt = count.toNat) (hopen : l.closed = false)
    (hread : st.readcount = l.held.length - 1) (ch : Byte) :
    EditStep buf st l ch (readLoop buf count [ch] st) (l.press count.toNat 10 (keyOf ch)) := by
  obtain ⟨held, closed⟩ := l
  obtain rfl : closed = false := hopen
  replace hread : st.readcount = held.length - 1 := hread
  have hroom : st.readcount + 1 < count.toInt ↔ held.length < count.toNat := by
    rw [hread, hcount]
    omega
  have hheld : st.readcount ≥ 0 ↔ held ≠ [] := by
    rw [hread, ← List.length_pos_iff]
    omega
  unfold readLoop keyOf
  simp only [hroom, hheld]
  by_cases heot : ch = eot
  · rw [if_pos heot, if_pos heot]
    exact .closed
  rw [if_neg heot, if_neg heot]
  by_cases hback : ch = backspace
  · rw [if_pos hback, if_pos hback]
    by_cases hne : held = []
    · subst hne
      exact .kept
    · rw [if_pos hne]
      exact .erased hne
  rw [if_neg hback, if_neg hback]
  by_cases hnl : ch = 10 ∨ ch = 13
  · rw [if_pos hnl, if_pos hnl]
    by_cases hfree : held.length < count.toNat
    · simp only [hfree, if_true, Line.press]
      exact .entered
    · simp only [hfree, if_false, Line.press]
      exact .closed
  · rw [if_neg hnl, if_neg hnl]
    have hkey : keyOf ch = .char ch := by
      unfold keyOf
      rw [if_neg heot, if_neg hback, if_neg hnl]
    by_cases hfree : held.length < count.toNat
    · simp only [hfree, if_true, Line.press]
      exact .stored hkey
    · simp only [hfree, if_false, Line.press]
      exact .closed

/-! ## The buffer -/

theorem store_mem {n : ℕ} (hread : st.readcount = n) (hn : n < 2 ^ 32) (hi : i < 2 ^ 32)
    (ch : Byte) : (st.store buf ch).mem (buf + BitVec.ofNat 32 i) =
      if i = n then ch else st.mem (buf + BitVec.ofNat 32 i) := by
  show Function.update st.mem (buf + BitVec.ofInt 32 st.readcount) ch _ = _
  rw [hread, BitVec.ofInt_natCast]
  by_cases e : i = n
  · rw [if_pos e, e, Function.update_self]
  · rw [if_neg e, Function.update_of_ne (fun h => e ((offset_eq_iff hi hn).mp h))]

/-- What the loop has returned, and what the buffer holds, for the line. -/
structure Agrees (buf : Word) (r : Option ℤ × ReadState) (l : Line Byte) : Prop where
  returned : r.1 = if l.closed then some (l.held.length : ℤ) else none
  readcount : r.2.readcount = l.held.length - 1
  content : ∀ i ch, l.held[i]? = some ch → r.2.mem (buf + BitVec.ofNat 32 i) = ch

theorem push_mem {n : ℕ} (hread : st.readcount = n - 1) (hn : n < 2 ^ 32) (hi : i < 2 ^ 32)
    (ch : Byte) : (st.push buf ch).mem (buf + BitVec.ofNat 32 i) =
      if i = n then ch else st.mem (buf + BitVec.ofNat 32 i) := by
  have hnext : ({ st with readcount := st.readcount + 1 } : ReadState).readcount = n := by
    simp [hread]
  exact store_mem hnext hn hi ch

theorem rubOut_mem {n : ℕ} (hread : st.readcount = n) (hn : n < 2 ^ 32) (hi : i < 2 ^ 32) :
    (st.rubOut buf).mem (buf + BitVec.ofNat 32 i) =
      if i = n then 0 else st.mem (buf + BitVec.ofNat 32 i) :=
  store_mem hread hn hi 0

theorem Agrees.push (h : Agrees buf (none, st) l) (hlen : l.held.length < 2 ^ 32) (ch : Byte) :
    (st.push buf ch).readcount = ((l.held ++ [ch]).length : ℤ) - 1 ∧
      ∀ i c, (l.held ++ [ch])[i]? = some c →
        (st.push buf ch).mem (buf + BitVec.ofNat 32 i) = c := by
  constructor
  · show st.readcount + 1 = _
    rw [h.readcount, List.length_append, List.length_singleton]
    omega
  · intro i c hc
    have hi : i < (l.held ++ [ch]).length := (List.getElem?_eq_some_iff.mp hc).1
    rw [List.length_append, List.length_singleton] at hi
    rw [push_mem h.readcount hlen (by omega)]
    by_cases e : i = l.held.length
    · subst e
      rw [List.getElem?_concat_length] at hc
      rw [if_pos rfl, Option.some.inj hc]
    · rw [List.getElem?_append_left (by omega)] at hc
      rw [if_neg e]
      exact h.content i c hc

/-- **One character** keeps the value returned and the buffer those of the line. -/
theorem EditStep.agrees (hs : EditStep buf st l ch r l') (h : Agrees buf (none, st) l)
    (hlen : l.held.length < 2 ^ 32) : Agrees buf r l' := by
  cases hs with
  | stored hkey =>
    obtain ⟨hread, hcontent⟩ := h.push hlen ch
    exact ⟨rfl, hread, hcontent⟩
  | entered =>
    obtain ⟨hread, hcontent⟩ := h.push hlen 10
    refine ⟨?_, hread, hcontent⟩
    rw [hread]
    simp
  | erased hne =>
    have hpos := List.length_pos_iff.mpr hne
    have hn : st.readcount = (l.held.length - 1 : ℕ) := by
      rw [h.readcount]
      omega
    refine ⟨rfl, ?_, fun i c hc => ?_⟩
    · show st.readcount - 1 = _
      rw [hn, List.length_dropLast]
    · have hi := (List.getElem?_eq_some_iff.mp hc).1
      rw [List.length_dropLast] at hi
      rw [rubOut_mem hn (by omega) (by omega), if_neg (by omega)]
      apply h.content i c
      rwa [List.getElem?_dropLast, if_pos hi] at hc
  | kept => exact ⟨rfl, h.readcount, h.content⟩
  | closed =>
    refine ⟨?_, h.readcount, h.content⟩
    rw [h.readcount]
    simp

theorem EditStep.zeroed (hs : EditStep buf st l ch r l') (h : Agrees buf (none, st) l)
    (hlen : l.held.length < 2 ^ 32) (hi : i < 2 ^ 32) (hout : l'.held.length ≤ i)
    (hwas : i < l.held.length ∨ st.mem (buf + BitVec.ofNat 32 i) = 0) :
    r.2.mem (buf + BitVec.ofNat 32 i) = 0 := by
  cases hs with
  | stored hkey =>
    rw [List.length_append, List.length_singleton] at hout
    rw [push_mem h.readcount hlen hi, if_neg (by omega)]
    exact hwas.resolve_left (by omega)
  | entered =>
    rw [List.length_append, List.length_singleton] at hout
    rw [push_mem h.readcount hlen hi, if_neg (by omega)]
    exact hwas.resolve_left (by omega)
  | erased hne =>
    have hpos := List.length_pos_iff.mpr hne
    have hn : st.readcount = (l.held.length - 1 : ℕ) := by
      rw [h.readcount]
      omega
    rw [List.length_dropLast] at hout
    rw [rubOut_mem hn (by omega) hi]
    split_ifs with e
    · rfl
    · exact hwas.resolve_left (by omega)
  | kept => exact hwas.resolve_left (Nat.not_lt.mpr hout)
  | closed => exact hwas.resolve_left (Nat.not_lt.mpr hout)

/-! ## The echo -/

/-- The terminal shows the line, and its line is open as long as the line is. -/
def Echoes (out : List Byte) (l : Line Byte) : Prop :=
  Shows 32 10 (screenOf out) l.held ∧ (l.closed = false → (screenOf out).ended = false)

/-- **One character** keeps the line shown. -/
theorem EditStep.echoes (hs : EditStep buf st l ch r l') (hopen : l.closed = false)
    (hprint : keyOf ch = .char ch → Printable ch) (h : Echoes st.out l) : Echoes r.2.out l' := by
  obtain ⟨hshows, hended⟩ := h
  replace hended := hended hopen
  cases hs with
  | stored hkey =>
    have hscreen : screenOf (st.push buf ch).out = (screenOf st.out).put (.text ch) := by
      show screenOf (st.out ++ [ch]) = _
      rw [screenOf_append, ← glyphOf_printable (hprint hkey)]
      rfl
    refine ⟨?_, fun _ => ?_⟩
    · rw [hscreen]
      exact hshows.text hended ch
    · rw [hscreen]
      simp [Screen.put, hended]
  | entered =>
    have hscreen : screenOf (st.push buf 10).out = (screenOf st.out).put .newline :=
      screenOf_append st.out [10]
    refine ⟨?_, fun hclosed => (by cases hclosed)⟩
    rw [hscreen]
    exact hshows.feed hended
  | erased hne =>
    have hscreen : screenOf (st.rubOut buf).out =
        (((screenOf st.out).put .back).put (.text 32)).put .back := by
      show screenOf (((st.out ++ [8]) ++ [32]) ++ [8]) = _
      rw [screenOf_append, screenOf_append, screenOf_append]
      rfl
    refine ⟨?_, fun _ => ?_⟩
    · rw [hscreen]
      exact hshows.erase hended hne
    · rw [hscreen]
      simp [Screen.put, hended]
  | kept => exact ⟨hshows, fun _ => hended⟩
  | closed => exact ⟨hshows, fun hclosed => (by cases hclosed)⟩

/-! ## The whole input -/

theorem lineOf_concat (count : Word) (input : List Byte) (ch : Byte) :
    lineOf count (input ++ [ch]) = if (lineOf count input).closed then lineOf count input
      else (lineOf count input).press count.toNat 10 (keyOf ch) := by
  unfold lineOf
  rw [List.map_append]
  exact edit_concat

theorem PrintableInput.init (h : PrintableInput count (input ++ [ch])) :
    PrintableInput count input :=
  fun pre c hpre => h pre c (hpre.trans (List.prefix_append _ _))

/-- What `read` did with the input so far: the value returned and the buffer are those of the line,
the positions behind the line that were held once are zero, and a terminal shows the line. -/
structure Tracks (buf count : Word) (input : List Byte) (r : Option ℤ × ReadState) : Prop where
  agrees : Agrees buf r (lineOf count input)
  erased : ∀ pre, pre <+: input → ∀ i, i < (lineOf count pre).held.length →
    (lineOf count input).held.length ≤ i → r.2.mem (buf + BitVec.ofNat 32 i) = 0
  echoes : PrintableInput count input → Echoes r.2.out (lineOf count input)

theorem Tracks.start (buf count : Word) (mem : Memory) :
    Tracks buf count [] (none, { mem := mem }) := by
  refine ⟨⟨rfl, rfl, fun i c hc => ?_⟩, fun pre hpre i hi => ?_, fun _ => ?_⟩
  · cases hc
  · rw [List.prefix_nil.mp hpre] at hi
    cases hi
  · exact ⟨shows_empty, fun _ => rfl⟩

theorem length_lineOf_le (count : Word) (input : List Byte) :
    (lineOf count input).held.length ≤ count.toNat := length_edit_le

theorem Tracks.step (h : Tracks buf count input (none, st)) (hcount : count ≤ buffersize)
    (hopen : (lineOf count input).closed = false) (ch : Byte) :
    Tracks buf count (input ++ [ch]) (readLoop buf count [ch] st) := by
  have hsize : count.toNat ≤ 0x4000000 := hcount
  have hint : count.toInt = count.toNat := by
    rw [BitVec.toInt_eq_toNat_cond, if_pos (by omega)]
  have hlen := length_lineOf_le count input
  have hline : lineOf count (input ++ [ch]) =
      (lineOf count input).press count.toNat 10 (keyOf ch) := by
    rw [lineOf_concat, hopen]
    rfl
  have hs : EditStep buf st (lineOf count input) ch (readLoop buf count [ch] st)
      (lineOf count (input ++ [ch])) := by
    rw [hline]
    exact editStep hint hopen h.agrees.readcount ch
  refine ⟨hs.agrees h.agrees (by omega), fun pre hpre i hi hout => ?_, fun hprint => ?_⟩
  · have hbound := length_lineOf_le count pre
    refine hs.zeroed h.agrees (by omega) (by omega) hout ?_
    rcases List.prefix_concat_iff.mp hpre with rfl | hpre
    · omega
    · by_cases hheld : i < (lineOf count input).held.length
      · exact .inl hheld
      · exact .inr (h.erased pre hpre i hi (by omega))
  · exact hs.echoes hopen (hprint input ch List.prefix_rfl hopen) (h.echoes hprint.init)

/-- Further characters are not read once the line was closed. -/
theorem Tracks.closed (h : Tracks buf count input r) (hclosed : (lineOf count input).closed = true)
    (ch : Byte) : Tracks buf count (input ++ [ch]) r := by
  have hline : lineOf count (input ++ [ch]) = lineOf count input := by
    rw [lineOf_concat, if_pos hclosed]
  refine ⟨by rw [hline]; exact h.agrees, fun pre hpre i hi hout => ?_, fun hprint => ?_⟩
  · rw [hline] at hout
    rcases List.prefix_concat_iff.mp hpre with rfl | hpre
    · rw [hline] at hi
      omega
    · exact h.erased pre hpre i hi hout
  · rw [hline]
    exact h.echoes hprint.init

/-- **The input loop tracks the line**, whatever is typed. -/
theorem readLoop_tracks (hcount : count ≤ buffersize) (mem : Memory) (input : List Byte) :
    Tracks buf count input (readLoop buf count input { mem := mem }) := by
  induction input using List.reverseRecOn with
  | nil => exact .start buf count mem
  | append_singleton input ch ih =>
    rw [readLoop_concat, ih.agrees.returned]
    cases hclosed : (lineOf count input).closed with
    | true => exact ih.closed hclosed ch
    | false =>
      have hwaits : (readLoop buf count input { mem := mem }).1 = none := by
        rw [ih.agrees.returned, hclosed]
        rfl
      refine Tracks.step ?_ hcount hclosed ch
      rwa [← hwaits]

/-- **`read` is a bounded line editor**: what a call leaves, returned or still waiting. -/
structure EditsLine (buf count : Word) (input : List Byte) (mem : Memory)
    (r : Option ℤ × ReadState) : Prop where
  returned : r.1 =
    if (lineOf count input).closed then some ((lineOf count input).held.length : ℤ) else none
  bounded : (lineOf count input).held.length ≤ count.toNat
  content : ∀ i ch, (lineOf count input).held[i]? = some ch →
    r.2.mem (buf + BitVec.ofNat 32 i) = ch
  stores : Among buf count r.2.stores
  frame : ∀ a, (∀ i, i < count.toNat → a ≠ buf + BitVec.ofNat 32 i) → r.2.mem a = mem a
  erased : ∀ pre, pre <+: input → ∀ i, i < (lineOf count pre).held.length →
    (lineOf count input).held.length ≤ i → r.2.mem (buf + BitVec.ofNat 32 i) = 0
  echoed : PrintableInput count input → Shows 32 10 (screenOf r.2.out) (lineOf count input).held

/-- **The line, the buffer and the echo of `read` agree**, for every buffer accepted and every
input; a part of the input, up to any step, is an input of its own. -/
theorem read_edits_line (buf count sp : Word) (input : List Byte) (mem : Memory)
    (hacc : ¬ReadRefused buf count sp) :
    EditsLine buf count input mem (read stdinFileno buf count sp input mem) := by
  have hframe := read_frame stdinFileno buf count sp input mem
  rw [read_accepted hacc] at hframe ⊢
  have hcount : count ≤ buffersize := BitVec.not_lt.mp fun hbig => hacc (.inl hbig)
  have htracks : Tracks buf count input (readLoop buf count input { mem := mem }) :=
    readLoop_tracks hcount mem input
  exact { returned := htracks.agrees.returned
          bounded := length_lineOf_le count input
          content := htracks.agrees.content
          stores := (readLoop_filling input (Filling.start buf count mem)).1.stored
          frame := hframe
          erased := htracks.erased
          echoed := fun hprint => (htracks.echoes hprint).1 }

/-- Two letters, an erasure, two letters and a carriage return into a buffer of four bytes. -/
theorem read_edits_line_typed :
    (read stdinFileno 0xa0000000 4 0xa3df0000 [97, 98, 127, 99, 100, 13] (fun _ => 7)).1 = some 4 ∧
      EditsLine 0xa0000000 4 [97, 98, 127, 99, 100, 13] (fun _ => 7)
        (read stdinFileno 0xa0000000 4 0xa3df0000 [97, 98, 127, 99, 100, 13] fun _ => 7) :=
  ⟨by decide, read_edits_line _ _ _ _ _ (by decide)⟩

end Lab4Kernel
