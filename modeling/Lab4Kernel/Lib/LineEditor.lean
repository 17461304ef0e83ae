import Mathlib.Data.List.Basic
import Mathlib.Data.List.GetD
import Mathlib.Data.List.Induction
import Mathlib.Logic.Function.Basic
import Mathlib.Order.Nat

/-!
# A bounded line editor and its echo

Keys edit a line of at most `count` characters, until one of them closes it. A screen shows the
line when its cells are the characters held, up to the cursor, and blank from there.

* `Line.press`, `edit`: one key, and all keys;
* `edit_concat`, `length_edit_le`: one more key, and the bound on the line;
* `Screen.put`: what a terminal does with a character, `\b` and a line feed;
* **`Shows.text`**, **`Shows.erase`**, **`Shows.feed`**: the echo that keeps the line shown.
-/

namespace LineEditor

variable {C : Type*}

/-! ## The editor -/

/-- A key: a character, or one of the keys that erase, enter or stop. -/
inductive Key (C : Type*) where
  | char (c : C)
  | erase
  | enter
  | stop

/-- The characters held, and whether the line was closed. -/
structure Line (C : Type*) where
  held : List C
  closed : Bool

/-- One key. Enter appends `newline`; a character for which there is no room closes the line. -/
def Line.press (count : ℕ) (newline : C) (l : Line C) : Key C → Line C
  | .char c =>
    if l.held.length < count then { l with held := l.held ++ [c] } else { l with closed := true }
  | .erase => { l with held := l.held.dropLast }
  | .enter =>
    if l.held.length < count then ⟨l.held ++ [newline], true⟩ else { l with closed := true }
  | .stop => { l with closed := true }

/-- All keys, up to the one that closes the line. -/
def edit (count : ℕ) (newline : C) (keys : List (Key C)) : Line C :=
  keys.foldl (fun l k => if l.closed then l else l.press count newline k) ⟨[], false⟩

variable {count : ℕ} {newline : C} {l : Line C} {keys : List (Key C)} {k : Key C}

theorem edit_concat : edit count newline (keys ++ [k]) =
    if (edit count newline keys).closed then edit count newline keys
    else (edit count newline keys).press count newline k := by
  unfold edit
  rw [List.foldl_append]
  rfl

theorem Line.length_press_le (h : l.held.length ≤ count) (k : Key C) :
    (l.press count newline k).held.length ≤ count := by
  cases k with
  | char c =>
    unfold Line.press
    split_ifs with hroom
    · rw [List.length_append]
      exact hroom
    · exact h
  | erase =>
    show l.held.dropLast.length ≤ count
    rw [List.length_dropLast]
    omega
  | enter =>
    unfold Line.press
    split_ifs with hroom
    · rw [List.length_append]
      exact hroom
    · exact h
  | stop => exact h

theorem length_edit_le : (edit count newline keys).held.length ≤ count := by
  induction keys using List.reverseRecOn with
  | nil => exact Nat.zero_le _
  | append_singleton keys k ih =>
    rw [edit_concat]
    split_ifs
    · exact ih
    · exact Line.length_press_le ih k

/-! ## The screen -/

/-- What is sent to a terminal: a character, `\b`, or a line feed. -/
inductive Glyph (C : Type*) where
  | text (c : C)
  | back
  | newline

/-- One line of a terminal, the column of its cursor, and whether a line feed ended it. -/
structure Screen (C : Type*) where
  cells : ℕ → C
  cursor : ℕ
  ended : Bool

/-- An empty line. -/
def Screen.empty (blank : C) : Screen C := ⟨fun _ => blank, 0, false⟩

/-- A character overwrites the cell at the cursor and moves it right, `\b` moves it left. What comes
after a line feed is on other lines. -/
def Screen.put (scr : Screen C) (g : Glyph C) : Screen C :=
  if scr.ended then scr
  else match g with
    | .text c =>
      { scr with cells := Function.update scr.cells scr.cursor c, cursor := scr.cursor + 1 }
    | .back => { scr with cursor := scr.cursor - 1 }
    | .newline => { scr with ended := true }

/-- The screen shows the characters: they are in the cells before the cursor, the other cells are
blank, and the line was ended when the last character is `newline`. -/
def Shows (blank newline : C) (scr : Screen C) (held : List C) : Prop :=
  ∃ text, held = (if scr.ended then text ++ [newline] else text) ∧ scr.cursor = text.length ∧
    ∀ i, scr.cells i = text.getD i blank

variable {blank : C} {scr : Screen C} {held : List C}

theorem shows_empty : Shows blank newline (.empty blank) [] := ⟨[], rfl, rfl, fun _ => rfl⟩

theorem Shows.text (h : Shows blank newline scr held) (ho : scr.ended = false) (c : C) :
    Shows blank newline (scr.put (.text c)) (held ++ [c]) := by
  obtain ⟨text, hheld, hcursor, hcells⟩ := h
  simp only [ho, Bool.false_eq_true, if_false] at hheld
  refine ⟨text ++ [c], ?_, ?_, fun i => ?_⟩
  · simp [Screen.put, ho, hheld]
  · simp [Screen.put, ho, hcursor]
  · simp only [Screen.put, ho, Bool.false_eq_true, if_false, hcursor]
    rcases Nat.lt_trichotomy i text.length with hlt | rfl | hgt
    · rw [Function.update_of_ne (ne_of_lt hlt), hcells, List.getD_append _ _ _ _ hlt]
    · rw [Function.update_self, List.getD_append_right _ _ _ _ le_rfl, Nat.sub_self]
      rfl
    · rw [Function.update_of_ne (ne_of_gt hgt), hcells, List.getD_eq_default _ _ (le_of_lt hgt),
        List.getD_eq_default _ _ (by rw [List.length_append]; exact hgt)]

/-- `\b`, a blank, `\b`: the last character is gone. -/
theorem Shows.erase (h : Shows blank newline scr held) (ho : scr.ended = false) (hne : held ≠ []) :
    Shows blank newline (((scr.put .back).put (.text blank)).put .back) held.dropLast := by
  obtain ⟨text, hheld, hcursor, hcells⟩ := h
  simp only [ho, Bool.false_eq_true, if_false] at hheld
  obtain ⟨init, c, rfl⟩ := (List.eq_nil_or_concat' held).resolve_left hne
  subst hheld
  rw [List.length_append, List.length_singleton] at hcursor
  rw [List.dropLast_concat]
  refine ⟨init, ?_, ?_, fun i => ?_⟩
  · simp [Screen.put, ho]
  · simp [Screen.put, ho, hcursor]
  · simp only [Screen.put, ho, Bool.false_eq_true, if_false, hcursor, Nat.add_sub_cancel]
    rcases Nat.lt_trichotomy i init.length with hlt | rfl | hgt
    · rw [Function.update_of_ne (ne_of_lt hlt), hcells, List.getD_append _ _ _ _ hlt]
    · rw [Function.update_self, List.getD_eq_default _ _ le_rfl]
    · rw [Function.update_of_ne (ne_of_gt hgt), hcells, List.getD_eq_default _ _ (le_of_lt hgt),
        List.getD_eq_default _ _ (by rw [List.length_append]; exact hgt)]

theorem Shows.feed (h : Shows blank newline scr held) (ho : scr.ended = false) :
    Shows blank newline (scr.put .newline) (held ++ [newline]) := by
  obtain ⟨text, hheld, hcursor, hcells⟩ := h
  simp only [ho, Bool.false_eq_true, if_false] at hheld
  refine ⟨text, ?_, ?_, fun i => ?_⟩
  · simp [Screen.put, ho, hheld]
  · simp [Screen.put, ho, hcursor]
  · simp [Screen.put, ho, hcells]

end LineEditor
