import Mathlib.Data.List.Induction
import Mathlib.Data.List.TakeDrop
import Mathlib.Logic.Function.Basic
import Rill.Printer

/-!
# A screen without borders

A screen has rows of characters, as many and as long as needed, and a cursor. Of the characters that
a printer writes, a line feed moves the cursor to the start of the next row, and the two escape
sequences of `Printer.eraseRow` move it up by one row and erase the row from there on; every other
character takes the place of what stands at the cursor, which moves on (`Screen.feed`).

So a line, written where nothing stands, becomes a row (`after_lines`), and as many erasures as there
are rows take these away again (`after_erasures`).
-/

namespace Rill

/-- How much of an escape sequence has come. -/
inductive Escape where
  /-- Nothing. -/
  | plain
  /-- The escape character. -/
  | begun
  /-- The escape character and a bracket. -/
  | bracketed
  deriving DecidableEq, Repr

/-- A screen without borders. -/
structure Screen where
  /-- What stands in each row. -/
  rows : Nat → List Char
  /-- The row of the cursor. -/
  row : Nat
  /-- How many characters of its row stand before the cursor. -/
  column : Nat
  /-- How much of an escape sequence has come. -/
  escape : Escape

namespace Screen

/-- Writes a character over what stands at the cursor. -/
def put (s : Screen) (c : Char) : Screen :=
  { rows := Function.update s.rows s.row
      ((s.rows s.row).takeD s.column ' ' ++ c :: (s.rows s.row).drop (s.column + 1))
    row := s.row
    column := s.column + 1
    escape := .plain }

/-- Moves the cursor to the start of the next row. -/
def newLine (s : Screen) : Screen := { s with row := s.row + 1, column := 0, escape := .plain }

/-- Moves the cursor up by one row. -/
def up (s : Screen) : Screen := { s with row := s.row - 1, escape := .plain }

/-- Erases the row of the cursor from there on. -/
def erase (s : Screen) : Screen :=
  { s with
    rows := Function.update s.rows s.row ((s.rows s.row).take s.column), escape := .plain }

/-- The screen after one more character. -/
def feed (s : Screen) (c : Char) : Screen :=
  match s.escape, c with
  | .begun, '[' => { s with escape := .bracketed }
  | .bracketed, 'A' => s.up
  | .bracketed, 'K' => s.erase
  | _, '\x1b' => { s with escape := .begun }
  | _, '\n' => s.newLine
  | _, c => s.put c

/-- The screen after some text. -/
def after (s : Screen) (text : String) : Screen := text.toList.foldl feed s

/-- Some rows, and the cursor at the start of the row after them. -/
def below (rows : List (List Char)) : Screen := ⟨fun r => rows.getD r [], rows.length, 0, .plain⟩

/-- Some rows, and the cursor at the end of the text in the row after them. -/
def typing (rows : List (List Char)) (text : List Char) : Screen :=
  ⟨fun r => (rows ++ [text]).getD r [], rows.length, text.length, .plain⟩

variable {c : Char} {cs : List Char} {rows : List (List Char)}

theorem after_append (s : Screen) (a b : String) : s.after (a ++ b) = (s.after a).after b := by
  rw [after, String.toList_append, List.foldl_append]
  rfl

/-! ## Rows -/

theorem update_row (rows : List (List Char)) (text text' : List Char) :
    Function.update (fun r => (rows ++ [text]).getD r []) rows.length text' =
      fun r => (rows ++ [text']).getD r [] := by
  funext r
  by_cases hr : r = rows.length
  · rw [hr, Function.update_self]
    simp
  · rw [Function.update_of_ne hr]
    grind

theorem typing_nil (rows : List (List Char)) : typing rows [] = below rows := by
  have hrows : (fun r => (rows ++ [[]]).getD r []) = fun r => rows.getD r [] := by
    funext r
    grind
  rw [typing, hrows]
  rfl

/-- The character is neither a line feed nor an escape character. -/
def Shown (c : Char) : Prop := c ≠ '\n' ∧ c ≠ '\x1b'

theorem feed_shown (h : Shown c) (text : List Char) :
    (typing rows text).feed c = typing rows (text ++ [c]) := by
  have hfeed : (typing rows text).feed c = (typing rows text).put c := by
    obtain ⟨hfeed, hescape⟩ := h
    unfold feed
    split
    all_goals first | rfl | contradiction
  have hrow : (rows ++ [text]).getD rows.length [] = text := by simp
  rw [hfeed]
  simp only [put, typing, hrow, List.takeD_eq_take _ (Nat.le_refl _), List.take_length,
    List.drop_eq_nil_of_le (Nat.le_succ _), update_row, List.length_append, List.length_singleton]

theorem foldl_shown (h : ∀ c ∈ cs, Shown c) (text : List Char) :
    cs.foldl feed (typing rows text) = typing rows (text ++ cs) := by
  induction cs generalizing text with
  | nil => rw [List.foldl_nil, List.append_nil]
  | cons c cs ih =>
    obtain ⟨hc, hcs⟩ := List.forall_mem_cons.mp h
    rw [List.foldl_cons, feed_shown hc, ih hcs, List.append_assoc]
    rfl

theorem feed_newLine (text : List Char) :
    (typing rows text).feed '\n' = below (rows ++ [text]) := by
  rw [below, List.length_append]
  rfl

/-- A line becomes a row. -/
theorem foldl_line (h : ∀ c ∈ cs, Shown c) :
    (cs ++ ['\n']).foldl feed (below rows) = below (rows ++ [cs]) := by
  rw [List.foldl_append, ← typing_nil, foldl_shown h, List.nil_append]
  exact feed_newLine cs

/-- Lines become rows. -/
theorem after_lines {lines : List String} (h : ∀ line ∈ lines, ∀ c ∈ line.toList, Shown c) :
    (below rows).after (String.join (lines.map (· ++ "\n"))) =
      below (rows ++ lines.map String.toList) := by
  induction lines generalizing rows with
  | nil => simp [after]
  | cons line lines ih =>
    obtain ⟨hline, hlines⟩ := List.forall_mem_cons.mp h
    have hrow : (below rows).after (line ++ "\n") = below (rows ++ [line.toList]) := by
      rw [after, String.toList_append]
      exact foldl_line hline
    rw [List.map_cons, String.join_cons, after_append, hrow, ih hlines, List.append_assoc]
    rfl

/-! ## Erasing -/

/-- An erasure takes the last row away. -/
theorem after_eraseRow (row : List Char) :
    (below (rows ++ [row])).after Printer.eraseRow = below rows := by
  have hrow : (rows ++ [row]).length - 1 = rows.length := by simp
  have herase : (below (rows ++ [row])).after Printer.eraseRow =
      (below (rows ++ [row])).up.erase := rfl
  rw [herase, ← typing_nil rows]
  simp only [up, erase, below, typing, hrow, List.take_zero, update_row, List.length_nil]

/-- As many erasures as there are rows take them all away. -/
theorem after_erasures (lines : List (List Char)) :
    (below (rows ++ lines)).after (String.join (List.replicate lines.length Printer.eraseRow)) =
      below rows := by
  -- the last row goes first
  induction lines using List.reverseRecOn with
  | nil =>
    rw [List.append_nil]
    rfl
  | append_singleton lines row ih =>
    rw [List.length_append, List.length_singleton, List.replicate_succ, String.join_cons,
      after_append, ← List.append_assoc, after_eraseRow, ih]

/-- What was drawn last is replaced by other lines. -/
theorem after_redraw {drawn next : List String} (h : ∀ line ∈ next, ∀ c ∈ line.toList, Shown c) :
    (below (rows ++ drawn.map String.toList)).after (Printer.redraw drawn.length next) =
      below (rows ++ next.map String.toList) := by
  have herase : (below (rows ++ drawn.map String.toList)).after
      (String.join (List.replicate drawn.length Printer.eraseRow)) = below rows := by
    rw [← List.length_map String.toList]
    exact after_erasures _
  rw [Printer.redraw, after_append, herase, after_lines h]

end Screen

end Rill
