/-!
# Blank characters, lines and pieces of text

Text is cut as a list of characters. `isBlank` is the Unicode property `White_Space`; `trim` drops
blank characters at both ends, `lines` cuts at line feeds, and `pieces` cuts at one character.
Each cut has a form on `String`, named with the suffix `Text`.
-/

namespace Rill.Text

/-! ## Blank characters -/

/-- The Unicode property `White_Space`, which has twenty-five characters. -/
def isBlank (c : Char) : Bool :=
  let n := c.toNat
  (0x09 ≤ n && n ≤ 0x0d) || n == 0x20 || n == 0x85 || n == 0xa0 || n == 0x1680 ||
    (0x2000 ≤ n && n ≤ 0x200a) || n == 0x2028 || n == 0x2029 || n == 0x202f || n == 0x205f ||
    n == 0x3000

/-- The characters from the first that is not blank on. -/
def trimStart (cs : List Char) : List Char := cs.dropWhile isBlank

/-- The characters up to the last that is not blank. -/
def trimEnd (cs : List Char) : List Char := (cs.reverse.dropWhile isBlank).reverse

/-- The characters between the blank ones at both ends. -/
def trim (cs : List Char) : List Char := trimEnd (trimStart cs)

/-- `trim` on a string. -/
def trimText (s : String) : String := String.ofList (trim s.toList)

/-! ## Lines -/

/-- A line that a line feed has ended loses one carriage return before it. The line is given
backwards. -/
def endedLine (backwards : List Char) : List Char :=
  match backwards with
  | '\r' :: cs => cs.reverse
  | cs => cs.reverse

/-- The lines of the characters that follow `backwards`, the current line so far in reverse. -/
def linesAfter (backwards : List Char) : List Char → List (List Char)
  | [] => if backwards.isEmpty then [] else [backwards.reverse]
  | '\n' :: cs => endedLine backwards :: linesAfter [] cs
  | c :: cs => linesAfter (c :: backwards) cs

/-- The lines of a text. A line feed ends a line and belongs to none, so a final one opens no
further line; a carriage return right before it is dropped with it. -/
def lines (cs : List Char) : List (List Char) := linesAfter [] cs

/-- `lines` on a string. -/
def linesText (s : String) : List String := (lines s.toList).map String.ofList

/-! ## Pieces -/

/-- The pieces between the occurrences of `sep`, of which there is always at least one. -/
def pieces (sep : Char) : List Char → List (List Char)
  | [] => [[]]
  | c :: cs =>
    if c = sep then [] :: pieces sep cs
    else
      match pieces sep cs with
      | [] => [[c]]
      | p :: ps => (c :: p) :: ps

/-- `pieces` on a string. -/
def piecesText (sep : Char) (s : String) : List String := (pieces sep s.toList).map String.ofList

theorem pieces_ne_nil (sep : Char) (cs : List Char) : pieces sep cs ≠ [] := by
  cases cs with
  | nil => simp [pieces]
  | cons c cs =>
    rw [pieces]
    split
    · simp
    · split <;> simp

/-- `s` without the character `c` at its start, if it stands there. -/
def stripFirst? (c : Char) (s : String) : Option String :=
  match s.toList with
  | d :: cs => if d = c then some (String.ofList cs) else none
  | [] => none

/-- `s` without the character `c` at its end, or `s` itself if it does not stand there. -/
def dropLast (c : Char) (s : String) : String :=
  match s.toList.reverse with
  | d :: cs => if d = c then String.ofList cs.reverse else s
  | [] => s

end Rill.Text
