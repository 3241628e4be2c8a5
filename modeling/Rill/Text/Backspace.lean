import Rill.Text.Cluster
import Rill.Text.Utf8

/-!
# Backspaces

A backspace in a line that was not typed at a terminal takes back the cluster before it. How many
bytes that are is kept in one byte, so a cluster of 256 bytes or more is taken back in part only.
-/

namespace Rill.Text

/-- The character that takes a cluster back. -/
def backspace : Char := '\x08'

/-- How many bytes some characters have. -/
def byteCount (cs : List Char) : Nat := (cs.map Char.utf8Size).foldr (· + ·) 0

/-- What was typed so far. -/
structure Typed where
  /-- The characters, the last first. -/
  backwards : List Char := []
  /-- How many bytes a backspace takes back, and the next. -/
  sizes : List Nat := []

namespace Typed

/-- The characters that are left when so many bytes were taken from the front. -/
def dropBytes : Nat → List Char → List Char
  | _, [] => []
  | 0, cs => cs
  | n + 1, c :: cs => dropBytes (n + 1 - c.utf8Size) cs

/-- What was typed after one more cluster. -/
def push (t : Typed) (cluster : List Char) : Typed :=
  if cluster = [backspace] then
    match t.sizes with
    | [] => t
    | n :: sizes => ⟨dropBytes n t.backwards, sizes⟩
  else ⟨cluster.reverse ++ t.backwards, byteCount cluster % 256 :: t.sizes⟩

/-- What is left of it. -/
def chars (t : Typed) : List Char := t.backwards.reverse

end Typed

/-- What is left of a text when its backspaces have done their work. -/
def takenBack (s : String) : String :=
  String.ofList ((clusters s.toList).foldl Typed.push {}).chars

end Rill.Text
