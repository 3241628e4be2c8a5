import Rill.Json.Basic
import Rill.Number.Text

/-!
# JSON as text

The compact text of a value: no blanks, and in a text only quotes, backslashes and the control
characters below the space are escaped.
-/

namespace Rill

/-- The text of a numeral. -/
def Numeral.text : Numeral → List Char
  | .int n => Number.intText n
  | .float x => Number.floatText x

namespace Json

/-- The two hexadecimal digits of a number below 256. -/
def hexPair (n : Nat) : List Char := [Nat.digitChar (n / 16), Nat.digitChar (n % 16)]

/-- One character of a text between quotes. -/
def escaped (c : Char) : List Char :=
  match c with
  | '"' => ['\\', '"']
  | '\\' => ['\\', '\\']
  | '\x08' => ['\\', 'b']
  | '\t' => ['\\', 't']
  | '\n' => ['\\', 'n']
  | '\x0c' => ['\\', 'f']
  | '\r' => ['\\', 'r']
  | c => if c.toNat < 0x20 then '\\' :: 'u' :: '0' :: '0' :: hexPair c.toNat else [c]

/-- A text between quotes. -/
def stringText (s : String) : List Char := '"' :: (s.toList.flatMap escaped ++ ['"'])

mutual

/-- The compact text of a value. -/
def chars : Json → List Char
  | .null => ['n', 'u', 'l', 'l']
  | .bool true => ['t', 'r', 'u', 'e']
  | .bool false => ['f', 'a', 'l', 's', 'e']
  | .number n => n.text
  | .string s => stringText s
  | .list items => '[' :: (itemChars items ++ [']'])
  | .object fields => '\x7b' :: (fieldChars fields ++ ['\x7d'])

/-- The texts of the items of a list, with commas between them. -/
def itemChars : List Json → List Char
  | [] => []
  | [x] => chars x
  | x :: y :: rest => chars x ++ ',' :: itemChars (y :: rest)

/-- The texts of the fields of an object, with commas between them. -/
def fieldChars : List (String × Json) → List Char
  | [] => []
  | [(k, x)] => stringText k ++ ':' :: chars x
  | (k, x) :: y :: rest => stringText k ++ ':' :: (chars x ++ ',' :: fieldChars (y :: rest))

end

/-- The compact text of a value. -/
def render (j : Json) : String := String.ofList j.chars

end Json

end Rill
