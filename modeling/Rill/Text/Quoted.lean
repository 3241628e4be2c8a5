import Rill.Text.Printable

/-!
# Quoted text

The form in which messages show a text: between double quotes, with a backslash before a quote or a
backslash, short escapes for the usual control characters, and the code point in hexadecimal for
every other character that does not show on its own. Single quotes stay as they are.
-/

namespace Rill.Text

/-- A character that is not shown, by its code point. -/
def codePoint (c : Char) : List Char :=
  '\\' :: 'u' :: '\x7b' :: (Nat.toDigits 16 c.toNat ++ ['\x7d'])

/-- One character of a quoted text. -/
def quotedChar (c : Char) : List Char :=
  match c with
  | '\x00' => ['\\', '0']
  | '\t' => ['\\', 't']
  | '\r' => ['\\', 'r']
  | '\n' => ['\\', 'n']
  | '"' => ['\\', '"']
  | '\\' => ['\\', '\\']
  | c => if isShown c then [c] else codePoint c

/-- A text between double quotes. -/
def quoted (s : String) : String := String.ofList ('"' :: (s.toList.flatMap quotedChar ++ ['"']))

end Rill.Text
