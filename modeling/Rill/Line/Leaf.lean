import Rill.Operand.Apply

/-!
# Leaves

What a token is that is no operator: a reference, a template, a text in quotes, a hexadecimal
number, any other JSON value, or a word.
-/

namespace Rill.Leaf

/-- The greatest integer of a hexadecimal number. -/
def maxHex : Nat := 0x7fffffffffffffff

/-- Hexadecimal digits as a number between the least and the greatest integer of 64 bits, read from
the left; the wording of what is wrong with them otherwise. -/
def readHex (negative : Bool) (n : Nat) : List Char → Except String Int
  | [] => .ok (if negative then -(n : Int) else n)
  | c :: cs =>
    match Json.hexDigit? c with
    | none => .error "invalid digit found in string"
    | some d =>
      let next := n * 16 + d
      if negative then
        if next ≤ maxHex + 1 then readHex negative next cs
        else .error "number too small to fit in target type"
      else
        if next ≤ maxHex then readHex negative next cs
        else .error "number too large to fit in target type"

/-- A hexadecimal integer with or without a sign. -/
def hex (text : String) : Except String Int :=
  match text.toList with
  | [] => .error "cannot parse integer from empty string"
  | ['+'] | ['-'] => .error "invalid digit found in string"
  | '+' :: cs => readHex false 0 cs
  | '-' :: cs => readHex true 0 cs
  | cs => readHex false 0 cs

/-- The digits after `0x` or `0X`. -/
def hexDigits? (token : String) : Option String :=
  match token.toList with
  | '0' :: 'x' :: cs | '0' :: 'X' :: cs => some (String.ofList cs)
  | _ => none

/-- The operand that a token is. -/
def read (token : String) : Except Error Operand :=
  match token.toList with
  | '$' :: c :: cs => .ok (.streamRef (String.ofList (c :: cs)))
  | '\x60' :: cs => .ok (Operand.template (Text.dropLast '\x60' (String.ofList cs)))
  | '\'' :: cs => .ok (.value (.string (Text.dropLast '\'' (String.ofList cs))))
  | '"' :: _ => (Value.read token).map .value
  | _ =>
    match hexDigits? token with
    | some digits =>
      match hex digits with
      | .ok n => .ok (.value (.number (Number.ofInt n)))
      | .error why => .error (.parse ("invalid hex literal " ++ token ++ ": " ++ why))
    | none =>
      match Value.read token with
      | .ok v => .ok (.value v)
      | .error _ => .ok (.word token)

end Rill.Leaf
