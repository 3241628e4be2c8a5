import Rill.Stream.Basic
import Rill.Text.Quoted

/-!
# Operands in messages

The form in which messages show operands, handles and scopes: the kind of each part, and in brackets
what it is made of.
-/

namespace Rill

/-- Some parts with commas between them. -/
def commaList (parts : List String) : String := ", ".intercalate parts

/-- The numbers of some bytes. -/
def shownBytes (bytes : List UInt8) : String :=
  "[" ++ commaList (bytes.map fun b => toString b.toNat) ++ "]"

mutual

/-- A JSON value in a message. -/
def Json.shown : Json → String
  | .null => "Null"
  | .bool b => "Bool(" ++ toString b ++ ")"
  | .number n => "Number(" ++ String.ofList n.text ++ ")"
  | .string s => "String(" ++ Text.quoted s ++ ")"
  | .list items => "Array [" ++ Json.shownItems items ++ "]"
  | .object fields => "Object \x7b" ++ Json.shownFields fields ++ "\x7d"

/-- The items of a list in a message. -/
def Json.shownItems : List Json → String
  | [] => ""
  | [x] => x.shown
  | x :: y :: rest => x.shown ++ ", " ++ Json.shownItems (y :: rest)

/-- The fields of an object in a message. -/
def Json.shownFields : List (String × Json) → String
  | [] => ""
  | [(k, x)] => Text.quoted k ++ ": " ++ x.shown
  | (k, x) :: y :: rest => Text.quoted k ++ ": " ++ x.shown ++ ", " ++ Json.shownFields (y :: rest)

end

/-- A value in a message. -/
def Value.shown : Value → String
  | .json j => "Json(" ++ j.shown ++ ")"
  | .bytes bs => "Bytes(" ++ shownBytes bs ++ ")"
  | .typed type payload =>
    "Typed(TypedValue \x7b type_name: " ++ Text.quoted type ++ ", payload: " ++
      shownBytes payload ++ " \x7d)"

/-- An operand in a message. -/
def Operand.shown : Operand → String
  | .value v => "Value(" ++ v.shown ++ ")"
  | .stream _ => "Stream(..)"
  | .streamRef name => "StreamRef($" ++ name ++ ")"
  | .word w => "Word(" ++ Text.quoted w ++ ")"
  | .deferred _ => "Deferred(..)"

/-- Some operands in a message. -/
def shownOperands (operands : List Operand) : String :=
  "[" ++ commaList (operands.map Operand.shown) ++ "]"

/-- A handle in a message. -/
def Handle.shown (h : Handle) : String :=
  "VarSlot \x7b index: " ++ toString h.index ++ ", generation: " ++ toString h.generation.toNat ++
    " \x7d"

/-- A scope in a message: its parameters with their slots, and the names of its local streams. -/
def Scope.shown : Scope → String
  | .mk vars overrides =>
    "Scope \x7b vars: \x7b" ++
      commaList (vars.map fun e => Text.quoted e.1 ++ ": " ++ e.2.shown) ++
      "\x7d, env_overrides: [" ++ commaList (overrides.map fun e => Text.quoted e.1) ++ "] \x7d"

end Rill
