import Rill.Scope

/-!
# Records

The operands between the braces of a record are written as JSON text, one after the other, and the
text is read as an object. A word of punctuation stands for itself; a word before a colon is a key;
any other operand is written as the JSON value that it has. A record that reads a parameter or a
stream waits for them.
-/

namespace Rill

/-- What an operand of a record contributes to its text. -/
inductive RecordPart where
  /-- A word that is copied. -/
  | mark (w : String)
  /-- A key. -/
  | key (w : String)
  /-- A value that is known. -/
  | value (v : Value)
  /-- The values of an operand that has to be evaluated. -/
  | values (x : Operand)

namespace Record

/-- The words that are copied into the text. -/
def punctuation : List String := [":", ",", "[", "]", "\x7b", "\x7d", "-"]

/-- Whether an operand is a word of punctuation. -/
def isPunctuation : Operand → Bool
  | .word w => punctuation.contains w
  | _ => false

/-- Whether the operands begin with a colon. -/
def colonFollows : List Operand → Bool
  | .word ":" :: _ => true
  | _ => false

/-- What each operand contributes. -/
def parts : List Operand → List RecordPart
  | [] => []
  | x :: rest =>
    let part : RecordPart :=
      match x with
      | .word w =>
        if punctuation.contains w then .mark w
        else if colonFollows rest then .key w
        else .values x
      | .value v => .value v
      | x => .values x
    part :: parts rest

/-- Several values are written as a list, and one as itself. -/
def joined (values : List Value) : Json :=
  match values with
  | [v] => v.toJson
  | vs => .list (vs.map Value.toJson)

/-- The text of an object from what its operands contributed. -/
def text (contents : List String) : String := "\x7b" ++ String.join contents ++ "\x7d"

/-- A record as a value, of a type if one is named. -/
def ofText (type : Option String) (text : String) : Except Error Value := do
  let v ← Value.read text
  match type with
  | none => return v
  | some name => return .typed name (Text.Utf8.encode v.toJsonText)

/-- Whether an operand has the same value whatever the parameters. -/
def isFixed (scope : Scope) : Operand → Bool
  | .value _ => true
  | .word w => !scope.isVarPath w
  | _ => false

/-- What a part contributes if it needs no evaluation; a word that is no parameter is a text. -/
def fixedContent : RecordPart → String
  | .mark w => w
  | .key w => (Json.string w).render
  | .value v => v.toJsonText
  | .values (.word w) => (Json.string w).render
  | .values _ => ""

/-- A record of some operands. -/
def build (scope : Scope) (operands : List Operand) : Except Error Operand :=
  if operands.all (isFixed scope) then do
    let v ← ofText none (text ((parts operands).map fixedContent))
    return .value v
  else .ok (.deferred (.record none operands))

/-- A record that is given a type. -/
def typed (type : String) : Operand → Operand
  | .value v => .value (.typed type (Text.Utf8.encode v.toJsonText))
  | .deferred (.record none operands) => .deferred (.record (some type) operands)
  | x => x

end Record

end Rill
