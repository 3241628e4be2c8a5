import Rill.Error
import Rill.Json.Printer
import Rill.Json.Reader
import Rill.Text.Base64
import Rill.Text.Utf8

/-!
# Values

What flows through a pipeline: a JSON value, raw bytes, or a payload of a named type. Every value
has a JSON form (`toJson`), a text for people (`render`) and a form in bytes (`toBytes`), and counts
as true or false (`isTruthy`).
-/

namespace Rill

/-- An element of a stream. -/
inductive Value where
  /-- Anything that JSON can write. -/
  | json (j : Json)
  /-- Raw bytes. -/
  | bytes (bs : List UInt8)
  /-- A payload of a named type. -/
  | typed (type : String) (payload : List UInt8)
  deriving Repr, Inhabited

/-- The kinds of values that operators tell apart. -/
inductive Kind where
  | null | bool | number | string | list | struct | bytes | typed
  deriving DecidableEq, Repr

/-- The name of a kind. -/
def Kind.name : Kind → String
  | .null => "null"
  | .bool => "bool"
  | .number => "number"
  | .string => "string"
  | .list => "list"
  | .struct => "struct"
  | .bytes => "bytes"
  | .typed => "typed"

/-- The nearest `Float` to a numeral. -/
def Numeral.toFloat : Numeral → Float
  | .int n => Number.ofInt n
  | .float x => x

/-- The kind of a JSON value. -/
def Json.kind : Json → Kind
  | .null => .null
  | .bool _ => .bool
  | .number _ => .number
  | .string _ => .string
  | .list _ => .list
  | .object _ => .struct

/-- Numbers count as true if they are positive, texts and lists if they are not empty, and objects
always. -/
def Json.isTruthy : Json → Bool
  | .null => false
  | .bool b => b
  | .number n => n.toFloat > 0.0
  | .string s => s != ""
  | .list items => !items.isEmpty
  | .object _ => true

namespace Value

/-! ## Making values -/

/-- `null`. -/
def null : Value := .json .null

/-- A truth value. -/
def bool (b : Bool) : Value := .json (.bool b)

/-- A text. -/
def string (s : String) : Value := .json (.string s)

/-- An integer. -/
def int (n : Int) : Value := .json (.number (.int n))

/-- Integers from here on are not all stored exactly. -/
def safeBound : Float := 9007199254740992.0

/-- A number: an integer if it has no fraction and all integers up to it are stored exactly. What is
not finite has no JSON form and becomes `null`. -/
def number (x : Float) : Value :=
  if !x.isFinite then null
  else if Number.truncate x == x && x.abs < safeBound then int (Number.toInt64 x)
  else .json (.number (.float x))

/-- The value that a JSON text writes. -/
def read (text : String) : Except Error Value :=
  match Json.read text with
  | .ok j => .ok (.json j)
  | .error e => .error (.json e.message)

/-! ## Looking at values -/

/-- The kind of a value. -/
def kind : Value → Kind
  | .json j => j.kind
  | .bytes _ => .bytes
  | .typed _ _ => .typed

/-- The number that a value is. -/
def float? : Value → Option Float
  | .json (.number n) => some n.toFloat
  | _ => none

/-- The truth value that a value is. -/
def bool? : Value → Option Bool
  | .json (.bool b) => some b
  | _ => none

/-- The text that a value is. -/
def string? : Value → Option String
  | .json (.string s) => some s
  | _ => none

/-- Whether a value counts as true. Bytes do if one of them is not zero. -/
def isTruthy : Value → Bool
  | .json j => j.isTruthy
  | .bytes bs => bs.any (· != 0)
  | .typed _ _ => true

/-- Whether two values are the same. -/
def same : Value → Value → Bool
  | .json a, .json b => a == b
  | .bytes a, .bytes b => a == b
  | .typed s a, .typed t b => s == t && a == b
  | _, _ => false

instance : BEq Value := ⟨same⟩

/-! ## Other forms -/

/-- The fields that the payload of a typed value shows: its own if it is the text of an object, and
otherwise itself in letters. -/
def payloadFields (payload : List UInt8) : Sorted Json :=
  match (Text.Utf8.strict? payload).map Json.read with
  | some (.ok (.object fields)) => fields
  | _ => [("value", .string (Text.Base64.encodeText payload))]

/-- The JSON form of a value. Bytes are written in letters, and a typed value shows its type. -/
def toJson : Value → Json
  | .json j => j
  | .bytes bs => .string (Text.Base64.encodeText bs)
  | .typed type payload => .object (Sorted.insert "@type" (.string type) (payloadFields payload))

/-- The text of the JSON form. -/
def toJsonText (v : Value) : String := v.toJson.render

/-- The text that people see: a text as it is, bytes decoded, and anything else as JSON. -/
def render : Value → String
  | .json (.string s) => s
  | .bytes bs => Text.Utf8.lossyText bs
  | v => v.toJsonText

/-- The bytes that are written to a file: bytes and payloads as they are, and anything else as the
text that people see. -/
def toBytes : Value → List UInt8
  | .bytes bs => bs
  | .typed _ payload => payload
  | v => Text.Utf8.encode v.render

end Value

/-- An element of a stream is a value, or an error in its place. -/
abbrev Item := Except Error Value

end Rill
