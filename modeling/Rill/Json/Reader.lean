import Rill.Json.Basic
import Rill.Number.Text
import Rill.Text.Utf8

/-!
# Text as JSON

`Json.read` reads one JSON value and nothing after it. A reader takes the characters that are left
and returns what it read and the characters then left; a fault says what went wrong and how many
bytes come after the place where it did, from which `read` works out line and column.

Fuel bounds the recursion. Every step takes a character, so the length of the text is enough.
-/

namespace Rill.Json

/-! ## Faults -/

/-- Why a text is no JSON. -/
inductive Cause where
  | endInList | endInObject | endInString | endInValue
  | expectedColon | expectedListEnd | expectedObjectEnd
  | expectedIdent | expectedValue
  | invalidEscape | invalidNumber | numberOutOfRange
  | controlInString | keyNotString
  | loneSurrogate | halfSurrogate
  | trailingComma | trailingText | tooDeep
  deriving DecidableEq, Repr

/-- The wording of a cause. -/
def Cause.message : Cause → String
  | .endInList => "EOF while parsing a list"
  | .endInObject => "EOF while parsing an object"
  | .endInString => "EOF while parsing a string"
  | .endInValue => "EOF while parsing a value"
  | .expectedColon => "expected `:`"
  | .expectedListEnd => "expected `,` or `]`"
  | .expectedObjectEnd => "expected `,` or `\x7d`"
  | .expectedIdent => "expected ident"
  | .expectedValue => "expected value"
  | .invalidEscape => "invalid escape"
  | .invalidNumber => "invalid number"
  | .numberOutOfRange => "number out of range"
  | .controlInString => "control character (\\u0000-\\u001F) found while parsing a string"
  | .keyNotString => "key must be a string"
  | .loneSurrogate => "lone leading surrogate in hex escape"
  | .halfSurrogate => "unexpected end of hex escape"
  | .trailingComma => "trailing comma"
  | .trailingText => "trailing characters"
  | .tooDeep => "recursion limit exceeded"

/-- A cause, and how many bytes of the text come after its place. -/
structure Fault where
  /-- What went wrong. -/
  cause : Cause
  /-- The bytes after the place where it did. -/
  left : Nat
  deriving DecidableEq, Repr

/-- The number of bytes of the characters. -/
def size (cs : List Char) : Nat := cs.foldr (fun c n => c.utf8Size + n) 0

/-- A fault after the first byte of the characters left, or at the end if there are none. -/
def faultAt {α : Type} (cause : Cause) (cs : List Char) : Except Fault α :=
  .error ⟨cause, size cs - 1⟩

/-- A fault before the characters left. -/
def faultBefore {α : Type} (cause : Cause) (cs : List Char) : Except Fault α :=
  .error ⟨cause, size cs⟩

/-! ## Leaves -/

/-- The blanks between tokens. -/
def isSpace (c : Char) : Bool := c == ' ' || c == '\n' || c == '\t' || c == '\r'

/-- The characters after the blanks. -/
def skipSpace (cs : List Char) : List Char := cs.dropWhile isSpace

/-- The value of a decimal digit. -/
def digit? (c : Char) : Option Nat :=
  if '0' ≤ c ∧ c ≤ '9' then some (c.toNat - '0'.toNat) else none

/-- Whether a digit comes next. -/
def startsWithDigit : List Char → Bool
  | c :: _ => (digit? c).isSome
  | [] => false

/-- The characters after the digits. -/
def skipDigits (cs : List Char) : List Char := cs.dropWhile fun c => (digit? c).isSome

/-- The number that the digits extend `n` to, as long as it stays within `limit`, and the
characters after those digits. -/
def gather (limit n : Nat) : List Char → Nat × List Char
  | [] => (n, [])
  | c :: cs =>
    match digit? c with
    | none => (n, c :: cs)
    | some d => if n * 10 + d ≤ limit then gather limit (n * 10 + d) cs else (n, c :: cs)

/-- The greatest significand. -/
def maxSignificand : Nat := 0xffffffffffffffff

/-- The greatest exponent that is not cut off. -/
def maxExponent : Nat := 0x7fffffff

/-- A number of a significand and a power of ten. -/
def readDecimal (negative : Bool) (significand : Nat) (e : Int) (cs : List Char) :
    Except Fault (Numeral × List Char) :=
  match Number.ofDecimal? negative significand e with
  | some x => .ok (.float x, cs)
  | none => faultBefore .numberOutOfRange cs

/-- The exponent of a number, after the letter. -/
def readExponent (negative : Bool) (significand : Nat) (e : Int) (cs : List Char) :
    Except Fault (Numeral × List Char) :=
  let (down, cs) :=
    match cs with
    | '+' :: cs => (false, cs)
    | '-' :: cs => (true, cs)
    | cs => (false, cs)
  if cs.isEmpty then faultAt .endInValue cs
  else if !startsWithDigit cs then faultAt .invalidNumber cs
  else
    let (n, rest) := gather maxExponent 0 cs
    if startsWithDigit rest then
      if significand ≠ 0 ∧ !down then faultAt .numberOutOfRange rest
      else .ok (.float (if negative then -0.0 else 0.0), skipDigits rest)
    else readDecimal negative significand (if down then e - n else e + n) rest

/-- What may follow the digits of a number that is no integer. -/
def readTail (negative : Bool) (significand : Nat) (e : Int) (cs : List Char) :
    Except Fault (Numeral × List Char) :=
  match cs with
  | 'e' :: cs | 'E' :: cs => readExponent negative significand e cs
  | cs => readDecimal negative significand e cs

/-- The fraction of a number, after the point. Digits that the significand cannot take are
dropped. -/
def readFraction (negative : Bool) (significand : Nat) (e : Int) (cs : List Char) :
    Except Fault (Numeral × List Char) :=
  let (n, rest) := gather maxSignificand significand cs
  let taken := cs.length - rest.length
  if startsWithDigit rest then readTail negative n (e - taken) (skipDigits rest)
  else if taken = 0 then
    if rest.isEmpty then faultAt .endInValue rest else faultAt .invalidNumber rest
  else readTail negative n (e - taken) rest

/-- The integer of a significand, unless it does not fit or is a negative zero. -/
def integer (negative : Bool) (significand : Nat) : Numeral :=
  if !negative then .int significand
  else if 0 < significand ∧ significand ≤ 0x8000000000000000 then .int (-(significand : Int))
  else .float (-(significand.toUInt64.toFloat))

/-- What may follow the digits before a point. Digits that the significand cannot take only raise
the power of ten. -/
def readInteger (negative : Bool) (significand : Nat) (cs : List Char) :
    Except Fault (Numeral × List Char) :=
  if startsWithDigit cs then
    let rest := skipDigits cs
    let e : Int := (cs.length - rest.length : Nat)
    match rest with
    | '.' :: rest => readFraction negative significand e rest
    | rest => readTail negative significand e rest
  else
    match cs with
    | '.' :: rest => readFraction negative significand 0 rest
    | 'e' :: rest | 'E' :: rest => readExponent negative significand 0 rest
    | rest => .ok (integer negative significand, rest)

/-- A number, after its sign. -/
def readNumber (negative : Bool) (cs : List Char) : Except Fault (Numeral × List Char) :=
  match cs with
  | [] => faultAt .endInValue []
  | '0' :: rest =>
    if startsWithDigit rest then faultAt .invalidNumber rest else readInteger negative 0 rest
  | cs =>
    if startsWithDigit cs then
      let (n, rest) := gather maxSignificand 0 cs
      readInteger negative n rest
    else faultAt .invalidNumber cs

/-- The letters of a name such as `true`, after its first. -/
def readIdent (value : Json) : List Char → List Char → Except Fault (Json × List Char)
  | [], cs => .ok (value, cs)
  | _ :: _, [] => faultAt .endInValue []
  | w :: ws, c :: cs => if c = w then readIdent value ws cs else faultAt .expectedIdent (c :: cs)

/-! ## Texts -/

/-- The value of a hexadecimal digit. -/
def hexDigit? (c : Char) : Option Nat :=
  if '0' ≤ c ∧ c ≤ '9' then some (c.toNat - '0'.toNat)
  else if 'a' ≤ c ∧ c ≤ 'f' then some (c.toNat - 'a'.toNat + 10)
  else if 'A' ≤ c ∧ c ≤ 'F' then some (c.toNat - 'A'.toNat + 10)
  else none

/-- The number of the first four characters, if they are hexadecimal digits. -/
def hexFour? : List Char → Option (Nat × List Char)
  | a :: b :: c :: d :: cs => do
    let a ← hexDigit? a
    let b ← hexDigit? b
    let c ← hexDigit? c
    let d ← hexDigit? d
    return (((a * 16 + b) * 16 + c) * 16 + d, cs)
  | _ => none

/-- Four hexadecimal digits. Four bytes are taken before they are looked at. -/
def readHex (cs : List Char) : Except Fault (Nat × List Char) :=
  if size cs < 4 then .error ⟨.endInString, 0⟩
  else
    match hexFour? cs with
    | some r => .ok r
    | none => .error ⟨.invalidEscape, size cs - 4⟩

/-- The second half of a character that is escaped in two. -/
def readSurrogate (high : Nat) (cs : List Char) : Except Fault (Char × List Char) := do
  match cs with
  | [] => faultAt .endInString []
  | '\\' :: [] => faultAt .endInString []
  | '\\' :: 'u' :: cs =>
    let (low, cs) ← readHex cs
    if 0xdc00 ≤ low ∧ low ≤ 0xdfff then
      return (Char.ofNat ((high - 0xd800) * 1024 + (low - 0xdc00) + 0x10000), cs)
    else faultBefore .loneSurrogate cs
  | '\\' :: cs => faultAt .halfSurrogate cs
  | cs => faultAt .halfSurrogate cs

/-- A character by its code, after `\u`. -/
def readCode (cs : List Char) : Except Fault (Char × List Char) := do
  let (n, cs) ← readHex cs
  if 0xdc00 ≤ n ∧ n ≤ 0xdfff then faultBefore .loneSurrogate cs
  else if 0xd800 ≤ n ∧ n ≤ 0xdbff then readSurrogate n cs
  else return (Char.ofNat n, cs)

/-- An escaped character, after the backslash. -/
def readEscape : List Char → Except Fault (Char × List Char)
  | [] => faultAt .endInString []
  | '"' :: cs => .ok ('"', cs)
  | '\\' :: cs => .ok ('\\', cs)
  | '/' :: cs => .ok ('/', cs)
  | 'b' :: cs => .ok ('\x08', cs)
  | 'f' :: cs => .ok ('\x0c', cs)
  | 'n' :: cs => .ok ('\n', cs)
  | 'r' :: cs => .ok ('\r', cs)
  | 't' :: cs => .ok ('\t', cs)
  | 'u' :: cs => readCode cs
  | cs => faultAt .invalidEscape cs

/-- The characters of a text, after the quote that opens it. -/
def readString : Nat → List Char → Except Fault (List Char × List Char)
  | 0, cs => faultAt .endInString cs
  | _ + 1, [] => faultAt .endInString []
  | _ + 1, '"' :: cs => .ok ([], cs)
  | fuel + 1, '\\' :: cs => do
    let (c, cs) ← readEscape cs
    let (s, cs) ← readString fuel cs
    return (c :: s, cs)
  | fuel + 1, c :: cs =>
    if c.toNat < 0x20 then faultBefore .controlInString cs
    else do
      let (s, cs) ← readString fuel cs
      return (c :: s, cs)

/-! ## Values -/

/-- How deep lists and objects may be nested. -/
def maxDepth : Nat := 127

/-- What may stand between two items: a comma, and then another item. -/
def readItemComma (cs : List Char) : Except Fault (Unit × List Char) :=
  match cs with
  | ',' :: cs =>
    match skipSpace cs with
    | [] => faultAt .endInValue []
    | ']' :: rest => faultAt .trailingComma (']' :: rest)
    | rest => .ok ((), rest)
  | cs => faultAt .expectedListEnd cs

/-- What may stand before a field: nothing before the first, and a comma before another; then the
quote that opens its key. -/
def readKeyQuote (first : Bool) (cs : List Char) : Except Fault (Unit × List Char) :=
  match first, cs with
  | true, '"' :: cs => .ok ((), cs)
  | true, cs => faultAt .keyNotString cs
  | false, ',' :: cs =>
    match skipSpace cs with
    | [] => faultAt .endInValue []
    | '"' :: rest => .ok ((), rest)
    | '\x7d' :: rest => faultAt .trailingComma ('\x7d' :: rest)
    | rest => faultAt .keyNotString rest
  | false, cs => faultAt .expectedObjectEnd cs

/-- The colon after a key. -/
def readColon (cs : List Char) : Except Fault (Unit × List Char) :=
  match skipSpace cs with
  | [] => faultAt .endInObject []
  | ':' :: cs => .ok ((), cs)
  | cs => faultAt .expectedColon cs

mutual

/-- A value, at most `depth` lists and objects deep. -/
def readValue : Nat → Nat → List Char → Except Fault (Json × List Char)
  | 0, _, cs => faultAt .endInValue cs
  | fuel + 1, depth, cs =>
    match skipSpace cs with
    | [] => faultAt .endInValue []
    | 'n' :: cs => readIdent .null ['u', 'l', 'l'] cs
    | 't' :: cs => readIdent (.bool true) ['r', 'u', 'e'] cs
    | 'f' :: cs => readIdent (.bool false) ['a', 'l', 's', 'e'] cs
    | '-' :: cs => do
      let (n, cs) ← readNumber true cs
      return (.number n, cs)
    | '"' :: cs => do
      let (s, cs) ← readString (fuel + 1) cs
      return (.string (String.ofList s), cs)
    | '[' :: cs =>
      match depth with
      | 0 => faultAt .tooDeep ('[' :: cs)
      | depth + 1 => do
        let (items, cs) ← readItems fuel depth true cs
        return (.list items, cs)
    | '\x7b' :: cs =>
      match depth with
      | 0 => faultAt .tooDeep ('\x7b' :: cs)
      | depth + 1 => do
        let (fields, cs) ← readFields fuel depth true [] cs
        return (.object fields, cs)
    | cs =>
      if startsWithDigit cs then do
        let (n, cs) ← readNumber false cs
        return (.number n, cs)
      else faultAt .expectedValue cs

/-- The items of a list and its closing bracket; `first` if none was read yet. -/
def readItems : Nat → Nat → Bool → List Char → Except Fault (List Json × List Char)
  | 0, _, _, cs => faultAt .endInList cs
  | fuel + 1, depth, first, cs =>
    match skipSpace cs with
    | [] => faultAt .endInList []
    | ']' :: cs => .ok ([], cs)
    | cs => do
      let ((), cs) ← if first then .ok ((), cs) else readItemComma cs
      let (item, cs) ← readValue fuel depth cs
      let (items, cs) ← readItems fuel depth false cs
      return (item :: items, cs)

/-- The fields of an object and its closing brace, added to those read so far. -/
def readFields : Nat → Nat → Bool → Sorted Json → List Char → Except Fault (Sorted Json × List Char)
  | 0, _, _, _, cs => faultAt .endInObject cs
  | fuel + 1, depth, first, fields, cs =>
    match skipSpace cs with
    | [] => faultAt .endInObject []
    | '\x7d' :: cs => .ok (fields, cs)
    | cs => do
      let ((), cs) ← readKeyQuote first cs
      let (key, cs) ← readString (fuel + 1) cs
      let ((), cs) ← readColon cs
      let (value, cs) ← readValue fuel depth cs
      readFields fuel depth false (Sorted.insert (String.ofList key) value fields) cs

end

/-- One value and nothing after it. Between two calls of `readValue` there is at most one other
call, and at least one character is read. -/
def readAll (cs : List Char) : Except Fault Json := do
  let (value, rest) ← readValue (2 * cs.length + 1) maxDepth cs
  match skipSpace rest with
  | [] => return value
  | rest => faultAt .trailingText rest

/-! ## Places -/

/-- A cause and its place in the text. -/
structure ReadError where
  /-- What went wrong. -/
  cause : Cause
  /-- The line, counted from one. -/
  line : Nat
  /-- How many bytes of the line come before the place. -/
  column : Nat
  deriving DecidableEq, Repr

/-- The wording of an error. -/
def ReadError.message (e : ReadError) : String :=
  e.cause.message ++ " at line " ++ toString e.line ++ " column " ++ toString e.column

/-- The place of a fault in a text. -/
def Fault.locate (text : String) (f : Fault) : ReadError :=
  let bytes := Text.Utf8.encode text
  let before := bytes.take (bytes.length - f.left)
  { cause := f.cause
    line := 1 + before.count 10
    column := (before.reverse.takeWhile (· != 10)).length }

/-- The value that a text writes. -/
def read (text : String) : Except ReadError Json :=
  match readAll text.toList with
  | .ok value => .ok value
  | .error fault => .error (fault.locate text)

end Rill.Json
