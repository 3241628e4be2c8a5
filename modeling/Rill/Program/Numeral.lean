import Rill.Json.Reader
import Rill.Number.Rounded
import Rill.Text.Octets

/-!
# Numbers that programs read

The longest number at the front of an argument, after blanks: a whole number in decimal, octal,
hexadecimal or binary digits, or a number with a fraction and an exponent. What is left says whether
all of the argument was one.
-/

namespace Rill.Program

open Rill.Text (Octets)
open Rill.Number (Rounded Precision)

/-- The value of an octal digit. -/
def octalDigit? (c : Char) : Option Nat :=
  if '0' ≤ c ∧ c ≤ '7' then some (c.toNat - '0'.toNat) else none

/-- The value of a binary digit. -/
def binaryDigit? (c : Char) : Option Nat :=
  if c = '0' then some 0 else if c = '1' then some 1 else none

/-- Up to `limit` digits of a base. -/
def takeDigits (digit? : Char → Option Nat) (base : Nat) : Nat → Nat → Octets → Nat × Octets
  | 0, n, cs => (n, cs)
  | _ + 1, n, [] => (n, [])
  | limit + 1, n, c :: cs =>
    match digit? c with
    | some d => takeDigits digit? base limit (n * base + d) cs
    | none => (n, c :: cs)

/-- Whether a byte is blank. -/
def isSpace (c : Char) : Bool := c == ' ' || ('\t' ≤ c && c ≤ '\r')

/-- A sign, and what follows it. -/
def takeSign : Octets → Bool × Octets
  | '-' :: cs => (true, cs)
  | '+' :: cs => (false, cs)
  | cs => (false, cs)

/-- Whether a digit comes next. -/
def startsWith (digit? : Char → Option Nat) (cs : Octets) : Bool := (cs.head?.bind digit?).isSome

/-- A whole number at the front of an argument: its sign, its size, and what is left. Nothing if
there is none. -/
def takeInteger? (cs : Octets) : Option (Bool × Nat × Octets) :=
  let (negative, cs) := takeSign (cs.dropWhile isSpace)
  let all := cs.length
  let digits (r : Nat × Octets) : Option (Bool × Nat × Octets) := some (negative, r.1, r.2)
  match cs with
  | '0' :: 'x' :: rest | '0' :: 'X' :: rest =>
    if startsWith Json.hexDigit? rest then digits (takeDigits Json.hexDigit? 16 all 0 rest)
    else digits (0, cs.drop 1)
  | '0' :: 'b' :: rest | '0' :: 'B' :: rest =>
    if startsWith binaryDigit? rest then digits (takeDigits binaryDigit? 2 all 0 rest)
    else digits (0, cs.drop 1)
  | '0' :: rest => digits (takeDigits octalDigit? 8 all 0 rest)
  | cs => if startsWith Json.digit? cs then digits (takeDigits Json.digit? 10 all 0 cs) else none

/-- The least whole number of 64 bits with a sign. -/
def minInteger : Int := -0x8000000000000000

/-- The greatest whole number of 64 bits with a sign. -/
def maxInteger : Int := 0x7fffffffffffffff

/-- The greatest whole number of 64 bits without a sign. -/
def maxNatural : Nat := 0xffffffffffffffff

/-- What is wrong with a number. -/
structure Faults where
  /-- There is none. -/
  missing : Bool := false
  /-- More follows it. -/
  more : Bool := false
  /-- It is too large or too small. -/
  range : Bool := false
  deriving DecidableEq, Repr

/-- What is wrong with an argument without a number; an empty one counts as zero. -/
def Faults.ofNone (cs : Octets) : Faults := { missing := !cs.isEmpty, more := !cs.isEmpty }

/-- What is wrong with a number that something may follow. -/
def Faults.ofRest (outOfRange : Bool) (rest : Octets) : Faults :=
  { more := !rest.isEmpty, range := outOfRange }

/-- The whole number with a sign that an argument writes. -/
def readSigned (cs : Octets) : Int × Faults :=
  match takeInteger? cs with
  | none => (0, .ofNone cs)
  | some (negative, n, rest) =>
    let v : Int := if negative then -(n : Int) else n
    (max minInteger (min maxInteger v), .ofRest (v < minInteger || maxInteger < v) rest)

/-- The whole number without a sign that an argument writes; a negative one counts back from the
greatest. -/
def readUnsigned (cs : Octets) : Nat × Faults :=
  match takeInteger? cs with
  | none => (0, .ofNone cs)
  | some (negative, n, rest) =>
    let v := if maxNatural < n then maxNatural
      else if negative then (maxNatural + 1 - n) % (maxNatural + 1) else n
    (v, .ofRest (maxNatural < n) rest)

/-! ## Fractions -/

/-- What follows a word, whatever its case. -/
def dropWord? (word : String) (cs : Octets) : Option Octets :=
  let n := word.length
  if (cs.take n).map Char.toLower = word.toList then some (cs.drop n) else none

/-- The digits at the front, whether there are any, and what is left. -/
def takeRun (digit? : Char → Option Nat) (base n : Nat) (cs : Octets) : Nat × Nat × Octets :=
  let (m, rest) := takeDigits digit? base cs.length n cs
  (m, cs.length - rest.length, rest)

/-- An exponent after its mark, if there is one. -/
def takeExponent (mark : Char) (cs : Octets) : Int × Octets :=
  match cs with
  | c :: rest =>
    if c.toLower = mark then
      let (negative, ds) := takeSign rest
      if startsWith Json.digit? ds then
        let (n, left) := takeDigits Json.digit? 10 ds.length 0 ds
        (if negative then -(n : Int) else n, left)
      else (0, cs)
    else (0, cs)
  | [] => (0, [])

/-- Digits with a fraction and an exponent: all digits as one number, the exponent of their base,
the exponent that was written, and what is left. Nothing if there is no digit. -/
def takeScaled? (digit? : Char → Option Nat) (base : Nat) (mark : Char) (cs : Octets) :
    Option (Nat × Nat × Int × Octets) :=
  let (n, whole, rest) := takeRun digit? base 0 cs
  let (n, places, rest) :=
    match rest with
    | '.' :: more =>
      let (m, places, left) := takeRun digit? base n more
      if whole = 0 ∧ places = 0 then (n, 0, rest) else (m, places, left)
    | rest => (n, 0, rest)
  if whole = 0 ∧ places = 0 then none
  else
    let (k, rest) := takeExponent mark rest
    some (n, places, k, rest)

/-- The most digits that an exponent of ten can move a point and leave a number in range. -/
def exponentLimit : Int := 6000

/-- The number nearest to `n * 10 ^ k`. -/
def roundDecimal (p : Precision) (negative : Bool) (n : Nat) (k : Int) : Rounded × Bool :=
  let size : Int := (Nat.toDigits 10 n).length
  if n = 0 then (.finite negative 0 0, false)
  else if exponentLimit < k + size then (.infinite negative, true)
  else if k + size < -exponentLimit then (.finite negative 0 0, true)
  else
    let (num, den) := Number.scaled n 10 k
    p.round negative num den

/-- The number nearest to `n * 2 ^ k`. -/
def roundBinary (p : Precision) (negative : Bool) (n : Nat) (k : Int) : Rounded × Bool :=
  if n = 0 then (.finite negative 0 0, false)
  else if 20000 < k then (.infinite negative, true)
  else if k + Nat.log2 n < -20000 then (.finite negative 0 0, true)
  else
    let (num, den) := Number.scaled n 2 k
    p.round negative num den

/-- A number at the front of an argument, whether it is out of range, and what is left. -/
def takeReal? (p : Precision) (cs : Octets) : Option (Rounded × Bool × Octets) :=
  let (negative, cs) := takeSign (cs.dropWhile isSpace)
  let hexadecimal :=
    match cs with
    | '0' :: 'x' :: rest | '0' :: 'X' :: rest => takeScaled? Json.hexDigit? 16 'p' rest
    | _ => none
  match hexadecimal, dropWord? "infinity" cs, dropWord? "inf" cs, dropWord? "nan" cs with
  | some (n, places, k, rest), _, _, _ =>
    let (x, out) := roundBinary p negative n (k - 4 * places)
    some (x, out, rest)
  | none, some rest, _, _ => some (.infinite negative, false, rest)
  | none, none, some rest, _ => some (.infinite negative, false, rest)
  | none, none, none, some rest => some (.nan negative, false, rest)
  | none, none, none, none =>
    (takeScaled? Json.digit? 10 'e' cs).map fun (n, places, k, rest) =>
      let (x, out) := roundDecimal p negative n (k - places)
      (x, out, rest)

/-- The number that an argument writes. -/
def readReal (p : Precision) (cs : Octets) : Rounded × Faults :=
  match takeReal? p cs with
  | none => (.finite false 0 0, .ofNone cs)
  | some (x, out, rest) => (x, .ofRest out rest)

end Rill.Program
