import Rill.Files.Place
import Rill.Program.Quoting

/-!
# Conditions

The conditions that scripts test: whether a text is empty, how two texts or two numbers compare, and
what is at a path. They are joined by `-a` and `-o`, the first of which binds closer, negated by
`!`, and grouped by parentheses.
-/

namespace Rill.Program

open Rill.Text (Octets)

/-- The value of a condition, and the arguments behind it. What is wrong is a message. -/
abbrev Tested := Except Octets (Bool × List Octets)

/-- Whether a number has 64 bits. -/
def fitsWord (n : Int) : Bool := -0x8000000000000000 ≤ n && n < 0x8000000000000000

/-- The whole number that an argument writes, between blanks. -/
def conditionNumber (cs : Octets) : Except Octets Int :=
  let (negative, ds) := takeSign (cs.dropWhile isSpace)
  let (n, rest) := takeDigits Json.digit? 10 ds.length 0 ds
  let value := if negative then -(n : Int) else n
  if startsWith Json.digit? ds && rest.all isSpace && fitsWord value then .ok value
  else .error ("Illegal number: ".toList ++ cs)

/-- Whether a path names a link itself. -/
def isLink (files : Files) (path : String) : Bool :=
  match files.target path with
  | .ok (.name dir last false) =>
    match files.entry? dir last with
    | some (.link _) => true
    | _ => false
  | _ => false

/-- Whether what is at a path is of a kind. -/
def pathIs (files : Files) (kind : Char) (path : Octets) : Bool :=
  let name := Text.Octets.toText path
  let isDirectory := match files.source name with | .error .isDirectory => true | _ => false
  let entry? := match files.source name with | .ok e => some e | .error _ => none
  match kind, entry? with
  | 'd', _ => isDirectory
  | 'e', e => isDirectory || e.isSome
  | 'r', e | 'w', e => isDirectory || e.isSome
  | 'x', some (.program _) => true
  | 'x', _ => isDirectory
  | 'f', some (.file _) | 'f', some (.program _) => true
  | 's', some (.file key) => !((Sorted.find? key files).getD []).isEmpty
  | 's', some (.program _) => true
  | 's', _ => isDirectory
  | 'c', some (.device _) => true
  | 'h', _ | 'L', _ => isLink files name
  | _, _ => false

/-- A test of one argument, if the letter names one. -/
def unaryTest? (files : Files) (op : Octets) : Option (Octets → Bool) :=
  match op with
  | ['-', 'n'] => some fun a => !a.isEmpty
  | ['-', 'z'] => some List.isEmpty
  | ['-', 't'] => some fun _ => false
  | ['-', c] =>
    if "bcdefghkLprsSuwxOG".toList.contains c then some (pathIs files c) else none
  | _ => none

/-- A comparison of two numbers, if the word names one. -/
def numberTest? (op : Octets) : Option (Int → Int → Bool) :=
  match String.ofList op with
  | "-eq" => some (· == ·)
  | "-ne" => some (· != ·)
  | "-lt" => some fun a b => a < b
  | "-le" => some fun a b => a ≤ b
  | "-gt" => some fun a b => b < a
  | "-ge" => some fun a b => b ≤ a
  | _ => none

/-- A comparison of two texts, if the word names one. -/
def textTest? (op : Octets) : Option (Octets → Octets → Bool) :=
  match op with
  | ['='] => some (· == ·)
  | ['!', '='] => some (· != ·)
  | ['<'] => some fun a b => String.ofList a < String.ofList b
  | ['>'] => some fun a b => String.ofList b < String.ofList a
  | _ => none

/-- A test of two arguments, if the word names one. -/
def binaryTest? (op : Octets) : Option (Octets → Octets → Except Octets Bool) :=
  match textTest? op, numberTest? op with
  | some f, _ => some fun a b => .ok (f a b)
  | none, some f => some fun a b => do return f (← conditionNumber a) (← conditionNumber b)
  | none, none => none

/-- What an argument is in a condition. -/
inductive Word where
  /-- No argument. -/
  | none
  /-- A text. -/
  | operand
  /-- `!`. -/
  | not
  /-- `-a`. -/
  | and
  /-- `-o`. -/
  | or
  /-- `(`. -/
  | opening
  /-- `)`. -/
  | closing
  /-- A test of the next argument. -/
  | unary (f : Octets → Bool)
  /-- A test of the arguments on both sides. -/
  | binary (f : Octets → Octets → Except Octets Bool)

/-- Whether an argument that could be a test of the next one is a text: it is the last, or a test of
both sides comes next. -/
def isOperand (rest : List Octets) : Bool :=
  match rest with
  | [] => true
  | [_] => false
  | op :: _ => (binaryTest? op).isSome

/-- What the first of some arguments is. -/
def firstWord (files : Files) (args : List Octets) : Word :=
  match args with
  | [] => .none
  | a :: rest =>
    match a with
    | ['!'] => .not
    | ['-', 'a'] => .and
    | ['-', 'o'] => .or
    | ['('] => if rest.isEmpty then .operand else .opening
    | [')'] => .closing
    | a =>
      match unaryTest? files a, binaryTest? a with
      | some f, _ => if isOperand rest then .operand else .unary f
      | none, some f => .binary f
      | none, none => .operand

/-- A text, or a comparison that begins with it. -/
def compared (files : Files) (args : List Octets) : Tested :=
  match args, firstWord files (args.drop 1) with
  | a :: op :: rest, .binary f =>
    match rest with
    | [] => .error (op ++ ": argument expected".toList)
    | b :: _ => do return (← f a b, rest)
  | args, _ => .ok (!(args.headD []).isEmpty, args)

mutual

/-- Conditions with `-o` between them. The arguments that are left begin with the last one that
belongs to the condition. -/
def testOr (files : Files) : Nat → List Octets → Tested
  | 0, args => .ok (false, args)
  | fuel + 1, args => do
    let (a, rest) ← testAnd files fuel args
    match firstWord files (rest.drop 1) with
    | .or =>
      let (b, rest) ← testOr files fuel (rest.drop 2)
      return (a || b, rest)
    | _ => return (a, rest)

/-- Conditions with `-a` between them. -/
def testAnd (files : Files) : Nat → List Octets → Tested
  | 0, args => .ok (false, args)
  | fuel + 1, args => do
    let (a, rest) ← testNot files fuel args
    match firstWord files (rest.drop 1) with
    | .and =>
      let (b, rest) ← testAnd files fuel (rest.drop 2)
      return (a && b, rest)
    | _ => return (a, rest)

/-- A condition that may be negated. -/
def testNot (files : Files) : Nat → List Octets → Tested
  | 0, args => .ok (false, args)
  | fuel + 1, args =>
    match firstWord files args with
    | .not => do
      if 2 ≤ args.length then
        let (b, rest) ← testNot files fuel (args.drop 1)
        return (!b, rest)
      else return (true, args)
    | _ => testPrimary files fuel args

/-- One condition. -/
def testPrimary (files : Files) : Nat → List Octets → Tested
  | 0, args => .ok (false, args)
  | fuel + 1, args =>
    match firstWord files args with
    | .none => .ok (false, args)
    | .opening =>
      match firstWord files (args.drop 1) with
      | .closing => .ok (false, args.drop 1)
      | _ => do
        let (v, rest) ← testOr files fuel (args.drop 1)
        match firstWord files (rest.drop 1) with
        | .closing => return (v, rest.drop 1)
        | _ => throw "closing paren expected".toList
    | .unary f => .ok (f ((args.drop 1).headD []), args.drop 1)
    | _ => compared files args

end

/-- Whether a condition holds; an empty one does not. With three or four arguments a leading `!`
negates the rest, and with three an operator in the middle wins over everything else. -/
def holdsWithin (files : Files) : Nat → List Octets → Except Octets Bool
  | 0, _ => .ok false
  | fuel + 1, args => do
    let finish (result : Tested) : Except Octets Bool := do
      let (v, rest) ← result
      match rest with
      | last :: _ :: _ => throw (last ++ ": unexpected operator".toList)
      | _ => return v
    let whole (args : List Octets) := finish (testOr files (4 * args.length + 4) args)
    match args with
    | [] => return false
    | [a, op, b] =>
      match binaryTest? op with
      | some f => f a b
      | none =>
        if a = ['('] && b = [')'] then whole [op]
        else if a = ['!'] then return !(← holdsWithin files fuel [op, b])
        else whole args
    | [a, b, c, d] =>
      if a = ['('] && d = [')'] then whole [b, c]
      else if a = ['!'] then return !(← holdsWithin files fuel [b, c, d])
      else whole args
    | args => whole args

/-- Whether a condition holds. -/
def holds (files : Files) (args : List Octets) : Except Octets Bool :=
  holdsWithin files (args.length + 1) args

end Rill.Program
