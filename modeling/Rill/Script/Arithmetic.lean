import Rill.Program.Numeral
import Rill.Script.Machine

/-!
# Arithmetic in scripts

Expressions on whole numbers of 64 bits, with the operators and the order of precedence of C. A
variable counts as the number that it holds, and as zero without a value.
-/

namespace Rill.Script

open Rill.Text (Octets)

/-- A piece of an expression. -/
inductive Term where
  /-- A number. -/
  | number (n : Int)
  /-- A variable. -/
  | name (cs : Octets)
  /-- An operator or a parenthesis. -/
  | symbol (s : String)
  deriving DecidableEq, Repr

/-- An expression. -/
inductive Expression where
  | number (n : Int)
  | variable (name : Octets)
  | unary (op : String) (x : Expression)
  | binary (op : String) (x y : Expression)
  /-- Gives a variable a value, by an operator on the one it has or not. -/
  | assignment (name : Octets) (op : Option String) (x : Expression)
  | choice (condition x y : Expression)
  deriving Inhabited, Repr

/-! ## Reading -/

/-- The symbols of expressions, longer ones first. -/
def termSymbols : List String :=
  ["<<=", ">>=", "<<", ">>", "<=", ">=", "==", "!=", "&&", "||", "+=", "-=", "*=", "/=", "%=",
    "&=", "^=", "|=", "+", "-", "*", "/", "%", "<", ">", "&", "^", "|", "!", "~", "?", ":", "=",
    "(", ")"]

/-- Whether a name may hold the character. -/
def isTermChar (c : Char) : Bool := c.isAlphanum || c == '_'

/-- The integer of 64 bits that is the same modulo `2 ^ 64`. -/
def wrapped (n : Int) : Int := Int.bmod n 0x10000000000000000

/-- The pieces of an expression. Nothing if a character belongs to none. -/
def terms : Nat → Octets → Option (List Term)
  | 0, _ => some []
  | _ + 1, [] => some []
  | fuel + 1, c :: cs =>
    if Program.isSpace c then terms fuel cs
    else if c.isDigit then
      match Program.takeInteger? (c :: cs) with
      | some (_, n, rest) =>
        (terms fuel rest).map (.number (min n Program.maxInteger) :: ·)
      | none => none
    else if isTermChar c then
      (terms fuel (cs.dropWhile isTermChar)).map (.name (c :: cs.takeWhile isTermChar) :: ·)
    else
      match termSymbols.find? fun s => s.toList.isPrefixOf (c :: cs) with
      | some s => (terms fuel ((c :: cs).drop s.length)).map (.symbol s :: ·)
      | none => none

/-- How closely an operator between two expressions binds. -/
def precedence? (s : String) : Option Nat :=
  match s with
  | "||" => some 1
  | "&&" => some 2
  | "|" => some 3
  | "^" => some 4
  | "&" => some 5
  | "==" | "!=" => some 6
  | "<" | "<=" | ">" | ">=" => some 7
  | "<<" | ">>" => some 8
  | "+" | "-" => some 9
  | "*" | "/" | "%" => some 10
  | _ => none

/-- The operator that an assignment applies, if a symbol is an assignment. -/
def updateOf? (s : String) : Option (Option String) :=
  match s with
  | "=" => some none
  | "+=" => some (some "+")
  | "-=" => some (some "-")
  | "*=" => some (some "*")
  | "/=" => some (some "/")
  | "%=" => some (some "%")
  | "<<=" => some (some "<<")
  | ">>=" => some (some ">>")
  | "&=" => some (some "&")
  | "^=" => some (some "^")
  | "|=" => some (some "|")
  | _ => none

/-- An expression and the pieces behind it, or what was expected. -/
abbrev Parse := Except String (Expression × List Term)

mutual

/-- An assignment, or a choice. -/
def expression : Nat → List Term → Parse
  | 0, _ => .error "expecting primary"
  | fuel + 1, ts =>
    match ts with
    | .name n :: .symbol s :: rest =>
      match updateOf? s with
      | some op => do
        let (x, rest) ← expression fuel rest
        return (.assignment n op x, rest)
      | none => conditional fuel ts
    | ts => conditional fuel ts

/-- A choice, or what binds closer. -/
def conditional : Nat → List Term → Parse
  | 0, _ => .error "expecting primary"
  | fuel + 1, ts => do
    let (c, rest) ← operation fuel 1 ts
    match rest with
    | .symbol "?" :: rest =>
      let (x, rest) ← expression fuel rest
      match rest with
      | .symbol ":" :: rest =>
        let (y, rest) ← conditional fuel rest
        return (.choice c x y, rest)
      | _ => throw "expecting ':'"
    | rest => return (c, rest)

/-- Operators that bind at least so closely. -/
def operation : Nat → Nat → List Term → Parse
  | 0, _, _ => .error "expecting primary"
  | fuel + 1, level, ts => do
    let (x, rest) ← prefixed fuel ts
    operationRest fuel level x rest

/-- What follows an operand. -/
def operationRest : Nat → Nat → Expression → List Term → Parse
  | 0, _, x, ts => .ok (x, ts)
  | fuel + 1, level, x, ts =>
    match ts with
    | .symbol s :: rest =>
      match precedence? s with
      | some p =>
        if level ≤ p then do
          let (y, rest) ← operation fuel (p + 1) rest
          operationRest fuel level (.binary s x y) rest
        else .ok (x, ts)
      | none => .ok (x, ts)
    | ts => .ok (x, ts)

/-- An operand with operators before it. -/
def prefixed : Nat → List Term → Parse
  | 0, _ => .error "expecting primary"
  | fuel + 1, ts =>
    match ts with
    | .number n :: rest => .ok (.number n, rest)
    | .name n :: rest => .ok (.variable n, rest)
    | .symbol "(" :: rest => do
      let (x, rest) ← expression fuel rest
      match rest with
      | .symbol ")" :: rest => return (x, rest)
      | _ => throw "expecting ')'"
    | .symbol s :: rest =>
      if ["+", "-", "!", "~"].contains s then do
        let (x, rest) ← prefixed fuel rest
        return (.unary s x, rest)
      else .error "expecting primary"
    | [] => .error "expecting primary"

end

/-- The expression of a text, or what is wrong with it. A text of blanks is zero. -/
def readExpression (cs : Octets) : Except String Expression :=
  match terms (cs.length + 1) cs with
  | none => .error "expecting EOF"
  | some [] => .ok (.number 0)
  | some ts => do
    let (x, rest) ← expression (8 * ts.length + 8) ts
    if rest.isEmpty then return x else throw "expecting EOF"

/-! ## Evaluation -/

/-- One or zero. -/
def ofBool (b : Bool) : Int := if b then 1 else 0

/-- The bits of a whole number. -/
def bitsOf (n : Int) : Nat := (n % 0x10000000000000000).toNat

/-- An operator on two numbers; nothing if it divides by zero. -/
def operate? (op : String) (a b : Int) : Option Int :=
  match op with
  | "+" => some (wrapped (a + b))
  | "-" => some (wrapped (a - b))
  | "*" => some (wrapped (a * b))
  | "/" => if b = 0 then none else some (wrapped (a.tdiv b))
  | "%" => if b = 0 then none else some (wrapped (a.tmod b))
  | "<<" => some (wrapped (bitsOf a <<< (bitsOf b % 64) : Nat))
  | ">>" => some (a.fdiv (Nat.pow 2 (bitsOf b % 64)))
  | "&" => some (wrapped (bitsOf a &&& bitsOf b : Nat))
  | "^" => some (wrapped (bitsOf a ^^^ bitsOf b : Nat))
  | "|" => some (wrapped (bitsOf a ||| bitsOf b : Nat))
  | "==" => some (ofBool (a == b))
  | "!=" => some (ofBool (a != b))
  | "<" => some (ofBool (a < b))
  | "<=" => some (ofBool (a ≤ b))
  | ">" => some (ofBool (b < a))
  | ">=" => some (ofBool (b ≤ a))
  | _ => some 0

/-- The decimal text of a number. -/
def numberText (n : Int) : Octets :=
  (if n < 0 then ['-'] else []) ++ Nat.toDigits 10 n.natAbs

/-- The number that a variable holds. -/
def variableNumber (name : Octets) : Act Int := do
  let cs := (← Act.value? name).getD []
  let (n, faults) := Program.readSigned cs
  if faults.more || faults.range then Act.abort ("Illegal number: ".toList ++ cs)
  return n

/-- The value of an expression. -/
def Expression.value (text : Octets) : Expression → Act Int
  | .number n => return n
  | .variable name => variableNumber name
  | .unary op x => do
    let a ← x.value text
    match op with
    | "-" => return wrapped (-a)
    | "!" => return ofBool (a == 0)
    | "~" => return -a - 1
    | _ => return a
  | .binary "&&" x y => do
    if (← x.value text) = 0 then return 0 else return ofBool ((← y.value text) != 0)
  | .binary "||" x y => do
    if (← x.value text) ≠ 0 then return 1 else return ofBool ((← y.value text) != 0)
  | .binary op x y => do
    let a ← x.value text
    let b ← y.value text
    match operate? op a b with
    | some n => return n
    | none =>
      Act.abort ("arithmetic expression: division by zero: \"".toList ++ text ++ ['"'])
  | .assignment name op x => do
    let b ← x.value text
    let n ← match op with
      | none => pure (some b)
      | some op => do pure (operate? op (← variableNumber name) b)
    match n with
    | some n =>
      Act.assign name (numberText n)
      return n
    | none =>
      Act.abort ("arithmetic expression: division by zero: \"".toList ++ text ++ ['"'])
  | .choice c x y => do
    if (← c.value text) ≠ 0 then x.value text else y.value text

/-- The value of a text. -/
def calculate (text : Octets) : Act Int := do
  match readExpression text with
  | .ok x => x.value text
  | .error what =>
    Act.abort ("arithmetic expression: ".toList ++ what.toList ++ ": \"".toList ++ text ++ ['"'])

end Rill.Script
