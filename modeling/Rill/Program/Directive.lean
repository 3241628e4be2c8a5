import Rill.Program.Numeral

/-!
# Directives

What stands between `%` and its letter, and how it shows a text or a number: the least width, the
side on which it is filled up, signs, and the number of digits.
-/

namespace Rill.Program

open Rill.Text (Octets)
open Rill.Number (Rounded Precision)

/-- What stands between `%` and the letter of a directive. -/
structure Directive where
  /-- Fill up at the right. -/
  left : Bool := false
  /-- Fill numbers up with zeros. -/
  zero : Bool := false
  /-- Show the sign of a number that is not negative. -/
  plus : Bool := false
  /-- Show a space for it. -/
  space : Bool := false
  /-- Show the base, or the point, in any case. -/
  alternate : Bool := false
  /-- The least width. -/
  width : Nat := 0
  /-- The most bytes of a text, the least digits of a whole number, or the places of another. -/
  precision : Option Nat := none
  deriving Repr

namespace Directive

/-- A text brought to the width. -/
def pad (d : Directive) (cs : Octets) : Octets :=
  let fill := List.replicate (d.width - cs.length) ' '
  if d.left then cs ++ fill else fill ++ cs

/-- A width that was given as an argument: a negative one fills up at the right. -/
def withWidth (d : Directive) (n : Int) : Directive :=
  { d with width := n.natAbs, left := d.left || n < 0 }

/-- A precision that was given as an argument: a negative one is none. -/
def withPrecision (d : Directive) (n : Int) : Directive :=
  { d with precision := if n < 0 then none else some n.toNat }

/-- A text, of which at most as many bytes show as the precision says. -/
def text (d : Directive) (cs : Octets) : Octets :=
  d.pad (match d.precision with | some n => cs.take n | none => cs)

/-- The sign of a number. -/
def sign (d : Directive) (negative : Bool) : Octets :=
  if negative then ['-'] else if d.plus then ['+'] else if d.space then [' '] else []

/-- Digits behind what comes before them, brought to the width. -/
def number (d : Directive) (zeros : Bool) (before digits : Octets) : Octets :=
  if d.zero && zeros && !d.left then
    before ++ List.replicate (d.width - before.length - digits.length) '0' ++ digits
  else d.pad (before ++ digits)

/-- The digits of a whole number, at least as many as the precision says. -/
def digits (d : Directive) (base n : Nat) : Octets :=
  if n = 0 ∧ d.precision = some 0 then [] else Number.paddedDigits base (d.precision.getD 1) n

/-- A whole number with a sign. -/
def signed (d : Directive) (n : Int) : Octets :=
  d.number d.precision.isNone (d.sign (n < 0)) (d.digits 10 n.natAbs)

/-- A whole number without a sign, in the base of a letter. -/
def unsigned (d : Directive) (letter : Char) (n : Nat) : Octets :=
  match letter with
  | 'o' =>
    let ds := d.digits 8 n
    d.number d.precision.isNone []
      (if d.alternate && ds.head? != some '0' then '0' :: ds else ds)
  | 'x' =>
    d.number d.precision.isNone (if d.alternate && n != 0 then ['0', 'x'] else []) (d.digits 16 n)
  | 'X' =>
    d.number d.precision.isNone (if d.alternate && n != 0 then ['0', 'X'] else [])
      ((d.digits 16 n).map Char.toUpper)
  | _ => d.number d.precision.isNone [] (d.digits 10 n)

/-- The digits of a finite number in the notation of a letter, and what comes before them. -/
def realDigits (p : Precision) (d : Directive) (letter : Char) (m : Nat) (e : Int) :
    Octets × Octets :=
  match letter with
  | 'f' => ([], Number.withPlaces (d.precision.getD 6) d.alternate m e)
  | 'e' => ([], Number.withExponent (d.precision.getD 6) d.alternate m e)
  | 'g' => ([], Number.withDigits (d.precision.getD 6) d.alternate m e)
  | _ =>
    (['0', 'x'],
      Number.inHexadecimal p.bits (if p = .extended then 4 else 1) p.least d.precision d.alternate m e)

/-- Any number, in the notation of a letter; that of a capital letter is in capitals. -/
def real (p : Precision) (d : Directive) (letter : Char) (x : Rounded) : Octets :=
  let shown :=
    match x with
    | .nan negative => d.number false (d.sign negative) ['n', 'a', 'n']
    | .infinite negative => d.number false (d.sign negative) ['i', 'n', 'f']
    | .finite negative m e =>
      let (base, ds) := d.realDigits p letter.toLower m e
      d.number true (d.sign negative ++ base) ds
  if letter.isUpper then shown.map Char.toUpper else shown

end Directive

/-- The flags of a directive. -/
def takeFlags (d : Directive) : Octets → Directive × Octets
  | '-' :: cs => takeFlags { d with left := true } cs
  | '0' :: cs => takeFlags { d with zero := true } cs
  | '+' :: cs => takeFlags { d with plus := true } cs
  | ' ' :: cs => takeFlags { d with space := true } cs
  | '#' :: cs => takeFlags { d with alternate := true } cs
  | cs => (d, cs)

end Rill.Program
