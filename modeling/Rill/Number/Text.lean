import Rill.Number.Shortest

/-!
# Numbers as text, and text as numbers

A stored number is written with the fewest digits that read back: positionally if its first digit
stands between the sixth place after the point and the sixteenth before it, and with an exponent
otherwise. Reading a decimal takes a significand of 64 bits and one multiplication or division by a
power of ten, and so may miss the nearest stored number in the last place.
-/

namespace Rill.Number

/-! ## Writing -/

/-- Which powers of ten of the first digit are written positionally. -/
structure Layout where
  /-- The least power. -/
  least : Int
  /-- The greatest power. -/
  greatest : Int
  deriving Repr

/-- Numbers are positional from `0.00001` up to sixteen digits before the point. -/
def layout : Layout := ⟨-5, 15⟩

/-- The decimal digits of a number. -/
def digitsOf (n : Nat) : List Char := Nat.toDigits 10 n

/-- The decimal digits of an integer, with a minus sign if it is negative. -/
def intText (n : Int) : List Char :=
  if n < 0 then '-' :: digitsOf n.natAbs else digitsOf n.natAbs

/-- Digits whose first has the power `e ≥ 0` of ten, with a point and at least one digit after it.
-/
def positionalLarge (ds : List Char) (e : Nat) : List Char :=
  let whole := ds.take (e + 1) ++ List.replicate (e + 1 - ds.length) '0'
  let part := ds.drop (e + 1)
  whole ++ '.' :: (if part.isEmpty then ['0'] else part)

/-- Digits whose first has the power `-e` of ten, for `e ≥ 1`. -/
def positionalSmall (ds : List Char) (e : Nat) : List Char :=
  '0' :: '.' :: (List.replicate (e - 1) '0' ++ ds)

/-- Digits with one before the point, and an exponent that always has a sign. -/
def scientific (ds : List Char) (e : Int) : List Char :=
  let exponent := 'e' :: (if e < 0 then '-' else '+') :: digitsOf e.natAbs
  match ds with
  | [] => exponent
  | [d] => d :: exponent
  | d :: ds => d :: '.' :: (ds ++ exponent)

/-- The text of a positive decimal. -/
def Decimal.text (d : Decimal) : List Char :=
  let ds := digitsOf d.digits
  let e := d.exponent + (ds.length - 1 : Nat)
  if layout.least ≤ e ∧ e ≤ layout.greatest then
    if 0 ≤ e then positionalLarge ds e.toNat else positionalSmall ds (-e).toNat
  else scientific ds e

/-- The text of a finite stored number. -/
def floatText (x : Float) : List Char :=
  let (m, q) := magnitude x
  let body := if m = 0 then ['0', '.', '0'] else (shortest m q).text
  if isNegative x then '-' :: body else body

/-! ## Reading -/

/-- The stored number nearest to `10 ^ n`, for `n` up to 308. -/
def powerOfTen (n : Nat) : Float := Float.ofScientific 1 false n

/-- The greatest power of ten that is stored. -/
def maxPower : Nat := 308

/-- `f · 10 ^ e` by one multiplication or division, after as many divisions by the greatest power as
bring `e` into range. There is no result if it would not be finite. -/
def scale : Nat → Float → Int → Option Float
  | 0, f, _ => some f
  | fuel + 1, f, e =>
    if e.natAbs ≤ maxPower then
      if 0 ≤ e then
        let r := f * powerOfTen e.natAbs
        if r.isInf then none else some r
      else some (f / powerOfTen e.natAbs)
    else if f == 0.0 then some f
    else if 0 ≤ e then none
    else scale fuel (f / powerOfTen maxPower) (e + maxPower)

/-- The number that a significand of 64 bits and a power of ten are read as. -/
def ofDecimal? (negative : Bool) (significand : Nat) (e : Int) : Option Float :=
  (scale (e.natAbs + 1) significand.toUInt64.toFloat e).map fun f => if negative then -f else f

end Rill.Number
