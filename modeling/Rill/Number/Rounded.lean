/-!
# Rounded numbers

Numbers of a binary precision as whole numbers: a sign, a significand and a power of two. Decimals
are read by rounding an exact quotient to the nearest number, and written by rounding the exact
value to a number of digits, in both cases with a tie going to the even neighbour.
-/

namespace Rill.Number

/-- What numbers a precision has: significands of `bits` bits, from `2 ^ least` on in steps that are
no finer than that, and below `2 ^ limit`. -/
structure Precision where
  /-- How many bits a significand has. -/
  bits : Nat
  /-- The exponent of the finest step. -/
  least : Int
  /-- The exponent of the least power that is too large. -/
  limit : Int
  deriving DecidableEq, Repr

/-- Numbers of 64 bits. -/
def Precision.double : Precision := ⟨53, -1074, 1024⟩

/-- Numbers of 80 bits. -/
def Precision.extended : Precision := ⟨64, -16445, 16384⟩

/-- A number of some precision. -/
inductive Rounded where
  /-- No number. -/
  | nan (negative : Bool)
  /-- Larger than any number. -/
  | infinite (negative : Bool)
  /-- `m * 2 ^ e`. -/
  | finite (negative : Bool) (m : Nat) (e : Int)
  deriving DecidableEq, Repr

/-- The whole number that is nearest to a quotient, the even one if there are two. -/
def roundDiv (num den : Nat) : Nat :=
  let q := num / den
  let twice := 2 * (num % den)
  if twice < den then q
  else if den < twice then q + 1
  else if q % 2 = 0 then q
  else q + 1

/-- `n * b ^ e` as a quotient. -/
def scaled (n b : Nat) (e : Int) : Nat × Nat :=
  if 0 ≤ e then (n * Nat.pow b e.toNat, 1) else (n, Nat.pow b e.natAbs)

/-- A quotient divided by `2 ^ e`. -/
def shifted (num den : Nat) (e : Int) : Nat × Nat :=
  if 0 ≤ e then (num, den * Nat.pow 2 e.toNat) else (num * Nat.pow 2 e.natAbs, den)

/-- The exponent with which the significand of a quotient that is not zero has `bits` bits. -/
def exponentOf (bits num den : Nat) : Int :=
  let e : Int := (Nat.log2 num : Int) - Nat.log2 den - bits + 1
  let (n, d) := shifted num den e
  if n / d < Nat.pow 2 (bits - 1) then e - 1 else e

/-- The number of a precision that is nearest to a quotient, and whether that is out of its range:
too large, or not zero and too small to have all its bits. -/
def Precision.round (p : Precision) (negative : Bool) (num den : Nat) : Rounded × Bool :=
  if num = 0 then (.finite negative 0 0, false)
  else
    let e := max p.least (exponentOf p.bits num den)
    let (n, d) := shifted num den e
    let m := roundDiv n d
    let (m, e) := if m = Nat.pow 2 p.bits then (m / 2, e + 1) else (m, e)
    if p.limit < e + p.bits then (.infinite negative, true)
    else (.finite negative m e, m < Nat.pow 2 (p.bits - 1) && n % d ≠ 0)

/-! ## Writing -/

/-- The digits of a number in a base, at least so many. -/
def paddedDigits (base count n : Nat) : List Char :=
  let ds := Nat.toDigits base n
  List.replicate (count - ds.length) '0' ++ ds

/-- A finite number with so many decimal places. `point` asks for the point even without places. -/
def withPlaces (places : Nat) (point : Bool) (m : Nat) (e : Int) : List Char :=
  let (num, den) := scaled m 2 e
  let n := roundDiv (num * Nat.pow 10 places) den
  let ds := paddedDigits 10 (places + 1) n
  let whole := ds.take (ds.length - places)
  whole ++ if places = 0 then (if point then ['.'] else []) else '.' :: ds.drop whole.length

/-- The power of ten of the first digit of a quotient that is not zero. -/
def decimalExponent (num den : Nat) : Int :=
  let k : Int := (Nat.toDigits 10 num).length - (Nat.toDigits 10 den).length
  let (n, d) := if 0 ≤ k then (num, den * Nat.pow 10 k.toNat) else (num * Nat.pow 10 k.natAbs, den)
  if n < d then k - 1 else k

/-- The first `count` digits of a finite number as a whole number, and the power of ten of the
first. -/
def significant (count : Nat) (m : Nat) (e : Int) : Nat × Int :=
  if m = 0 then (0, 0)
  else
    let (num, den) := scaled m 2 e
    let k := decimalExponent num den
    let places : Int := count - 1 - k
    let n :=
      if 0 ≤ places then roundDiv (num * Nat.pow 10 places.toNat) den
      else roundDiv num (den * Nat.pow 10 places.natAbs)
    if n = Nat.pow 10 count then (n / 10, k + 1) else (n, k)

/-- An exponent with its sign, and at least so many digits. -/
def exponentText (mark : Char) (count : Nat) (k : Int) : List Char :=
  mark :: (if k < 0 then '-' else '+') :: paddedDigits 10 count k.natAbs

/-- Digits with a point after the first. -/
def pointed (point : Bool) : List Char → List Char
  | [] => []
  | [d] => if point then [d, '.'] else [d]
  | d :: ds => d :: '.' :: ds

/-- A finite number with an exponent and so many decimal places. -/
def withExponent (places : Nat) (point : Bool) (m : Nat) (e : Int) : List Char :=
  let (n, k) := significant (places + 1) m e
  pointed point (paddedDigits 10 (places + 1) n) ++ exponentText 'e' 2 k

/-- Digits without zeros at the end, and without a point that nothing follows. -/
def withoutZeros (cs : List Char) : List Char :=
  if cs.contains '.' then
    match cs.reverse.dropWhile (· == '0') with
    | '.' :: rest => rest.reverse
    | rest => rest.reverse
  else cs

/-- A finite number with so many digits, with or without an exponent, whichever is shorter. -/
def withDigits (count : Nat) (alternate : Bool) (m : Nat) (e : Int) : List Char :=
  let count := max 1 count
  let (_, k) := significant count m e
  if -4 ≤ k ∧ k < count then
    let cs := withPlaces (count - 1 - k).toNat alternate m e
    if alternate then cs else withoutZeros cs
  else
    let cs := withExponent (count - 1) alternate m e
    if alternate then cs
    else withoutZeros (cs.takeWhile (· != 'e')) ++ cs.dropWhile (· != 'e')

/-- A finite number in hexadecimal, after `0x`. The first digit of a significand has `lead` bits, and
without a number of places all of the others are written that are not zero. -/
def inHexadecimal (bits lead : Nat) (least : Int) (places : Option Nat) (point : Bool) (m : Nat)
    (e : Int) : List Char :=
  let digits := (bits - lead) / 4
  let shift := if m = 0 then 0 else bits - 1 - Nat.log2 m
  let shift := if e - shift < least then (e - least).toNat else shift
  let m := m * Nat.pow 2 shift
  let k : Int := if m = 0 then 0 else e - shift + (bits - lead : Nat)
  let kept := places.getD digits
  let m := if kept < digits then roundDiv m (Nat.pow 16 (digits - kept)) else m
  let overflow := Nat.pow 16 (min kept digits + 1) ≤ m
  let m := if overflow then m / 16 else m
  let k := if overflow then k + 4 else k
  let ds := paddedDigits 16 (min kept digits + 1) m
  let extra := List.replicate (kept - digits) '0'
  let ds := if places.isSome then ds ++ extra
    else (ds.take 1) ++ ((ds.drop 1).reverse.dropWhile (· == '0')).reverse
  pointed point ds ++ exponentText 'p' 1 k

end Rill.Number
