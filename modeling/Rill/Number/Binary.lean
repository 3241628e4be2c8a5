/-!
# Numbers as they are stored

A finite `Float` is `± m · 2 ^ q` for natural `m` below `2 ^ 53`. `magnitude` reads `m` and `q` off
the stored bits, so that what follows can be computed exactly on natural numbers: the remainder of a
division, and in `Rill.Number.Shortest` the digits.
-/

namespace Rill.Number

/-- The sign bit. -/
def isNegative (x : Float) : Bool := x.toBits >>> 63 == 1

/-- The `m` and `q` with `|x| = m · 2 ^ q`, for finite `x`. -/
def magnitude (x : Float) : Nat × Int :=
  let bits := x.toBits.toNat
  let exponent : Nat := bits / 0x10000000000000 % 0x800
  let fraction : Nat := bits % 0x10000000000000
  if exponent = 0 then (fraction, -1074) else (fraction + 0x10000000000000, (exponent : Int) - 1075)

/-- The nearest `Float` to `m · 2 ^ q`, for `m` below `2 ^ 53`. -/
def ofMagnitude (m : Nat) (q : Int) : Float := m.toUInt64.toFloat.scaleB q

/-- An integer between `-2 ^ 64` and `2 ^ 64` as a `Float`, rounded to the nearest. -/
def ofInt (n : Int) : Float :=
  if n < 0 then -(n.natAbs.toUInt64.toFloat) else n.natAbs.toUInt64.toFloat

/-- The integer part, towards zero. -/
def truncate (x : Float) : Float := if x < 0 then x.ceil else x.floor

/-- The integer part, kept between the least and the greatest integer of 64 bits. -/
def toInt64 (x : Float) : Int := (truncate x).toInt64.toInt

/-- The integer part, kept between the least and the greatest integer of 32 bits. -/
def toInt32 (x : Float) : Int := x.toInt32.toInt

/-- The exact remainder of dividing finite `x` by finite `y` towards zero, with the sign of `x`. A
zero `y` leaves no number. -/
def remainder (x y : Float) : Float :=
  let (m, p) := magnitude x
  let (n, q) := magnitude y
  if n = 0 then 0.0 / 0.0
  else
    let low := min p q
    let rest := (m * Nat.pow 2 (p - low).toNat) % (n * Nat.pow 2 (q - low).toNat)
    let r := ofMagnitude rest low
    if isNegative x then -r else r

end Rill.Number
