import Rill.Number.Binary

/-!
# The fewest digits that read back

Every positive `m · 2 ^ q` is the nearest stored number to all reals of an interval around it, whose
ends belong to it if `m` is even. `shortest` looks for the least number of decimal digits with which
a number of that interval can be written, and takes the one that lies nearest to the stored number;
of two at the same distance it takes the one whose last digit is even.

Reals are compared as natural numbers: a quarter of the distance to the next stored number is the
unit, so that the ends of the interval are whole.
-/

namespace Rill.Number

/-- A positive decimal number `digits · 10 ^ exponent`. -/
structure Decimal where
  /-- The digits, as a number. -/
  digits : Nat
  /-- The power of ten. -/
  exponent : Int
  deriving DecidableEq, Repr

/-- How many decimal digits a number has; zero has one. -/
def digitCount (n : Nat) : Nat := (Nat.toDigits 10 n).length

/-- A stored number and a power of ten on one scale: `quarters · unit` is a number of quarters of
the stored number's last place, and `t · grid` is `t · 10 ^ k`. -/
structure Scale where
  /-- The weight of a quarter of the last place. -/
  unit : Nat
  /-- The weight of the power of ten. -/
  grid : Nat
  deriving DecidableEq, Repr

/-- The scale on which quarters of `2 ^ q` and multiples of `10 ^ k` are whole. -/
def Scale.of (q k : Int) : Scale where
  unit := Nat.pow 2 (q - 2).toNat * Nat.pow 10 (-k).toNat
  grid := Nat.pow 10 k.toNat * Nat.pow 2 (2 - q).toNat

/-- The power of ten of the first digit of `m · 2 ^ q`, for positive `m`. -/
def leadingPower (m : Nat) (q : Int) : Int :=
  let num := m * Nat.pow 2 q.toNat
  let den := Nat.pow 2 (-q).toNat
  if den ≤ num then (digitCount (num / den) : Int) - 1
  else -(digitCount ((den + num - 1) / num - 1) : Int)

/-- Of the multiples of `10 ^ k` next to `m · 2 ^ q`, the one that reads back as it, if one does;
`below` is how many quarters the interval reaches down. -/
def nearestOnGrid (m : Nat) (q : Int) (below : Nat) (k : Int) : Option Decimal :=
  let s := Scale.of q k
  let value := 4 * m * s.unit
  let low := (4 * m - below) * s.unit
  let high := (4 * m + 2) * s.unit
  let even := m % 2 = 0
  let reads := fun t => if even then low ≤ t ∧ t ≤ high else low < t ∧ t < high
  let t := value / s.grid
  let down := value - t * s.grid
  let up := (t + 1) * s.grid - value
  let preferDown := down < up ∨ (down = up ∧ t % 2 = 0)
  if 0 < t ∧ reads (t * s.grid) ∧ (preferDown ∨ ¬ reads ((t + 1) * s.grid)) then some ⟨t, k⟩
  else if reads ((t + 1) * s.grid) then some ⟨t + 1, k⟩
  else none

/-- The first hit on the grids of `count`, `count + 1`, … digits. -/
def shortestFrom (m : Nat) (q : Int) (below : Nat) (lead : Int) : Nat → Nat → Decimal
  | 0, _ => ⟨m, q⟩
  | fuel + 1, count =>
    match nearestOnGrid m q below (lead - (count - 1 : Nat)) with
    | some d => d
    | none => shortestFrom m q below lead fuel (count + 1)

/-- `d` with no zero as last digit. -/
def Decimal.stripped : Nat → Decimal → Decimal
  | 0, d => d
  | fuel + 1, d =>
    if d.digits % 10 = 0 ∧ d.digits ≠ 0 then stripped fuel ⟨d.digits / 10, d.exponent + 1⟩ else d

/-- The shortest decimal that reads back as the positive stored number `m · 2 ^ q`; seventeen digits
are always enough. -/
def shortest (m : Nat) (q : Int) : Decimal :=
  let below := if m = 0x10000000000000 ∧ -1074 < q then 1 else 2
  let d := shortestFrom m q below (leadingPower m q) 17 1
  d.stripped (digitCount d.digits)

end Rill.Number
