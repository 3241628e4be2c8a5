import Rill.Number.Text

/-!
# Points in time

Seconds since the beginning of 1970 as a date and a time of day, both without a time zone. Years are
counted from the first of March, so that a leap day is the last day of its year.
-/

namespace Rill.Timestamp

/-- A day. -/
structure Date where
  /-- The year. -/
  year : Nat
  /-- The month, from one to twelve. -/
  month : Nat
  /-- The day of the month, from one on. -/
  day : Nat
  deriving DecidableEq, Repr

/-- The days from the first of March of the year zero to the beginning of 1970. -/
def epoch : Nat := 719468

/-- The days of four hundred years. -/
def cycle : Nat := 146097

/-- The date so many days after the beginning of 1970. -/
def date (days : Nat) : Date :=
  let z := days + epoch
  let era := z / cycle
  let inEra := z % cycle
  let yearInEra := (inEra - inEra / 1460 + inEra / 36524 - inEra / 146096) / 365
  let inYear := inEra - (365 * yearInEra + yearInEra / 4 - yearInEra / 100)
  let marchMonth := (5 * inYear + 2) / 153
  let day := inYear - (153 * marchMonth + 2) / 5 + 1
  let month := if marchMonth < 10 then marchMonth + 3 else marchMonth - 9
  ⟨yearInEra + era * 400 + (if month ≤ 2 then 1 else 0), month, day⟩

/-- A number with zeros before it up to a width. -/
def padded (width n : Nat) : List Char :=
  let ds := Number.digitsOf n
  List.replicate (width - ds.length) '0' ++ ds

/-- A point in time, such as `1970-01-01T00:00:00Z`. -/
def text (seconds : Nat) : String :=
  let d := date (seconds / 86400)
  let s := seconds % 86400
  String.ofList (padded 4 d.year ++ '-' :: (padded 2 d.month ++ '-' :: (padded 2 d.day ++ 'T' ::
    (padded 2 (s / 3600) ++ ':' :: (padded 2 (s / 60 % 60) ++ ':' :: (padded 2 (s % 60) ++
      ['Z']))))))

end Rill.Timestamp
