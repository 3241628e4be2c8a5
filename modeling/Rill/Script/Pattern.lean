import Rill.Text.Octets

/-!
# Patterns

What a pattern matches: `*` any characters, `?` one, and `[…]` one of a set. Characters that were
quoted stand for themselves.
-/

namespace Rill.Script

open Rill.Text (Octets)

/-- A part of a pattern. -/
inductive Match where
  /-- A character. -/
  | char (c : Char)
  /-- Any character. -/
  | one
  /-- Any characters. -/
  | any
  /-- A character of a set, or of none of its ranges if it is `negated`. -/
  | set (negated : Bool) (ranges : List (Char × Char))
  deriving DecidableEq, Repr

/-- A character of a word, and whether it stands for itself. -/
abbrev Mark := Char × Bool

/-- The ranges of a set up to its bracket, and what is behind. `first` says that a bracket does not
end it. -/
def takeRanges : Nat → Bool → List Mark → Option (List (Char × Char) × List Mark)
  | 0, _, _ => none
  | _ + 1, _, [] => none
  | fuel + 1, first, (c, literal) :: rest =>
    if c = ']' && !literal && !first then some ([], rest)
    else
      match rest with
      | ('-', false) :: (d, l) :: more =>
        if d = ']' && !l then (takeRanges fuel false rest).map fun (rs, r) => ((c, c) :: rs, r)
        else (takeRanges fuel false more).map fun (rs, r) => ((c, d) :: rs, r)
      | rest => (takeRanges fuel false rest).map fun (rs, r) => ((c, c) :: rs, r)

/-- The pattern of some characters. -/
def patternOf : Nat → List Mark → List Match
  | 0, _ => []
  | _ + 1, [] => []
  | fuel + 1, ('*', false) :: rest => .any :: patternOf fuel rest
  | fuel + 1, ('?', false) :: rest => .one :: patternOf fuel rest
  | fuel + 1, ('[', false) :: rest =>
    let (negated, body) :=
      match rest with
      | ('!', false) :: body => (true, body)
      | body => (false, body)
    match takeRanges (body.length + 1) true body with
    | some (ranges, more) => .set negated ranges :: patternOf fuel more
    | none => .char '[' :: patternOf fuel rest
  | fuel + 1, (c, _) :: rest => .char c :: patternOf fuel rest

/-- The pattern of some characters. -/
def pattern (marks : List Mark) : List Match := patternOf (marks.length + 1) marks

/-- Whether a part of a pattern matches a character. -/
def Match.accepts : Match → Char → Bool
  | .char c, d => c == d
  | .one, _ => true
  | .any, _ => true
  | .set negated ranges, d => ranges.any (fun (a, b) => a ≤ d && d ≤ b) != negated

/-- What is left of a text when any number of characters was dropped. -/
def suffixes : Octets → List Octets
  | [] => [[]]
  | c :: cs => (c :: cs) :: suffixes cs

/-- Whether a pattern matches a text. -/
def matchesText : List Match → Octets → Bool
  | [], cs => cs.isEmpty
  | .any :: ps, cs => (suffixes cs).any (matchesText ps)
  | p :: ps, cs =>
    match cs with
    | [] => false
    | c :: rest => p.accepts c && matchesText ps rest

/-- Whether some characters hold any that make them a pattern. -/
def isPattern (marks : List Mark) : Bool :=
  marks.any fun (c, literal) => !literal && (c == '*' || c == '?' || c == '[')

/-- How many characters a text loses at its front to a pattern: the fewest, or the most. -/
def matchedFront? (longest : Bool) (p : List Match) (cs : Octets) : Option Nat :=
  let hits := (List.range (cs.length + 1)).filter fun n => matchesText p (cs.take n)
  if longest then hits.getLast? else hits.head?

/-- How many characters a text loses at its end to a pattern: the fewest, or the most. -/
def matchedEnd? (longest : Bool) (p : List Match) (cs : Octets) : Option Nat :=
  let hits := (List.range (cs.length + 1)).filter fun n => matchesText p (cs.drop (cs.length - n))
  if longest then hits.getLast? else hits.head?

end Rill.Script
