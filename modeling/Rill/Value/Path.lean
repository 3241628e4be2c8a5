import Rill.Value.Basic
import Rill.Text.Blank

/-!
# Paths into values

A path is a list of segments, each a key of an object or an index of a list. `lookup?` needs every
segment; `project` goes as far as the segments lead and stays there.
-/

namespace Rill

/-- The index that a segment writes: decimal digits, after a plus sign or not, that fit 64 bits. -/
def index? (segment : String) : Option Nat :=
  let digits :=
    match segment.toList with
    | '+' :: cs => cs
    | cs => cs
  if digits.isEmpty || !digits.all fun c => (Json.digit? c).isSome then none
  else
    match Json.gather Json.maxSignificand 0 digits with
    | (n, []) => some n
    | _ => none

/-- What a segment leads to. -/
def Json.child? : Json → String → Option Json
  | .object fields, segment => Sorted.find? segment fields
  | .list items, segment => (index? segment).bind fun i => items[i]?
  | _, _ => none

/-- What a whole path leads to. -/
def Json.lookup? : Json → List String → Option Json
  | j, [] => some j
  | j, s :: path => (j.child? s).bind fun next => next.lookup? path

/-- What the longest part of a path leads to. -/
def Json.project : Json → List String → Json
  | j, [] => j
  | j, s :: path =>
    match j.child? s with
    | some next => next.project path
    | none => j

namespace Value

/-- What a whole path leads to; only JSON has anything inside. -/
def lookup? : Value → List String → Option Value
  | .json j, path => (j.lookup? path).map .json
  | _, _ => none

/-- What the longest part of a path leads to. -/
def project : Value → List String → Value
  | .json j, path => .json (j.project path)
  | v, _ => v

end Value

/-- The segments of a dotted word. -/
def segments (word : String) : List String := Text.piecesText '.' word

end Rill
