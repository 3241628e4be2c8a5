import Rill.Stream.Basic
import Rill.Value.Path

/-!
# Scopes

A scope has the closure parameters and the local streams that are visible somewhere in a line. What
is inside an operator's right side starts with a copy of the scope around it, and what it declares
is not seen outside. The values of the parameters are not in the scope but in slots, which all
scopes share.
-/

namespace Rill.Scope

/-- Nothing is visible. -/
def empty : Scope := .mk [] []

/-- The slots of the parameters, by name. -/
def vars : Scope → Sorted Handle
  | .mk vars _ => vars

/-- The local streams, by name. -/
def overrides : Scope → Sorted Factory
  | .mk _ overrides => overrides

/-- The scope with a parameter that lives in a slot. -/
def declare (s : Scope) (name : String) (slot : Handle) : Scope :=
  .mk (Sorted.insert name slot s.vars) s.overrides

/-- The scope with a local stream. -/
def override (s : Scope) (name : String) (f : Factory) : Scope :=
  .mk s.vars (Sorted.insert name f s.overrides)

/-- Whether a name is a parameter. -/
def isVar (s : Scope) (name : String) : Bool := Sorted.has name s.vars

/-- The part of a word before its first point. -/
def head (word : String) : String := (segments word).headD word

/-- Whether a word is a parameter, with or without a path into it. -/
def isVarPath (s : Scope) (word : String) : Bool := s.isVar (head word)

/-- The value of a parameter; one to which nothing was ever stored is `null`. -/
def get? (s : Scope) (slots : Slots) (name : String) : Option Value :=
  (Sorted.find? name s.vars).map fun slot => (slots.get? slot).getD .null

/-- The value of a parameter, or of what the longest part of a path into it leads to. -/
def resolve? (s : Scope) (slots : Slots) (word : String) : Option Value :=
  (s.get? slots (head word)).map fun v => v.project ((segments word).drop 1)

end Rill.Scope
