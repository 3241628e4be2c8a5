import Rill.Operator.Apply
import Rill.Scope

/-!
# Operators on operands

An operator on known values is computed at once. On a stream it works on every element, and on two
streams on their elements in pairs. An operator on anything that reads a closure parameter waits
until the parameter has a value.
-/

namespace Rill

/-- An operand that does not wait for a parameter. -/
inductive Ready where
  /-- A value. -/
  | known (v : Value)
  /-- The elements of a stream. -/
  | lazy (f : Factory)

namespace Operand

/-- What an operand is to an operator, unless it waits for a parameter. A word that is no parameter
is a text. -/
def ready? (scope : Scope) : Operand → Option Ready
  | .value v => some (.known v)
  | .word w => if scope.isVarPath w then none else some (.known (.string w))
  | .stream f => some (.lazy f)
  | .streamRef name => some (.lazy (.reference scope name))
  | .deferred _ => none

/-- What an operator left, as an operand. -/
def ofOutcome : Except Error Outcome → Operand
  | .ok (.value v) => .value v
  | .ok (.range first last) => .stream (.range first last)
  | .error e => .stream (.failing e)

/-- An operator with one operand. -/
def applyUnary (scope : Scope) (op : Operator) (x : Operand) : Operand :=
  match x.ready? scope with
  | some (.known v) => ofOutcome (op.unary v)
  | some (.lazy f) => .stream (.unary op f)
  | none => .deferred (.unary op x)

/-- An operator with two operands. -/
def applyBinary (scope : Scope) (op : Operator) (x y : Operand) : Operand :=
  match x.ready? scope, y.ready? scope with
  | some (.known v), some (.known w) => ofOutcome (op.binary v w)
  | some (.lazy f), some (.known w) => .stream (.left op f w)
  | some (.known v), some (.lazy g) => .stream (.right op v g)
  | some (.lazy f), some (.lazy g) => .stream (.zip op f g)
  | _, _ => .deferred (.binary op x y)

/-- A choice. A known condition decides at once; any other is asked for its first value when the
choice is evaluated. Without operands in `onTrue` a condition that counts as true is the choice. -/
def ternary (scope : Scope) (condition : Operand) (onTrue onFalse : List Operand) : List Operand :=
  match condition.ready? scope with
  | some (.known v) =>
    if v.isTruthy then if onTrue.isEmpty then [.value v] else onTrue else onFalse
  | _ => [.deferred (.ternary condition onTrue onFalse)]

/-- A text in which each `$name` up to the next space is replaced. -/
def template (text : String) : Operand :=
  if text.toList.contains '$' then .deferred (.template text) else .value (.string text)

end Operand

end Rill
