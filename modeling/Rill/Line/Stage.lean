import Rill.Mode
import Rill.World
import Rill.Scope

/-!
# Stages

A stage of a pipeline while it is read: the operands so far, what feeds it, and whether it is a
closure. A finished stage becomes a factory (`Stage.toFactory`), or an operand of the stage around
it (`Stage.toOperand`).
-/

namespace Rill

/-- A stage while it is read. -/
structure Stage where
  /-- What is visible. -/
  scope : Scope
  /-- What feeds the stage. -/
  feed : Option Factory := none
  /-- The operands, in order. -/
  operands : List Operand := []
  /-- How many braces of records are open around the stage. -/
  recordDepth : Nat := 0
  /-- The closure that the stage is; no operand may follow it. -/
  closure : Option Factory := none
  /-- How the line is to be printed, if the stage said so. -/
  mode : Option Mode := none

namespace Stage

/-- A new stage for the right side of an operator. -/
def child (s : Stage) : Stage := { scope := s.scope, recordDepth := s.recordDepth }

/-- The stage with one more operand. -/
def push (s : Stage) (x : Operand) : Except Error Stage :=
  if s.closure.isSome then .error .closureNotFinal
  else .ok { s with operands := s.operands ++ [x] }

/-- The stage with more operands. -/
def pushAll (s : Stage) (xs : List Operand) : Except Error Stage := xs.foldlM push s

/-- The last operand, and the stage without it. -/
def pop (s : Stage) : Except Error (Operand × Stage) :=
  match s.operands.getLast? with
  | some x => .ok (x, { s with operands := s.operands.dropLast })
  | none => .error .missingOperand

/-- The first operand, and the stage without it. -/
def takeFirst (s : Stage) : Except Error (Operand × Stage) :=
  match s.operands with
  | x :: xs => .ok (x, { s with operands := xs })
  | [] => .error .missingOperand

/-! ## Finished stages -/

/-- The factory of some operands. A first word that is no parameter is a command or, if there is
none of that name, a program; anything else is an expression. A reference alone takes the input. -/
def expression (context : Context) (scope : Scope) (operands : List Operand) : Factory :=
  let plain : Factory :=
    match operands with
    | [.streamRef name] => .reference scope name
    | xs => .sequence scope xs
  match operands with
  | .word w :: args =>
    if scope.isVarPath w then plain
    else
      match if context.builtins then Builtin.ofName? w else none with
      | some name => .builtin name scope args
      | none =>
        match Files.resolve? w context.searchPath with
        | some (path, name) => .program path name scope args
        | none => plain
  | _ => plain

/-- The factory of a finished stage, behind what feeds it. -/
def toFactory (context : Context) (s : Stage) : Factory :=
  let stage := s.closure.getD (expression context s.scope s.operands)
  match s.feed with
  | some f => .compose f stage
  | none => stage

/-- The value that an operand is. -/
def value? : Operand → Option Value
  | .value v => some v
  | _ => none

/-- The values that a stage consists of, if it is nothing else. -/
def constants? (s : Stage) : Option (List Value) :=
  if s.feed.isNone && s.closure.isNone then s.operands.mapM value? else none

/-- A finished stage as an operand: one value alone is itself, and anything else is a stream. -/
def toOperand (context : Context) (s : Stage) : Operand :=
  match s.constants? with
  | some [v] => .value v
  | some vs => .stream (.constant vs)
  | none => .stream (s.toFactory context)

end Stage

end Rill
