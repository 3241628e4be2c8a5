/-!
# What can go wrong

Everything that can go wrong with a line, while it is built and while values are pulled from it. An
error is plain data: it travels inside a stream as an element. `Error.name` and `Error.message` give
its wording, and `Error.isStructural` says whether the line itself is at fault.
-/

namespace Rill

/-- Why a line cannot be built, or why a stream has no value in some place. -/
inductive Error where
  /-- A token that cannot be read, or an assignment to something that is no name. -/
  | parse (text : String)
  /-- A text that is no JSON. -/
  | json (text : String)
  /-- Two stages without an operator between them. -/
  | missingOperator
  /-- An operator without an operand. -/
  | missingOperand
  /-- A `?` whose `:` never came. -/
  | missingTernary
  /-- A bracket without its partner. -/
  | mismatchedBracket (bracket : Char)
  /-- Something other than one name before `->`. -/
  | invalidSignature (text : String)
  /-- A closure with something after it. -/
  | closureNotFinal
  /-- A reference to a name that is bound nowhere. -/
  | unboundStream (name : String)
  /-- An operator that numbers do not have, or that leaves no number. -/
  | invalidNumberOp
  /-- An operator that truth values do not have. -/
  | invalidBoolOp
  /-- An operator that texts do not have. -/
  | invalidStringOp
  /-- An operator that its operands do not have in common. -/
  | invalidOp
  /-- A program that cannot be run. -/
  | exec (text : String)
  /-- A program whose output cannot be captured. -/
  | execPipe (text : String)
  /-- A program that cannot be started. -/
  | execFork (text : String)
  /-- A program whose output cannot be read. -/
  | execRead (text : String)
  /-- A program that ended with a status other than zero. -/
  | nonZeroStatus (code : Int)
  /-- Settings that cannot be read. -/
  | config (text : String)
  /-- A request to end the session. -/
  | exit (code : Int)
  deriving DecidableEq, Repr, Inhabited

namespace Error

/-- The name of the kind of error, which is shown before the message. -/
def name : Error → String
  | .parse _ => "ParseError"
  | .json _ => "JsonError"
  | .missingOperator => "MissingOperator"
  | .missingOperand => "MissingOperand"
  | .missingTernary => "MissingTernary"
  | .mismatchedBracket _ => "MismatchedBracket"
  | .invalidSignature _ => "InvalidClosureSignature"
  | .closureNotFinal => "ClosureNotFinal"
  | .unboundStream _ => "InvalidStreamRef"
  | .invalidNumberOp => "InvalidNumberOp"
  | .invalidBoolOp => "InvalidBoolOp"
  | .invalidStringOp => "InvalidStringOp"
  | .invalidOp => "InvalidOp"
  | .exec _ => "ExecError"
  | .execPipe _ => "ExecPipeError"
  | .execFork _ => "ExecForkError"
  | .execRead _ => "ExecReadError"
  | .nonZeroStatus _ => "ExecNonZeroStatus"
  | .config _ => "ConfigError"
  | .exit _ => "Exit"

/-- The wording of an error. -/
def message : Error → String
  | .parse text | .json text | .invalidSignature text | .exec text | .execPipe text
  | .execFork text | .execRead text | .config text => text
  | .missingOperator => "expected an operator"
  | .missingOperand => "operator is missing an operand"
  | .missingTernary => "'?' without a matching ':'"
  | .mismatchedBracket bracket => "unbalanced '" ++ String.singleton bracket ++ "'"
  | .closureNotFinal => "a closure must be the last element of its stage"
  | .unboundStream name => "$" ++ name ++ " is not defined"
  | .invalidNumberOp => "operator is not defined for numbers"
  | .invalidBoolOp => "operator is not defined for booleans"
  | .invalidStringOp => "operator is not defined for strings"
  | .invalidOp => "operator is not defined for these operands"
  | .nonZeroStatus code => "process exited with status " ++ toString code
  | .exit code => "exit with status " ++ toString code

/-- Whether the line is at fault, and not a value that flows through it. -/
def isStructural : Error → Bool
  | .parse _ | .missingOperator | .missingOperand | .missingTernary | .mismatchedBracket _
  | .invalidSignature _ | .closureNotFinal => true
  | _ => false

end Error

end Rill
