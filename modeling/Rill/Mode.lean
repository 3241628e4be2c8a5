/-!
# How a stream is printed

A line says with `:`, `: N` or `> name` what becomes of its values.
-/

namespace Rill

/-- What becomes of the values of a line. -/
inductive Mode where
  /-- They are printed one by one; all of them without asking if `full`. -/
  | pull (full : Bool)
  /-- Only the last lines stay on the screen. -/
  | window (lines : Nat)
  /-- They are written to a file. -/
  | write (name : String)
  deriving DecidableEq, Repr, Inhabited

namespace Mode

/-- One value, and more when asked. -/
def default : Mode := .pull false

/-- The most lines that stay on the screen. -/
def maxWindow : Nat := 1024

end Mode

end Rill
