import Rill.Text.Octets

/-!
# Scripts

What a script consists of. A word is kept as it is written, with its quotes and what is to be put in
for it, because what it stands for is only known when its command is run.
-/

namespace Rill.Script

open Rill.Text (Octets)

/-- What a redirection does with its word. -/
inductive Direction where
  /-- Reads from the file. -/
  | read
  /-- Writes to the file, which is emptied before. -/
  | write
  /-- Writes to the end of the file. -/
  | append
  /-- Takes over another descriptor, or closes this one. -/
  | duplicate
  /-- Reads the word itself; what is to be put in for its parts is, if it is `live`. -/
  | inline (live : Bool)
  deriving DecidableEq, Repr

/-- A redirection of a descriptor. -/
structure Redirection where
  /-- The number of the descriptor. -/
  descriptor : Nat
  /-- What is done. -/
  direction : Direction
  /-- With what. -/
  word : Octets
  deriving DecidableEq, Repr

/-- A command, or several. -/
inductive Node where
  /-- Assignments, and a command with its arguments. -/
  | simple (assignments : List (Octets × Octets)) (words : List Octets)
  /-- Commands each of which reads what the one before it writes. -/
  | pipeline (nodes : List Node)
  /-- A command whose success counts as failure. -/
  | negated (node : Node)
  /-- The second command if the first succeeds. -/
  | both (first second : Node)
  /-- The second command if the first fails. -/
  | either (first second : Node)
  /-- One command after the other. -/
  | sequence (nodes : List Node)
  /-- A command that is not waited for. -/
  | background (node : Node)
  /-- A command that leaves no trace in the variables. -/
  | subshell (node : Node)
  /-- A command with some redirections. -/
  | redirected (node : Node) (redirections : List Redirection)
  /-- The second command or the third. -/
  | choice (condition body otherwise : Node)
  /-- A command as long as a condition succeeds, or as long as it fails. -/
  | loop (whileFailing : Bool) (condition body : Node)
  /-- A command for each of some words, or for each parameter. -/
  | each (name : Octets) (words : Option (List Octets)) (body : Node)
  /-- The command behind the first pattern that a word matches. -/
  | select (word : Octets) (cases : List (List Octets × Node))
  /-- A command that gets a name. -/
  | define (name : Octets) (body : Node)
  deriving Inhabited

/-- A command that does nothing. -/
def Node.empty : Node := .sequence []

end Rill.Script
