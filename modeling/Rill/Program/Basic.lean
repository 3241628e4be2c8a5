import Rill.Json.Basic
import Rill.Text.Blank
import Rill.Text.Octets

/-!
# Programs

What a program is given and what it does: the bytes it writes, which may have no end, how it ends,
and what it leaves of the files.
-/

namespace Rill

/-- The files that are known, by name. A file of the working directory is kept under its name, and
any other under its path from the root. -/
abbrev Files := Sorted (List UInt8)

/-- How a program ends. -/
inductive Status where
  /-- With a status of its own. -/
  | exited (code : Nat)
  /-- By a signal. -/
  | killed (signal : Nat)
  deriving DecidableEq, Repr

namespace Status

/-- Whether a program ended well. -/
def isSuccess (s : Status) : Bool := s == .exited 0

/-- The number that stands for an end: a signal counts from 128 on. -/
def code : Status → Nat
  | .exited code => code
  | .killed signal => 128 + signal

end Status

/-- What a program writes. -/
inductive Output where
  /-- So many bytes and no more. -/
  | finite (bytes : List UInt8)
  /-- Some bytes, and then others again and again. -/
  | endless (front period : List UInt8)
  deriving DecidableEq, Repr

/-- What a program is given. -/
structure Launch where
  /-- The name it is called by. -/
  name : Text.Octets
  /-- Its arguments. -/
  args : List Text.Octets
  /-- The variables it sees. -/
  vars : Sorted String
  /-- What it can read. -/
  input : Text.Octets := []
  /-- The files it finds. -/
  files : Files
  deriving Repr

/-- The least number of bytes that is too many for one argument. -/
def Launch.argumentLimit : Nat := 0x20000

/-- What a program does. -/
structure Execution where
  /-- What it writes. -/
  output : Output
  /-- What it says about errors. -/
  errors : List UInt8 := []
  /-- How it ends. -/
  status : Status
  /-- The files afterwards. -/
  files : Files
  deriving DecidableEq, Repr

/-- A program that can be run. -/
inductive Program where
  /-- Writes its arguments as a format says. -/
  | printf
  /-- Runs a script. -/
  | sh
  /-- Writes its arguments until it is stopped. -/
  | yes
  /-- Writes files. -/
  | cat
  /-- Writes its arguments. -/
  | echo
  /-- Ends well. -/
  | succeed
  /-- Ends badly. -/
  | fail
  /-- Runs a program with other variables. -/
  | env
  /-- Writes variables. -/
  | printenv
  /-- Writes numbers in a row. -/
  | seq
  /-- Writes the first lines. -/
  | head
  /-- Writes the last lines. -/
  | tail
  /-- Counts lines, words and bytes. -/
  | wc
  /-- Writes the last part of a path. -/
  | basename
  /-- Writes a path without its last part. -/
  | dirname
  /-- Waits. -/
  | sleep
  /-- Tests a condition. -/
  | test
  deriving DecidableEq, Repr

namespace Program

/-- The programs by name. -/
def all : List (String × Program) :=
  [("[", test), ("basename", basename), ("cat", cat), ("dash", sh), ("dirname", dirname),
    ("echo", echo), ("env", env), ("false", fail), ("head", head), ("printenv", printenv),
    ("printf", printf), ("seq", seq), ("sh", sh), ("sleep", sleep), ("tail", tail), ("test", test),
    ("true", succeed), ("wc", wc), ("yes", yes)]

/-- The program of a name. -/
def ofName? (name : String) : Option Program := Sorted.find? name all

end Program

end Rill
