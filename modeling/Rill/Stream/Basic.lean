import Rill.Child
import Rill.Operator
import Rill.Program.Run
import Rill.Slot

/-!
# Streams and what makes them

A line denotes a factory, which makes a stream of its input as often as it is used. A factory is
made of operands: values, words, references and computations that wait for closure parameters. A
stream is what is left to pull. All four are plain data, so that a stream can be kept between two
pulls and looked at; what they do is said in `Rill.Eval`.
-/

namespace Rill

/-- The commands that a line knows by name. -/
inductive Builtin where
  /-- Adds a value to every input. -/
  | add
  /-- Shows the arguments as a command line. -/
  | args
  /-- Shows the arguments as one object. -/
  | echo
  /-- Ends the session. -/
  | exit
  /-- Takes a field of every input. -/
  | get
  /-- Tells the time, again and again. -/
  | now
  /-- Puts the arguments before the input. -/
  | prepend
  deriving DecidableEq, Repr

namespace Builtin

/-- Every command, by its name. -/
def all : Sorted Builtin :=
  [("add", add), ("args", args), ("echo", echo), ("exit", exit), ("get", get), ("now", now),
    ("prepend", prepend)]

/-- The command of a name. -/
def ofName? (name : String) : Option Builtin := Sorted.find? name all

end Builtin

mutual

/-- What makes a stream of its input. -/
inductive Factory where
  /-- Some elements, whatever the input. -/
  | items (xs : List (Except Error Value))
  /-- The integers from `first` to `last`, whatever the input. -/
  | range (first last : Int)
  /-- `second` on the output of `first`. -/
  | compose (first second : Factory)
  /-- `second` on nothing, after all of `first` was pulled. -/
  | andThen (first second : Factory)
  /-- A command on some arguments. -/
  | builtin (name : Builtin) (scope : Scope) (args : List Operand)
  /-- A program on some arguments, whatever the input. -/
  | program (path : String) (name : Program) (scope : Scope) (args : List Operand)
  /-- Whatever `$name` stands for when the factory is used. -/
  | reference (scope : Scope) (name : String)
  /-- The streams of some operands one after the other, whatever the input. -/
  | sequence (scope : Scope) (operands : List Operand)
  /-- `body` on nothing, for every input, which is stored in a slot. -/
  | bind (slot : Handle) (body : Factory)
  /-- `body` on every input by itself. -/
  | each (body : Factory)
  /-- An operator on every element. -/
  | unary (op : Operator) (source : Factory)
  /-- An operator between every element and a value. -/
  | left (op : Operator) (source : Factory) (right : Value)
  /-- An operator between a value and every element. -/
  | right (op : Operator) (left : Value) (source : Factory)
  /-- An operator between the elements of two streams. -/
  | zip (op : Operator) (left right : Factory)

/-- The closure parameters and the local streams that are visible somewhere in a line. -/
inductive Scope where
  | mk (vars : List (String × Handle)) (overrides : List (String × Factory))

/-- A part of a line between two operators. -/
inductive Operand where
  /-- A value that is known. -/
  | value (v : Value)
  /-- A stream, made with no input. -/
  | stream (f : Factory)
  /-- `$name`. -/
  | streamRef (name : String)
  /-- A word: a command, a text, or a parameter and a path into it. -/
  | word (w : String)
  /-- A computation that waits for the parameters it reads. -/
  | deferred (d : Deferred)

/-- A computation that waits for a scope. -/
inductive Deferred where
  /-- An operator with one operand. -/
  | unary (op : Operator) (operand : Operand)
  /-- An operator with two operands. -/
  | binary (op : Operator) (left right : Operand)
  /-- A choice; no operands in `onTrue` stand for the condition itself. -/
  | ternary (condition : Operand) (onTrue onFalse : List Operand)
  /-- A record, of a type if one is named. -/
  | record (type : Option String) (operands : List Operand)
  /-- A text in which references are replaced. -/
  | template (text : String)

end

/-- What is done to each value of an input. -/
inductive Transform where
  /-- Stores it in a slot and uses a factory on nothing. -/
  | bind (slot : Handle) (body : Factory)
  /-- Uses a factory on it. -/
  | each (body : Factory)
  /-- Applies an operator to it. -/
  | unary (op : Operator)
  /-- Applies an operator to it and a value. -/
  | left (op : Operator) (right : Value)
  /-- Applies an operator to a value and it. -/
  | right (op : Operator) (left : Value)
  /-- Looks a path up in it. -/
  | get (path : List String)

/-- What is left to pull. -/
inductive Stream where
  /-- Some elements. -/
  | items (xs : List (Except Error Value))
  /-- The integers from `next` to `last`. -/
  | range (next last : Int)
  /-- `front`, and then the streams of some operands. -/
  | concat (scope : Scope) (operands : List Operand) (front : Stream)
  /-- `front`, and then what a transform makes of each value of `input`. -/
  | flatMap (transform : Transform) (input front : Stream)
  /-- `inner`, with a value stored in a slot before each pull. -/
  | bound (slot : Handle) (value : Value) (inner : Stream)
  /-- `front`, and then what an operator makes of each pair of values. -/
  | zip (op : Operator) (left right front : Stream)
  /-- `input` with a value added to each of its values. -/
  | add (amount : Value) (input : Stream)
  /-- `first`, and then `second`. -/
  | chain (first second : Stream)
  /-- The time, `period` seconds apart; so many have been told. -/
  | ticks (period : Float) (told : Nat)
  /-- The output of a program. -/
  | child (c : Child)

namespace Stream

/-- A stream with nothing in it. -/
def empty : Stream := .items []

/-- A stream of one value. -/
def once (v : Value) : Stream := .items [.ok v]

/-- A stream of one error. -/
def fail (e : Error) : Stream := .items [.error e]

/-- A value as a stream: a list is the stream of its items. -/
def ofValue : Value → Stream
  | .json (.list js) => .items (js.map fun j => .ok (.json j))
  | v => once v

instance : Inhabited Stream := ⟨empty⟩

end Stream

namespace Factory

/-- The same values for every use. -/
def constant (values : List Value) : Factory := .items (values.map .ok)

/-- The same error for every use. -/
def failing (e : Error) : Factory := .items [.error e]

instance : Inhabited Factory := ⟨.items []⟩

end Factory

end Rill
