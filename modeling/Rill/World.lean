import Rill.Stream.Basic
import Rill.Value.Path

/-!
# What lines share

The named streams, the slots of closure parameters, the interrupt, the files, the time and the
console. A line may change the first two while it is built, and the slots and the
cache of variables while it is pulled.
-/

namespace Rill

/-! ## Named streams -/

/-- The named streams, and the variables that stand in for names that are not bound. -/
structure Environment where
  /-- The streams that are bound. -/
  bindings : Sorted Factory
  /-- The variables of the process. -/
  vars : Sorted String

namespace Environment

/-- Nothing is bound. -/
def empty : Environment := ⟨[], []⟩

/-- The version of this shell. -/
def version : String := "0.1.0"

/-- The environment of a session, in which the version is bound. -/
def ofVariables (vars : Sorted String) : Environment :=
  ⟨[("STSH_VERSION", .constant [.string version])], vars⟩

/-- The stream of a variable: what stands between its colons. -/
def ofVariable (text : String) : Factory := .constant ((Text.piecesText ':' text).map .string)

/-- Binds a name. -/
def set (e : Environment) (name : String) (f : Factory) : Environment :=
  { e with bindings := Sorted.insert name f e.bindings }

/-- What stands behind a name and an equals sign in the list of variables. So a name may itself hold
an equals sign and the beginning of the value that follows it. -/
def valueOf? (vars : Sorted String) (name : String) : Option String :=
  let cs := name.toList
  match cs.dropWhile (· != '=') with
  | [] => Sorted.find? name vars
  | _ :: front => do
    let value ← Sorted.find? (String.ofList (cs.takeWhile (· != '='))) vars
    let start := front ++ ['=']
    if start.isPrefixOf value.toList then
      return String.ofList (value.toList.drop start.length)
    else none

/-- What a name is bound to. A variable that is read is bound from then on. -/
def get? (e : Environment) (name : String) : Option Factory × Environment :=
  match Sorted.find? name e.bindings with
  | some f => (some f, e)
  | none =>
    match valueOf? e.vars name with
    | some text => (some (ofVariable text), e.set name (ofVariable text))
    | none => (none, e)

/-- The names that are bound, in order. -/
def names (e : Environment) : List String := Sorted.keys e.bindings

end Environment

/-! ## The world -/

/-- What has been written to the console by programs, or by lines that opened it as a file. -/
structure Console where
  /-- What was written as output. -/
  out : List UInt8 := []
  /-- What was written as errors. -/
  err : List UInt8 := []
  deriving DecidableEq, Repr

/-- What lines share. -/
structure World where
  /-- The named streams. -/
  env : Environment
  /-- The slots of closure parameters. -/
  slots : Slots
  /-- Whether what sleeps or runs has to stop. -/
  interrupted : Bool
  /-- The files of the working directory. -/
  files : Files
  /-- The seconds since the beginning of 1970. -/
  clock : Nat
  /-- What has been written to the console and not been taken from it. -/
  console : Console := {}

/-- A world with an environment and nothing else. -/
def World.ofEnvironment (env : Environment) : World := ⟨env, .empty, false, [], 0, {}⟩

/-- What lines cannot change. -/
structure Context where
  /-- Whether commands are known by name. -/
  builtins : Bool := true
  /-- The directories in which programs are looked for. -/
  searchPath : Option String := none
  /-- The most bytes of a program's output in one element. -/
  chunk : Nat := 4096
  /-- The variables that programs see. -/
  vars : Sorted String := []
  deriving Repr

/-! ## Computations -/

/-- A computation that may change the world. It has no result if it did not end within its fuel. -/
abbrev Run := StateT World Option

namespace Run

/-- A computation that did not end. -/
def stuck {α : Type} : Run α := fun _ => none

/-- Stores a value in a slot, if the handle still reaches it. -/
def store (slot : Handle) (v : Value) : Run Unit :=
  modify fun w => { w with slots := (w.slots.set slot v).2 }

/-- What a name is bound to. -/
def binding? (name : String) : Run (Option Factory) := do
  let w ← get
  let (f, env) := w.env.get? name
  set { w with env := env }
  return f

end Run

end Rill
