import Rill.Value.Basic

/-!
# Arguments as an object

The arguments of a command become one object: those that are objects give it their fields, a later
one winning, and all others are listed under `@`. The object becomes a command line again: first
what is under `@`, and then a flag for every other field.
-/

namespace Rill.Arguments

/-- The key of the arguments that are no objects. -/
def positional : String := "@"

/-- The fields of the arguments that are objects, a later one winning. -/
def fields (values : List Value) : Sorted Json :=
  values.foldl (fun acc v =>
    match v.toJson with
    | .object more => Sorted.merge acc more
    | _ => acc) []

/-- The arguments that are no objects. -/
def listed (values : List Value) : List Json :=
  values.filterMap fun v =>
    match v.toJson with
    | .object _ => none
    | j => some j

/-- The arguments as one object. -/
def project (values : List Value) : Sorted Json :=
  let others := listed values
  if others.isEmpty then fields values
  else Sorted.insert positional (.list others) (fields values)

/-- A field as a flag: a dash and one letter, or two dashes and a name, if it is `true`; and with
its value otherwise. -/
def flag (key : String) (value : Json) : String :=
  match value with
  | .bool true => if key.length = 1 then "-" ++ key else "--" ++ key
  | value => "--" ++ key ++ "=" ++ (Value.json value).render

/-- An object as a command line. -/
def commandLine (config : Sorted Json) : List String :=
  let listed :=
    match Sorted.find? positional config with
    | some (.list items) => items.map fun j => (Value.json j).render
    | some j => [(Value.json j).render]
    | none => []
  listed ++ (config.filter fun e => e.1 ≠ positional).map fun e => flag e.1 e.2

end Rill.Arguments
