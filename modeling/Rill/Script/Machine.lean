import Rill.Files.Place
import Rill.Script.Syntax

/-!
# What scripts work on

The variables, parameters, open descriptors and files that the commands of a script share. A
descriptor leads to a buffer, from which it reads or to whose end it writes, to a file, or to a
device. A computation may end the script before its end.
-/

namespace Rill.Script

open Rill.Text (Octets)

/-- A variable. -/
structure Variable where
  /-- Its value, if it has one. -/
  value : Option Octets
  /-- Whether programs see it. -/
  exported : Bool := false
  /-- Whether it can still be changed. -/
  constant : Bool := false
  deriving DecidableEq, Repr

/-- Where a descriptor leads. -/
inductive Channel where
  /-- To a buffer. -/
  | buffer (n : Nat)
  /-- To a file. -/
  | file (key : String)
  /-- To a device that has no room. -/
  | full
  /-- To nothing. -/
  | null
  deriving DecidableEq, Repr

/-- What the commands of a script share. -/
structure Machine where
  /-- The name of the script. -/
  name : Octets
  /-- The parameters. -/
  params : List Octets := []
  /-- The variables. -/
  vars : Sorted Variable := []
  /-- The commands that have a name. -/
  functions : Sorted Node := []
  /-- The status of the last command. -/
  status : Nat := 0
  /-- The open descriptors. -/
  descriptors : List (Nat × Channel) := [(0, .null), (1, .buffer 0), (2, .buffer 1)]
  /-- The buffers. -/
  buffers : List Octets := [[], []]
  /-- The files. -/
  files : Files
  /-- What is run for a signal, or at the end, which counts as signal zero. -/
  traps : List (Nat × Octets) := []
  /-- Whether a failure ends the script. -/
  strict : Bool := false
  /-- Whether a variable without a value ends the script. -/
  nounset : Bool := false
  /-- Whether patterns stand for file names. -/
  globbing : Bool := true
  /-- Whether every command is shown. -/
  tracing : Bool := false
  /-- The directory that paths start from, if it is not the working directory. -/
  directory : Octets := []
  /-- What is to be run for signals that have come. -/
  due : List Octets := []
  /-- The status of the last command that was put in for a part of a word. -/
  inner : Option Nat := none
  /-- How many commands were not waited for. -/
  jobs : Nat := 0
  /-- How many loops are open. -/
  loops : Nat := 0
  /-- How many calls of commands with a name are open. -/
  depth : Nat := 0
  /-- What the variables that are local to a call were before it. -/
  shadowed : List (String × Option Variable) := []
  /-- The end of the whole process, if it has come. -/
  slain : Option Status := none
  /-- What is written for ever from the end on. -/
  endless : Octets := []

/-- A computation of a script, which may end it. -/
abbrev Act := ExceptT Status (StateM Machine)

namespace Act

/-! ## Descriptors -/

/-- Where a descriptor leads, if it is open. -/
def channel? (fd : Nat) : Act (Option Channel) :=
  return ((← get).descriptors.find? (·.1 == fd)).map Prod.snd

/-- Makes a descriptor lead somewhere, or nowhere. -/
def redirect (fd : Nat) (c : Option Channel) : Act Unit :=
  modify fun m =>
    let others := m.descriptors.filter (·.1 != fd)
    { m with descriptors := match c with | some c => (fd, c) :: others | none => others }

/-- A new buffer with something in it. -/
def newBuffer (cs : Octets) : Act Nat := do
  let m ← get
  set { m with buffers := m.buffers ++ [cs] }
  return m.buffers.length

/-- Takes everything from a buffer. -/
def drainBuffer (n : Nat) : Act Octets := do
  let m ← get
  set { m with buffers := m.buffers.set n [] }
  return (m.buffers[n]?).getD []

/-- Writes to a descriptor. -/
def write (fd : Nat) (cs : Octets) : Act Unit := do
  match ← channel? fd with
  | some (.buffer n) =>
    modify fun m => { m with buffers := m.buffers.modify n (· ++ cs) }
  | some (.file key) =>
    modify fun m => { m with files := m.files.append key (Text.Octets.toBytes cs) }
  | _ => return ()

/-- Everything that can be read. -/
def readAll : Act Octets := do
  match ← channel? 0 with
  | some (.buffer n) => drainBuffer n
  | _ => return []

/-- The next line that can be read, without its end, and whether it has one. -/
def readLine : Act (Octets × Bool) := do
  match ← channel? 0 with
  | some (.buffer n) =>
    let m ← get
    let cs := (m.buffers[n]?).getD []
    let rest := cs.dropWhile (· != '\n')
    set { m with buffers := m.buffers.set n (rest.drop 1) }
    return (cs.takeWhile (· != '\n'), !rest.isEmpty)
  | _ => return ([], false)

/-- Whether what is written to a descriptor arrives. -/
def isWritable (fd : Nat) : Act Bool := do
  match ← channel? fd with
  | none | some .full => return false
  | some _ => return true

/-- A path from the root or from the working directory. -/
def located (path : Octets) : Act String := do
  let dir := (← get).directory
  let whole := if dir.isEmpty || path.head? = some '/' then path else dir ++ '/' :: path
  return Text.Octets.toText whole

/-! ## Messages -/

/-- Says something about an error on the first line. -/
def say (cs : Octets) : Act Unit := do
  write 2 ((← get).name ++ ": 1: ".toList ++ cs ++ ['\n'])

/-- Ends the whole process, not only the part of it that runs by itself. -/
def slay {α : Type} (s : Status) : Act α := do
  modify fun m => { m with slain := some s }
  throw s

/-- Ends the script with an error. -/
def abort {α : Type} (cs : Octets) : Act α := do
  say cs
  throw (.exited 2)

/-! ## Variables -/

/-- The name of a variable as a key. -/
def keyOf (name : Octets) : String := String.ofList name

/-- A variable, if there is one of the name. -/
def lookup? (name : Octets) : Act (Option Variable) :=
  return Sorted.find? (keyOf name) (← get).vars

/-- The value of a variable, if it has one. -/
def value? (name : Octets) : Act (Option Octets) := return (← lookup? name).bind Variable.value

/-- Gives a variable a value. -/
def assign (name value : Octets) : Act Unit := do
  let v := (← lookup? name).getD ⟨none, false, false⟩
  if v.constant then abort (name ++ ": is read only".toList)
  modify fun m => { m with vars := Sorted.insert (keyOf name) { v with value := some value } m.vars }

/-- Changes a variable, which need not have a value. -/
def adjust (name : Octets) (f : Variable → Variable) : Act Unit := do
  let v := (← lookup? name).getD ⟨none, false, false⟩
  modify fun m => { m with vars := Sorted.insert (keyOf name) (f v) m.vars }

/-- Removes a variable. -/
def unset (name : Octets) : Act Unit := do
  if ((← lookup? name).map Variable.constant).getD false then
    abort (name ++ ": is read only".toList)
  modify fun m => { m with vars := m.vars.filter (·.1 != keyOf name) }

/-- Remembers what a variable was before the call that is open. -/
def shadow (name : Octets) : Act Unit := do
  let v ← lookup? name
  modify fun m => { m with shadowed := (keyOf name, v) :: m.shadowed }

/-- The variables that programs see. -/
def exports : Act (Sorted String) :=
  return Sorted.ofList ((← get).vars.filterMap fun (k, v) =>
    if v.exported then
      v.value.map fun cs => (Text.Octets.toText k.toList, Text.Octets.toText cs)
    else none)

/-- Sets the status. -/
def setStatus (n : Nat) : Act Unit := modify fun m => { m with status := n }

/-! ## Processes of their own -/

/-- Runs something that leaves no trace but in the buffers and files. Its end is not the end of the
script, and is returned, unless it is the end of the whole process. -/
def isolated (act : Act Unit) : Act Status := do
  let m ← get
  let (result, after) := act.run { m with traps := [] }
  set { m with
    files := after.files, buffers := after.buffers, slain := after.slain, endless := after.endless }
  match after.slain, result with
  | some s, _ => throw s
  | none, .ok () => return .exited after.status
  | none, .error s => return s

/-- Runs something within a loop. -/
def looping {α : Type} (act : Act α) : Act α := do
  let loops := (← get).loops
  modify fun m => { m with loops := loops + 1 }
  let a ← act
  modify fun m => { m with loops := loops }
  return a

/-- Runs something with descriptors of its own. -/
def withDescriptors {α : Type} (act : Act α) : Act α := do
  let saved := (← get).descriptors
  let restore : Act Unit := modify fun m => { m with descriptors := saved }
  try
    let a ← act
    restore
    return a
  catch s =>
    restore
    throw s

end Act

end Rill.Script
