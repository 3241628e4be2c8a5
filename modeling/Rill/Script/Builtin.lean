import Rill.Program.Utility
import Rill.Script.Expansion
import Rill.Script.Signal

/-!
# Commands of scripts

The commands that a script runs by itself, without a program. Each gets its arguments and leaves a
status. One that is called wrongly says so, and if it is a special one the script ends with it.
-/

namespace Rill.Script

open Rill.Text (Octets)

/-- What a command leaves. -/
structure Reply where
  /-- The status. -/
  status : Nat
  /-- Whether the command was called wrongly. -/
  refused : Bool := false
  deriving DecidableEq, Repr

/-- The reply of a command that was called wrongly. -/
def misused (name note : Octets) : Act Reply := do
  Act.say (name ++ ':' :: ' ' :: note)
  return ⟨2, true⟩

/-- Writes the output of a command. -/
def put (name out : Octets) : Act Reply := do
  if out.isEmpty || (← Act.isWritable 1) then
    Act.write 1 out
    return ⟨0, false⟩
  else
    Act.say (name ++ ": ".toList ++ name ++ ": I/O error".toList)
    return ⟨1, false⟩

/-- The largest number that a command takes. -/
def maxNumber : Nat := 0x7fffffff

/-- The number that an argument writes. -/
def argumentNumber? (cs : Octets) : Option Nat :=
  if !cs.isEmpty && cs.all Char.isDigit && digitsValue cs ≤ maxNumber then some (digitsValue cs)
  else none

/-- Runs something with the number that an argument writes. -/
def withNumber (name cs : Octets) (act : Nat → Act Reply) : Act Reply :=
  match argumentNumber? cs with
  | some n => act n
  | none => misused name ("Illegal number: ".toList ++ cs)

/-- Runs something with arguments that hold no options. -/
def withoutOptions (name : Octets) (args : List Octets) (act : List Octets → Act Reply) :
    Act Reply :=
  match args with
  | ['-', '-'] :: rest => act rest
  | ('-' :: c :: _) :: _ => misused name ("Illegal option -".toList ++ [c])
  | args => act args

/-- A text in quotes that a script can read again. -/
def requoted (cs : Octets) : Octets :=
  '\'' :: cs.flatMap (fun c => if c = '\'' then "'\"'\"'".toList else [c]) ++ ['\'']

/-! ## Texts -/

/-- Writes the arguments. -/
def echoCommand (args : List Octets) : Act Reply :=
  let (ends, args) := match args with | ['-', 'n'] :: args => (false, args) | args => (true, args)
  let text := [' '].intercalate args
  let (out, stopped) := Program.plainUnescaped (text.length + 1) text
  put "echo".toList (if ends && !stopped then out ++ ['\n'] else out)

/-- Writes the arguments as the first of them says. -/
def printfCommand (args : List Octets) : Act Reply := do
  let name := "printf".toList
  withoutOptions name args fun
    | [] => misused name "usage: printf format [arg ...]".toList
    | format :: args => do
      let f := Program.plainFormatted format args
      f.notes.forM fun n => Act.say (name ++ ':' :: ' ' :: n)
      let reply ← put name f.out
      return if reply.status = 0 then ⟨f.status, f.ending = some 2⟩ else reply

/-- Tests a condition. -/
def testCommand (name : Octets) (args : List Octets) : Act Reply := do
  let bracket := name = ['[']
  if bracket && args.getLast? ≠ some [']'] then misused name "missing ]".toList
  else
    match Program.holds (← get).files (if bracket then args.dropLast else args) with
    | .ok v => return ⟨if v then 0 else 1, false⟩
    | .error note => misused name note

/-! ## Variables -/

/-- A name, and the value that an argument gives it. -/
def declaration (arg : Octets) : Octets × Option Octets :=
  match arg.dropWhile (· != '=') with
  | _ :: value => (arg.takeWhile (· != '='), some value)
  | [] => (arg, none)

/-- Declares variables, each with a value or not. -/
def declare (command : Octets) (f : Variable → Variable) (before : Octets → Act Unit) :
    List Octets → Act Reply
  | [] => return ⟨0, false⟩
  | arg :: rest => do
    let (name, value) := declaration arg
    if !isName name then misused command (name ++ ": bad variable name".toList)
    else
      before name
      if let some cs := value then Act.assign name cs
      Act.adjust name f
      declare command f before rest

/-- The variables that satisfy a condition, as commands that declare them. -/
def declarations (command : Octets) (p : Variable → Bool) : Act Octets := do
  return ((← get).vars.filter fun v => p v.2).flatMap fun (k, v) =>
    command ++ ' ' :: k.toList ++ ((v.value.map fun cs => '=' :: requoted cs).getD []) ++ ['\n']

/-- Makes variables visible to programs. -/
def exportCommand (args : List Octets) : Act Reply := do
  let name := "export".toList
  if args.isEmpty || args = [['-', 'p']] then
    put name (← declarations name Variable.exported)
  else
    withoutOptions name args
      (declare name (fun v => { v with exported := true }) fun _ => return ())

/-- Makes variables constant. -/
def readonlyCommand (args : List Octets) : Act Reply := do
  let name := "readonly".toList
  if args.isEmpty || args = [['-', 'p']] then
    put name (← declarations name Variable.constant)
  else
    withoutOptions name args
      (declare name (fun v => { v with constant := true }) fun _ => return ())

/-- Makes variables local to a call. -/
def localCommand (args : List Octets) : Act Reply := do
  let name := "local".toList
  if (← get).depth = 0 then misused name "not in a function".toList
  else declare name id Act.shadow args

/-- Removes variables or functions. -/
def unsetCommand (args : List Octets) : Act Reply := do
  let (functions, names) := match args with
    | ['-', 'f'] :: names => (true, names)
    | ['-', 'v'] :: names => (false, names)
    | names => (false, names)
  if functions then
    modify fun m => { m with functions := m.functions.filter fun f =>
      !(names.map Act.keyOf).contains f.1 }
    return ⟨0, false⟩
  else
    match names.find? fun n => !isName n with
    | some n => misused "unset".toList (n ++ ": bad variable name".toList)
    | none =>
      names.forM Act.unset
      return ⟨0, false⟩

/-- Drops parameters at the front. -/
def shiftCommand (args : List Octets) : Act Reply :=
  let name := "shift".toList
  withNumber name (args.headD ['1']) fun n => do
    let m ← get
    if m.params.length < n then misused name "can't shift that many".toList
    else
      set { m with params := m.params.drop n }
      return ⟨0, false⟩

/-- Turns an option on or off; the letters that have no effect here are known too. -/
def setOption (on : Bool) (c : Char) : Act Bool := do
  match c with
  | 'e' => modify fun m => { m with strict := on }
  | 'u' => modify fun m => { m with nounset := on }
  | 'f' => modify fun m => { m with globbing := !on }
  | 'x' => modify fun m => { m with tracing := on }
  | _ => pure ()
  return "aefhimnsuvxVEbIC".toList.contains c

/-- The letter of an option that has a name. -/
def optionLetter? (name : Octets) : Option Char :=
  match String.ofList name with
  | "errexit" => some 'e'
  | "nounset" => some 'u'
  | "noglob" => some 'f'
  | "xtrace" => some 'x'
  | "allexport" => some 'a'
  | "noexec" => some 'n'
  | "verbose" => some 'v'
  | "noclobber" => some 'C'
  | "notify" => some 'b'
  | "monitor" => some 'm'
  | "ignoreeof" => some 'I'
  | _ => none

/-- The first option of some that is not known; the others before it are turned on or off. -/
def setOptions (on : Bool) : Octets → Act (Option Char)
  | [] => return none
  | c :: cs => do
    if ← setOption on c then setOptions on cs else return some c

/-- Sets options and parameters. -/
def setCommand : List Octets → Act Reply
  | [] => return ⟨0, false⟩
  | ['-', '-'] :: args | ['-'] :: args => do
    modify fun m => { m with params := args }
    return ⟨0, false⟩
  | (sign :: 'o' :: []) :: name :: args => do
    if sign = '-' || sign = '+' then
      match optionLetter? name with
      | some c =>
        let _ ← setOption (sign = '-') c
        setCommand args
      | none => misused "set".toList ("Illegal option -o ".toList ++ name)
    else
      modify fun m => { m with params := [sign, 'o'] :: name :: args }
      return ⟨0, false⟩
  | (sign :: c :: cs) :: args => do
    if sign = '-' || sign = '+' then
      match ← setOptions (sign = '-') (c :: cs) with
      | some d => misused "set".toList ("Illegal option ".toList ++ [sign, d])
      | none => setCommand args
    else
      modify fun m => { m with params := (sign :: c :: cs) :: args }
      return ⟨0, false⟩
  | args => do
    modify fun m => { m with params := args }
    return ⟨0, false⟩

/-! ## Input -/

/-- A line that was read as cells: a backslash quotes what follows it. -/
def lineCells (raw : Bool) : Octets → List Cell
  | [] => []
  | '\\' :: c :: cs =>
    if raw then .inserted '\\' :: lineCells raw (c :: cs) else .quoted c :: lineCells raw cs
  | '\\' :: [] => if raw then [.inserted '\\'] else []
  | c :: cs => .inserted c :: lineCells raw cs

/-- Whether a cell is a blank that separates. -/
def isBlankCell (seps : Octets) : Cell → Bool
  | .inserted c => seps.contains c && (c == ' ' || c == '\t' || c == '\n')
  | _ => false

/-- Whether a cell separates. -/
def isSeparatorCell (seps : Octets) : Cell → Bool
  | .inserted c => seps.contains c
  | _ => false

/-- The texts of so many fields of a line, the last of which takes the rest. -/
def lineFields (seps : Octets) : Nat → List Cell → List Octets
  | 0, _ => []
  | 1, cells =>
    let cells := cells.dropWhile (isBlankCell seps)
    [cellText (cells.reverse.dropWhile (isBlankCell seps)).reverse]
  | n + 1, cells =>
    let cells := cells.dropWhile (isBlankCell seps)
    let front := cells.takeWhile fun c => !isSeparatorCell seps c
    let rest := (cells.drop front.length).dropWhile (isBlankCell seps)
    let rest := if (rest.head?.map (isSeparatorCell seps)).getD false then rest.drop 1 else rest
    cellText front :: lineFields seps n rest

/-- Reads a line into variables. -/
def readCommand (args : List Octets) : Act Reply := do
  let (raw, names) := match args with | ['-', 'r'] :: names => (true, names) | names => (false, names)
  match names.find? fun n => !isName n with
  | some n => misused "read".toList (n ++ ": bad variable name".toList)
  | none =>
    if names.isEmpty then misused "read".toList "arg count".toList
    else
      let (line, ended) ← Act.readLine
      let values := lineFields (← separators) names.length (lineCells raw line)
      (names.zip values).forM fun (n, v) => Act.assign n v
      return ⟨if ended then 0 else 1, false⟩

/-! ## Processes -/

/-- Changes the directory that paths start from. -/
def cdCommand (args : List Octets) : Act Reply := do
  let args := match args with | ['-', '-'] :: args => args | args => args
  match args with
  | [] => return ⟨0, false⟩
  | dir :: _ =>
    let path ← Act.located dir
    if Program.pathIs (← get).files 'd' (Text.Octets.ofText path) then
      modify fun m => { m with directory := Text.Octets.ofText path }
      return ⟨0, false⟩
    else misused "cd".toList ("can't cd to ".toList ++ dir)

/-- Brings a signal to the process. -/
def deliver (signal : Nat) : Act Unit := do
  let m ← get
  match if signal = Signal.kill then none else m.traps.find? (·.1 == signal) with
  | some (_, action) => if !action.isEmpty then set { m with due := m.due ++ [action] }
  | none =>
    if signal ≠ 0 && !Signal.isHarmless signal then Act.slay (.killed signal)

/-- Brings a signal to processes. -/
def signalAll (signal : Nat) : List Octets → Act Reply
  | [] => return ⟨0, false⟩
  | pid :: rest =>
    withNumber "kill".toList pid fun n => do
      if n = processId then
        deliver signal
        signalAll signal rest
      else
        Act.say "kill: No such process\n".toList
        let r ← signalAll signal rest
        return { r with status := max r.status 1 }

/-- The names of signals, or that of one. -/
def listSignals (args : List Octets) : Act Reply :=
  let name := "kill".toList
  match args with
  | [] => put name (Signal.names.flatMap fun s => s.2.toList ++ ['\n'])
  | arg :: _ =>
    withNumber name arg fun n => do
      match Signal.name? (if 128 < n then n - 128 else n) with
      | some s => put name (s.toList ++ ['\n'])
      | none => misused name ("invalid signal number or exit status: ".toList ++ arg)

/-- How the command for signals is called. -/
def killUsage : Octets :=
  ("Usage: kill [-s sigspec | -signum | -sigspec] [pid | job]... or\n" ++
    "kill -l [exitstatus]").toList

/-- Sends signals. -/
def killCommand (args : List Octets) : Act Reply :=
  let name := "kill".toList
  let send (signal : Nat) (pids : List Octets) : Act Reply :=
    if pids.isEmpty then misused name killUsage else signalAll signal pids
  match args with
  | ['-', '-'] :: pids => send Signal.term pids
  | ['-', 'l'] :: rest => listSignals rest
  | ['-', 's'] :: sig :: pids =>
    match Signal.ofText? sig with
    | some n => send n pids
    | none => misused name ("invalid signal number or name: ".toList ++ sig)
  | ('-' :: c :: cs) :: pids =>
    match Signal.ofText? (c :: cs) with
    | some n => send n (match pids with | ['-', '-'] :: pids => pids | pids => pids)
    | none => misused name ("Illegal option -".toList ++ [c])
  | pids => send Signal.term pids

/-- The trap of a signal, as a command that sets it. -/
def trapText (t : Nat × Octets) : Octets :=
  "trap -- ".toList ++ requoted t.2 ++ ' ' :: (Signal.shown t.1).toList ++ ['\n']

/-- Says what is run for a signal. -/
def trapCommand (args : List Octets) : Act Reply := do
  let args := match args with | ['-', '-'] :: args => args | args => args
  match args with
  | [] => put "trap".toList ((← get).traps.flatMap trapText)
  | action :: rest =>
    let (action, signals) :=
      if rest.isEmpty || (argumentNumber? action).isSome then (['-'], action :: rest)
      else (action, rest)
    let change (name : Octets) : Act Bool := do
      match Signal.ofText? name with
      | none =>
        Act.write 2 ("trap: ".toList ++ name ++ ": bad trap\n".toList)
        return false
      | some n =>
        modify fun m =>
          let others := m.traps.filter (·.1 != n)
          { m with traps := if action = ['-'] then others else others ++ [(n, action)] }
        return true
    let changed ← signals.mapM change
    return ⟨if changed.all id then 0 else 1, false⟩

/-! ## All -/

/-- The commands that end the script if they are called wrongly. -/
def specialCommands : List String :=
  [".", ":", "break", "continue", "eval", "exec", "exit", "export", "local", "readonly", "return",
    "set", "shift", "times", "trap", "unset"]

/-- The other commands that no program is run for. -/
def plainCommands : List String :=
  ["[", "alias", "bg", "cd", "chdir", "command", "echo", "false", "fg", "getopts", "hash", "jobs", "kill",
    "printf", "pwd", "read", "test", "true", "type", "ulimit", "umask", "unalias", "wait"]

/-- Runs a command that needs no other. -/
def plainCommand (name : Octets) (args : List Octets) : Act Reply :=
  match String.ofList name with
  | "echo" => echoCommand args
  | "printf" => printfCommand args
  | "test" | "[" => testCommand name args
  | "false" => return ⟨1, false⟩
  | "cd" | "chdir" => cdCommand args
  | "pwd" => do
    let m ← get
    put name ((if m.directory.isEmpty then "/tmp".toList else m.directory) ++ ['\n'])
  | "export" => exportCommand args
  | "readonly" => readonlyCommand args
  | "local" => localCommand args
  | "unset" => unsetCommand args
  | "shift" => shiftCommand args
  | "set" => setCommand args
  | "read" => readCommand args
  | "kill" => killCommand args
  | "trap" => trapCommand args
  | "umask" => put name "0022\n".toList
  | "wait" => return ⟨if args.isEmpty then 0 else 127, false⟩
  | "fg" | "bg" => misused name "No current job".toList
  | "getopts" => misused name "Usage: getopts optstring var [arg...]".toList
  | _ => return ⟨0, false⟩

end Rill.Script
