import Rill.Shell
import Rill.Text.Backspace

/-!
# The command line

Without arguments the command holds a dialogue with its input; with `-c` it runs one line, and with
a path the script in a file. `Command.run` says for everything that a run is given what it leaves.
-/

namespace Rill

/-- What the arguments ask for. -/
inductive Task where
  /-- A dialogue. -/
  | dialogue
  /-- The help text. -/
  | help
  /-- The version. -/
  | version
  /-- One line; none if it is missing. -/
  | line (text : Option String)
  /-- The script in a file. -/
  | script (path : String)
  /-- Something that is not known. -/
  | unknown (option : String)
  deriving DecidableEq, Repr

/-- What arguments ask for. Those that are not needed say nothing. -/
def Task.ofArguments : List String → Task
  | [] => .dialogue
  | "--help" :: _ | "-h" :: _ => .help
  | "--version" :: _ | "-V" :: _ => .version
  | "-c" :: rest => .line rest.head?
  | path :: _ => if path.toList.head? = some '-' then .unknown path else .script path

/-- What a run is given. -/
structure Invocation where
  /-- The arguments. -/
  arguments : List String := []
  /-- The text on its input. -/
  input : String := ""
  /-- The files of the working directory. -/
  files : Files := []
  /-- The variables of the process. -/
  vars : Sorted String := []
  /-- The text of the settings file, if there is one. -/
  settings : Option String := none
  /-- The text of the startup script, if there is one. -/
  startup : Option String := none

/-- What a run leaves. -/
structure Report where
  /-- What was written as output. -/
  out : String
  /-- What was written as errors. -/
  err : String
  /-- The exit code. -/
  code : UInt8
  /-- The files of the working directory. -/
  files : Files
  deriving DecidableEq, Repr

namespace Command

/-- The lines of the help text. -/
def helpLines : List String :=
  [ "stream-shell v" ++ Environment.version,
    "",
    "Usage:",
    "  stsh                         Interactive REPL",
    "  stsh -c <line>               Evaluate one line and exit",
    "  stsh <script>                Run a script file, one line at a time",
    "",
    "Options:",
    "  -c <line>                    Evaluate a line and exit",
    "  -h, --help                   Show this help",
    "  -V, --version                Show version",
    "",
    "Printing:",
    "  expr                         Show one value, Enter for the next",
    "  expr :                       Show every value",
    "  expr : N                     Keep the last N lines on screen",
    "  expr > file                  Write raw values to a file",
    "",
    "Examples:",
    "  stsh -c '1..3 | \x7b x -> x * x \x7d'",
    "  stsh -c 'ls -la | \x7b add \"!\" \x7d'",
    "  stsh -c 'now : 1'",
    "" ]

/-- The help text. -/
def help : String := String.join (helpLines.map (· ++ "\n"))

/-- The version, on a line of its own. -/
def version : String := "stsh " ++ Environment.version ++ "\n"

/-- What is said about an option that is not known. -/
def unknown (option : String) : String :=
  "Unknown option: " ++ option ++ "\nRun 'stsh --help' for usage.\n"

/-- The exit code of a request to end the session. A number that is no exit code counts as one. -/
def exitCode (code : Int) : UInt8 :=
  if 0 ≤ code ∧ code < 256 then UInt8.ofNat code.toNat else 1

/-- The exit code of a run that ended. -/
def endingCode : Ending → UInt8
  | .done => 0
  | .failed => 1
  | .exit code => exitCode code

/-- The settings of a file. Without one, and if they cannot be read, they have their defaults. -/
def settings (text : Option String) : Settings := (text.bind Settings.read).getD {}

/-- What is left by lines that ended so. -/
def report (p : Printed) (ending : Except Trouble Ending) (files : Files) : Report :=
  match ending with
  | .ok ending => ⟨p.out, p.err, endingCode ending, files⟩
  | .error t => ⟨p.out, p.err ++ t.full, 1, files⟩

/-! ## Dialogues -/

/-- The terminals that show no prompt by themselves, so that it is written as output. -/
def plainTerminals : List String := ["dumb", "cons25", "emacs"]

/-- Whether prompts are written although input does not come from a terminal. -/
def showsPrompts (vars : Sorted String) : Bool :=
  ((Sorted.find? "TERM" vars).map fun t =>
    plainTerminals.contains (String.ofList (t.toList.map Char.toLower))).getD false

/-- The lines of input. -/
def inputLines (input : String) : List String := (Text.linesText input).map Text.takenBack

/-- The dialogue with some lines of input and the prompts before them. -/
def talk (shell : Shell) (prompted : Dialogue → Dialogue) :
    List String → Dialogue → Run Dialogue
  | [], d =>
    match d.turn with
    | .answer _ => return prompted (prompted d).close
    | _ => return prompted d
  | line :: rest, d => do
    let d ← (prompted d).feed shell line
    talk shell prompted rest d

/-- The exit code of a dialogue that has ended. -/
def dialogueCode (d : Dialogue) : UInt8 :=
  match d.turn with
  | .over code => exitCode code
  | _ => 0

/-- Runs the startup script, if there is one, and begins a dialogue. -/
def startUp (shell : Shell) (source : Option String) : Run Dialogue := do
  match source with
  | some source => return { printed := ← shell.drainScript source }
  | none => return {}

end Command

/-! ## Runs -/

namespace Invocation

/-- The shell of a run. -/
def shell (v : Invocation) (paging : Bool) : Shell :=
  .ofSettings (Command.settings v.settings) v.vars paging

/-- The world in which a run starts. -/
def world (v : Invocation) : World := Shell.world v.vars v.files

/-- A run of one line. -/
def runLine (v : Invocation) (line : String) : Option Report := do
  let ((p, ending), w) ← (v.shell false).run line v.world
  return Command.report p ending w.files

/-- A run of a script. -/
def runScript (v : Invocation) (path : String) : Option Report :=
  match v.files.readText v.input path with
  | .error e =>
    some (Command.report {} (.error ⟨"Failed to read script: " ++ path, some e.message⟩) v.files)
  | .ok source => do
    let ((p, ending), w) ← (v.shell false).runScript source v.world
    return Command.report p ending w.files

/-- A dialogue. -/
def runDialogue (v : Invocation) : Option Report := do
  let shell := v.shell true
  let prompted :=
    if Command.showsPrompts v.vars then Dialogue.shown (Command.settings v.settings) else id
  let (d, w) ← Command.startUp shell v.startup v.world
  let (d, w) ← Command.talk shell prompted (Command.inputLines v.input) d w
  return ⟨d.printed.out, d.printed.err, Command.dialogueCode d, w.files⟩

end Invocation

/-- What a run leaves, unless it never ends. -/
def Command.run (v : Invocation) : Option Report :=
  match Task.ofArguments v.arguments with
  | .dialogue => v.runDialogue
  | .help => some ⟨Command.help, "", 0, v.files⟩
  | .version => some ⟨Command.version, "", 0, v.files⟩
  | .line (some text) => v.runLine text
  | .line none =>
    some (Command.report {} (.error ⟨"-c requires a line to evaluate", none⟩) v.files)
  | .script path => v.runScript path
  | .unknown option => some ⟨"", Command.unknown option, 1, v.files⟩

end Rill
