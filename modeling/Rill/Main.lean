import Rill.Command

/-!
# The program

Reads what a run is given from the system, hands lines to the library one by one, and writes what
they leave. The files that a line names are looked up before it, and those that it has written are
stored after it.
-/

namespace Rill.Main

/-- The bytes of a file, if it can be read. -/
def readBytes? (path : String) : IO (Option (List UInt8)) := do
  try return some (← IO.FS.readBinFile path).toList
  catch _ => return none

/-- The text of a file, if it can be read. -/
def readText? (path : String) : IO (Option String) :=
  return (← readBytes? path).bind Text.Utf8.strict?

/-- The variables of the process. -/
def processVars : IO (Sorted String) := do
  let text := Text.Utf8.lossyText ((← readBytes? "/proc/self/environ").getD [])
  return Sorted.ofList ((Text.piecesText '\x00' text).filterMap fun entry =>
    match Text.piecesText '=' entry with
    | name :: value => if name = "" then none else some (name, "=".intercalate value)
    | [] => none)

/-- The text of a file in the directory of settings. -/
def settingsText? (vars : Sorted String) (name : String) : IO (Option String) := do
  let home := (Sorted.find? "HOME" vars).getD ""
  let dir := (Sorted.find? "XDG_CONFIG_HOME" vars).getD (home ++ "/.config")
  readText? (dir ++ "/stream-shell/" ++ name)

/-- The files with those that a line names. -/
def named (files : Files) (line : String) : IO Files :=
  (Token.texts line).foldlM (fun files token => do
    match ← readBytes? token with
    | some bytes => return Sorted.insert token bytes files
    | none => return files) files

/-- Runs a computation on some lines, and stores the files that have changed. -/
def run {α : Type} (lines : List String) (m : Run α) (w : World) : IO (α × World) := do
  let files ← lines.foldlM named w.files
  match m { w with files := files } with
  | none => throw (IO.userError "a line did not end")
  | some (a, next) =>
    for (name, bytes) in next.files do
      if Sorted.find? name files != some bytes then
        IO.FS.writeBinFile name ⟨bytes.toArray⟩
    return (a, next)

/-- Writes what was printed. -/
def write (p : Printed) : IO Unit := do
  let out ← IO.getStdout
  out.putStr p.out
  out.flush
  (← IO.getStderr).putStr p.err

/-- Writes what a run leaves, and returns its exit code. -/
def finish (r : Report) : IO UInt32 := do
  write { out := r.out, err := r.err }
  return r.code.toUInt32

/-- Goes on with a dialogue until its input has ended. -/
partial def talk (shell : Shell) (prompt : Turn → String) (d : Dialogue) (w : World) :
    IO Dialogue := do
  let out ← IO.getStdout
  out.putStr (prompt d.turn)
  out.flush
  let line ← (← IO.getStdin).getLine
  match Command.inputLines line with
  | [] => return d.close
  | input :: _ =>
    let (d, w) ← run [input] (d.feed shell input) w
    write d.printed
    let d := { d with printed := {} }
    match d.turn with
    | .over _ => return d
    | _ => talk shell prompt d w

/-- Holds a dialogue. -/
def dialogue (v : Invocation) : IO UInt32 := do
  let shell := v.shell true
  let settings := Command.settings v.settings
  let shows := (← (← IO.getStdin).isTty) || Command.showsPrompts v.vars
  let prompt := if shows then Dialogue.prompt settings else fun _ => ""
  let (d, w) ← run v.startup.toList (Command.startUp shell v.startup) v.world
  write d.printed
  let d ← talk shell prompt { d with printed := {} } w
  return (Command.dialogueCode d).toUInt32

/-- Runs lines that nobody answers. -/
def batch (lines : List String) (m : Run (Printed × Except Trouble Ending)) (w : World) :
    IO UInt32 := do
  let ((p, ending), w) ← run lines m w
  finish (Command.report p ending w.files)

/-- Does what the arguments ask for. -/
def start (arguments : List String) : IO UInt32 := do
  let vars ← processVars
  let v : Invocation :=
    { arguments := arguments
      vars := vars
      settings := ← settingsText? vars "config.toml"
      startup := ← settingsText? vars "config.st" }
  let unread : IO UInt32 :=
    match Command.run v with
    | some r => finish r
    | none => throw (IO.userError "the run did not end")
  match Task.ofArguments arguments with
  | .dialogue => dialogue v
  | .line (some text) => batch [text] ((v.shell false).run text) v.world
  | .script path =>
    match ← readText? path with
    | some source => batch (Shell.scriptLines source) ((v.shell false).runScript source) v.world
    | none => unread
  | _ => unread

end Rill.Main

def main (arguments : List String) : IO UInt32 := Rill.Main.start arguments
