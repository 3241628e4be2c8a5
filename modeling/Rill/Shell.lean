import Rill.Printer
import Rill.Session
import Rill.Settings.Basic

/-!
# The shell

A shell reads lines and prints what they denote. `Shell.process` takes one line with the answers to
the questions that printing asks, `Shell.runScript` the lines of a script, and `Dialogue` is a
session whose lines and answers come from one input.
-/

namespace Rill

/-- A shell: what its lines cannot change, and whether values are shown one by one. -/
structure Shell where
  /-- What lines cannot change. -/
  context : Context
  /-- Whether it is asked between two values. -/
  paging : Bool
  deriving Repr

namespace Shell

/-- A shell with some settings. It looks for programs where the variable `PATH` says. -/
def ofSettings (settings : Settings) (vars : Sorted String) (paging : Bool) : Shell :=
  ⟨{ searchPath := Sorted.find? "PATH" vars, chunk := settings.chunkSize, vars := vars }, paging⟩

/-- The world in which a shell starts. -/
def world (vars : Sorted String) (files : Files) : World :=
  { World.ofEnvironment (.ofVariables vars) with files := files }

/-- What streams do in this shell. -/
def calls (shell : Shell) : Calls := Eval.calls shell.context Session.fuel

/-! ## Lines -/

/-- Takes what was written to the console. -/
def takeConsole : Run Printed := do
  let w ← get
  set { w with console := {} }
  return { out := Text.Utf8.lossyText w.console.out, err := Text.Utf8.lossyText w.console.err }

/-- Something that prints, with what is written to the console meanwhile. A line prints its error at
its end, after all that its programs said. -/
def withConsole {α : Type} (act : Run (Printed × α)) : Run (Printed × α) := do
  let (p, a) ← act
  return ((← takeConsole) ++ p, a)

/-- Reads a line and prints it until it has ended or an answer is needed. An interrupt from before
does not reach it. -/
def begin (shell : Shell) (line : String) : Run (Printed × Progress) := do
  modify fun w => { w with interrupted := false }
  let (s, mode) ← Session.openAny shell.context Session.fuel line
  Printer.start shell.calls Session.fuel shell.paging s mode

/-- Reads a line and prints it, with the console, until it has ended or an answer is needed. -/
def start (shell : Shell) (line : String) : Run (Printed × Progress) :=
  withConsole (shell.begin line)

/-- Goes on printing after an answer. -/
def answer (shell : Shell) (s : Stream) (a : Option String) : Run (Printed × Progress) :=
  withConsole (Printer.answer shell.calls Session.fuel {} s a)

/-- Reads and prints a line with the answers in order, and returns those left. -/
def process (shell : Shell) (line : String) (answers : List String) :
    Run (Printed × Except Trouble Ending × List String) :=
  withConsole do
    let (p, progress) ← shell.begin line
    Printer.answerAll shell.calls Session.fuel answers p progress

/-- Reads and prints a line when there is nobody to ask. -/
def run (shell : Shell) (line : String) : Run (Printed × Except Trouble Ending) := do
  let (p, ending, _) ← shell.process line []
  return ({ p with asked := 0 }, ending)

/-- Reads a line and pulls it for its effects. -/
def drain (shell : Shell) (line : String) : Run Printed := do
  let (s, _) ← Session.openAny shell.context Session.fuel line
  Session.drain shell.context Session.fuel s
  takeConsole

/-! ## Scripts -/

/-- Whether a line of a script does something: it is not empty and no comment. -/
def isActive (line : String) : Bool :=
  match line.toList with
  | [] => false
  | c :: _ => c != '#'

/-- The lines of a script that do something, without what is blank around them. -/
def scriptLines (source : String) : List String :=
  ((Text.linesText source).map Text.trimText).filter isActive

/-- Runs lines up to the first that fails or ends the session. -/
def runLines (shell : Shell) : List String → Run (Printed × Except Trouble Ending)
  | [] => return ({}, .ok .done)
  | line :: rest => do
    match ← shell.run line with
    | (p, .ok .done) =>
      let (q, ending) ← shell.runLines rest
      return (p ++ q, ending)
    | other => return other

/-- Runs a script. -/
def runScript (shell : Shell) (source : String) : Run (Printed × Except Trouble Ending) :=
  shell.runLines (scriptLines source)

/-- Pulls lines for their effects. -/
def drainLines (shell : Shell) : List String → Run Printed
  | [] => return {}
  | line :: rest => do
    let p ← shell.drain line
    return p ++ (← shell.drainLines rest)

/-- Pulls the lines of a script for their effects. -/
def drainScript (shell : Shell) (source : String) : Run Printed :=
  shell.drainLines (scriptLines source)

/-- Pulls the script in a file for its effects, if it can be read. -/
def startUp (shell : Shell) (path : String) : Run Printed := do
  let w ← get
  match w.files.readText "" path with
  | .ok source => shell.drainScript source
  | .error _ => return {}

end Shell

/-! ## Dialogues -/

/-- What the next line of a dialogue is. -/
inductive Turn where
  /-- A line to read. -/
  | line
  /-- An answer, after which the rest is printed. -/
  | answer (rest : Stream)
  /-- Nothing: the session has ended. -/
  | over (code : Int)

/-- A session that takes lines and answers from one input. -/
structure Dialogue where
  /-- What has been written. -/
  printed : Printed := {}
  /-- What the next line is. -/
  turn : Turn := .line

namespace Dialogue

/-- The dialogue after some more was printed. What could not be done is told, and the session goes
on. -/
def after (d : Dialogue) (p : Printed) : Progress → Dialogue
  | .ended (.exit code) => ⟨d.printed ++ p, .over code⟩
  | .ended _ => ⟨d.printed ++ p, .line⟩
  | .asks rest => ⟨d.printed ++ p, .answer rest⟩
  | .troubled t => ⟨d.printed ++ p ++ { err := t.brief }, .line⟩

/-- The dialogue after one more line of input. Blank lines are not read, but may answer. -/
def feed (shell : Shell) (d : Dialogue) (input : String) : Run Dialogue := do
  match d.turn with
  | .over _ => return d
  | .answer rest =>
    let (p, progress) ← shell.answer rest (some input)
    return d.after p progress
  | .line =>
    if Text.trimText input = "" then return d
    else
      let (p, progress) ← shell.start input
      return d.after p progress

/-- What is shown when a line of input is needed. -/
def prompt (settings : Settings) : Turn → String
  | .line => settings.prompt
  | .answer _ => Printer.question
  | .over _ => ""

/-- The dialogue after the prompt was shown. -/
def shown (settings : Settings) (d : Dialogue) : Dialogue :=
  { d with printed := d.printed ++ { out := prompt settings d.turn } }

/-- The dialogue after input has ended: an answer that does not come asks for no more. -/
def close (d : Dialogue) : Dialogue :=
  match d.turn with
  | .answer _ => { d with turn := .line }
  | _ => d

end Dialogue

end Rill
