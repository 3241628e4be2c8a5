import Rill.Eval
import Rill.Files.Place
import Rill.Mode

/-!
# Printing

The values of a stream become lines of text, in the way that the line asked for: all at once, one by
one with a question in between, the last few in place, or into a file. The first error ends printing
with one line of its own, but for a request to end the session, which says nothing.
-/

namespace Rill

/-- How printing ended. -/
inductive Ending where
  /-- The stream ended, or no more was asked for. -/
  | done
  /-- An error was printed. -/
  | failed
  /-- The session is to end. -/
  | exit (code : Int)
  deriving DecidableEq, Repr

/-- What kept a line from being printed. -/
structure Trouble where
  /-- What was tried. -/
  action : String
  /-- Why it did not work. -/
  cause : Option String
  deriving DecidableEq, Repr

namespace Trouble

/-- Both on one line, between two lines of a session. -/
def brief (t : Trouble) : String :=
  "error: " ++ t.action ++ ((t.cause.map (": " ++ ·)).getD "") ++ "\n"

/-- Both, with the cause by itself, when a run ends. -/
def full (t : Trouble) : String :=
  "Error: " ++ t.action ++ ((t.cause.map ("\n\nCaused by:\n    " ++ ·)).getD "") ++ "\n"

end Trouble

/-- What has been written, and where printing stands. -/
structure Printed where
  /-- What was written as output. -/
  out : String := ""
  /-- What was written as errors. -/
  err : String := ""
  /-- How often it was asked whether to go on. -/
  asked : Nat := 0
  deriving DecidableEq, Repr

/-- What was written first, and then what was written next. -/
instance : Append Printed := ⟨fun p q => ⟨p.out ++ q.out, p.err ++ q.err, p.asked + q.asked⟩⟩

/-- Where printing stands. -/
inductive Progress where
  /-- It has ended. -/
  | ended (ending : Ending)
  /-- It waits for an answer before it goes on with the rest. -/
  | asks (rest : Stream)
  /-- It could not go on. -/
  | troubled (trouble : Trouble)

namespace Printer

/-- The question between two values. -/
def question : String := "Next [Enter] "

/-- Moves up one row and erases it. -/
def eraseRow : String := "\x1b[A\x1b[K"

/-- What has been written, with one more value on a line of its own. -/
def line (p : Printed) (v : Value) : Printed := { p with out := p.out ++ v.render ++ "\n" }

/-- Ends printing with an error. -/
def fail (p : Printed) (e : Error) : Printed × Progress :=
  match e with
  | .exit code => (p, .ended (.exit code))
  | e =>
    ({ p with err := p.err ++ "error: " ++ e.name ++ ": " ++ e.message ++ "\n" }, .ended .failed)

/-- Prints every value. -/
def printAll (c : Calls) : Nat → Printed → Stream → Run (Printed × Progress)
  | 0, _, _ => Run.stuck
  | fuel + 1, p, s => do
    let (item, s) ← c.pull s
    match item with
    | none => return (p, .ended .done)
    | some (.error e) => return fail p e
    | some (.ok v) => printAll c fuel (line p v) s

/-! ## One by one -/

/-- Prints one value, and then waits for an answer. -/
def printOne (c : Calls) (p : Printed) (s : Stream) : Run (Printed × Progress) := do
  let (item, s) ← c.pull s
  match item with
  | none => return (p, .ended .done)
  | some (.error e) => return fail p e
  | some (.ok v) => return (line p v, .asks s)

/-- Goes on after an answer: a blank one asks for one more value, `:` for all, and anything else, or
none, for no more. -/
def answer (c : Calls) (fuel : Nat) (p : Printed) (s : Stream) (a : Option String) :
    Run (Printed × Progress) :=
  let p := { p with asked := p.asked + 1 }
  match a.map Text.trimText with
  | some "" => printOne c p s
  | some ":" => printAll c fuel p s
  | _ => return (p, .ended .done)

/-- Goes on until printing has ended, with the answers in order, and returns those left. When there
are no more, no more is asked for. -/
def answerAll (c : Calls) (fuel : Nat) :
    List String → Printed → Progress → Run (Printed × Except Trouble Ending × List String)
  | answers, p, .ended ending => return (p, .ok ending, answers)
  | answers, p, .troubled trouble => return (p, .error trouble, answers)
  | [], p, .asks _ => return ({ p with asked := p.asked + 1 }, .ok .done, [])
  | a :: rest, p, .asks s => do
    let (p, progress) ← answer c fuel p s (some a)
    answerAll c fuel rest p progress

/-! ## The last lines -/

/-- The lines on the screen after one more, of which at most `window` stay. -/
def scroll (window : Nat) (shown : List String) (line : String) : List String :=
  (if shown.length = window then shown.drop 1 else shown) ++ [line]

/-- The text that replaces so many rows by the lines. -/
def redraw (drawn : Nat) (shown : List String) : String :=
  String.join (List.replicate drawn eraseRow) ++ String.join (shown.map (· ++ "\n"))

/-- Keeps the last lines of all values on the screen. -/
def printWindow (c : Calls) (window : Nat) :
    Nat → Printed → List String → Stream → Run (Printed × Progress)
  | 0, _, _, _ => Run.stuck
  | fuel + 1, p, shown, s => do
    let (item, s) ← c.pull s
    match item with
    | none => return (p, .ended .done)
    | some (.error e) => return fail p e
    | some (.ok v) =>
      let next := (Text.linesText v.render).foldl (scroll window) shown
      printWindow c window fuel { p with out := p.out ++ redraw shown.length next } next s

/-! ## Into a file -/

/-- The world after some bytes were written to a file, if it has room for them. -/
def written (sink : Files.Sink) (bytes : List UInt8) (w : World) : Except Files.Failure World :=
  match sink with
  | .file key => .ok { w with files := w.files.append key bytes }
  | .device .full => if bytes.isEmpty then .ok w else .error .noSpace
  | .device .out => .ok { w with console := { w.console with out := w.console.out ++ bytes } }
  | .device .err => .ok { w with console := { w.console with err := w.console.err ++ bytes } }
  | .device _ => .ok w

/-- Adds the bytes of every value to a file. -/
def writeAll (c : Calls) (path : String) (sink : Files.Sink) :
    Nat → Printed → Stream → Run (Printed × Progress)
  | 0, _, _ => Run.stuck
  | fuel + 1, p, s => do
    let (item, s) ← c.pull s
    match item with
    | none => return (p, .ended .done)
    | some (.error e) => return fail p e
    | some (.ok v) =>
      match written sink v.toBytes (← get) with
      | .error e => return (p, .troubled ⟨"Failed to write " ++ path, some e.message⟩)
      | .ok w =>
        set w
        writeAll c path sink fuel p s

/-- Writes every value to a new file. -/
def writeFile (c : Calls) (fuel : Nat) (path : String) (p : Printed) (s : Stream) :
    Run (Printed × Progress) := do
  let w ← get
  match w.files.create path with
  | .error e => return (p, .troubled ⟨"Failed to create " ++ path, some e.message⟩)
  | .ok (sink, files) =>
    set { w with files := files }
    writeAll c path sink fuel p s

/-! ## All modes -/

/-- Prints a stream until it has ended or an answer is needed. Without paging nothing is asked. -/
def start (c : Calls) (fuel : Nat) (paging : Bool) (s : Stream) (mode : Mode) :
    Run (Printed × Progress) :=
  match mode with
  | .pull full => if full || !paging then printAll c fuel {} s else printOne c {} s
  | .window n => printWindow c (max 1 (min n Mode.maxWindow)) fuel {} [] s
  | .write name => writeFile c fuel name {} s

/-- Prints a stream with the answers in order, and returns those left. -/
def print (c : Calls) (fuel : Nat) (paging : Bool) (s : Stream) (mode : Mode)
    (answers : List String) : Run (Printed × Except Trouble Ending × List String) := do
  let (p, progress) ← start c fuel paging s mode
  answerAll c fuel answers p progress

end Printer

end Rill
