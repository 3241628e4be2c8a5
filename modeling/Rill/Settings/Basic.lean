import Rill.Settings.Toml
import Rill.World

/-!
# Settings

What a session can be told in its settings file: the prompt, whether programs run on a terminal, how
much of their output is read at once, and whether lines are remembered. A setting that is missing
has its default.
-/

namespace Rill

/-- The settings of a session. -/
structure Settings where
  /-- What is shown before a line is typed. -/
  prompt : String := "stream-shell v" ++ Environment.version ++ " 🚀> "
  /-- Whether programs run on a terminal. -/
  terminal : Bool := false
  /-- How many bytes of a program's output are read at once. -/
  chunk : Nat := 4096
  /-- Whether lines are remembered. -/
  history : Bool := true
  deriving DecidableEq, Repr

namespace Settings

/-- A setting that is a text. -/
def stringSetting (key : String) (default : String) (entries : Sorted Toml) : Option String :=
  match Sorted.find? key entries with
  | none => some default
  | some (.string s) => some s
  | some _ => none

/-- A setting that is a truth value. -/
def boolSetting (key : String) (default : Bool) (entries : Sorted Toml) : Option Bool :=
  match Sorted.find? key entries with
  | none => some default
  | some (.boolean b) => some b
  | some _ => none

/-- A setting that is a natural number. -/
def natSetting (key : String) (default : Nat) (entries : Sorted Toml) : Option Nat :=
  match Sorted.find? key entries with
  | none => some default
  | some (.integer n) => if 0 ≤ n then some n.toNat else none
  | some _ => none

/-- The settings of a text, unless one of them is of the wrong kind. Keys that name no setting say
nothing. -/
def read (text : String) : Option Settings := do
  let entries ← Toml.read text
  let d : Settings := {}
  let prompt ← stringSetting "prompt" d.prompt entries
  let terminal ← boolSetting "pty" d.terminal entries
  let chunk ← natSetting "read_chunk_size" d.chunk entries
  let history ← boolSetting "history" d.history entries
  return ⟨prompt, terminal, chunk, history⟩

/-- The least number of bytes that are read at once is one. -/
def chunkSize (s : Settings) : Nat := max 1 s.chunk

/-- The settings of a file, with what was tried and did not work. -/
def load (name : String) (text : Option String) : Except String Settings :=
  match text with
  | none => .error ("Failed to read config from " ++ name)
  | some text =>
    match read text with
    | some s => .ok s
    | none => .error ("Failed to parse config from " ++ name)

end Settings

end Rill
