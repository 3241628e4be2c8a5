import Rill.Program.Basic

/-!
# The system around the working directory

The directories, links, devices and programs that every system has. The working directory is one of
the temporary directories; it has a name that no path can spell.
-/

namespace Rill.Files

/-- A file that is no store of bytes. -/
inductive Device where
  /-- Takes everything and gives nothing. -/
  | null
  /-- Has no room for anything. -/
  | full
  /-- The output of the process. -/
  | out
  /-- The errors of the process. -/
  | err
  /-- The input of the process. -/
  | input
  /-- The terminal, of which there is none. -/
  | terminal
  deriving DecidableEq, Repr

/-- What stands at a place. -/
inductive Entry where
  /-- A directory. -/
  | directory
  /-- Another name for the place that is reached by this path from the root. -/
  | link (target : List String)
  /-- A program. -/
  | program (p : Program)
  /-- A device. -/
  | device (d : Device)
  /-- A file that is kept under this name. -/
  | file (key : String)
  deriving DecidableEq, Repr

/-- The place of the working directory. -/
def workingDirectory : List String := ["tmp", "."]

/-- The directories of the root. -/
def rootDirectories : List String :=
  ["boot", "dev", "etc", "home", "media", "mnt", "opt", "proc", "root", "run", "srv", "sys", "tmp",
    "usr", "var"]

/-- The directories of the directory `usr`, and of `usr/local`. -/
def userDirectories : List String :=
  ["bin", "etc", "games", "include", "lib", "libexec", "local", "sbin", "share", "src"]

/-- The directories of the directory `var`. -/
def variableDirectories : List String :=
  ["backups", "cache", "lib", "local", "log", "mail", "opt", "spool", "tmp"]

/-- What has an open file of the process as its number. -/
def openFile? (name : String) : Option Entry :=
  match name with
  | "0" => some (.device .input)
  | "1" => some (.device .out)
  | "2" => some (.device .err)
  | _ => none

/-- What the directory of devices holds. -/
def device? (name : String) : Option Entry :=
  match name with
  | "null" | "zero" | "random" | "urandom" => some (.device .null)
  | "full" => some (.device .full)
  | "stdin" => some (.device .input)
  | "stdout" => some (.device .out)
  | "stderr" => some (.device .err)
  | "tty" => some (.device .terminal)
  | "fd" => some (.link ["proc", "self", "fd"])
  | "mqueue" | "pts" | "shm" => some .directory
  | _ => none

/-- Whether a name is among some, as a directory. -/
def directoryIn (names : List String) (name : String) : Option Entry :=
  if name ∈ names then some .directory else none

/-- What the system has at a place. -/
def system? : List String → Option Entry
  | [] => some .directory
  | [name] =>
    if name ∈ ["bin", "lib", "lib64", "sbin"] then some (.link ["usr", name])
    else directoryIn rootDirectories name
  | ["dev", name] => device? name
  | ["proc", "self"] => some .directory
  | ["proc", "self", "fd"] => some .directory
  | ["proc", "self", "fd", name] => openFile? name
  | ["usr", "bin", name] => (Program.ofName? name).map .program
  | ["usr", "lib64"] => some .directory
  | ["usr", name] => directoryIn userDirectories name
  | ["usr", "local", name] => directoryIn userDirectories name
  | ["var", "run"] => some (.link ["run"])
  | ["var", "lock"] => some (.link ["run", "lock"])
  | ["run", "lock"] => some .directory
  | ["var", name] => directoryIn variableDirectories name
  | place => if place = workingDirectory then some .directory else none

/-- The name under which a file in a directory is kept. -/
def key (dir : List String) (name : String) : String :=
  if dir = workingDirectory then name
  else String.join ((dir ++ [name]).map ("/" ++ ·))

/-- What a directory holds under a name. -/
def entry? (files : Files) (dir : List String) (name : String) : Option Entry :=
  match system? (dir ++ [name]) with
  | some e => some e
  | none => if Sorted.has (key dir name) files then some (.file (key dir name)) else none

end Rill.Files
