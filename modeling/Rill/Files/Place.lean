import Rill.Files.Tree

/-!
# Paths

A path is walked from the root or from the working directory, one component after the other, and
every component but the last has to be a directory. `target` says what a path leads to, `create` and
`readBytes` what happens to it when it is written or read, and `program?` whether it can be run.
-/

namespace Rill.Files

/-- Why a file cannot be opened, read or written. -/
inductive Failure where
  | notFound | noDevice | notDirectory | isDirectory | noSpace | readOnly | nameTooLong | zeroInName
  | notText
  deriving DecidableEq, Repr

/-- The wording of a failure by itself. -/
def Failure.text : Failure → String
  | .notFound => "No such file or directory"
  | .noDevice => "No such device or address"
  | .notDirectory => "Not a directory"
  | .isDirectory => "Is a directory"
  | .noSpace => "No space left on device"
  | .readOnly => "Read-only file system"
  | .nameTooLong => "File name too long"
  | .zeroInName => "file name contained an unexpected NUL byte"
  | .notText => "stream did not contain valid UTF-8"

/-- The number that the system has for a failure, if it is one of the system's. -/
def Failure.number? : Failure → Option String
  | .notFound => some "2"
  | .noDevice => some "6"
  | .notDirectory => some "20"
  | .isDirectory => some "21"
  | .noSpace => some "28"
  | .readOnly => some "30"
  | .nameTooLong => some "36"
  | .zeroInName | .notText => none

/-- The wording of a failure. -/
def Failure.message (f : Failure) : String :=
  match f.number? with
  | some n => f.text ++ " (os error " ++ n ++ ")"
  | none => f.text

/-! ## Walking -/

/-- The most bytes of a name. -/
def maxName : Nat := 255

/-- The least number of bytes that is too many for a path. -/
def pathLimit : Nat := 4096

/-- Whether a name has too many bytes. -/
def isLong (name : String) : Bool := maxName < name.utf8ByteSize

/-- The directory that a component leads to. -/
def enter (files : Files) (dir : List String) (component : String) :
    Except Failure (List String) :=
  if component = "." then .ok dir
  else if component = ".." then .ok dir.dropLast
  else if isLong component then .error .nameTooLong
  else
    match entry? files dir component with
    | none => .error .notFound
    | some .directory => .ok (dir ++ [component])
    | some (.link target) => .ok target
    | some _ => .error .notDirectory

/-- What a path leads to. -/
inductive Target where
  /-- A directory. -/
  | directory
  /-- A name in a directory, and whether a slash follows it. -/
  | name (dir : List String) (last : String) (slash : Bool)
  deriving DecidableEq, Repr

/-- What a path leads to, before its last component is looked up. -/
def target (files : Files) (path : String) : Except Failure Target := do
  if path.toList.contains '\x00' then throw .zeroInName
  if path = "" then throw .notFound
  if pathLimit ≤ path.utf8ByteSize then throw .nameTooLong
  let start := if path.toList.head? = some '/' then [] else workingDirectory
  let components := (Text.piecesText '/' path).filter (· ≠ "")
  let dir ← components.dropLast.foldlM (enter files) start
  match components.getLast? with
  | none => return .directory
  | some last =>
    if last = "." ∨ last = ".." then return .directory
    else return .name dir last (path.toList.getLast? = some '/')

/-- What stands at a place, behind a link too. -/
def found? (files : Files) (dir : List String) (name : String) : Option Entry :=
  match entry? files dir name with
  | some (.link target) => system? target
  | e => e

/-! ## Writing -/

/-- A file that is open for writing. -/
inductive Sink where
  /-- One that is kept under a name. -/
  | file (key : String)
  /-- A device. -/
  | device (d : Device)
  deriving DecidableEq, Repr

/-- A new file under a name in a directory. Some directories take none. -/
def newFile (dir : List String) (name : String) : Except Failure Sink :=
  match dir with
  | "proc" :: _ => .error .notFound
  | "sys" :: _ => .error .readOnly
  | dir => .ok (.file (key dir name))

/-- The file that a path opens for writing. -/
def sink (files : Files) (path : String) : Except Failure Sink := do
  match ← target files path with
  | .directory => throw .isDirectory
  | .name dir name slash =>
    if slash then throw .isDirectory
    if isLong name then throw .nameTooLong
    match found? files dir name with
    | none => newFile dir name
    | some (.file key) => return .file key
    | some (.program _) => return .file (key dir name)
    | some (.device .terminal) => throw .noDevice
    | some (.device d) => return .device d
    | some _ => throw .isDirectory

/-- The files with a new, empty one at a path, and where it is written. -/
def create (files : Files) (path : String) : Except Failure (Sink × Files) := do
  match ← sink files path with
  | .file key => return (.file key, Sorted.insert key [] files)
  | .device d => return (.device d, files)

/-- The files with some bytes added to one. -/
def append (files : Files) (key : String) (bytes : List UInt8) : Files :=
  Sorted.insert key ((Sorted.find? key files).getD [] ++ bytes) files

/-! ## Reading -/

/-- What a path opens for reading. -/
def source (files : Files) (path : String) : Except Failure Entry := do
  match ← target files path with
  | .directory => throw .isDirectory
  | .name dir name slash =>
    if isLong name then throw .nameTooLong
    match found? files dir name with
    | none => throw .notFound
    | some .directory => throw .isDirectory
    | some e => if slash then throw .notDirectory else return e

/-- The bytes that a program begins with; they are no text. -/
def programBytes : List UInt8 := [0x7f, 0x45, 0x4c, 0x46, 0x02, 0x01, 0x01, 0x00, 0xff]

/-- The bytes at a path, if the input of the process has these. -/
def readBytes (files : Files) (input : List UInt8) (path : String) :
    Except Failure (List UInt8) := do
  match ← source files path with
  | .file key => return (Sorted.find? key files).getD []
  | .program _ => return programBytes
  | .device .input => return input
  | .device .terminal => throw .noDevice
  | _ => return []

/-- The text at a path, if the input of the process is this. -/
def readText (files : Files) (input : String) (path : String) : Except Failure String := do
  let bytes ← readBytes files (Text.Utf8.encode input) path
  match Text.Utf8.strict? bytes with
  | some text => return text
  | none => throw .notText

/-! ## Running -/

/-- The program at a path. -/
def program? (files : Files) (path : String) : Option Program :=
  match source files path with
  | .ok (.program p) => some p
  | _ => none

/-- A name in a directory. -/
def join (dir name : String) : String :=
  if dir.toList.getLast? = some '/' then dir ++ name else dir ++ "/" ++ name

/-- The path and the program that a command word names. A word with a slash is a path; any other is
looked for in the directories of `searchPath`, which are divided by colons. -/
def resolve? (name : String) (searchPath : Option String) : Option (String × Program) :=
  if name = "" then none
  else if name.toList.contains '/' then (program? [] name).map fun p => (name, p)
  else
    match searchPath with
    | none => none
    | some dirs =>
      ((Text.piecesText ':' dirs).filter (· ≠ "")).findSome? fun dir =>
        (program? [] (join dir name)).map fun p => (join dir name, p)

/-- The files of the working directory itself. -/
def listed (files : Files) : Files := List.filter (fun e => !e.1.toList.contains '/') files

end Rill.Files
