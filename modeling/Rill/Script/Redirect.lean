import Rill.Script.Expansion

/-!
# Redirections

A redirection makes a descriptor of a command lead to a file, to a text, or to where another
descriptor leads.
-/

namespace Rill.Script

open Rill.Text (Octets)

/-- Why a file cannot be opened, with `missing` for one that is not there. -/
def openFailure (missing : String) (f : Files.Failure) : Octets :=
  match f with
  | .notFound | .notDirectory => missing.toList
  | f => f.text.toList

/-- Where a device leads when it is opened. -/
def deviceChannel (d : Files.Device) : Act Channel := do
  let fd? : Option Nat := match d with
    | .out => some 1
    | .err => some 2
    | .input => some 0
    | _ => none
  match fd? with
  | some fd => return (← Act.channel? fd).getD .null
  | none => return if d = .full then .full else .null

/-- Opens a file for reading. -/
def openSource (word : Octets) : Act (Except Octets Channel) := do
  let path ← Act.located word
  let files := (← get).files
  match files.source path with
  | .ok (.device .terminal) =>
    return .error ("cannot open ".toList ++ word ++ ": No such device or address".toList)
  | .ok (.device d) => return .ok (← deviceChannel d)
  | .ok _ =>
    match files.readBytes [] path with
    | .ok bytes => return .ok (.buffer (← Act.newBuffer (Text.Octets.ofBytes bytes)))
    | .error _ => return .ok .null
  | .error .isDirectory => return .ok .null
  | .error f =>
    return .error ("cannot open ".toList ++ word ++ ": ".toList ++ openFailure "No such file" f)

/-- Opens a file for writing, at its end or anew. -/
def openSink (atEnd : Bool) (word : Octets) : Act (Except Octets Channel) := do
  let path ← Act.located word
  let m ← get
  match m.files.sink path with
  | .ok (.device d) => return .ok (← deviceChannel d)
  | .ok (.file key) =>
    let files := if atEnd then m.files.append key [] else Sorted.insert key [] m.files
    set { m with files := files }
    return .ok (.file key)
  | .error f =>
    return .error ("cannot create ".toList ++ word ++ ": ".toList ++
      openFailure "Directory nonexistent" f)

/-- Does one redirection, or says what is wrong with it. -/
def redirectOne (substitute : Octets → Act Octets) (r : Redirection) :
    Act (Except Octets Unit) := do
  let lead (c : Except Octets Channel) : Act (Except Octets Unit) := do
    match c with
    | .ok c =>
      Act.redirect r.descriptor (some c)
      return .ok ()
    | .error note => return .error note
  match r.direction with
  | .read => lead (← openSource (← wordText substitute r.word))
  | .write => lead (← openSink false (← wordText substitute r.word))
  | .append => lead (← openSink true (← wordText substitute r.word))
  | .inline live =>
    let text ←
      if live then do
        pure (cellText (← cells substitute (2 * r.word.length + 2) .inline r.word))
      else pure r.word
    lead (.ok (.buffer (← Act.newBuffer text)))
  | .duplicate =>
    let word ← wordText substitute r.word
    if word = ['-'] then
      Act.redirect r.descriptor none
      return .ok ()
    else if !word.isEmpty && word.all Char.isDigit then
      match ← Act.channel? (digitsValue word) with
      | some c => lead (.ok c)
      | none => return .error (word ++ ": Bad file descriptor".toList)
    else return .error "Syntax error: Bad fd number".toList

/-- Does redirections in order, up to the first that is wrong. -/
def redirectAll (substitute : Octets → Act Octets) : List Redirection → Act (Except Octets Unit)
  | [] => return .ok ()
  | r :: rest => do
    match ← redirectOne substitute r with
    | .ok () => redirectAll substitute rest
    | .error note => return .error note

end Rill.Script
