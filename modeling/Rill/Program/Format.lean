import Rill.Program.Directive
import Rill.Program.Quoting

/-!
# Formats

A format is copied with its backslash escapes replaced, and each directive takes the next argument.
The format is used again as long as arguments are left and the last use took some. There are two
dialects of formats: that of the program `printf`, and that of the command of the same name in
scripts.
-/

namespace Rill.Program

open Rill.Text (Octets)
open Rill.Number (Precision)

/-- Where a use of a format stands. -/
structure Formatting where
  /-- What has been written. -/
  out : Octets := []
  /-- What is to be said about errors. -/
  notes : List Octets := []
  /-- The arguments that are left. -/
  args : List Octets
  /-- Whether something went wrong. -/
  failed : Bool := false
  /-- The status, if nothing more is to be written. -/
  ending : Option Nat := none
  deriving Repr

/-- A step in the use of a format. -/
abbrev Formatter := StateM Formatting

namespace Formatter

/-- Writes something. -/
def write (cs : Octets) : Formatter Unit := modify fun f => { f with out := f.out ++ cs }

/-- Says something. -/
def note (cs : Octets) : Formatter Unit := modify fun f => { f with notes := f.notes ++ [cs] }

/-- Says what went wrong. -/
def complain (cs : Octets) : Formatter Unit := do
  note cs
  modify fun f => { f with failed := true }

/-- Ends everything with a status. -/
def stop (status : Nat) : Formatter Unit := modify fun f => { f with ending := some status }

/-- Takes the next argument, if there is one. -/
def next? : Formatter (Option Octets) := do
  let f ← get
  set { f with args := f.args.drop 1 }
  return f.args.head?

/-- Whether nothing more is to be written. -/
def stopped : Formatter Bool := return (← get).ending.isSome

end Formatter

open Formatter

/-! ## The program -/

/-- Whether the variables ask for texts in UTF-8: the first of those that say so does. -/
def usesUtf8 (vars : Sorted String) : Bool :=
  let named := ["LC_ALL", "LC_CTYPE", "LANG"].filterMap fun n => Sorted.find? n vars
  ((named.filter (· ≠ "")).head?.map fun v =>
    ["C.UTF-8", "C.utf8"].contains v).getD false

/-- A code point: in UTF-8 itself, and otherwise by its number unless it is in ASCII. -/
def codePointOctets (utf8 : Bool) (n : Nat) : Octets :=
  if n < 0x80 then [Char.ofNat n]
  else if utf8 && n.isValidChar then Text.Octets.ofText (String.singleton (Char.ofNat n))
  else
    let ds := (if n < 0x10000 then Number.paddedDigits 16 4 n else Number.paddedDigits 16 8 n)
    '\\' :: (if n < 0x10000 then 'u' else 'U') :: ds.map Char.toUpper

/-- The byte of an escape by letter. -/
def escapeByte? (c : Char) : Option Char :=
  match c with
  | 'a' => some '\x07'
  | 'b' => some '\x08'
  | 'e' => some '\x1b'
  | 'f' => some '\x0c'
  | 'n' => some '\n'
  | 'r' => some '\r'
  | 't' => some '\t'
  | 'v' => some '\x0b'
  | '\\' => some '\\'
  | '"' => some '"'
  | _ => none

/-- The byte of a code. -/
def byteOf (n : Nat) : Char := Char.ofNat (n % 256)

/-- An escape by code point. -/
def unicodeEscape (utf8 : Bool) (letter : Char) (count : Nat) (cs : Octets) : Formatter Octets := do
  let (n, rest) := takeDigits Json.hexDigit? 16 count 0 cs
  if rest.length + count ≠ cs.length then
    note "missing hexadecimal number in escape".toList
    stop 1
  else if 0xd800 ≤ n ∧ n ≤ 0xdfff then
    note ("invalid universal character name \\".toList ++ letter :: Number.paddedDigits 16 count n)
    stop 1
  else write (codePointOctets utf8 n)
  return rest

/-- An escape, after the backslash, and what is left. In an argument an octal code may have a zero
before its digits. -/
def escape (utf8 inArgument : Bool) (cs : Octets) : Formatter Octets := do
  match cs with
  | [] => write ['\\']; return []
  | 'c' :: cs => stop 0; return cs
  | 'x' :: cs =>
    let (n, rest) := takeDigits Json.hexDigit? 16 2 0 cs
    if rest.length = cs.length then
      note "missing hexadecimal number in escape".toList
      stop 1
    else write [byteOf n]
    return rest
  | 'u' :: cs => unicodeEscape utf8 'u' 4 cs
  | 'U' :: cs => unicodeEscape utf8 'U' 8 cs
  | c :: cs =>
    if (octalDigit? c).isSome then
      let ds := if inArgument && c == '0' then cs else c :: cs
      let (n, rest) := takeDigits octalDigit? 8 3 0 ds
      write [byteOf n]
      return rest
    else
      match escapeByte? c with
      | some b => write [b]
      | none => write ['\\', c]
      return cs

/-- Writes an argument with its escapes replaced. -/
def writeEscaped (utf8 : Bool) : Nat → Octets → Formatter Unit
  | 0, _ => return ()
  | _ + 1, [] => return ()
  | fuel + 1, '\\' :: cs => do
    let rest ← escape utf8 true cs
    if ← stopped then return () else writeEscaped utf8 fuel rest
  | fuel + 1, c :: cs => do
    write [c]
    writeEscaped utf8 fuel cs

/-- Says what is wrong with a number. -/
def reportFaults (cs : Octets) (f : Faults) : Formatter Unit :=
  if f.range then complain (shownArgument cs ++ ": Numerical result out of range".toList)
  else if f.missing then complain (shownArgument cs ++ ": expected a numeric value".toList)
  else if f.more then complain (shownArgument cs ++ ": value not completely converted".toList)
  else return ()

/-- The code of the character after a quote, if an argument is one. -/
def quotedCode? (utf8 : Bool) (cs : Octets) : Option (Nat × Octets) :=
  match cs with
  | '"' :: c :: rest | '\'' :: c :: rest =>
    if utf8 && !rest.isEmpty then
      match Text.Utf8.front (Text.Octets.toBytes (c :: rest)) with
      | .char d size => some (d.toNat, (c :: rest).drop size)
      | _ => some (c.toNat, rest)
    else some (c.toNat, rest)
  | _ => none

/-- The number of an argument: the code of a quoted character, or what `read` makes of it. -/
def numberOf {α : Type} (utf8 : Bool) (ofCode : Nat → α) (read : Octets → α × Faults)
    (cs : Octets) : Formatter α := do
  match quotedCode? utf8 cs with
  | some (n, rest) =>
    if rest ≠ [] then
      note ("warning: ".toList ++ rest ++
        ": character(s) following character constant have been ignored".toList)
    return ofCode n
  | none =>
    let (v, faults) := read cs
    reportFaults cs faults
    return v

/-- A directive up to its letter: what it says, the letters it cannot stand before, and the rest. -/
structure Specification where
  /-- What it says. -/
  directive : Directive := {}
  /-- The letters it cannot stand before. -/
  banned : List Char := []
  /-- What follows. -/
  rest : Octets

/-- The flags of a directive. -/
def Specification.flags (s : Specification) : Nat → Specification
  | 0 => s
  | fuel + 1 =>
    match s.rest with
    | '\'' :: cs | 'I' :: cs =>
      flags { s with banned := s.banned ++ "aAceEosxX".toList, rest := cs } fuel
    | '#' :: cs =>
      flags { directive := { s.directive with alternate := true }
              banned := s.banned ++ "cdisu".toList, rest := cs } fuel
    | '0' :: cs =>
      flags { directive := { s.directive with zero := true }
              banned := s.banned ++ "cs".toList, rest := cs } fuel
    | c :: cs =>
      if c = '-' || c = '+' || c = ' ' then
        flags { s with directive := (takeFlags s.directive [c]).1, rest := cs } fuel
      else s
    | [] => s

/-- The greatest width. -/
def maxWidth : Int := 0x7fffffff

/-- A number that `*` takes from the arguments. -/
def starred (utf8 : Bool) (what : String) : Formatter Int := do
  match ← next? with
  | none => return 0
  | some cs =>
    let n ← numberOf utf8 Int.ofNat readSigned cs
    if maxWidth < n ∨ (what = "field width" ∧ n < -maxWidth - 1) then
      note ("invalid ".toList ++ what.toList ++ ": ".toList ++ shownArgument cs)
      stop 1
    return n

/-- The width of a directive. -/
def Specification.width (utf8 : Bool) (s : Specification) : Formatter Specification := do
  match s.rest with
  | '*' :: cs => return { s with directive := s.directive.withWidth (← starred utf8 "field width")
                                 rest := cs }
  | cs =>
    let (n, rest) := takeDigits Json.digit? 10 cs.length 0 cs
    return { s with directive := { s.directive with width := n }, rest := rest }

/-- The precision of a directive. -/
def Specification.precision (utf8 : Bool) (s : Specification) : Formatter Specification := do
  match s.rest with
  | '.' :: '*' :: cs =>
    return { directive := s.directive.withPrecision (← starred utf8 "precision")
             banned := 'c' :: s.banned, rest := cs }
  | '.' :: cs =>
    let (n, rest) := takeDigits Json.digit? 10 cs.length 0 cs
    return { directive := { s.directive with precision := some n }, banned := 'c' :: s.banned
             rest := rest }
  | _ => return s

/-- Whether a byte says how long a number is, which makes no difference. -/
def isLengthMark (c : Char) : Bool := ['l', 'L', 'h', 'j', 't', 'z'].contains c

/-- Writes an argument as a directive says. -/
def writeDirective (utf8 : Bool) (d : Directive) (letter : Char) (arg : Octets) :
    Formatter Unit := do
  match letter with
  | 's' => write (d.text arg)
  | 'c' => write (d.pad [arg.head?.getD '\x00'])
  | 'd' | 'i' => write (d.signed (← numberOf utf8 Int.ofNat readSigned arg))
  | 'o' | 'u' | 'x' | 'X' => write (d.unsigned letter (← numberOf utf8 id readUnsigned arg))
  | _ =>
    let x ← numberOf utf8 (fun n => .finite false n 0) (readReal .extended) arg
    write (d.real .extended letter x)

/-- One directive after its `%`, and what is left. -/
def useDirective (utf8 : Bool) (cs : Octets) : Formatter Octets := do
  match cs with
  | '%' :: cs => write ['%']; return cs
  | 'b' :: cs =>
    let arg ← next?
    writeEscaped utf8 ((arg.getD []).length + 1) (arg.getD [])
    return cs
  | 'q' :: cs =>
    let arg ← next?
    write ((arg.map shellQuoted).getD [])
    return cs
  | cs =>
    let s ← (Specification.flags { rest := cs } cs.length).width utf8
    if ← stopped then return []
    let s ← s.precision utf8
    if ← stopped then return []
    match s.rest.dropWhile isLengthMark with
    | letter :: rest =>
      if "aAcdeEfFgGiosuxX".toList.contains letter && !s.banned.contains letter then
        writeDirective utf8 s.directive letter ((← next?).getD [])
        return rest
      else
        note ('%' :: cs.take (cs.length - rest.length) ++
          ": invalid conversion specification".toList)
        stop 1
        return []
    | [] =>
      note ('%' :: cs ++ ": invalid conversion specification".toList)
      stop 1
      return []

/-- One use of a format. -/
def useFormat (utf8 : Bool) : Nat → Octets → Formatter Unit
  | 0, _ => return ()
  | _ + 1, [] => return ()
  | fuel + 1, c :: cs => do
    let rest ←
      if c = '%' then useDirective utf8 cs
      else if c = '\\' then escape utf8 false cs
      else do write [c]; pure cs
    if ← stopped then return () else useFormat utf8 fuel rest

/-- Uses of a format until no argument is left, or one takes none. -/
def useFormats (once : Formatter Unit) : Nat → Formatter Unit
  | 0 => return ()
  | fuel + 1 => do
    let before := (← get).args.length
    once
    let after := (← get).args.length
    if (← stopped) || after = 0 || after = before then return () else useFormats once fuel

/-- Uses a format on some arguments. -/
def runFormat (once : Octets → Formatter Unit) (format : Octets) (args : List Octets) :
    Formatting :=
  ((useFormats (once format) (args.length + 1)).run { args := args }).2

/-- Writes the arguments of the program as the first of them says. -/
def formatted (vars : Sorted String) (format : Octets) (args : List Octets) : Formatting :=
  let utf8 := usesUtf8 vars
  let f := runFormat (fun cs => useFormat utf8 (cs.length + 1) cs) format args
  match f.ending, f.args with
  | none, arg :: _ =>
    { f with notes := f.notes ++
        ["warning: ignoring excess arguments, starting with ".toList ++ shownArgument arg] }
  | _, _ => f

/-- The status that a use of a format leaves. -/
def Formatting.status (f : Formatting) : Nat := f.ending.getD (if f.failed then 1 else 0)

/-! ## The command -/

/-- An escape, after the backslash: its byte, and what is left. One that is not known stands for the
backslash. -/
def plainEscape (cs : Octets) : Char × Octets :=
  match cs with
  | [] => ('\\', [])
  | c :: rest =>
    if (octalDigit? c).isSome then
      let (n, rest) := takeDigits octalDigit? 8 3 0 cs
      (byteOf n, rest)
    else if c = '"' then ('\\', cs)
    else
      match escapeByte? c with
      | some b => (b, rest)
      | none => ('\\', cs)

/-- An argument with its escapes replaced, and whether output ends with it. -/
def plainUnescaped : Nat → Octets → Octets × Bool
  | 0, _ => ([], false)
  | _ + 1, [] => ([], false)
  | _ + 1, '\\' :: 'c' :: _ => ([], true)
  | fuel + 1, '\\' :: cs =>
    let ds :=
      match cs with
      | '0' :: d :: rest => if (octalDigit? d).isSome then d :: rest else cs
      | _ => cs
    let (b, rest) := plainEscape ds
    let (more, ends) := plainUnescaped fuel rest
    (b :: more, ends)
  | fuel + 1, c :: cs =>
    let (more, ends) := plainUnescaped fuel cs
    (c :: more, ends)

/-- The number of an argument of the command. -/
def plainNumberOf {α : Type} (ofCode : Nat → α) (read : Octets → α × Faults) (arg : Option Octets) :
    Formatter α := do
  match arg with
  | some ('"' :: rest) | some ('\'' :: rest) => return ofCode ((rest.head?.map Char.toNat).getD 0)
  | arg =>
    let cs := arg.getD []
    let (v, f) := read cs
    if f.missing then complain (cs ++ ": expected numeric value".toList)
    else if f.more then complain (cs ++ ": not completely converted".toList)
    else if f.range then complain (cs ++ ": Numerical result out of range".toList)
    return v

/-- The width or the precision of a directive of the command. -/
def plainCount (cs : Octets) : Formatter (Int × Octets) := do
  match cs with
  | '*' :: rest => return (← plainNumberOf Int.ofNat readSigned (← next?), rest)
  | cs =>
    let (n, rest) := takeDigits Json.digit? 10 cs.length 0 cs
    return (n, rest.dropWhile fun c => c == '*' || c.isDigit)

/-- Writes an argument as a directive of the command says. Nothing if there is no such letter. -/
def writePlain? (d : Directive) (letter : Char) : Formatter Bool := do
  match letter with
  | 'b' =>
    let arg := (← next?).getD []
    let (cs, ends) := plainUnescaped (arg.length + 1) arg
    write (d.text cs)
    if ends then stop (← get <&> fun f => if f.failed then 1 else 0)
    return true
  | 's' => write (d.text ((← next?).getD [])); return true
  | 'c' => write (d.pad [((← next?).getD []).head?.getD '\x00']); return true
  | 'd' | 'i' =>
    write (d.signed (← plainNumberOf Int.ofNat readSigned (← next?)))
    return true
  | 'o' | 'u' | 'x' | 'X' =>
    write (d.unsigned letter (← plainNumberOf id readUnsigned (← next?)))
    return true
  | letter =>
    if "aAeEfFgG".toList.contains letter then
      let x ← plainNumberOf (fun n => .finite false n 0) (readReal .double) (← next?)
      write (d.real .double letter x)
      return true
    else return false

/-- One directive of the command after its `%`, and what is left. -/
def usePlainDirective (cs : Octets) : Formatter Octets := do
  match cs with
  | '%' :: cs => write ['%']; return cs
  | cs =>
    let (d, after) := takeFlags {} cs
    let (width, after) ← plainCount after
    let d := d.withWidth width
    let (d, after) ← match after with
      | '.' :: more =>
        let (n, more) ← plainCount more
        pure (d.withPrecision n, more)
      | more => pure (d, more)
    match after with
    | [] =>
      note "missing format character".toList
      stop 2
      return []
    | letter :: rest =>
      if ← writePlain? d letter then return rest
      else
        note ('%' :: cs.take (cs.length - rest.length) ++ ": invalid directive".toList)
        stop 2
        return []

/-- One use of a format of the command. -/
def usePlainFormat : Nat → Octets → Formatter Unit
  | 0, _ => return ()
  | _ + 1, [] => return ()
  | fuel + 1, c :: cs => do
    let rest ←
      if c = '%' then usePlainDirective cs
      else if c = '\\' then do
        let (b, rest) := plainEscape cs
        write [b]
        pure rest
      else do write [c]; pure cs
    if ← stopped then return () else usePlainFormat fuel rest

/-- Writes the arguments of the command as a format says. -/
def plainFormatted (format : Octets) (args : List Octets) : Formatting :=
  runFormat (fun cs => usePlainFormat (cs.length + 1) cs) format args

end Rill.Program
