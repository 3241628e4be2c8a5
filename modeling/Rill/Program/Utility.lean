import Rill.Program.Condition
import Rill.Program.Format
import Rill.Program.Options

/-!
# Small programs

Programs that do one thing each with their arguments, their input and the files: they write texts,
files or parts of them, count, or only end in a certain way.
-/

namespace Rill

open Rill.Text (Octets)

namespace Launch

/-- What a program does that writes something, says something about errors, and ends with a
status. -/
def finish (l : Launch) (out : Octets) (notes : List Octets) (code : Nat) : Execution :=
  { output := .finite (Text.Octets.toBytes out)
    errors := Text.Octets.toBytes (notes.flatMap fun n => l.name ++ ':' :: ' ' :: (n ++ ['\n']))
    status := .exited code
    files := l.files }

/-- What a program does that is called wrongly. -/
def misuse (l : Launch) (note : Octets) : Execution :=
  let e := l.finish [] [note] 1
  let hint := "Try '".toList ++ l.name ++ " --help' for more information.\n".toList
  { e with errors := e.errors ++ Text.Octets.toBytes hint }

/-- Runs a program that knows some options. -/
def withOptions (l : Launch) (set : Program.OptionSet) (act : Program.Parsed → Execution) :
    Execution :=
  match Program.parseOptions set (l.args.length + 1) l.args with
  | .error note => l.misuse note
  | .ok p => if p.has Program.informLetter then l.finish [] [] 0 else act p

/-- The bytes of a file that an operand names; a dash names the input. -/
def read (l : Launch) (operand : Octets) : Except Octets Octets :=
  if operand = ['-'] then .ok l.input
  else
    match l.files.readBytes (Text.Octets.toBytes l.input) (Text.Octets.toText operand) with
    | .ok bytes => .ok (Text.Octets.ofBytes bytes)
    | .error f => .error f.text.toList

/-- The bytes of some files, or of the input if none is named, and what is wrong with others. -/
def contents (l : Launch) (operands : List Octets) : List (Octets × Octets) × List Octets :=
  let operands := if operands.isEmpty then [['-']] else operands
  let results := operands.map fun o => (o, l.read o)
  (results.filterMap fun (o, r) => match r with | .ok cs => some (o, cs) | .error _ => none,
    results.filterMap fun (o, r) =>
      match r with | .ok _ => none | .error note => some (o ++ ':' :: ' ' :: note))

end Launch

namespace Program

/-- Texts with something between them. -/
def joined (sep : Octets) (texts : List Octets) : Octets := sep.intercalate texts

/-! ## Texts -/

/-- Writes its arguments until it is stopped. -/
def runYes (l : Launch) : Execution :=
  l.withOptions {} fun p =>
    let line := if p.operands.isEmpty then ['y'] else joined [' '] p.operands
    { output := .endless [] (Text.Octets.toBytes (line ++ ['\n'])), status := .killed 13
      files := l.files }

/-- The options in front of a text that is written: whether the line ends, whether escapes are
replaced, and the text. -/
def echoOptions : Bool → Bool → List Octets → Bool × Bool × List Octets
  | ends, escapes, ('-' :: c :: cs) :: args =>
    if (c :: cs).all fun c => c == 'n' || c == 'e' || c == 'E' then
      let escapes := ((c :: cs).filter (· != 'n')).getLast?.map (· == 'e') |>.getD escapes
      echoOptions (ends && !(c :: cs).contains 'n') escapes args
    else (ends, escapes, ('-' :: c :: cs) :: args)
  | ends, escapes, args => (ends, escapes, args)

/-- A text with its escapes replaced, and whether output ends with it. -/
def echoUnescaped : Nat → Octets → Octets × Bool
  | 0, _ => ([], false)
  | _ + 1, [] => ([], false)
  | fuel + 1, '\\' :: c :: cs =>
    let (bytes, rest) : Octets × Octets :=
      if c = 'x' && startsWith Json.hexDigit? cs then
        let (n, rest) := takeDigits Json.hexDigit? 16 2 0 cs
        ([byteOf n], rest)
      else if (octalDigit? c).isSome then
        let (n, rest) := takeDigits octalDigit? 8 3 0 (if c = '0' then cs else c :: cs)
        ([byteOf n], rest)
      else
        match if c = '"' then none else escapeByte? c with
        | some b => ([b], cs)
        | none => (['\\', c], cs)
    if c = 'c' then ([], true)
    else
      let (more, ends) := echoUnescaped fuel rest
      (bytes ++ more, ends)
  | fuel + 1, c :: cs =>
    let (more, ends) := echoUnescaped fuel cs
    (c :: more, ends)

/-- Writes its arguments. -/
def runEcho (l : Launch) : Execution :=
  let (ends, escapes, args) := echoOptions true false l.args
  let text := joined [' '] args
  let (text, stopped) := if escapes then echoUnescaped (text.length + 1) text else (text, false)
  l.finish (if ends && !stopped then text ++ ['\n'] else text) [] 0

/-- Writes its arguments as the first of them says. -/
def runPrintf (l : Launch) : Execution :=
  let args := match l.args with | ['-', '-'] :: args => args | args => args
  match args with
  | [] => l.misuse "missing operand".toList
  | format :: args =>
    let f := formatted l.vars format args
    l.finish f.out f.notes f.status

/-! ## Files -/

/-- How lines are shown. -/
structure LineView where
  /-- Lines have numbers. -/
  numbers : Bool
  /-- Empty lines have none. -/
  onlyFilled : Bool
  /-- One empty line stands for several. -/
  squeeze : Bool
  /-- The end of a line shows. -/
  ends : Bool
  /-- Tabs show. -/
  tabs : Bool
  /-- All bytes show. -/
  visible : Bool
  deriving Repr

/-- A byte as it is shown; `next` follows it. -/
def LineView.byte (v : LineView) (c : Char) (next : Option Char) : Octets :=
  if c = '\t' then if v.tabs then ['^', 'I'] else [c]
  else if c = '\r' && v.ends && next = some '\n' then ['^', 'M']
  else if !v.visible then [c]
  else
    let low := Char.ofNat (c.toNat % 128)
    let shown :=
      if low < ' ' then ['^', Char.ofNat (low.toNat + 64)]
      else if low = '\x7f' then ['^', '?'] else [low]
    if c.toNat < 128 then shown else 'M' :: '-' :: shown

/-- The number of a line before it. -/
def lineNumber (n : Nat) : Octets :=
  let ds := Nat.toDigits 10 n
  List.replicate (6 - ds.length) ' ' ++ ds ++ ['\t']

/-- Bytes as they are shown. `fresh` says that a line begins, `blanks` how many empty ones were
before it, and `n` how many have a number. -/
def LineView.show (v : LineView) : Bool → Nat → Nat → Octets → Octets
  | _, _, _, [] => []
  | fresh, blanks, n, '\n' :: cs =>
    if fresh && v.squeeze && 1 ≤ blanks then v.show true (blanks + 1) n cs
    else
      let numbered := fresh && v.numbers && !v.onlyFilled
      let mark := if numbered then lineNumber (n + 1) else []
      mark ++ (if v.ends then ['$', '\n'] else ['\n']) ++
        v.show true (if fresh then blanks + 1 else 0) (if numbered then n + 1 else n) cs
  | fresh, _, n, c :: cs =>
    let numbered := fresh && v.numbers
    (if numbered then lineNumber (n + 1) else []) ++ v.byte c cs.head? ++
      v.show false 0 (if numbered then n + 1 else n) cs

/-- The options for showing lines. -/
def lineOptions : OptionSet :=
  { plain := "AbeEnstTuv".toList
    long := [{ name := "number-nonblank", letter := 'b' }, { name := "number", letter := 'n' },
      { name := "squeeze-blank", letter := 's' }, { name := "show-nonprinting", letter := 'v' },
      { name := "show-ends", letter := 'E' }, { name := "show-tabs", letter := 'T' },
      { name := "show-all", letter := 'A' }] }

/-- Writes files. -/
def runCat (l : Launch) : Execution :=
  l.withOptions lineOptions fun p =>
    let has (letters : String) : Bool := letters.toList.any p.has
    let v : LineView :=
      { numbers := has "bn", onlyFilled := has "b", squeeze := has "s", ends := has "AeE"
        tabs := has "AtT", visible := has "Aetv" }
    let (contents, notes) := l.contents p.operands
    l.finish (v.show true 0 0 (contents.flatMap Prod.snd)) notes (if notes.isEmpty then 0 else 1)

/-- The lines of some bytes, each with what ends it. -/
def wholeLines : Octets → List Octets
  | [] => []
  | '\n' :: cs => ['\n'] :: wholeLines cs
  | c :: cs =>
    match wholeLines cs with
    | line :: rest => if c = '\n' then [c] :: line :: rest else (c :: line) :: rest
    | [] => [[c]]

/-- A number of lines or bytes: whether a sign stands before it, which, and the number. -/
def takeCount? (cs : Octets) : Option (Option Char × Nat) :=
  let (mark, ds) :=
    match cs with
    | '-' :: ds => (some '-', ds)
    | '+' :: ds => (some '+', ds)
    | ds => (none, ds)
  match takeDigits Json.digit? 10 ds.length 0 ds with
  | (n, []) => if ds.isEmpty then none else some (mark, n)
  | _ => none

/-- The old way to give a number of lines, as an option of its own. -/
def oldCount (args : List Octets) : List Octets :=
  match args with
  | ('-' :: c :: cs) :: rest =>
    if (c :: cs).all Char.isDigit then ['-', 'n'] :: (c :: cs) :: rest else args
  | args => args

/-- Writes a part of every file. `pick` takes it from the lines or the bytes. -/
def runPart (l : Launch) (pick : {α : Type} → Option Char → Nat → List α → List α) : Execution :=
  let l := { l with args := oldCount l.args }
  l.withOptions
    { plain := "qv".toList, valued := "nc".toList
      long := [{ name := "lines", valued := true, letter := 'n' },
        { name := "bytes", valued := true, letter := 'c' }] } fun p =>
    let given := (p.options.filter fun o => o.1 == 'n' || o.1 == 'c').getLast?
    let (byBytes, text) := (given.map fun o => (o.1 == 'c', o.2)).getD (false, ['1', '0'])
    match takeCount? text with
    | none =>
      l.finish [] ["invalid number of ".toList ++ (if byBytes then "bytes" else "lines").toList ++
        ": ".toList ++ shownArgument text] 1
    | some (mark, n) =>
      let (contents, notes) := l.contents p.operands
      let part (cs : Octets) : Octets :=
        if byBytes then pick mark n cs else (pick mark n (wholeLines cs)).flatten
      let titled := (2 ≤ p.operands.length || p.has 'v') && !p.has 'q'
      let texts := contents.map fun (o, cs) =>
        if titled then "==> ".toList ++ o ++ " <==\n".toList ++ part cs else part cs
      let notes := notes.map fun note => "cannot open '".toList ++
        note.takeWhile (· != ':') ++ "' for reading".toList ++ note.dropWhile (· != ':')
      l.finish (joined (if titled then ['\n'] else []) texts) notes (if notes.isEmpty then 0 else 1)

/-- Writes the first lines of files. -/
def runHead (l : Launch) : Execution :=
  runPart l fun mark n xs => if mark = some '-' then xs.take (xs.length - n) else xs.take n

/-- Writes the last lines of files. -/
def runTail (l : Launch) : Execution :=
  runPart l fun mark n xs => if mark = some '+' then xs.drop (n - 1) else xs.drop (xs.length - n)

/-- How many words some bytes have. -/
def wordCount (inWord : Bool) : Octets → Nat
  | [] => 0
  | c :: cs =>
    if isSpace c then wordCount false cs
    else (if inWord then 0 else 1) + wordCount true cs

/-- Counts the lines, words and bytes of files. -/
def runWc (l : Launch) : Execution :=
  l.withOptions
    { plain := "lwcm".toList
      long := [{ name := "lines", letter := 'l' }, { name := "words", letter := 'w' },
        { name := "bytes", letter := 'c' }, { name := "chars", letter := 'm' }] } fun p =>
    let all := p.options.isEmpty
    let (contents, notes) := l.contents p.operands
    let counts (cs : Octets) : List Nat :=
      (if all || p.has 'l' then [cs.count '\n'] else []) ++
        (if all || p.has 'w' then [wordCount false cs] else []) ++
        (if p.has 'm' then [cs.length] else []) ++ (if all || p.has 'c' then [cs.length] else [])
    let rows := contents.map fun (o, cs) => (counts cs, o)
    let total := rows.foldl (fun acc r => (acc.zip r.1).map fun (a, b) => a + b)
      (counts [])
    let size := (contents.map fun c => c.2.length).foldr (· + ·) 0
    let width :=
      if (counts []).length = 1 && p.operands.length ≤ 1 then 1
      else if p.operands.isEmpty || p.operands.contains ['-'] then 7
      else (Nat.toDigits 10 size).length
    let rows := if 2 ≤ p.operands.length then rows ++ [(total, "total".toList)] else rows
    let row (r : List Nat × Octets) : Octets :=
      joined [' '] (r.1.map fun n =>
        let ds := Nat.toDigits 10 n
        List.replicate (width - ds.length) ' ' ++ ds) ++
        (if p.operands.isEmpty then [] else ' ' :: r.2) ++ ['\n']
    l.finish (rows.flatMap row) notes (if notes.isEmpty then 0 else 1)

/-! ## Paths -/

/-- A path without slashes at its end. -/
def withoutSlashes (cs : Octets) : Octets := (cs.reverse.dropWhile (· == '/')).reverse

/-- The last component of a path. -/
def lastComponent (cs : Octets) : Octets :=
  match withoutSlashes cs with
  | [] => cs.take 1
  | path => (path.reverse.takeWhile (· != '/')).reverse

/-- A path without its last component. -/
def parentPath (cs : Octets) : Octets :=
  match withoutSlashes cs with
  | [] => if cs.isEmpty then ['.'] else ['/']
  | path =>
    if path.contains '/' then
      match withoutSlashes (path.reverse.dropWhile (· != '/')).reverse with
      | [] => ['/']
      | parent => parent
    else ['.']

/-- Writes the last component of a path, without a suffix if one is given. -/
def runBasename (l : Launch) : Execution :=
  l.withOptions {} fun p =>
    match p.operands with
    | [] => l.misuse "missing operand".toList
    | path :: rest =>
      let name := lastComponent path
      match rest with
      | _ :: extra :: _ => l.misuse ("extra operand ".toList ++ shownArgument extra)
      | [suffix] =>
        l.finish ((if suffix.isSuffixOf name && suffix ≠ name
          then name.take (name.length - suffix.length) else name) ++ ['\n']) [] 0
      | [] => l.finish (name ++ ['\n']) [] 0

/-- Writes paths without their last component. -/
def runDirname (l : Launch) : Execution :=
  l.withOptions {} fun p =>
    if p.operands.isEmpty then l.misuse "missing operand".toList
    else l.finish (p.operands.flatMap fun o => parentPath o ++ ['\n']) [] 0

/-! ## Numbers -/

/-- A decimal: all its digits as one number, and how many of them are places. -/
def takeDecimal? (cs : Octets) : Option (Int × Nat) :=
  let (negative, ds) := takeSign cs
  match takeScaled? Json.digit? 10 'e' ds with
  | some (n, places, 0, []) => some (if negative then -(n : Int) else n, places)
  | _ => none

/-- A decimal with more places. -/
def withPlaces (places : Nat) (x : Int × Nat) : Int := x.1 * Nat.pow 10 (places - x.2)

/-- The text of a decimal. -/
def decimalText (places : Nat) (n : Int) : Octets :=
  let ds := Number.paddedDigits 10 (places + 1) n.natAbs
  let whole := ds.take (ds.length - places)
  (if n < 0 then ['-'] else []) ++ whole ++ if places = 0 then [] else '.' :: ds.drop whole.length

/-- The numbers from one on, in steps, that are not beyond another. -/
def stepsFrom (step last : Int) : Nat → Int → List Int
  | 0, _ => []
  | fuel + 1, n =>
    if (0 < step && n ≤ last) || (step < 0 && last ≤ n) then n :: stepsFrom step last fuel (n + step)
    else []

/-- Writes numbers in a row. -/
def runSeq (l : Launch) : Execution :=
  let (sep, args) :=
    match l.args with
    | ['-', 's'] :: sep :: args => (sep, args)
    | ('-' :: 's' :: sep) :: args => (sep, args)
    | args => (['\n'], args)
  match args.mapM takeDecimal? with
  | none => l.misuse ("invalid floating point argument: ".toList ++
      shownArgument ((args.find? fun a => (takeDecimal? a).isNone).getD []))
  | some ns =>
    let write (first step last : Int × Nat) : Execution :=
      let shown := max first.2 step.2
      let places := max shown last.2
      let a := withPlaces places first
      let d := withPlaces places step
      let b := withPlaces places last
      if d = 0 then
        l.misuse ("invalid Zero increment value: ".toList ++ shownArgument ((args.drop 1).headD []))
      else
        let count := ((b - a) / d + 1).toNat
        let scale : Int := Nat.pow 10 (places - shown)
        let texts := (stepsFrom d b count a).map fun n => decimalText shown (n / scale)
        l.finish (if texts.isEmpty then [] else joined sep texts ++ ['\n']) [] 0
    match ns with
    | [] => l.misuse "missing operand".toList
    | [last] => write (1, 0) (1, 0) last
    | [first, last] => write first (1, 0) last
    | [first, step, last] => write first step last
    | _ => l.misuse ("extra operand ".toList ++ shownArgument ((args.drop 3).headD []))

/-! ## Ends -/

/-- Waits, which takes time and does nothing. -/
def runSleep (l : Launch) : Execution :=
  l.withOptions {} fun p =>
    let isTime (cs : Octets) : Bool :=
      let ds := match cs.getLast? with
        | some c => if "smhd".toList.contains c then cs.dropLast else cs
        | none => cs
      (takeDecimal? ds).any fun (n, _) => 0 ≤ n
    match p.operands.find? fun o => !isTime o with
    | some o => l.misuse ("invalid time interval ".toList ++ shownArgument o)
    | none => if p.operands.isEmpty then l.misuse "missing operand".toList else l.finish [] [] 0

/-- Tests a condition. Called by a bracket, it has to be closed by one. -/
def runTest (l : Launch) : Execution :=
  let bracket := (l.name.getLast?.map (· == '[')).getD false
  if bracket && l.args.getLast? ≠ some [']'] then l.finish [] ["missing ']'".toList] 2
  else
    match holds l.files (if bracket then l.args.dropLast else l.args) with
    | .ok v => l.finish [] [] (if v then 0 else 1)
    | .error note => l.finish [] [note] 2

/-- Writes the values of variables, or all of them. -/
def runPrintenv (l : Launch) : Execution :=
  l.withOptions {} fun p =>
    let value? (o : Octets) : Option Octets :=
      (Sorted.find? (Text.Octets.toText o) l.vars).map Text.Octets.ofText
    if p.operands.isEmpty then
      l.finish (l.vars.flatMap fun v => Text.Octets.ofText (v.1 ++ "=" ++ v.2 ++ "\n")) [] 0
    else
      l.finish ((p.operands.filterMap value?).flatMap (· ++ ['\n'])) []
        (if p.operands.all fun o => (value? o).isSome then 0 else 1)

end Program

end Rill
