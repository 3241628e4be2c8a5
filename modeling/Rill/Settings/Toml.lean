import Rill.Json.Reader
import Rill.Number.Text

/-!
# Settings files

The format of settings: keys with values, one to a line, in tables that headers open. Reading checks
the whole text; what is kept of a number that is no integer and of a date is only that it is one.

A table that a header opened cannot be opened again, nor be gone through by a dotted key; one that
only stands on the way to another can be opened, and gone through to a new one. The values of a
dotted key stand in a table that dotted keys made. Values and keys nest less than `maxDepth` deep.
-/

namespace Rill

/-- How a table came to be. -/
inductive TableKind where
  /-- A header opened it. -/
  | opened
  /-- It stands on the way to one that a header opened. -/
  | passed
  /-- A dotted key made it. -/
  | dotted
  /-- It was written as a value. -/
  | closed
  deriving DecidableEq, Repr

/-- A value of a settings file. -/
inductive Toml where
  | string (s : String)
  | integer (n : Int)
  | float
  | boolean (b : Bool)
  | datetime
  | array (items : List Toml)
  | table (kind : TableKind) (entries : List (String × Toml))
  /-- The tables that one header opened again and again, the last first. -/
  | tables (elements : List (List (String × Toml)))
  deriving Inhabited

namespace Toml

/-! ## Tables -/

/-- The entries after a change of the table that the path of a header leads to. Tables that are
missing on the way are made. -/
def update (change : Sorted Toml → Option (Sorted Toml)) :
    List String → Sorted Toml → Option (Sorted Toml)
  | [], entries => change entries
  | key :: path, entries =>
    match Sorted.find? key entries with
    | none => (update change path []).map fun t => Sorted.insert key (.table .passed t) entries
    | some (.table kind t) =>
      if kind = .closed then none
      else (update change path t).map fun t => Sorted.insert key (.table kind t) entries
    | some (.tables (t :: ts)) =>
      (update change path t).map fun t => Sorted.insert key (.tables (t :: ts)) entries
    | some _ => none

/-- Adds a value under a key that is not there yet. -/
def addNew (key : String) (value : Toml) (entries : Sorted Toml) : Option (Sorted Toml) :=
  if Sorted.has key entries then none else some (Sorted.insert key value entries)

/-- Adds a value under a dotted key to a table. `takes` says whether the table itself takes values:
the one that the key starts from does, and those that dotted keys made. Tables that are missing on
the way are made; no way leads through one that a header opened. -/
def assignWithin (value : Toml) : Bool → List String → Sorted Toml → Option (Sorted Toml)
  | _, [], _ => none
  | takes, [key], entries => if takes then addNew key value entries else none
  | _, key :: next :: path, entries =>
    match Sorted.find? key entries with
    | none =>
      (assignWithin value true (next :: path) []).map fun t =>
        Sorted.insert key (.table .dotted t) entries
    | some (.table .dotted t) =>
      (assignWithin value true (next :: path) t).map fun t =>
        Sorted.insert key (.table .dotted t) entries
    | some (.table .passed t) =>
      (assignWithin value false (next :: path) t).map fun t =>
        Sorted.insert key (.table .passed t) entries
    | some (.tables (t :: ts)) =>
      (assignWithin value false (next :: path) t).map fun t =>
        Sorted.insert key (.tables (t :: ts)) entries
    | some _ => none

/-- Adds a value under a dotted key. -/
def assign (path : List String) (value : Toml) (entries : Sorted Toml) : Option (Sorted Toml) :=
  assignWithin value true path entries

/-- Opens a table. -/
def openTable (path : List String) (entries : Sorted Toml) : Option (Sorted Toml) := do
  let key ← path.getLast?
  update (fun t =>
    match Sorted.find? key t with
    | none => some (Sorted.insert key (.table .opened []) t)
    | some (.table .passed inner) => some (Sorted.insert key (.table .opened inner) t)
    | some _ => none) path.dropLast entries

/-- Opens one more table of an array. -/
def openElement (path : List String) (entries : Sorted Toml) : Option (Sorted Toml) := do
  let key ← path.getLast?
  update (fun t =>
    match Sorted.find? key t with
    | none => some (Sorted.insert key (.tables [[]]) t)
    | some (.tables ts) => some (Sorted.insert key (.tables ([] :: ts)) t)
    | some _ => none) path.dropLast entries

/-! ## Blanks and comments -/

/-- The blanks inside a line. -/
def isSpace (c : Char) : Bool := c == ' ' || c == '\t'

/-- The characters after the blanks. -/
def skipSpace (cs : List Char) : List Char := cs.dropWhile isSpace

/-- Whether a comment or a text may hold the character. -/
def isPlain (c : Char) : Bool := c == '\t' || (0x20 ≤ c.toNat && c.toNat != 0x7f)

/-- The characters after a comment, if one comes next. -/
def skipComment (cs : List Char) : List Char :=
  match cs with
  | '#' :: cs => cs.dropWhile isPlain
  | cs => cs

/-- The characters after the end of a line. -/
def newline? : List Char → Option (List Char)
  | '\n' :: cs => some cs
  | '\r' :: '\n' :: cs => some cs
  | _ => none

/-- The characters after blanks, comments and ends of lines. -/
def skipLines : Nat → List Char → List Char
  | 0, cs => cs
  | fuel + 1, cs =>
    let cs := skipComment (skipSpace cs)
    match newline? cs with
    | some cs => skipLines fuel cs
    | none => cs

/-! ## Texts -/

/-- A code point in hexadecimal digits. -/
def readCode (count : Nat) (cs : List Char) : Option (Char × List Char) := do
  let digits := cs.take count
  guard (digits.length = count)
  let n ← digits.foldlM (fun n c => (Json.hexDigit? c).map (n * 16 + ·)) 0
  guard n.isValidChar
  return (Char.ofNat n, cs.drop count)

/-- An escaped character, after the backslash. -/
def readEscape : List Char → Option (Char × List Char)
  | 'b' :: cs => some ('\x08', cs)
  | 't' :: cs => some ('\t', cs)
  | 'n' :: cs => some ('\n', cs)
  | 'f' :: cs => some ('\x0c', cs)
  | 'r' :: cs => some ('\r', cs)
  | '"' :: cs => some ('"', cs)
  | '\\' :: cs => some ('\\', cs)
  | 'u' :: cs => readCode 4 cs
  | 'U' :: cs => readCode 8 cs
  | _ => none

/-- A text in double quotes, after the first. -/
def readBasic : Nat → List Char → Option (List Char × List Char)
  | 0, _ => none
  | _ + 1, [] => none
  | _ + 1, '"' :: cs => some ([], cs)
  | fuel + 1, '\\' :: cs => do
    let (c, cs) ← readEscape cs
    let (s, cs) ← readBasic fuel cs
    return (c :: s, cs)
  | fuel + 1, c :: cs => do
    guard (isPlain c)
    let (s, cs) ← readBasic fuel cs
    return (c :: s, cs)

/-- A text in single quotes, after the first. -/
def readLiteral : List Char → Option (List Char × List Char)
  | [] => none
  | '\'' :: cs => some ([], cs)
  | c :: cs => do
    guard (isPlain c)
    let (s, cs) ← readLiteral cs
    return (c :: s, cs)

/-- The end of a text in three quotes: up to two more quotes belong to the text. -/
def closing (quote : Char) (cs : List Char) : Option (List Char × List Char) :=
  let quotes := cs.takeWhile (· == quote)
  if 3 ≤ quotes.length then
    let inner := min (quotes.length - 3) 2
    some (List.replicate inner quote, cs.drop (inner + 3))
  else none

/-- The characters after blanks and ends of lines. -/
def skipBlankLines : Nat → List Char → List Char
  | 0, cs => cs
  | fuel + 1, cs =>
    match newline? (skipSpace cs) with
    | some cs => skipBlankLines fuel cs
    | none => skipSpace cs

/-- The characters after a backslash at the end of a line: blanks and ends of lines are dropped. -/
def afterLineEnd (cs : List Char) : Option (List Char) :=
  (newline? (skipSpace cs)).map (skipBlankLines cs.length)

/-- A text in three double quotes, after them. Each end of a line in it is one character. -/
def readMultiBasic : Nat → List Char → Option (List Char × List Char)
  | 0, _ => none
  | _ + 1, [] => none
  | fuel + 1, '"' :: cs =>
    match closing '"' ('"' :: cs) with
    | some r => some r
    | none => do
      let (s, cs) ← readMultiBasic fuel cs
      return ('"' :: s, cs)
  | fuel + 1, '\\' :: cs =>
    match afterLineEnd cs with
    | some cs => readMultiBasic fuel cs
    | none => do
      let (c, cs) ← readEscape cs
      let (s, cs) ← readMultiBasic fuel cs
      return (c :: s, cs)
  | fuel + 1, '\r' :: '\n' :: cs => do
    let (s, cs) ← readMultiBasic fuel cs
    return ('\n' :: s, cs)
  | fuel + 1, c :: cs => do
    guard (isPlain c || c == '\n')
    let (s, cs) ← readMultiBasic fuel cs
    return (c :: s, cs)

/-- A text in three single quotes, after them. Each end of a line in it is one character. -/
def readMultiLiteral : Nat → List Char → Option (List Char × List Char)
  | 0, _ => none
  | _ + 1, [] => none
  | fuel + 1, '\'' :: cs =>
    match closing '\'' ('\'' :: cs) with
    | some r => some r
    | none => do
      let (s, cs) ← readMultiLiteral fuel cs
      return ('\'' :: s, cs)
  | fuel + 1, '\r' :: '\n' :: cs => do
    let (s, cs) ← readMultiLiteral fuel cs
    return ('\n' :: s, cs)
  | fuel + 1, c :: cs => do
    guard (isPlain c || c == '\n')
    let (s, cs) ← readMultiLiteral fuel cs
    return (c :: s, cs)

/-- The characters without an end of line before them. -/
def dropNewline (cs : List Char) : List Char := (newline? cs).getD cs

/-! ## Numbers and dates -/

/-- Digits of a base, with an underscore between two of them or not. -/
def readDigits (digit? : Char → Option Nat) (base n : Nat) : List Char → Option Nat
  | [] => none
  | [c] => (digit? c).map (n * base + ·)
  | c :: '_' :: cs => do
    let d ← digit? c
    readDigits digit? base (n * base + d) cs
  | c :: cs => do
    let d ← digit? c
    readDigits digit? base (n * base + d) cs

/-- The value of a digit below a base. -/
def digitBelow? (base : Nat) (c : Char) : Option Nat :=
  (Json.hexDigit? c).filter (· < base)

/-- Decimal digits with no zero before them. -/
def readDecimal (cs : List Char) : Option Nat :=
  match cs with
  | '0' :: _ :: _ => none
  | cs => readDigits (digitBelow? 10) 10 0 cs

/-- A sign, and what follows it. -/
def readSign (cs : List Char) : Bool × List Char :=
  match cs with
  | '-' :: cs => (true, cs)
  | '+' :: cs => (false, cs)
  | cs => (false, cs)

/-- An integer of 64 bits. -/
def readInteger (cs : List Char) : Option Int := do
  let n ← match cs with
    | '0' :: 'x' :: cs => (readDigits (digitBelow? 16) 16 0 cs).map Int.ofNat
    | '0' :: 'o' :: cs => (readDigits (digitBelow? 8) 8 0 cs).map Int.ofNat
    | '0' :: 'b' :: cs => (readDigits (digitBelow? 2) 2 0 cs).map Int.ofNat
    | cs =>
      let (negative, cs) := readSign cs
      (readDecimal cs).map fun n => if negative then -(n : Int) else n
  guard (-0x8000000000000000 ≤ n ∧ n < 0x8000000000000000)
  return n

/-- The middle between the largest number of 64 bits and the next power of two. -/
def overflowBound : Nat := 0x3fffffffffffff * Nat.pow 2 970

/-- Whether `m * 10 ^ e` is too large for a number of 64 bits: it is not below the middle between
the largest of them and the next power of two. -/
def overflows (m : Nat) (e : Int) : Bool :=
  if m = 0 then false
  else if 400 < e then true
  else if 0 ≤ e then decide (overflowBound ≤ m * Nat.pow 10 e.toNat)
  else if (Number.digitsOf m).length + 300 < e.natAbs then false
  else decide (overflowBound * Nat.pow 10 e.natAbs ≤ m)

/-- A number with a fraction or an exponent, as its digits and the power of ten that they count. -/
def readFloat (cs : List Char) : Option (Nat × Int) := do
  let isMark := fun c => c == 'e' || c == 'E'
  let mantissa := cs.takeWhile fun c => !isMark c
  let exponent := (cs.dropWhile fun c => !isMark c).drop 1
  let whole := mantissa.takeWhile (· != '.')
  let part := (mantissa.dropWhile (· != '.')).drop 1
  guard (mantissa.contains '.' || cs.any isMark)
  let w ← readDecimal whole
  let p ← if mantissa.contains '.' then readDigits (digitBelow? 10) 10 0 part else some 0
  let places := (part.filter (· != '_')).length
  let (negative, digits) := readSign exponent
  let e ← if cs.any isMark then readDigits (digitBelow? 10) 10 0 digits else some 0
  return (w * Nat.pow 10 places + p, (if negative then -(e : Int) else e) - places)

/-- Whether some characters are a number with a fraction or an exponent. One that is too large is
not, unless it is negative. -/
def isFloat (cs : List Char) : Bool :=
  let (negative, cs) := readSign cs
  if cs == ['i', 'n', 'f'] || cs == ['n', 'a', 'n'] then true
  else
    match readFloat cs with
    | some (m, e) => negative || !overflows m e
    | none => false

/-- Whether some characters are `count` decimal digits of a number between two others. -/
def isField (count low high : Nat) (cs : List Char) : Bool :=
  cs.length == count && cs.all (fun c => (Json.digit? c).isSome) &&
    match readDigits (digitBelow? 10) 10 0 cs with
    | some n => low ≤ n && n ≤ high
    | none => false

/-- The number that some decimal digits write. -/
def fieldValue (cs : List Char) : Nat := (readDigits (digitBelow? 10) 10 0 cs).getD 0

/-- How many days a month of a year has. -/
def daysIn (year month : Nat) : Nat :=
  if month = 2 then
    if year % 4 = 0 ∧ (year % 100 ≠ 0 ∨ year % 400 = 0) then 29 else 28
  else if month = 4 ∨ month = 6 ∨ month = 9 ∨ month = 11 then 30
  else 31

/-- Whether some characters are a day. -/
def isDay (cs : List Char) : Bool :=
  let year := cs.take 4
  let month := (cs.drop 5).take 2
  cs.length == 10 && isField 4 0 9999 year && cs[4]? == some '-' && isField 2 1 12 month &&
    cs[7]? == some '-' && isField 2 1 (daysIn (fieldValue year) (fieldValue month)) (cs.drop 8)

/-- Whether some characters are a time of day, with a fraction of a second or not. -/
def isTime (cs : List Char) : Bool :=
  isField 2 0 23 (cs.take 2) && cs[2]? == some ':' && isField 2 0 59 ((cs.drop 3).take 2) &&
    cs[5]? == some ':' && isField 2 0 60 ((cs.drop 6).take 2) &&
    match cs.drop 8 with
    | [] => true
    | '.' :: c :: rest => (c :: rest).all fun c => (Json.digit? c).isSome
    | _ => false

/-- Whether some characters are a time of day and how far it is from the universal one. -/
def isZonedTime (cs : List Char) : Bool :=
  match cs.reverse with
  | 'Z' :: rest | 'z' :: rest => isTime rest.reverse
  | m :: n :: ':' :: h :: i :: sign :: rest =>
    ((sign == '+' || sign == '-') && isField 2 0 23 [i, h] && isField 2 0 59 [n, m] &&
      isTime rest.reverse) || isTime cs
  | _ => isTime cs

/-- Whether some characters are a day, a time of day, or both. -/
def isDatetime (cs : List Char) : Bool :=
  isDay cs || isTime cs ||
    (isDay (cs.take 10) &&
      match cs.drop 10 with
      | 'T' :: rest | 't' :: rest | ' ' :: rest => isZonedTime rest
      | _ => false)

/-- Whether a number, a date or a name may hold the character. -/
def isBare (c : Char) : Bool :=
  c.isAlphanum || c == '_' || c == '-' || c == '+' || c == '.' || c == ':'

/-- The characters of a number, a date or a name. A day and a time may have a space between them. -/
def takeBare (cs : List Char) : List Char × List Char :=
  let first := cs.takeWhile isBare
  let rest := cs.dropWhile isBare
  match rest with
  | ' ' :: c :: more =>
    if isDay first && (Json.digit? c).isSome then
      (first ++ ' ' :: (c :: more).takeWhile isBare, (c :: more).dropWhile isBare)
    else (first, rest)
  | _ => (first, rest)

/-- A value without quotes or brackets. -/
def readBare (cs : List Char) : Option Toml :=
  if cs == ['t', 'r', 'u', 'e'] then some (.boolean true)
  else if cs == ['f', 'a', 'l', 's', 'e'] then some (.boolean false)
  else
    match readInteger cs with
    | some n => some (.integer n)
    | none => if isFloat cs then some .float else if isDatetime cs then some .datetime else none

/-! ## Keys and values -/

/-- Whether a key without quotes may hold the character. -/
def isKeyChar (c : Char) : Bool := c.isAlphanum || c == '_' || c == '-'

/-- One part of a key. -/
def readKeyPart (cs : List Char) : Option (String × List Char) :=
  match cs with
  | '"' :: cs => (readBasic (cs.length + 1) cs).map fun (s, cs) => (String.ofList s, cs)
  | '\'' :: cs => (readLiteral cs).map fun (s, cs) => (String.ofList s, cs)
  | cs =>
    let name := cs.takeWhile isKeyChar
    if name.isEmpty then none else some (String.ofList name, cs.dropWhile isKeyChar)

/-- How deep values nest, and how many parts a key has: less than this. -/
def maxDepth : Nat := 80

/-- A key of at most so many parts with points between them. -/
def readKeyWithin : Nat → List Char → Option (List String × List Char)
  | 0, _ => none
  | limit + 1, cs => do
    let (part, cs) ← readKeyPart (skipSpace cs)
    match skipSpace cs with
    | '.' :: cs =>
      let (parts, cs) ← readKeyWithin limit cs
      return (part :: parts, cs)
    | cs => return ([part], cs)

/-- A key of parts with points between them. -/
def readKey (cs : List Char) : Option (List String × List Char) := readKeyWithin (maxDepth - 1) cs

mutual

/-- A value, with at most `depth` levels of brackets. -/
def readValue : Nat → Nat → List Char → Option (Toml × List Char)
  | 0, _, _ => none
  | fuel + 1, depth, cs =>
    match cs with
    | '"' :: '"' :: '"' :: cs =>
      (readMultiBasic (fuel + 1) (dropNewline cs)).map fun (s, cs) =>
        (.string (String.ofList s), cs)
    | '\'' :: '\'' :: '\'' :: cs =>
      (readMultiLiteral (fuel + 1) (dropNewline cs)).map fun (s, cs) =>
        (.string (String.ofList s), cs)
    | '"' :: cs => (readBasic (fuel + 1) cs).map fun (s, cs) => (.string (String.ofList s), cs)
    | '\'' :: cs => (readLiteral cs).map fun (s, cs) => (.string (String.ofList s), cs)
    | '[' :: cs =>
      if depth = 0 then none
      else (readItems fuel (depth - 1) cs).map fun (items, cs) => (.array items, cs)
    | '\x7b' :: cs =>
      if depth = 0 then none
      else
        match skipSpace cs with
        | '\x7d' :: cs => some (.table .closed [], cs)
        | cs =>
          (readEntries fuel (depth - 1) [] cs).map fun (entries, cs) => (.table .closed entries, cs)
    | cs =>
      let (bare, rest) := takeBare cs
      (readBare bare).map fun v => (v, rest)

/-- The items of an array and its closing bracket. -/
def readItems : Nat → Nat → List Char → Option (List Toml × List Char)
  | 0, _, _ => none
  | fuel + 1, depth, cs =>
    match skipLines (fuel + 1) cs with
    | ']' :: cs => some ([], cs)
    | cs => do
      let (item, cs) ← readValue fuel depth cs
      match skipLines (fuel + 1) cs with
      | ']' :: cs => return ([item], cs)
      | ',' :: cs =>
        let (items, cs) ← readItems fuel depth cs
        return (item :: items, cs)
      | _ => none

/-- The entries of a table that is written as a value, and its closing brace. -/
def readEntries : Nat → Nat → Sorted Toml → List Char → Option (Sorted Toml × List Char)
  | 0, _, _, _ => none
  | fuel + 1, depth, entries, cs => do
    let (path, cs) ← readKey cs
    match cs with
    | '=' :: cs =>
      let (value, cs) ← readValue fuel depth (skipSpace cs)
      let entries ← assign path value entries
      match skipSpace cs with
      | '\x7d' :: cs => return (entries, cs)
      | ',' :: cs => readEntries fuel depth entries cs
      | _ => none
    | _ => none

end

/-! ## Texts of settings -/

/-- The end of a line, or of the text. -/
def endLine (cs : List Char) : Option (List Char) :=
  match skipComment (skipSpace cs) with
  | [] => some []
  | cs => newline? cs

/-- The lines of a text. `header` is the path of the table that is open. -/
def readLines : Nat → List String → Sorted Toml → List Char → Option (Sorted Toml)
  | 0, _, _, _ => none
  | fuel + 1, header, root, cs =>
    match skipLines (fuel + 1) cs with
    | [] => some root
    | '[' :: '[' :: cs => do
      let (path, cs) ← readKey cs
      match cs with
      | ']' :: ']' :: cs =>
        let cs ← endLine cs
        let root ← openElement path root
        readLines fuel path root cs
      | _ => none
    | '[' :: cs => do
      let (path, cs) ← readKey cs
      match cs with
      | ']' :: cs =>
        let cs ← endLine cs
        let root ← openTable path root
        readLines fuel path root cs
      | _ => none
    | cs => do
      let (path, cs) ← readKey cs
      match cs with
      | '=' :: cs =>
        let (value, cs) ← readValue (fuel + 1) (maxDepth - 1) (skipSpace cs)
        let cs ← endLine cs
        let root ← update (assign path value) header root
        readLines fuel header root cs
      | _ => none

/-- The entries of a text of settings. -/
def read (text : String) : Option (Sorted Toml) :=
  let cs := text.toList
  let cs := if cs.head? = some '\ufeff' then cs.drop 1 else cs
  readLines (cs.length + 1) [] [] cs

end Toml

end Rill
