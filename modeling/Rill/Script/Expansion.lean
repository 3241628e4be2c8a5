import Rill.Script.Arithmetic
import Rill.Script.Pattern
import Rill.Script.Reader

/-!
# What words stand for

A word is expanded in three steps. Its quotes are removed and something is put in for its
parameters, commands and calculations, which leaves cells: characters of which it is known how they
came about. Then the cells that were put in are cut at the separators, which leaves fields, and a
field that is a pattern stands for the names of the files that it matches.
-/

namespace Rill.Script

open Rill.Text (Octets)

/-- A character of a word that has been expanded, or what lies between two. -/
inductive Cell where
  /-- A character of the script itself. -/
  | typed (c : Char)
  /-- A character that was quoted. -/
  | quoted (c : Char)
  /-- A character that was put in. -/
  | inserted (c : Char)
  /-- Quotes, which make a field even if there is nothing in them. -/
  | mark
  /-- The end of a field. -/
  | boundary
  deriving DecidableEq, Repr

/-- How the characters of a text count. -/
inductive Manner where
  /-- As characters of a word. -/
  | word
  /-- As characters between quotes. -/
  | quotes
  /-- As characters of a text behind a line, in which quotes are nothing special. -/
  | inline
  /-- As the word of a parameter, which is put in. -/
  | insert
  deriving DecidableEq, Repr

/-- Whether characters are quoted. -/
def Manner.isQuoted (m : Manner) : Bool := m == .quotes || m == .inline

/-- A character of a text. -/
def Manner.cell : Manner → Char → Cell
  | .word, c => .typed c
  | .insert, c => .inserted c
  | _, c => .quoted c

/-- A character that is put in. -/
def Manner.result (m : Manner) (c : Char) : Cell := if m.isQuoted then .quoted c else .inserted c

/-- The characters of cells. -/
def cellText (cells : List Cell) : Octets :=
  cells.filterMap fun
    | .typed c | .quoted c | .inserted c => some c
    | .boundary => some ' '
    | .mark => none

/-- The characters of cells, and whether each stands for itself in a pattern. -/
def cellMarks (cells : List Cell) : List Mark :=
  cells.filterMap fun
    | .typed c | .inserted c => some (c, false)
    | .quoted c => some (c, true)
    | .boundary => some (' ', true)
    | .mark => none

/-! ## Parameters -/

/-- The number of the process that runs the script. -/
def processId : Nat := 4711

/-- The characters that separate fields. -/
def separators : Act Octets := do return (← Act.value? "IFS".toList).getD [' ', '\t', '\n']

/-- The value of a parameter that is no list, if it is set. -/
def parameter? (name : Octets) : Act (Option Octets) := do
  let m ← get
  match name with
  | ['#'] => return some (Nat.toDigits 10 m.params.length)
  | ['?'] => return some (Nat.toDigits 10 m.status)
  | ['$'] => return some (Nat.toDigits 10 processId)
  | ['!'] => return if m.jobs = 0 then none else some (Nat.toDigits 10 (processId + m.jobs))
  | ['-'] =>
    return some ((if m.strict then ['e'] else []) ++ (if m.globbing then [] else ['f']) ++
      if m.nounset then ['u'] else [])
  | ['0'] => return some m.name
  | name =>
    if name.all Char.isDigit then return m.params[digitsValue name - 1]?
    else Act.value? name

/-- All parameters, between quotes or not. -/
def listCells (star : Bool) (m : Manner) : Act (List Cell) := do
  let params := (← get).params
  if m.isQuoted && star then
    let sep := (← separators).take 1
    return (sep.intercalate params).map .quoted
  else
    return [Cell.boundary].intercalate (params.map fun p =>
      (if m.isQuoted then [.mark] else []) ++ p.map m.result)

/-- Fails because a parameter has no value. -/
def complainUnset {α : Type} (name : Octets) : Act α :=
  Act.abort (name ++ ": parameter not set".toList)

/-- What is put in for a parameter without further ado. -/
def parameterCells (m : Manner) (name : Octets) : Act (List Cell) := do
  match name with
  | ['@'] => listCells false m
  | ['*'] => listCells true m
  | name =>
    match ← parameter? name with
    | some cs => return cs.map m.result
    | none => if (← get).nounset then complainUnset name else return []

/-- The name of a parameter at the front, and what is behind it. -/
def takeParameter? (cs : Octets) : Option (Octets × Octets) :=
  match cs with
  | [] => none
  | c :: rest =>
    if isNameStart c then some (cs.takeWhile isNameChar, cs.dropWhile isNameChar)
    else if c.isDigit || "@*#?$!-".toList.contains c then some ([c], rest)
    else none

/-- The name of a parameter in braces, and what is behind it: a number may have several digits. -/
def takeBraced? (cs : Octets) : Option (Octets × Octets) :=
  match cs.takeWhile Char.isDigit with
  | [] => takeParameter? cs
  | ds => some (ds, cs.dropWhile Char.isDigit)

/-- What is done with a parameter in braces. -/
inductive Modifier where
  /-- Nothing. -/
  | plain
  /-- Its length is put in. -/
  | length
  /-- A word is put in if the parameter has no value, or an empty one if `filled`. -/
  | default (filled : Bool) (word : Octets)
  /-- The same, and the parameter gets the value of the word. -/
  | assign (filled : Bool) (word : Octets)
  /-- The script ends if the parameter has no value. -/
  | require (filled : Bool) (word : Octets)
  /-- A word is put in if the parameter has a value. -/
  | alternative (filled : Bool) (word : Octets)
  /-- The value loses what a pattern matches at its front or at its end. -/
  | strip (front longest : Bool) (word : Octets)
  deriving DecidableEq, Repr

/-- What is done with a parameter, read from behind its name. -/
def modifier? (cs : Octets) : Option Modifier :=
  let byChar (filled : Bool) : Octets → Option Modifier
    | '-' :: w => some (.default filled w)
    | '=' :: w => some (.assign filled w)
    | '?' :: w => some (.require filled w)
    | '+' :: w => some (.alternative filled w)
    | _ => none
  match cs with
  | [] => some .plain
  | ':' :: rest => byChar true rest
  | '#' :: '#' :: w => some (.strip true true w)
  | '#' :: w => some (.strip true false w)
  | '%' :: '%' :: w => some (.strip false true w)
  | '%' :: w => some (.strip false false w)
  | cs => byChar false cs

/-- The parameter in braces, and what is done with it. -/
def braced? (body : Octets) : Option (Octets × Modifier) :=
  let whole : Option (Octets × Modifier) := do
    let (name, rest) ← takeBraced? body
    return (name, ← modifier? rest)
  match body with
  | '#' :: rest =>
    match takeBraced? rest with
    | some (name, []) => some (name, .length)
    | _ => whole
  | _ => whole

/-- A text without the backslashes that protect characters inside backquotes. -/
def unescapedCommand (quoted : Bool) : Octets → Octets
  | [] => []
  | '\\' :: c :: cs =>
    if c = '\\' || c = '$' || c = '\x60' || (quoted && c = '"') then c :: unescapedCommand quoted cs
    else '\\' :: c :: unescapedCommand quoted cs
  | c :: cs => c :: unescapedCommand quoted cs

/-! ## Cells -/

/-- The path that a tilde at the front of a word stands for. -/
def homeCells (cs : Octets) : Act (Option (List Cell × Octets)) := do
  match cs with
  | '~' :: rest =>
    if rest.isEmpty || rest.head? = some '/' then
      return (← Act.value? "HOME".toList).map fun home => (home.map .quoted, rest)
    else return none
  | _ => return none

mutual

/-- The cells of a text. `substitute` gives what a command writes. -/
def cells (substitute : Octets → Act Octets) : Nat → Manner → Octets → Act (List Cell)
  | 0, _, _ => return []
  | _ + 1, _, [] => return []
  | fuel + 1, m, '\\' :: c :: cs => do
    let escapes := c = '$' || c = '\x60' || c = '\\' || (c = '"' && m == .quotes)
    if c = '\n' then cells substitute fuel m cs
    else if m.isQuoted && !escapes then
      return .quoted '\\' :: (← cells substitute fuel m (c :: cs))
    else return .quoted c :: (← cells substitute fuel m cs)
  | fuel + 1, m, '\'' :: cs => do
    match if m.isQuoted then none else throughChar '\'' cs with
    | some (text, rest) =>
      return .mark :: text.dropLast.map .quoted ++ (← cells substitute fuel m rest)
    | none => return m.cell '\'' :: (← cells substitute fuel m cs)
  | fuel + 1, m, '"' :: cs => do
    match m with
    | .inline => return .quoted '"' :: (← cells substitute fuel m cs)
    | .quotes => cells substitute fuel m cs
    | m =>
      match through (cs.length + 1) [.quotes] cs with
      | .error f => Act.abort f.message.toList
      | .ok (text, rest) =>
        let inside ← cells substitute fuel .quotes text.dropLast
        let empty := inside.isEmpty && (text.dropLast = ['$', '@'])
        return (if empty then [] else .mark :: inside) ++ (← cells substitute fuel m rest)
  | fuel + 1, m, '\x60' :: cs => do
    match throughBackquote cs with
    | none => Act.abort Fault.openBackquote.message.toList
    | some (text, rest) =>
      let out ← substitute (unescapedCommand m.isQuoted text.dropLast)
      return out.map m.result ++ (← cells substitute fuel m rest)
  | fuel + 1, m, '$' :: '(' :: cs => do
    match through (cs.length + 1) [.parentheses 0] cs with
    | .error f => Act.abort f.message.toList
    | .ok (text, rest) =>
      let body := text.dropLast
      let out ← match body with
        | '(' :: inner =>
          if inner.getLast? = some ')' then do
            let text := cellText (← cells substitute fuel .quotes inner.dropLast)
            pure (numberText (← calculate text))
          else substitute body
        | body => substitute body
      return out.map m.result ++ (← cells substitute fuel m rest)
  | fuel + 1, m, '$' :: '\x7b' :: cs => do
    match through (cs.length + 1) [.braces] cs with
    | .error f => Act.abort f.message.toList
    | .ok (text, rest) =>
      match braced? text.dropLast with
      | none => Act.abort "Bad substitution".toList
      | some (name, modifier) =>
        let front ← modified substitute fuel m name modifier
        return front ++ (← cells substitute fuel m rest)
  | fuel + 1, m, '$' :: cs => do
    match takeParameter? cs with
    | none => return m.cell '$' :: (← cells substitute fuel m cs)
    | some (name, rest) =>
      let front ← parameterCells m name
      return front ++ (← cells substitute fuel m rest)
  | fuel + 1, m, c :: cs => return m.cell c :: (← cells substitute fuel m cs)

/-- What is put in for a parameter in braces. -/
def modified (substitute : Octets → Act Octets) :
    Nat → Manner → Octets → Modifier → Act (List Cell)
  | 0, _, _, _ => return []
  | fuel + 1, m, name, modifier => do
    let isList := name = ['@'] || name = ['*']
    let value ←
      if isList then do
        let params := (← get).params
        pure (if params.isEmpty then none else some ([' '].intercalate params))
      else parameter? name
    let missing (filled : Bool) : Bool := value.isNone || (filled && value = some [])
    let inner : Manner := if m == .word then .insert else m
    match modifier with
    | .plain => parameterCells m name
    | .length =>
      if value.isNone && (← get).nounset then complainUnset name
      return (Nat.toDigits 10 (value.getD []).length).map m.result
    | .default filled w =>
      if missing filled then cells substitute fuel inner w else parameterCells m name
    | .assign filled w =>
      if missing filled then
        if !isName name then Act.abort (name ++ ": bad variable name".toList)
        Act.assign name (cellText (← cells substitute fuel inner w))
      parameterCells m name
    | .require filled w =>
      if missing filled then
        let text := cellText (← cells substitute fuel inner w)
        if text.isEmpty then
          Act.abort (name ++ ": parameter not set".toList ++
            if filled then " or null".toList else [])
        else Act.abort (name ++ ':' :: ' ' :: text)
      else parameterCells m name
    | .alternative filled w =>
      if missing filled then return [] else cells substitute fuel inner w
    | .strip front longest w =>
      if value.isNone && (← get).nounset then complainUnset name
      let p := pattern (cellMarks (← cells substitute fuel .word w))
      let cs := value.getD []
      let left :=
        if front then cs.drop ((matchedFront? longest p cs).getD 0)
        else cs.take (cs.length - (matchedEnd? longest p cs).getD 0)
      return left.map m.result

end

/-- The cells of a word. -/
def wordCells (substitute : Octets → Act Octets) (raw : Octets) : Act (List Cell) := do
  match ← homeCells raw with
  | some (home, rest) => return home ++ (← cells substitute (2 * rest.length + 2) .word rest)
  | none => cells substitute (2 * raw.length + 2) .word raw

/-- The text of a word that stays in one piece. -/
def wordText (substitute : Octets → Act Octets) (raw : Octets) : Act Octets :=
  return cellText (← wordCells substitute raw)

/-- The pattern of a word. -/
def wordPattern (substitute : Octets → Act Octets) (raw : Octets) : Act (List Match) :=
  return pattern (cellMarks (← wordCells substitute raw))

/-! ## Fields -/

/-- Where the cutting into fields stands: the field so far, and whether the one before it was ended
by a blank. -/
structure Cutting where
  /-- The fields that have ended. -/
  done : List (List Mark) := []
  /-- The field that has begun. -/
  field : Option (List Mark) := none
  /-- Whether a blank ended the last field. -/
  blank : Bool := false

namespace Cutting

/-- One more character. -/
def push (k : Cutting) (c : Char) (literal : Bool) : Cutting :=
  { k with field := some (k.field.getD [] ++ [(c, literal)]), blank := false }

/-- The end of the field that has begun, if one has. -/
def close (k : Cutting) : Cutting := { k with done := k.done ++ k.field.toList, field := none }

/-- One more cell. A separator that is no blank ends a field even if nothing is in it, and blanks
around it belong to it. -/
def step (separators : Octets) (k : Cutting) : Cell → Cutting
  | .typed c => k.push c false
  | .quoted c => k.push c true
  | .mark => { k with field := some (k.field.getD []), blank := false }
  | .boundary => { k.close with blank := false }
  | .inserted c =>
    if !separators.contains c then k.push c false
    else if c = ' ' || c = '\t' || c = '\n' then
      { k.close with blank := k.blank || k.field.isSome }
    else if k.blank then { k with blank := false }
    else { k with done := k.done ++ [k.field.getD []], field := none }

end Cutting

/-- The fields of some cells. -/
def fields (separators : Octets) (cells : List Cell) : List (List Mark) :=
  (cells.foldl (Cutting.step separators) {}).close.done

/-- The names of the files that a field stands for, or the field itself if there are none. -/
def fileNames (m : Machine) (field : List Mark) : List Octets :=
  let text := field.map Prod.fst
  if !m.globbing || !isPattern field then [text]
  else
    let p := pattern field
    let names := (Files.listed m.files).map fun f => Text.Octets.ofText f.1
    let hits := names.filter fun n =>
      matchesText p n && (n.head? ≠ some '.' || text.head? = some '.')
    if hits.isEmpty then [text] else hits

/-- What words stand for. -/
def expandWords (substitute : Octets → Act Octets) : List Octets → Act (List Octets)
  | [] => return []
  | raw :: rest => do
    let cs ← wordCells substitute raw
    let seps ← separators
    let front := (fields seps cs).flatMap (fileNames (← get))
    return front ++ (← expandWords substitute rest)

end Rill.Script
