import Rill.Script.Syntax

/-!
# Lexemes of scripts

A script is cut into words, symbols and ends of lines. A word goes on through quotes and through
what is to be put in for it, which may hold anything. The text that follows a line with `<<` is read
at the end of that line.
-/

namespace Rill.Script

open Rill.Text (Octets)

/-- A piece of a script. -/
inductive Lexeme where
  /-- A word, as it is written. -/
  | word (raw : Octets)
  /-- The number of a descriptor, right before a redirection. -/
  | number (n : Nat)
  /-- A symbol. -/
  | symbol (s : String)
  /-- The end of a line. -/
  | newline
  deriving DecidableEq, Repr

/-- What is wrong with a script. -/
inductive Fault where
  | openQuote
  | openBackquote
  | openBrace
  /-- The script ends where something else has to stand. -/
  | endOfFile (expected : Option String)
  /-- A word or symbol stands where none can. -/
  | unexpected (what : String) (expected : Option String)
  | badFunctionName
  | badLoopVariable
  deriving DecidableEq, Repr

/-- What should have stood there. -/
def expectation (expected : Option String) : String :=
  match expected with
  | some s => " (expecting \"" ++ s ++ "\")"
  | none => ""

/-- The wording of a fault. -/
def Fault.message : Fault → String
  | .openQuote => "Syntax error: Unterminated quoted string"
  | .openBackquote => "Syntax error: EOF in backquote substitution"
  | .openBrace => "Syntax error: Missing '\x7d'"
  | .endOfFile expected => "Syntax error: end of file unexpected" ++ expectation expected
  | .unexpected what expected => "Syntax error: " ++ what ++ " unexpected" ++ expectation expected
  | .badFunctionName => "Syntax error: Bad function name"
  | .badLoopVariable => "Syntax error: Bad for loop variable"

/-! ## Words -/

/-- What is being read inside a word: the text up to the end of it is part of the word. -/
inductive Inside where
  /-- Text between double quotes. -/
  | quotes
  /-- A command between parentheses, of which so many are open. -/
  | parentheses (depth : Nat)
  /-- A parameter between braces. -/
  | braces
  deriving DecidableEq, Repr

/-- The characters up to one, with it, and those behind it. -/
def throughChar (stop : Char) : Octets → Option (Octets × Octets)
  | [] => none
  | c :: cs =>
    if c = stop then some ([c], cs)
    else (throughChar stop cs).map fun (text, rest) => (c :: text, rest)

/-- The characters up to a backquote that no backslash stands before, with it. -/
def throughBackquote : Octets → Option (Octets × Octets)
  | [] => none
  | '\x60' :: cs => some (['\x60'], cs)
  | '\\' :: c :: cs => (throughBackquote cs).map fun (text, rest) => ('\\' :: c :: text, rest)
  | c :: cs => (throughBackquote cs).map fun (text, rest) => (c :: text, rest)

/-- The fault of a script that ends inside something. -/
def Inside.fault : Inside → Fault
  | .quotes => .openQuote
  | .parentheses _ => .endOfFile (some ")")
  | .braces => .openBrace

/-- `text` before what was read. -/
def prepend (text : Octets) (r : Except Fault (Octets × Octets)) : Except Fault (Octets × Octets) :=
  r.map fun (more, rest) => (text ++ more, rest)

/-- A stack of what is being read, the innermost first, and the characters: those up to the end of
all of it, and those behind it. -/
def through : Nat → List Inside → Octets → Except Fault (Octets × Octets)
  | 0, _, _ => .error .openQuote
  | _ + 1, [], cs => .ok ([], cs)
  | _ + 1, i :: _, [] => .error i.fault
  | fuel + 1, i :: is, '\\' :: c :: cs => prepend ['\\', c] (through fuel (i :: is) cs)
  | fuel + 1, i :: is, '$' :: '(' :: cs =>
    prepend ['$', '('] (through fuel (.parentheses 0 :: i :: is) cs)
  | fuel + 1, i :: is, '$' :: '\x7b' :: cs =>
    prepend ['$', '\x7b'] (through fuel (.braces :: i :: is) cs)
  | fuel + 1, i :: is, '\x60' :: cs =>
    match throughBackquote cs with
    | none => .error .openBackquote
    | some (text, rest) => prepend ('\x60' :: text) (through fuel (i :: is) rest)
  | fuel + 1, i :: is, c :: cs =>
    match i, c with
    | .quotes, '"' => prepend [c] (through fuel is cs)
    | .quotes, _ => prepend [c] (through fuel (i :: is) cs)
    | .parentheses _, '"' | .braces, '"' => prepend [c] (through fuel (.quotes :: i :: is) cs)
    | .parentheses _, '\'' =>
      match throughChar '\'' cs with
      | none => .error .openQuote
      | some (text, rest) => prepend (c :: text) (through fuel (i :: is) rest)
    | .braces, '\'' =>
      if is.contains .quotes then prepend [c] (through fuel (i :: is) cs)
      else
        match throughChar '\'' cs with
        | none => .error .openQuote
        | some (text, rest) => prepend (c :: text) (through fuel (i :: is) rest)
    | .parentheses n, '(' => prepend [c] (through fuel (.parentheses (n + 1) :: is) cs)
    | .parentheses (n + 1), ')' => prepend [c] (through fuel (.parentheses n :: is) cs)
    | .parentheses 0, ')' => prepend [c] (through fuel is cs)
    | .braces, '\x7d' => prepend [c] (through fuel is cs)
    | i, c => prepend [c] (through fuel (i :: is) cs)

/-- Whether a character ends a word. -/
def endsWord (c : Char) : Bool :=
  [' ', '\t', '\n', ';', '&', '|', '<', '>', '(', ')'].contains c

/-- The word at the front, and what is behind it. -/
def takeWord : Nat → Octets → Except Fault (Octets × Octets)
  | 0, cs => .ok ([], cs)
  | _ + 1, [] => .ok ([], [])
  | fuel + 1, '\\' :: '\n' :: cs => takeWord fuel cs
  | fuel + 1, '\\' :: c :: cs => prepend ['\\', c] (takeWord fuel cs)
  | fuel + 1, '\'' :: cs =>
    match throughChar '\'' cs with
    | none => .error .openQuote
    | some (text, rest) => prepend ('\'' :: text) (takeWord fuel rest)
  | fuel + 1, '"' :: cs => do
    let (text, rest) ← through (cs.length + 1) [.quotes] cs
    prepend ('"' :: text) (takeWord fuel rest)
  | fuel + 1, '$' :: '(' :: cs => do
    let (text, rest) ← through (cs.length + 1) [.parentheses 0] cs
    prepend ('$' :: '(' :: text) (takeWord fuel rest)
  | fuel + 1, '$' :: '\x7b' :: cs => do
    let (text, rest) ← through (cs.length + 1) [.braces] cs
    prepend ('$' :: '\x7b' :: text) (takeWord fuel rest)
  | fuel + 1, '\x60' :: cs =>
    match throughBackquote cs with
    | none => .error .openBackquote
    | some (text, rest) => prepend ('\x60' :: text) (takeWord fuel rest)
  | fuel + 1, c :: cs =>
    if endsWord c then .ok ([], c :: cs) else prepend [c] (takeWord fuel cs)

/-! ## Texts behind a line -/

/-- A text that is to be read behind the line: the word that ends it, and whether tabs before its
lines are dropped. -/
structure Pending where
  /-- The word that ends it, as it is written. -/
  stop : Octets
  /-- Whether tabs are dropped. -/
  stripped : Bool
  deriving DecidableEq, Repr

/-- A word without its quotes, when nothing is put in for it. -/
def unquoted (raw : Octets) : Octets := raw.filter fun c => c != '\'' && c != '"' && c != '\\'

/-- Whether any part of a word is quoted. -/
def isQuoted (raw : Octets) : Bool := raw.any fun c => c == '\'' || c == '"' || c == '\\'

/-- The first line, and what is behind it. -/
def takeLine (cs : Octets) : Octets × Octets :=
  (cs.takeWhile (· != '\n'), (cs.dropWhile (· != '\n')).drop 1)

/-- The lines up to the one that ends a text, and what is behind it. -/
def takeText (p : Pending) : Nat → Octets → Octets × Octets
  | 0, cs => ([], cs)
  | _ + 1, [] => ([], [])
  | fuel + 1, cs =>
    let (line, rest) := takeLine cs
    let line := if p.stripped then line.dropWhile (· == '\t') else line
    if line = unquoted p.stop then ([], rest)
    else
      let (more, rest) := takeText p fuel rest
      (line ++ '\n' :: more, rest)

/-! ## Scripts -/

/-- The symbols, longer ones first. -/
def symbols : List String :=
  ["<<-", "&&", "||", ";;", "<<", ">>", "<&", ">&", "<>", ">|", ";", "&", "|", "<", ">", "(", ")"]

/-- The symbol at the front. -/
def takeSymbol? (cs : Octets) : Option (String × Octets) :=
  (symbols.find? fun s => s.toList.isPrefixOf cs).map fun s => (s, cs.drop s.length)

/-- Whether a redirection comes next. -/
def startsRedirection (cs : Octets) : Bool :=
  match cs with
  | '<' :: _ | '>' :: _ => true
  | _ => false

/-- The number that some digits write. -/
def digitsValue (cs : Octets) : Nat := cs.foldl (fun n c => n * 10 + (c.toNat - '0'.toNat)) 0

/-- The lexemes of a script, and the texts behind its lines. -/
structure Cut where
  /-- The lexemes. -/
  lexemes : List Lexeme := []
  /-- The texts that `<<` asked for, in order, and whether something is put in for their parts. -/
  texts : List (Octets × Bool) := []
  deriving Repr

/-- One more lexeme before the others. -/
def Cut.after (l : Lexeme) (c : Cut) : Cut := { c with lexemes := l :: c.lexemes }

/-- The texts that are to be read behind a line. -/
def takeTexts : List Pending → Octets → List (Octets × Bool) × Octets
  | [], cs => ([], cs)
  | p :: ps, cs =>
    let (text, rest) := takeText p (cs.length + 1) cs
    let (more, rest) := takeTexts ps rest
    ((text, !isQuoted p.stop) :: more, rest)

/-- Cuts a script. `pending` are the texts to be read behind this line, backwards. -/
def cut : Nat → List Pending → Octets → Except Fault Cut
  | 0, _, _ => .ok {}
  | _ + 1, _, [] => .ok {}
  | fuel + 1, pending, '\n' :: cs => do
    let (texts, rest) := takeTexts pending.reverse cs
    let c ← cut fuel [] rest
    return { lexemes := .newline :: c.lexemes, texts := texts ++ c.texts }
  | fuel + 1, pending, '\\' :: '\n' :: cs => cut fuel pending cs
  | fuel + 1, pending, '#' :: cs => cut fuel pending (cs.dropWhile (· != '\n'))
  | fuel + 1, pending, c :: cs =>
    if c = ' ' || c = '\t' then cut fuel pending cs
    else
      match takeSymbol? (c :: cs) with
      | some (s, rest) =>
        if s = "<<" || s = "<<-" then do
          let start := rest.dropWhile fun c => c == ' ' || c == '\t'
          let (stop, rest) ← takeWord (start.length + 1) start
          return (← cut fuel (⟨stop, s = "<<-"⟩ :: pending) rest).after (.symbol s)
        else do return (← cut fuel pending rest).after (.symbol s)
      | none => do
        let (raw, rest) ← takeWord (cs.length + 2) (c :: cs)
        let lexeme :=
          if raw.all Char.isDigit && startsRedirection rest then .number (digitsValue raw)
          else .word raw
        return (← cut fuel pending rest).after lexeme

end Rill.Script
