import Rill.Script.Lexeme

/-!
# Reading scripts

The commands of a script, by recursive descent on its lexemes. Words like `if` are taken for what
they are only where a command begins.
-/

namespace Rill.Script

open Rill.Text (Octets)

/-- Where reading stands. -/
abbrev Reader := StateT Cut (Except Fault)

namespace Reader

/-- The next lexeme, which stays. -/
def peek : Reader (Option Lexeme) := return (← get).lexemes.head?

/-- Drops the next lexeme. -/
def skip : Reader Unit := modify fun c => { c with lexemes := c.lexemes.drop 1 }

/-- The words that mean something where a command begins. -/
def keywords : List String :=
  ["!", "case", "do", "done", "elif", "else", "esac", "fi", "for", "if", "in", "then", "until",
    "while", "\x7b", "\x7d"]

/-- How a lexeme is named in a message, where a command may begin or not. -/
def shown (atCommand : Bool) : Lexeme → String
  | .word raw =>
    let text := Text.Octets.toText raw
    if atCommand && keywords.contains text then "\"" ++ text ++ "\"" else "word"
  | .number _ => "redirection"
  | .symbol s => if s.toList.any (fun c => c == '<' || c == '>') then "redirection"
    else "\"" ++ s ++ "\""
  | .newline => "newline"

/-- Fails because of the next lexeme, where a command may begin or not. -/
def refuseAt {α : Type} (atCommand : Bool) (expected : Option String) : Reader α := do
  match ← peek with
  | none => throw (.endOfFile expected)
  | some l => throw (.unexpected (shown atCommand l) expected)

/-- Fails because of the next lexeme, where a command may begin. -/
def refuse {α : Type} (expected : Option String) : Reader α := refuseAt true expected

/-- Whether the next lexeme is a certain word. -/
def atWord (w : String) : Reader Bool := return (← peek) == some (.word w.toList)

/-- Whether the next lexeme is a certain symbol. -/
def atSymbol (s : String) : Reader Bool := return (← peek) == some (.symbol s)

/-- Drops a certain word. -/
def word (w : String) : Reader Unit := do
  if ← atWord w then skip else refuse (some w)

/-- Drops a certain symbol. -/
def symbol (s : String) : Reader Unit := do
  if ← atSymbol s then skip else refuseAt false (some s)

/-- Drops ends of lines. -/
def skipNewlines : Nat → Reader Unit
  | 0 => return ()
  | fuel + 1 => do
    if (← peek) == some .newline then
      skip
      skipNewlines fuel

/-- Drops all ends of lines that come next. -/
def lines : Reader Unit := do skipNewlines (← get).lexemes.length

end Reader

open Reader

/-- Whether a name may begin with the character. -/
def isNameStart (c : Char) : Bool := c.isAlpha || c == '_'

/-- Whether a name may hold the character. -/
def isNameChar (c : Char) : Bool := c.isAlphanum || c == '_'

/-- Whether some characters are a name. -/
def isName (cs : Octets) : Bool :=
  match cs with
  | [] => false
  | c :: cs => isNameStart c && cs.all isNameChar

/-- The name and the value of a word that assigns. -/
def assignment? (raw : Octets) : Option (Octets × Octets) :=
  let name := raw.takeWhile (· != '=')
  match raw.dropWhile (· != '=') with
  | _ :: value => if isName name then some (name, value) else none
  | [] => none

/-- The words that end a list of commands. -/
def closers : List String := ["then", "else", "elif", "fi", "do", "done", "esac", "\x7d"]

/-- Whether a list of commands has ended. -/
def atEnd : Reader Bool := do
  match ← peek with
  | none => return true
  | some (.word raw) => return closers.any fun w => w.toList == raw
  | some (.symbol s) => return s == ")" || s == ";;"
  | some _ => return false

/-- What a symbol of a redirection does, and the descriptor that it is about. -/
def redirectionOf? (s : String) : Option (Direction × Nat) :=
  match s with
  | "<" => some (.read, 0)
  | ">" | ">|" => some (.write, 1)
  | ">>" => some (.append, 1)
  | "<>" => some (.read, 0)
  | "<&" => some (.duplicate, 0)
  | ">&" => some (.duplicate, 1)
  | _ => none

/-- A redirection from a text behind the line. -/
def inlined (number : Option Nat) (more : List Lexeme) : Reader (Option Redirection) := do
  let c ← get
  set { lexemes := more, texts := c.texts.drop 1 : Cut }
  let (text, live) := c.texts.headD ([], true)
  return some ⟨number.getD 0, .inline live, text⟩

/-- A redirection, if one comes next. -/
def redirection? : Reader (Option Redirection) := do
  let (number, rest) :=
    match (← get).lexemes with
    | .number n :: rest => (some n, rest)
    | rest => (none, rest)
  match rest with
  | .symbol s :: .word raw :: more =>
    match redirectionOf? s with
    | some (direction, fd) =>
      modify fun c => { c with lexemes := more }
      return some ⟨number.getD fd, direction, raw⟩
    | none =>
      if s = "<<" || s = "<<-" then inlined number (.word raw :: more) else return none
  | .symbol s :: more =>
    if s = "<<" || s = "<<-" then inlined number more
    else if (redirectionOf? s).isSome then
      modify fun c => { c with lexemes := more }
      refuse none
    else return none
  | _ => return none

/-- The redirections that come next. -/
def redirections : Nat → Reader (List Redirection)
  | 0 => return []
  | fuel + 1 => do
    match ← redirection? with
    | none => return []
    | some r => return r :: (← redirections fuel)

/-- A command with redirections, if there are any. -/
def withRedirections (node : Node) (rs : List Redirection) : Node :=
  if rs.isEmpty then node else .redirected node rs

/-- The parts of a simple command. -/
structure Simple where
  /-- The assignments. -/
  assignments : List (Octets × Octets) := []
  /-- The words. -/
  words : List Octets := []
  /-- The redirections. -/
  redirections : List Redirection := []

/-- The rest of a simple command. -/
def simpleRest : Nat → Simple → Reader Simple
  | 0, s => return s
  | fuel + 1, s => do
    match ← redirection? with
    | some r => simpleRest fuel { s with redirections := s.redirections ++ [r] }
    | none =>
      match ← peek with
      | some (.word raw) =>
        skip
        match if s.words.isEmpty then assignment? raw else none with
        | some a => simpleRest fuel { s with assignments := s.assignments ++ [a] }
        | none => simpleRest fuel { s with words := s.words ++ [raw] }
      | some (.number n) =>
        skip
        simpleRest fuel { s with words := s.words ++ [Nat.toDigits 10 n] }
      | _ => return s

/-- A simple command. -/
def simple : Reader Node := do
  let s ← simpleRest (← get).lexemes.length {}
  if s.assignments.isEmpty && s.words.isEmpty && s.redirections.isEmpty then refuse none
  return withRedirections (.simple s.assignments s.words) s.redirections

/-- The words up to the end of a line or a semicolon. -/
def wordList : Nat → Reader (List Octets)
  | 0 => return []
  | fuel + 1 => do
    match ← peek with
    | some (.word raw) =>
      skip
      return raw :: (← wordList fuel)
    | _ => return []

/-- The patterns of a case, with bars between them. -/
def patterns : Nat → Reader (List Octets)
  | 0 => return []
  | fuel + 1 => do
    match ← peek with
    | some (.word raw) =>
      skip
      if ← atSymbol "|" then
        skip
        return raw :: (← patterns fuel)
      else return [raw]
    | _ => refuse none

mutual

/-- Commands up to the end of a list. -/
def list : Nat → Reader Node
  | 0 => return .empty
  | fuel + 1 => do
    lines
    if ← atEnd then return .empty
    let first ← andOr fuel
    let (node, more) ←
      if ← atSymbol ";" then do skip; pure (first, true)
      else if ← atSymbol "&" then do skip; pure (.background first, true)
      else if (← peek) == some .newline then pure (first, true)
      else pure (first, false)
    if !more then
      if ← atEnd then return .sequence [node] else refuse none
    match ← list fuel with
    | .sequence rest => return .sequence (node :: rest)
    | rest => return .sequence [node, rest]

/-- Pipelines with `&&` and `||` between them. -/
def andOr : Nat → Reader Node
  | 0 => return .empty
  | fuel + 1 => do
    let first ← pipeline fuel
    andOrRest fuel first

/-- What follows a pipeline on both sides of `&&` or `||`. -/
def andOrRest : Nat → Node → Reader Node
  | 0, first => return first
  | fuel + 1, first => do
    if ← atSymbol "&&" then
      skip
      lines
      let second ← pipeline fuel
      andOrRest fuel (.both first second)
    else if ← atSymbol "||" then
      skip
      lines
      let second ← pipeline fuel
      andOrRest fuel (.either first second)
    else return first

/-- Commands with bars between them, which may be negated. -/
def pipeline : Nat → Reader Node
  | 0 => return .empty
  | fuel + 1 => do
    if ← atWord "!" then
      skip
      return .negated (← pipeline fuel)
    let first ← command fuel
    if ← atSymbol "|" then return .pipeline (first :: (← piped fuel)) else return first

/-- The commands behind the bars that come next. -/
def piped : Nat → Reader (List Node)
  | 0 => return []
  | fuel + 1 => do
    if ← atSymbol "|" then
      skip
      lines
      let next ← command fuel
      return next :: (← piped fuel)
    else return []

/-- One command. -/
def command : Nat → Reader Node
  | 0 => return .empty
  | fuel + 1 => do
    let (node, compound) ← match (← get).lexemes with
      | .symbol "(" :: _ => do
        skip
        let body ← list fuel
        if (← atSymbol ")") && body matches .sequence [] then refuse none
        symbol ")"
        pure (.subshell body, true)
      | .word w :: .symbol "(" :: _ => do
        if isName w then
          skip
          skip
          symbol ")"
          lines
          pure (.define w (← command fuel), true)
        else if closers.any fun c => c.toList == w then refuse none
        else throw .badFunctionName
      | .word w :: _ =>
        match String.ofList w with
        | "\x7b" => do
          skip
          let body ← list fuel
          word "\x7d"
          pure (body, true)
        | "if" => do
          skip
          pure (← branches fuel, true)
        | "while" | "until" => do
          skip
          let condition ← list fuel
          word "do"
          let body ← list fuel
          word "done"
          pure (.loop (w = "until".toList) condition body, true)
        | "for" => do
          skip
          pure (← eachLoop fuel, true)
        | "case" => do
          skip
          pure (← selection fuel, true)
        | _ => do
          if ← atEnd then refuse none
          pure (← simple, false)
      | _ => pure (← simple, false)
    if compound then
      return withRedirections node (← redirections (← get).lexemes.length)
    else return node

/-- A choice, after `if`. -/
def branches : Nat → Reader Node
  | 0 => return .empty
  | fuel + 1 => do
    let condition ← list fuel
    word "then"
    let body ← list fuel
    if ← atWord "elif" then
      skip
      return .choice condition body (← branches fuel)
    else if ← atWord "else" then
      skip
      let otherwise ← list fuel
      word "fi"
      return .choice condition body otherwise
    else
      word "fi"
      return .choice condition body .empty

/-- A command for each word, after `for`. -/
def eachLoop : Nat → Reader Node
  | 0 => return .empty
  | fuel + 1 => do
    match ← peek with
    | some (.word name) =>
      if !isName name then throw .badLoopVariable
      skip
      lines
      let words ←
        if ← atWord "in" then do
          skip
          pure (some (← wordList (← get).lexemes.length))
        else pure none
      if ← atSymbol ";" then skip
      lines
      word "do"
      let body ← list fuel
      word "done"
      return .each name words body
    | _ => throw .badLoopVariable

/-- A selection, after `case`. -/
def selection : Nat → Reader Node
  | 0 => return .empty
  | fuel + 1 => do
    match ← peek with
    | some (.word subject) =>
      skip
      lines
      word "in"
      let cases ← caseList fuel
      word "esac"
      return .select subject cases
    | _ => refuse none

/-- The cases of a selection. -/
def caseList : Nat → Reader (List (List Octets × Node))
  | 0 => return []
  | fuel + 1 => do
    lines
    if ← atWord "esac" then return []
    if ← atSymbol "(" then skip
    let ps ← patterns (← get).lexemes.length
    symbol ")"
    let body ← list fuel
    if ← atSymbol ";;" then
      skip
      return (ps, body) :: (← caseList fuel)
    else
      lines
      return [(ps, body)]

end

/-- The commands up to the end of a line. -/
def lineCommands (fuel : Nat) : Nat → Reader (List Node)
  | 0 => return []
  | count + 1 => do
    let first ← andOr fuel
    let (node, more) ←
      if ← atSymbol ";" then do skip; pure (first, true)
      else if ← atSymbol "&" then do skip; pure (.background first, true)
      else pure (first, false)
    match ← peek with
    | none | some .newline => return [node]
    | some _ => if more then return node :: (← lineCommands fuel count) else refuse none

/-- The commands of lines, one list for each, up to the first line with a fault. -/
def readLines (fuel : Nat) : Nat → Cut → List Node × Option Fault
  | 0, _ => ([], none)
  | count + 1, c =>
    match (do lines; if (← peek).isNone then return none else some <$> lineCommands fuel fuel :
        Reader (Option (List Node))).run c with
    | .error f => ([], some f)
    | .ok (none, _) => ([], none)
    | .ok (some nodes, rest) =>
      let (more, f) := readLines fuel count rest
      (.sequence nodes :: more, f)

/-- The commands of a script, one for each line, and what is wrong with the line behind them. A line
is run before the next is read. -/
def read (script : Octets) : List Node × Option Fault :=
  match cut (script.length + 1) [] script with
  | .error f => ([], some f)
  | .ok c => readLines (8 * c.lexemes.length + 16) (c.lexemes.length + 1) c

end Rill.Script
