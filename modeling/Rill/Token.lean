import Rill.Text.Blank

/-!
# Tokens

A line is cut into chunks by a machine that reads one character at a time and knows, of the current
chunk, whether it is a word, an operator, a number, a quoted text or none of these. A quoted chunk
is a token with its quotes. Of any other chunk the blanks at its ends are dropped, and every `..` in
it is a token of its own, so that `1..3` is three tokens. A token is a part of its line, and its
span says which.
-/

namespace Rill

/-- A part of a line. -/
structure Token where
  /-- The characters. -/
  text : String
  /-- How many bytes of the line come before it. -/
  start : Nat
  /-- How many bytes of the line come before its end. -/
  stop : Nat
  deriving DecidableEq, Repr

namespace Token

/-! ## Classes of characters -/

/-- The characters that open a quoted text, each closed by itself. -/
def isQuote (c : Char) : Bool := c == '"' || c == '\'' || c == '\x60'

/-- The characters that begin an operator. -/
def isOperatorChar (c : Char) : Bool :=
  ['!', '&', '%', '+', '-', '*', '/', '<', '=', '>', '|'].contains c

/-- The characters that end a word and are not blank. -/
def isStructural (c : Char) : Bool :=
  ['(', ')', '\x7b', '\x7d', '[', ']', '"', '\'', '\x60', ';', ':', '<', '>', ','].contains c

/-- The characters that end a word. -/
def isTerminator (c : Char) : Bool := Text.isBlank c || isStructural c

/-- The decimal digits. -/
def isDigit (c : Char) : Bool := '0' ≤ c && c ≤ '9'

/-- The hexadecimal digits. -/
def isHexDigit (c : Char) : Bool :=
  isDigit c || ('a' ≤ c && c ≤ 'f') || ('A' ≤ c && c ≤ 'F')

/-- Two characters that are one operator. -/
def isPair (first second : Char) : Bool :=
  [('<', '='), ('=', '='), ('>', '='), ('!', '='), ('&', '&'), ('|', '|'), ('-', '>')].contains
    (first, second)

/-! ## The machine -/

/-- What is known of the digits of a number. -/
inductive Base where
  /-- A zero, after which an `x` may come. -/
  | unknown
  /-- Decimal digits and points. -/
  | decimal
  /-- Hexadecimal digits. -/
  | hex
  deriving DecidableEq, Repr

/-- What the current chunk is. -/
inductive State where
  /-- A blank or a structural character. -/
  | idle
  /-- A word. -/
  | word
  /-- An operator; `pending` is its character if a second may still join it. -/
  | operator (pending : Option Char)
  /-- A number. -/
  | number (base : Base)
  /-- A quoted text; `close` is the quote that ends it until it has come. -/
  | quoted (close : Option Char)
  deriving DecidableEq, Repr

/-- The state of a chunk that begins with a character. -/
def State.ofFirst (c : Char) : State :=
  if isQuote c then .quoted (some c)
  else if isOperatorChar c then .operator (some c)
  else if isDigit c then .number (if c == '0' then .unknown else .decimal)
  else if isTerminator c then .idle
  else .word

/-- The state after a character if it belongs to the current chunk, and nothing if it begins
another. A dash or a slash right before a character of a word begins that word. -/
def State.extend? (s : State) (c : Char) : Option State :=
  match s with
  | .idle => none
  | .word => if isTerminator c then none else some .word
  | .operator (some first) =>
    if isPair first c then some (.operator none)
    else if (first == '-' || first == '/') && !isDigit c && !isTerminator c then some .word
    else none
  | .operator none => none
  | .number .unknown =>
    if c == 'x' then some (.number .hex)
    else if isDigit c || c == '.' then some (.number .decimal)
    else none
  | .number .decimal => if isDigit c || c == '.' then some (.number .decimal) else none
  | .number .hex => if isHexDigit c then some (.number .hex) else none
  | .quoted (some close) => some (.quoted (if c == close then none else some close))
  | .quoted none => none

/-- The chunks of the characters that follow `backwards`, the current chunk so far in reverse. -/
def chunksAfter (s : State) (backwards : List Char) : List Char → List (List Char)
  | [] => [backwards.reverse]
  | c :: cs =>
    match s.extend? c with
    | some next => chunksAfter next (c :: backwards) cs
    | none => backwards.reverse :: chunksAfter (State.ofFirst c) [c] cs

/-- The chunks of a line, which are not empty and make up the line. -/
def chunks : List Char → List (List Char)
  | [] => []
  | c :: cs => chunksAfter (State.ofFirst c) [c] cs

/-! ## Tokens of a chunk -/

/-- The number of bytes of some characters. -/
def byteSize (cs : List Char) : Nat := cs.foldr (fun c n => c.utf8Size + n) 0

/-- Some characters as a token, `start` bytes into the line. -/
def ofChars (start : Nat) (cs : List Char) : Token :=
  ⟨String.ofList cs, start, start + byteSize cs⟩

/-- A token of the characters that are given backwards and end at byte `stop`, if there are any. -/
def ofBackwards (backwards : List Char) (stop : Nat) : List Token :=
  if backwards.isEmpty then []
  else [⟨String.ofList backwards.reverse, stop - byteSize backwards, stop⟩]

/-- Cuts out every `..`; `backwards` is what came after the last one, in reverse, and `pos` is the
byte at which the characters begin. -/
def splitRanges (backwards : List Char) (pos : Nat) : List Char → List Token
  | '.' :: '.' :: cs =>
    ofBackwards backwards pos ++ ⟨"..", pos, pos + 2⟩ :: splitRanges [] (pos + 2) cs
  | c :: cs => splitRanges (c :: backwards) (pos + c.utf8Size) cs
  | [] => ofBackwards backwards pos

/-- The tokens of a chunk that begins at byte `start`. -/
def ofChunk (start : Nat) (chunk : List Char) : List Token :=
  match chunk with
  | [] => []
  | c :: _ =>
    if isQuote c then [ofChars start chunk]
    else
      let kept := Text.trimStart chunk
      splitRanges [] (start + (byteSize chunk - byteSize kept)) (Text.trimEnd kept)

/-- The tokens of the chunks that begin at byte `start`. -/
def ofChunks (start : Nat) : List (List Char) → List Token
  | [] => []
  | chunk :: rest => ofChunk start chunk ++ ofChunks (start + byteSize chunk) rest

/-- The tokens of a line. -/
def scan (line : String) : List Token := ofChunks 0 (chunks line.toList)

/-- The texts of the tokens of a line. -/
def texts (line : String) : List String := (scan line).map Token.text

end Token

end Rill
