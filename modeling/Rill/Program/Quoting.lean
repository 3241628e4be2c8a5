import Rill.Program.Numeral

/-!
# Quoted arguments

Two ways in which programs show an argument: in messages between single quotes, with escapes for
what does not show, and in the form in which a shell reads it back.
-/

namespace Rill.Program

open Rill.Text (Octets)

/-- The letter of a control character that has one. -/
def controlLetter? (c : Char) : Option Char :=
  match c with
  | '\x07' => some 'a'
  | '\x08' => some 'b'
  | '\x0c' => some 'f'
  | '\n' => some 'n'
  | '\r' => some 'r'
  | '\t' => some 't'
  | '\x0b' => some 'v'
  | _ => none

/-- Whether a byte shows. -/
def isVisible (c : Char) : Bool := ' ' ≤ c && c ≤ '~'

/-- A byte by its octal code. -/
def octalCode (c : Char) : Octets := '\\' :: Number.paddedDigits 8 3 c.toNat

/-- A byte of a message. -/
def shownByte (c : Char) : Octets :=
  match controlLetter? c with
  | some letter => ['\\', letter]
  | none =>
    if c = '\'' || c = '\\' then ['\\', c] else if isVisible c then [c] else octalCode c

/-- An argument in a message. -/
def shownArgument (cs : Octets) : Octets := '\'' :: (cs.flatMap shownByte ++ ['\''])

/-- Whether a shell takes a byte for something else than itself. -/
def isSpecial (c : Char) : Bool :=
  [' ', '!', '"', '#', '$', '&', '\'', '(', ')', '*', ';', '<', '=', '>', '?', '[', '\\', '^',
    '\x60', '|', '~'].contains c

/-- Whether an argument has to be quoted for a shell. Some bytes are special only in front, and
braces only by themselves. -/
def needsQuotes (cs : Octets) : Bool :=
  match cs with
  | [] => true
  | ['\x7b'] | ['\x7d'] => true
  | c :: rest =>
    isSpecial c || !isVisible c ||
      rest.any fun d => (isSpecial d && d != '#' && d != '~') || !isVisible d

/-- Bytes after an open quote, up to one that closes. Those that do not show stand in quotes of their
own, in which `escaping` says that the byte before them stands. -/
def shellPieces (escaping : Bool) : Octets → Octets
  | [] => ['\'']
  | c :: cs =>
    if c = '\'' then ['\'', '\\', '\'', '\''] ++ shellPieces false cs
    else if isVisible c then (if escaping then ['\'', '\''] else []) ++ c :: shellPieces false cs
    else
      let code := match controlLetter? c with | some letter => ['\\', letter] | none => octalCode c
      (if escaping then [] else ['\'', '$', '\'']) ++ code ++ shellPieces true cs

/-- Whether an argument can stand between double quotes. -/
def fitsDoubleQuotes (cs : Octets) : Bool :=
  cs.contains '\'' && cs.all fun c =>
    isVisible c && !(['"', '$', '\\', '\x60', '!', '^'].contains c)

/-- An argument as a shell reads it back. -/
def shellQuoted (cs : Octets) : Octets :=
  if !needsQuotes cs then cs
  else if cs.isEmpty then ['\'', '\'']
  else if fitsDoubleQuotes cs then '"' :: (cs ++ ['"'])
  else '\'' :: shellPieces false cs

end Rill.Program
