import Rill.Program.Quoting

/-!
# Options

The arguments of a program are options and operands, in any order until `--`. A short option is one
letter after a dash, and several may stand together; a long one is a word after two dashes that may
be cut short as long as it stays clear which is meant.
-/

namespace Rill.Program

open Rill.Text (Octets)

/-- A long option: its name, whether it takes a value, and the letter it stands for. -/
structure LongOption where
  /-- The name. -/
  name : String
  /-- Whether it takes a value. -/
  valued : Bool := false
  /-- The letter it stands for. -/
  letter : Char
  deriving Repr

/-- The options that a program knows. -/
structure OptionSet where
  /-- The letters of options without a value. -/
  plain : List Char := []
  /-- The letters of options with a value. -/
  valued : List Char := []
  /-- The long options, besides those for help and for the version. -/
  long : List LongOption := []
  deriving Repr

/-- The letter that stands for a request for help or for the version. -/
def informLetter : Char := '?'

/-- The long options that every program knows. -/
def commonOptions : List LongOption :=
  [{ name := "help", letter := informLetter }, { name := "version", letter := informLetter }]

/-- What was found among some arguments. -/
structure Parsed where
  /-- The options in order, with their values. -/
  options : List (Char × Octets) := []
  /-- The other arguments. -/
  operands : List Octets := []
  deriving Repr

namespace Parsed

/-- Whether an option was given. -/
def has (p : Parsed) (c : Char) : Bool := p.options.any (·.1 == c)

/-- The value of an option, the last one given. -/
def value? (p : Parsed) (c : Char) : Option Octets :=
  (p.options.filter (·.1 == c)).getLast?.map Prod.snd

end Parsed

/-- The short options of one argument, after its dash, and the arguments that are left. -/
def takeShort (set : OptionSet) : Octets → List Octets → Except Octets
    (List (Char × Octets) × List Octets)
  | [], args => .ok ([], args)
  | c :: cs, args =>
    if set.plain.contains c then
      (takeShort set cs args).map fun (more, args) => ((c, []) :: more, args)
    else if set.valued.contains c then
      match cs, args with
      | [], [] => .error ("option requires an argument -- '".toList ++ [c, '\''])
      | [], arg :: args => .ok ([(c, arg)], args)
      | cs, args => .ok ([(c, cs)], args)
    else .error ("invalid option -- '".toList ++ [c, '\''])

/-- A name of an option in a message. -/
def shownOption (name : Octets) : Octets := "'--".toList ++ name ++ ['\'']

/-- The long option that a name stands for. -/
def findLong (set : OptionSet) (name : Octets) : Except Octets LongOption :=
  let all := set.long ++ commonOptions
  let found := all.filter fun o => name.isPrefixOf o.name.toList
  match found.filter (fun o => o.name.toList = name), found with
  | o :: _, _ => .ok o
  | [], [o] => .ok o
  | [], [] => .error ("unrecognized option ".toList ++ shownOption name)
  | [], os =>
    .error ("option ".toList ++ shownOption name ++ " is ambiguous; possibilities:".toList ++
      os.flatMap fun o => ' ' :: shownOption o.name.toList)

/-- The long option of one argument, after its dashes, and the arguments that are left. -/
def takeLong (set : OptionSet) (cs : Octets) (args : List Octets) :
    Except Octets ((Char × Octets) × List Octets) := do
  let name := cs.takeWhile (· != '=')
  let o ← findLong set name
  match cs.dropWhile (· != '='), o.valued, args with
  | _ :: value, true, args => return ((o.letter, value), args)
  | _ :: _, false, _ =>
    throw ("option ".toList ++ shownOption o.name.toList ++ " doesn't allow an argument".toList)
  | [], false, args => return ((o.letter, []), args)
  | [], true, arg :: args => return ((o.letter, arg), args)
  | [], true, [] =>
    throw ("option ".toList ++ shownOption o.name.toList ++ " requires an argument".toList)

/-- The options and operands of some arguments, or what is wrong with them. -/
def parseOptions (set : OptionSet) : Nat → List Octets → Except Octets Parsed
  | 0, _ => .ok {}
  | _ + 1, [] => .ok {}
  | fuel + 1, arg :: args =>
    match arg with
    | ['-', '-'] => .ok { operands := args }
    | '-' :: '-' :: cs => do
      let (o, rest) ← takeLong set cs args
      let p ← parseOptions set fuel rest
      return { p with options := o :: p.options }
    | '-' :: c :: cs => do
      let (os, rest) ← takeShort set (c :: cs) args
      let p ← parseOptions set fuel rest
      return { p with options := os ++ p.options }
    | arg => do
      let p ← parseOptions set fuel args
      return { p with operands := arg :: p.operands }

end Rill.Program
