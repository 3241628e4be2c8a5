import Rill.Eval
import Rill.Line.Parser
import Rill.Token

/-!
# Sessions

Lines that are read and pulled one after the other in one world. Reading a line makes its stream at
once: what stands before a `;` is pulled to its end, and the arguments of a command are evaluated.
-/

namespace Rill.Session

/-- Fuel for anything that ends. -/
def fuel : Nat := 0x1000000000000000

/-- Reads a list of tokens and makes its stream. -/
def openTokens (context : Context) (fuel : Nat) (tokens : List String) :
    Run (Except Error (Stream × Mode)) := do
  let w ← get
  let (result, w) := parse context tokens w
  set w
  match result with
  | .error e => return .error e
  | .ok (f, mode) =>
    let s ← Eval.invoke context fuel f .empty
    return .ok (s, mode)

/-- Reads a line and makes its stream. -/
def openLine (context : Context) (fuel : Nat) (line : String) :
    Run (Except Error (Stream × Mode)) :=
  openTokens context fuel (Token.texts line)

/-- Reads a line; a line that is at fault is a stream of its error. -/
def openAny (context : Context) (fuel : Nat) (line : String) : Run (Stream × Mode) := do
  match ← openLine context fuel line with
  | .ok r => return r
  | .error e => return (.fail e, .default)

/-- The next `count` elements, whether the stream has ended before them, and what is left. -/
def take (context : Context) (fuel : Nat) : Nat → Stream → Run (List Item × Bool × Stream)
  | 0, s => return ([], false, s)
  | count + 1, s => do
    let (item, s) ← Eval.pull context fuel s
    match item with
    | none => return ([], true, s)
    | some item =>
      let (items, ended, s) ← take context fuel count s
      return (item :: items, ended, s)

/-- Pulls everything for its effects. -/
def drain (context : Context) (fuel : Nat) (s : Stream) : Run Unit :=
  (Eval.calls context fuel).drain fuel s

end Rill.Session
