import Rill.Line.Leaf
import Rill.Line.Stage
import Rill.Operand.Shown
import Rill.Record

/-!
# Lines

A line is read with two stacks, one of stages and one of pending operators. An operator between two
operands first folds the pending operators that bind at least as tightly, and then opens a stage for
its right side. Brackets are markers among the pending operators at which folding stops.

* `+` and `-` stand before an operand if the stage has none yet.
* `..` stands after its operand if nothing follows that could be its right side.
* `:` closes a pending `?`, and opens a print window otherwise.
* A brace opens a closure right after `|`, or after `=` if a name and `->` follow it, and a record
  otherwise.
* `> word` sends the output to a file if the word is no parameter.
* Inside a record only the operators that make one value of two are operators.

A line is read token by token (`Parse.token`), and gives a factory and a print mode (`parse`). While
it is read it binds names and takes slots; a line that fails gives its slots back.
-/

namespace Rill

/-- What a brace encloses. -/
inductive Body where
  | closure | record
  deriving DecidableEq, Repr

/-- An operator or a bracket that waits for what is to come. -/
inductive Pending where
  /-- An operator. -/
  | op (o : Operator)
  /-- `->`, with the slot of the parameter before it. -/
  | bind (slot : Handle)
  /-- `?`. -/
  | ternary
  /-- The `:` of a `?`. -/
  | ternaryElse
  /-- `(`. -/
  | paren
  /-- An opening brace. -/
  | brace (kind : Body)
  deriving DecidableEq, Repr

namespace Pending

/-- How tightly it binds; brackets do not. -/
def tier? : Pending → Option Nat
  | op o => some o.tier
  | bind _ => some Operator.bind.tier
  | ternary | ternaryElse => some Operator.ternaryTier
  | paren | brace _ => none

/-- Whether it is a bracket. -/
def isBracket (p : Pending) : Bool := p.tier?.isNone

/-- Whether it binds, and at a tier of which `keep` holds. -/
def binds (keep : Nat → Bool) (p : Pending) : Bool :=
  match p.tier? with
  | some t => keep t
  | none => false

end Pending

/-- A line while it is read. The tops of the stacks come first. -/
structure Parse where
  /-- The tokens to come. -/
  tokens : List String
  /-- The stages. -/
  stages : List Stage
  /-- The operators that wait. -/
  pending : List Pending
  /-- The slots that the line took, in order. -/
  taken : List Handle
  /-- All slots. -/
  slots : Slots
  /-- The named streams. -/
  env : Environment

/-- A step of reading a line. -/
abbrev Parser := EStateM Error Parse

namespace Parse

/-! ## The stacks -/

/-- The result of a part that does not look at the line. -/
def lift {α : Type} : Except Error α → Parser α
  | .ok a => pure a
  | .error e => throw e

/-- The stage on top. -/
def top : Parser Stage := do
  match (← get).stages with
  | s :: _ => return s
  | [] => throw .missingOperand

/-- Puts a stage on top. -/
def pushStage (s : Stage) : Parser Unit := modify fun p => { p with stages := s :: p.stages }

/-- Takes the stage on top. -/
def popStage : Parser Stage := do
  let p ← get
  match p.stages with
  | s :: rest =>
    set { p with stages := rest }
    return s
  | [] => throw .missingOperand

/-- Puts an operator on top, and a stage for what follows it. -/
def enter (pending : Pending) (s : Stage) : Parser Unit :=
  modify fun p => { p with pending := pending :: p.pending, stages := s :: p.stages }

/-- Adds an operand to the stage on top. -/
def pushOperand (x : Operand) : Parser Unit := do
  let s ← popStage
  let s ← lift (s.push x)
  pushStage s

/-! ## Folding -/

/-- Folds an operator before its operand, which is the first operand of the stage on top. -/
def foldPrefix (op : Operator) : Parser Unit := do
  let right ← popStage
  let left ← popStage
  let (x, right) ← lift right.takeFirst
  let left ← lift (left.push (.applyUnary right.scope op x))
  let left ← lift (left.pushAll right.operands)
  pushStage { left with mode := left.mode <|> right.mode }

/-- Folds an operator between the last operand of a stage and the first of the one on top. -/
def foldBinary (op : Operator) : Parser Unit := do
  let right ← popStage
  let left ← popStage
  let (x, left) ← lift left.pop
  let (y, right) ← lift right.takeFirst
  let left ← lift (left.push (.applyBinary right.scope op x y))
  let left ← lift (left.pushAll right.operands)
  pushStage { left with mode := left.mode <|> right.mode }

/-- The name of the file that a stage after `>` writes to. -/
def fileName? (s : Stage) : Option String :=
  match s.operands with
  | .word w :: _ => if s.scope.isVarPath w then none else some w
  | _ => none

/-- Folds `>`, which sends the output to a file or compares. -/
def foldGreater (s : Stage) : Parser Unit := do
  match fileName? s with
  | none => foldBinary .gt
  | some name =>
    let right ← popStage
    let left ← popStage
    let (_, right) ← lift right.takeFirst
    let left ← lift (left.pushAll right.operands)
    pushStage { left with mode := some (.write name) }

/-- Folds an assignment to a named stream or to a local one. -/
def foldAssign (context : Context) : Parser Unit := do
  let right ← popStage
  let left ← popStage
  let (target, left) ← lift left.pop
  let f := right.toFactory context
  match target with
  | .streamRef name =>
    modify fun p => { p with env := p.env.set name f }
    pushStage left
  | .word name => pushStage { left with scope := left.scope.override name f }
  | x => throw (.parse ("cannot assign to " ++ x.shown))

/-- Folds `|`: the stage before it feeds the one after it. -/
def foldPipe (context : Context) : Parser Unit := do
  let right ← popStage
  let left ← popStage
  let source := left.toFactory context
  let feed :=
    match right.feed with
    | some f => .compose source f
    | none => source
  pushStage { right with feed := some feed, mode := right.mode <|> left.mode }

/-- Folds `;`: the stage before it is pulled to the end before the one after it starts. -/
def foldSeq (context : Context) : Parser Unit := do
  let right ← popStage
  let left ← popStage
  let feed := .andThen (left.toFactory context) (right.feed.getD (.items []))
  pushStage { right with feed := some feed, mode := right.mode <|> left.mode }

/-- The print mode of `:` with what follows it. -/
def windowMode (operands : List Operand) : Mode :=
  match (operands.head?.bind Stage.value?).bind Value.float? with
  | some x =>
    if x ≥ 1.0 then
      .window (if x < Mode.maxWindow.toFloat then x.toUInt64.toNat else Mode.maxWindow)
    else .pull true
  | none => .pull true

/-- Folds `:`, which says how the line is to be printed. -/
def foldWindow : Parser Unit := do
  let right ← popStage
  let left ← popStage
  pushStage { left with mode := some (windowMode right.operands) }

/-- Folds `->`: what follows it is done for every value that its slot takes. -/
def foldBind (context : Context) (slot : Handle) : Parser Unit := do
  let right ← popStage
  let left ← popStage
  if left.closure.isSome then throw .closureNotFinal
  else
    pushStage
      { left with
        operands := []
        closure := some (.bind slot (right.toFactory context))
        mode := left.mode <|> right.mode }

/-- Folds a `?` and its `:`. -/
def foldTernary : Parser Unit := do
  let onFalse ← popStage
  let onTrue ← popStage
  let p ← get
  match p.pending with
  | .ternary :: rest =>
    set { p with pending := rest }
    let left ← popStage
    let (condition, left) ← lift left.pop
    let left ← lift
      (left.pushAll (Operand.ternary onFalse.scope condition onTrue.operands onFalse.operands))
    pushStage left
  | _ =>
    set { p with pending := p.pending.drop 1 }
    throw .missingTernary

/-- Folds the pending operator on top. -/
def fold (context : Context) : Parser Unit := do
  let p ← get
  match p.pending with
  | [] => throw .missingOperator
  | pending :: rest =>
    set { p with pending := rest }
    match pending with
    | .op .gt => do foldGreater (← top)
    | .op .assign => foldAssign context
    | .op .pipe => foldPipe context
    | .op .seq => foldSeq context
    | .op .window => foldWindow
    | .op o =>
      if o.place = .before then foldPrefix o
      else if o.isValueOp || o = .range then foldBinary o
      else throw (.parse ("unexpected operator " ++ o.symbol))
    | .bind slot => foldBind context slot
    | .ternary => throw .missingTernary
    | .ternaryElse => foldTernary
    | .paren => throw (.mismatchedBracket '(')
    | .brace _ => throw (.mismatchedBracket '\x7b')

/-- Folds pending operators, at most `count`, while `keep` holds of the one on top. -/
def foldWhile (context : Context) (keep : Pending → Bool) : Nat → Parser Unit
  | 0 => return ()
  | count + 1 => do
    match (← get).pending with
    | [] => return ()
    | pending :: _ =>
      if keep pending then
        fold context
        foldWhile context keep count
      else return ()

/-- Folds every pending operator on top of which `keep` holds. -/
def foldAll (context : Context) (keep : Pending → Bool) : Parser Unit := do
  foldWhile context keep (← get).pending.length

/-! ## Operators -/

/-- An operator between operands, or a `?`, and a stage for its right side. -/
def infixOp (context : Context) (pending : Pending) : Parser Unit := do
  let tier := pending.tier?.getD 0
  let right :=
    match pending with
    | .op o => o.isRightAssociative
    | _ => true
  foldAll context (Pending.binds fun t => if right then tier < t else tier ≤ t)
  let s ← top
  enter pending s.child

/-- An operator before its operand. Nothing is folded. -/
def prefixOp (op : Operator) : Parser Unit := do
  let s ← top
  enter (.op op) s.child

/-- An operator after its operand, which it takes in place. -/
def postfixOp (context : Context) (op : Operator) : Parser Unit := do
  foldAll context (Pending.binds fun t => op.tier ≤ t)
  let s ← top
  let (x, s) ← lift s.pop
  let x := if op = .background then x else .applyUnary s.scope op x
  let s ← lift (s.push x)
  modify fun p => { p with stages := s :: p.stages.drop 1 }

/-- Whether a token is an operator outside records. -/
def isOperator (token : String) : Bool :=
  (Operator.ofInfix? token).isSome || token == "!" || token == "&" || token == "?"

/-- Whether a token is a bracket. -/
def isBracket (token : String) : Bool :=
  ["(", ")", "\x7b", "\x7d", "[", "]"].contains token

/-- Whether a `..` before these tokens stands after its operand. -/
def endsRange : List String → Bool
  | [] => true
  | token :: _ => [")", "\x7d", "]"].contains token || isOperator token

/-- Whether a `?` above the nearest bracket still waits for its `:`; so many below are closed. -/
def hasOpenTernary (closed : Nat) : List Pending → Bool
  | [] => false
  | .ternaryElse :: rest => hasOpenTernary (closed + 1) rest
  | .ternary :: rest => if closed = 0 then true else hasOpenTernary (closed - 1) rest
  | .paren :: _ | .brace _ :: _ => false
  | _ :: rest => hasOpenTernary closed rest

/-- The `:` of a `?`. -/
def ternaryElse (context : Context) : Parser Unit := do
  foldAll context fun p =>
    p.binds (fun t => Operator.ternaryTier < t) || p == .ternaryElse
  let s ← top
  enter .ternaryElse s.child

/-- `->` after a name, which becomes a parameter of what follows. -/
def bindOp (context : Context) : Parser Unit := do
  foldAll context (Pending.binds fun t => Operator.bind.tier < t)
  let s ← top
  match s.operands with
  | [.word name] =>
    if name.toList.contains '.' then
      throw (.invalidSignature ("expected one name before ->, found " ++ shownOperands s.operands))
    else
      let p ← get
      let (slot, slots) := p.slots.alloc
      set { p with slots := slots, taken := p.taken ++ [slot] }
      enter (.bind slot) { s.child with scope := s.child.scope.declare name slot }
  | xs => throw (.invalidSignature ("expected one name before ->, found " ++ shownOperands xs))

/-! ## Brackets -/

/-- An opening parenthesis. -/
def openParen : Parser Unit := do
  let s ← top
  enter .paren { s.child with recordDepth := 0 }

/-- A closing parenthesis: the group becomes an operand. -/
def closeParen (context : Context) : Parser Unit := do
  foldAll context fun p => !p.isBracket
  let p ← get
  match p.pending with
  | .paren :: rest =>
    set { p with pending := rest }
    let group ← popStage
    let s ← popStage
    let s ← lift (s.push (group.toOperand context))
    pushStage { s with mode := s.mode <|> group.mode }
  | _ => throw (.mismatchedBracket ')')

/-- Whether a name and `->` come first. -/
def paramFollows : List String → Bool
  | name :: "->" :: _ => !isOperator name && !isBracket name
  | _ => false

/-- Whether a brace opens a closure in a stage, after the pending operators and before the
tokens. -/
def opensClosure (s : Stage) (pending : List Pending) (tokens : List String) : Bool :=
  s.recordDepth == 0 && s.operands.isEmpty && s.closure.isNone &&
    match pending with
    | .op .pipe :: _ => true
    | .op .assign :: _ => paramFollows tokens
    | _ => false

/-- An opening brace. -/
def openBrace : Parser Unit := do
  let p ← get
  let s ← top
  if opensClosure s p.pending p.tokens then
    enter (.brace .closure) { s.child with recordDepth := 0 }
  else enter (.brace .record) { s.child with recordDepth := s.recordDepth + 1 }

/-- Whether a word before a record names its type: it has a point, but not at an end. -/
def isTypeName (scope : Scope) (word : String) : Bool :=
  let cs := word.toList
  cs.contains '.' && cs.head? != some '.' && cs.getLast? != some '.' && !scope.isVarPath word

/-- A finished record becomes an operand, of a type if a word before it names one. -/
def closeRecord (body : Stage) : Parser Unit := do
  let record ← lift (Record.build body.scope body.operands)
  let s ← top
  match s.operands.getLast? with
  | some (.word w) =>
    if isTypeName s.scope w then
      modify fun p =>
        { p with stages := { s with operands := s.operands.dropLast } :: p.stages.drop 1 }
      pushOperand (Record.typed w record)
    else pushOperand record
  | _ => pushOperand record

/-- A finished closure becomes the stage around it. One without a parameter takes its input value by
value. -/
def closeClosure (context : Context) (body : Stage) : Parser Unit := do
  let f := body.toFactory context
  let stage := if body.closure.isSome || body.feed.isSome then f else .each f
  let s ← top
  if s.closure.isSome || !s.operands.isEmpty then throw .closureNotFinal
  else
    modify fun p =>
      { p with
        stages := { s with closure := some stage, mode := s.mode <|> body.mode } ::
          p.stages.drop 1 }

/-- A closing brace. -/
def closeBrace (context : Context) : Parser Unit := do
  foldAll context fun p => !p.isBracket
  let p ← get
  match p.pending with
  | .brace kind :: rest =>
    set { p with pending := rest }
    let body ← popStage
    match kind with
    | .record => closeRecord body
    | .closure => closeClosure context body
  | _ => throw (.mismatchedBracket '\x7d')

/-! ## Tokens -/

/-- A token that is no operator. -/
def leaf (token : String) : Parser Unit := do
  let x ← lift (Leaf.read token)
  pushOperand x

/-- A token inside a record: an operator that makes one value of two, if it follows a value; any
other operator is a word. -/
def recordToken (context : Context) (token : String) : Parser Unit := do
  let s ← top
  let followsValue :=
    match s.operands.getLast? with
    | some x => !Record.isPunctuation x
    | none => false
  match Operator.ofInfix? token with
  | some op =>
    if op.isValueOp && followsValue then infixOp context (.op op)
    else pushOperand (.word token)
  | none => if isOperator token then pushOperand (.word token) else leaf token

/-- A token outside records and brackets. -/
def plainToken (context : Context) (token : String) : Parser Unit := do
  let p ← get
  let s ← top
  if token == "->" then bindOp context
  else if token == "?" then infixOp context .ternary
  else if token == ":" && hasOpenTernary 0 p.pending then ternaryElse context
  else if token == ".." && endsRange p.tokens then postfixOp context .rangeFrom
  else if token == "&" then postfixOp context .background
  else if token == "!" then prefixOp .not
  else if token == "-" && s.operands.isEmpty then prefixOp .neg
  else if token == "+" && s.operands.isEmpty then prefixOp .pos
  else
    match Operator.ofInfix? token with
    | some op => infixOp context (.op op)
    | none => leaf token

/-- One token. -/
def token (context : Context) (token : String) : Parser Unit := do
  if token == "(" then openParen
  else if token == ")" then closeParen context
  else if token == "\x7b" then openBrace
  else if token == "\x7d" then closeBrace context
  else
    let s ← top
    if 0 < s.recordDepth then recordToken context token else plainToken context token

/-- The tokens to come, one after the other. -/
def all (context : Context) : List String → Parser Unit
  | [] => return ()
  | t :: rest => do
    modify fun p => { p with tokens := rest }
    token context t
    all context rest

/-- The end of the line: what is left on the stacks becomes a factory and a print mode. -/
def finish (context : Context) : Parser (Factory × Mode) := do
  foldAll context fun p => !p.isBracket
  match (← get).pending with
  | .paren :: _ => throw (.mismatchedBracket '(')
  | .brace _ :: _ => throw (.mismatchedBracket '\x7b')
  | _ =>
    let root ← popStage
    if (← get).stages.isEmpty then return (root.toFactory context, root.mode.getD .default)
    else throw .missingOperator

/-- A line that has not been read. -/
def start (w : World) (tokens : List String) : Parse :=
  ⟨tokens, [{ scope := .empty }], [], [], w.slots, w.env⟩

end Parse

/-- Reads a line: a factory and a print mode, or what is wrong with it, and the world after it. A
line that fails gives the slots that it took back. -/
def parse (context : Context) (tokens : List String) (w : World) :
    Except Error (Factory × Mode) × World :=
  match (do Parse.all context tokens; Parse.finish context : Parser (Factory × Mode)).run
      (Parse.start w tokens) with
  | .ok r p => (.ok r, { w with slots := p.slots, env := p.env })
  | .error e p =>
    (.error e, { w with slots := p.taken.foldl Slots.release p.slots, env := p.env })

end Rill
