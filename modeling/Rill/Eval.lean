import Rill.Arguments
import Rill.Operand.Apply
import Rill.Record
import Rill.Timestamp
import Rill.World

/-!
# What streams do

Four activities call one another without end: pulling an element from a stream, using a factory on
an input, making the stream of an operand, and forcing an operand that waits for parameters. Each is
defined here by one step, in which the calls of the four are a parameter (`Calls`); the last section
ties them together, with fuel that bounds how deep calls are nested and how long loops run.

* `Eval.pull`, `Eval.invoke`, `Eval.toStream` and `Eval.force` are the four.
* `Calls.collectFrom` and `Calls.drain` pull a stream to its end.
-/

namespace Rill

/-- The calls that a step may make. -/
structure Calls where
  /-- The next element of a stream, if there is one, and what is left. -/
  pull : Stream → Run (Option Item × Stream)
  /-- The stream that a factory makes of an input. -/
  invoke : Factory → Stream → Run Stream
  /-- The stream of an operand. -/
  toStream : Scope → Operand → Run Stream
  /-- An operand that waits for no parameter. -/
  force : Scope → Operand → Run (Except Error Operand)

namespace Calls

/-! ## Pulling to the end -/

/-- The values that are left, after those given backwards, up to the first error. -/
def collectFrom (c : Calls) : Nat → List Value → Stream → Run (Except Error (List Value))
  | 0, _, _ => Run.stuck
  | fuel + 1, backwards, s => do
    let (item, s) ← c.pull s
    match item with
    | none => return .ok backwards.reverse
    | some (.error e) => return .error e
    | some (.ok v) => c.collectFrom fuel (v :: backwards) s

/-- Pulls everything for its effects. -/
def drain (c : Calls) : Nat → Stream → Run Unit
  | 0, _ => Run.stuck
  | fuel + 1, s => do
    let (item, s) ← c.pull s
    match item with
    | none => return ()
    | some _ => c.drain fuel s

/-- All values of an operand, up to the first error. -/
def values (c : Calls) (fuel : Nat) (scope : Scope) (x : Operand) :
    Run (Except Error (List Value)) := do
  let s ← c.toStream scope x
  c.collectFrom fuel [] s

/-- All values of some operands, up to the first error. -/
def allValues (c : Calls) (fuel : Nat) (scope : Scope) :
    List Operand → Run (Except Error (List Value))
  | [] => return .ok []
  | x :: rest => do
    match ← c.values fuel scope x with
    | .error e => return .error e
    | .ok vs =>
      match ← c.allValues fuel scope rest with
      | .error e => return .error e
      | .ok more => return .ok (vs ++ more)

/-- The first value of an operand; a stream with nothing in it reads as `null`. -/
def firstValue (c : Calls) (scope : Scope) (x : Operand) : Run Item := do
  let s ← c.toStream scope x
  let (item, _) ← c.pull s
  return item.getD (.ok .null)

/-- The text of an operand, as programs get it: the values of a stream with spaces between them. -/
def text (c : Calls) (fuel : Nat) (scope : Scope) (x : Operand) : Run (Except Error String) := do
  match x with
  | .value v => return .ok v.render
  | .word w =>
    let world ← get
    return .ok (((scope.resolve? world.slots w).map Value.render).getD w)
  | x =>
    match ← c.values fuel scope x with
    | .error e => return .error e
    | .ok vs => return .ok (" ".intercalate (vs.map Value.render))

/-- The texts of some operands. -/
def texts (c : Calls) (fuel : Nat) (scope : Scope) :
    List Operand → Run (Except Error (List String))
  | [] => return .ok []
  | x :: rest => do
    match ← c.text fuel scope x with
    | .error e => return .error e
    | .ok t =>
      match ← c.texts fuel scope rest with
      | .error e => return .error e
      | .ok more => return .ok (t :: more)

/-! ## Forcing -/

/-- What the parts of a record contribute to its text. -/
def recordContents (c : Calls) (fuel : Nat) (scope : Scope) :
    List RecordPart → Run (Except Error (List String))
  | [] => return .ok []
  | .values x :: rest => do
    match ← c.values fuel scope x with
    | .error e => return .error e
    | .ok vs =>
      match ← c.recordContents fuel scope rest with
      | .error e => return .error e
      | .ok more => return .ok ((Record.joined vs).render :: more)
  | part :: rest => do
    match ← c.recordContents fuel scope rest with
    | .error e => return .error e
    | .ok more => return .ok (Record.fixedContent part :: more)

/-- The pieces of a template, with references replaced. -/
def templatePieces (c : Calls) (fuel : Nat) (scope : Scope) :
    List String → Run (Except Error (List String))
  | [] => return .ok []
  | piece :: rest => do
    let name := (Text.stripFirst? '$' piece).getD ""
    let content ← if name = "" then pure (.ok piece) else c.text fuel scope (.streamRef name)
    match content with
    | .error e => return .error e
    | .ok t =>
      match ← c.templatePieces fuel scope rest with
      | .error e => return .error e
      | .ok more => return .ok (t :: more)

/-- A choice by the first value of its condition. An error decides only in the form that has no
operands for the true case, where it counts as false. -/
def choose (c : Calls) (scope : Scope) (condition : Operand) (onTrue onFalse : List Operand) :
    Run (Except Error Operand) := do
  match ← c.firstValue scope condition with
  | .ok v =>
    if v.isTruthy then
      return .ok (if onTrue.isEmpty then .value v else .stream (.sequence scope onTrue))
    else return .ok (.stream (.sequence scope onFalse))
  | .error e =>
    return if onTrue.isEmpty then .ok (.stream (.sequence scope onFalse)) else .error e

/-- What a computation that waited gives in a scope. -/
def evaluate (c : Calls) (fuel : Nat) (scope : Scope) (d : Deferred) :
    Run (Except Error Operand) := do
  match d with
  | .unary op x =>
    match ← c.force scope x with
    | .error e => return .error e
    | .ok x => return .ok (.applyUnary scope op x)
  | .binary op x y =>
    match ← c.force scope x with
    | .error e => return .error e
    | .ok x =>
      match ← c.force scope y with
      | .error e => return .error e
      | .ok y => return .ok (.applyBinary scope op x y)
  | .ternary condition onTrue onFalse => c.choose scope condition onTrue onFalse
  | .record type operands =>
    match ← c.recordContents fuel scope (Record.parts operands) with
    | .error e => return .error e
    | .ok contents => return (Record.ofText type (Record.text contents)).map .value
  | .template text =>
    match ← c.templatePieces fuel scope (Text.piecesText ' ' text) with
    | .error e => return .error e
    | .ok pieces => return .ok (.value (.string (" ".intercalate pieces)))

/-- One step of forcing: a computation is done and its result forced, and a parameter is read. -/
def forceStep (c : Calls) (fuel : Nat) (scope : Scope) (x : Operand) :
    Run (Except Error Operand) := do
  match x with
  | .deferred d =>
    match ← c.evaluate fuel scope d with
    | .error e => return .error e
    | .ok x => c.force scope x
  | .word w =>
    let world ← get
    match scope.resolve? world.slots w with
    | some v => return .ok (.value v)
    | none => return .ok (.word w)
  | x => return .ok x

/-! ## Streams of operands -/

/-- What `$name` stands for, on an input: a local stream, a parameter, or a named stream. -/
def resolveReference (c : Calls) (scope : Scope) (name : String) (input : Stream) :
    Run Stream := do
  match Sorted.find? name scope.overrides with
  | some f => c.invoke f input
  | none =>
    let world ← get
    match scope.resolve? world.slots name with
    | some v => return .ofValue v
    | none =>
      match ← Run.binding? name with
      | some f => c.invoke f input
      | none => return .fail (.unboundStream name)

/-- One step of making the stream of an operand. A word that is no parameter is a text. -/
def toStreamStep (c : Calls) (fuel : Nat) (scope : Scope) (x : Operand) : Run Stream := do
  match x with
  | .value v => return .ofValue v
  | .stream f => c.invoke f .empty
  | .streamRef name => c.resolveReference scope name .empty
  | .word w =>
    let world ← get
    match scope.resolve? world.slots w with
    | some v => return .ofValue v
    | none => return .once (.string w)
  | .deferred d =>
    match ← c.evaluate fuel scope d with
    | .ok x => c.toStream scope x
    | .error e => return .fail e

/-! ## Using factories -/

/-- The seconds between two elements of `now`: one, or a positive number. -/
def period : List Value → Except Error Float
  | [] => .ok 1.0
  | v :: _ =>
    match v.float? with
    | some x => if x > 0.0 then .ok x else .error .invalidNumberOp
    | none => .error .invalidNumberOp

/-- The number that `exit` is given, or zero. -/
def exitCode (values : List Value) : Int :=
  ((values.head?.bind Value.float?).map Number.toInt32).getD 0

/-- The stream of a command whose arguments have been evaluated. -/
def builtinStream (name : Builtin) (values : List Value) (input : Stream) : Stream :=
  match name with
  | .add =>
    match values with
    | amount :: _ => .add amount input
    | [] => .fail .missingOperand
  | .get =>
    match values with
    | path :: _ => .flatMap (.get (segments path.render)) input .empty
    | [] => .fail .missingOperand
  | .args => .once (.string (" ".intercalate (Arguments.commandLine (Arguments.project values))))
  | .echo => .once (.json (.object (Arguments.project values)))
  | .exit => .fail (.exit (exitCode values))
  | .now =>
    match period values with
    | .ok p => .ticks p 0
    | .error e => .fail e
  | .prepend => input

/-- The stream of a command. All arguments are evaluated at once, but for `prepend`, which gives
them out as it is pulled. -/
def runBuiltin (c : Calls) (fuel : Nat) (name : Builtin) (scope : Scope) (args : List Operand)
    (input : Stream) : Run Stream := do
  match name with
  | .prepend => return .chain (.concat scope args .empty) input
  | name =>
    match ← c.allValues fuel scope args with
    | .error e => return .fail e
    | .ok values => return builtinStream name values input

/-- The stream of a program. No argument can hold a zero character. -/
def runProgram (context : Context) (c : Calls) (fuel : Nat) (path : String) (program : Program)
    (scope : Scope) (args : List Operand) : Run Stream := do
  match ← c.texts fuel scope args with
  | .error e => return .fail e
  | .ok texts =>
    if texts.any fun t => t.toList.contains '\x00' then
      return .fail (.execFork "nul byte found in provided data")
    else if texts.any fun t => Launch.argumentLimit ≤ t.utf8ByteSize then
      return .fail (.execFork "Argument list too long (os error 7)")
    else
      let w ← get
      let e := program.run
        { name := Text.Octets.ofText path
          args := texts.map Text.Octets.ofText
          vars := context.vars
          files := w.files }
      set { w with
        files := e.files, console := { w.console with err := w.console.err ++ e.errors } }
      return .child (.start context.chunk e)

/-- One step of using a factory. -/
def invokeStep (context : Context) (c : Calls) (fuel : Nat) (f : Factory) (input : Stream) :
    Run Stream := do
  match f with
  | .items xs => return .items xs
  | .range first last => return .range first last
  | .compose first second =>
    let s ← c.invoke first input
    c.invoke second s
  | .andThen first second =>
    let s ← c.invoke first input
    c.drain fuel s
    c.invoke second .empty
  | .builtin name scope args => c.runBuiltin fuel name scope args input
  | .program path name scope args => c.runProgram context fuel path name scope args
  | .reference scope name => c.resolveReference scope name input
  | .sequence scope operands => return .concat scope operands .empty
  | .bind slot body => return .flatMap (.bind slot body) input .empty
  | .each body => return .flatMap (.each body) input .empty
  | .unary op source =>
    let s ← c.invoke source .empty
    return .flatMap (.unary op) s .empty
  | .left op source v =>
    let s ← c.invoke source .empty
    return .flatMap (.left op v) s .empty
  | .right op v source =>
    let s ← c.invoke source .empty
    return .flatMap (.right op v) s .empty
  | .zip op left right =>
    let s ← c.invoke left .empty
    let t ← c.invoke right .empty
    return .zip op s t .empty

/-! ## Pulling -/

/-- What an operator left, as a stream. -/
def ofOutcome : Except Error Outcome → Stream
  | .ok (.value v) => .once v
  | .ok (.range first last) => .range first last
  | .error e => .fail e

/-- What a transform makes of a value. -/
def transform (c : Calls) (t : Transform) (v : Value) : Run Stream := do
  match t with
  | .bind slot body =>
    Run.store slot v
    let inner ← c.invoke body .empty
    return .bound slot v inner
  | .each body => c.invoke body (.once v)
  | .unary op => return ofOutcome (op.unary v)
  | .left op w => return ofOutcome (op.binary v w)
  | .right op w => return ofOutcome (op.binary w v)
  | .get path => return ((v.lookup? path).map Stream.ofValue).getD .empty

/-- Pulls `front`, and when it has ended the streams of the operands. -/
def pullConcat (c : Calls) (scope : Scope) : List Operand → Stream → Run (Option Item × Stream)
  | [], front => do
    let (item, front) ← c.pull front
    match item with
    | some item => return (some item, .concat scope [] front)
    | none => return (none, .concat scope [] .empty)
  | x :: rest, front => do
    let (item, front) ← c.pull front
    match item with
    | some item => return (some item, .concat scope (x :: rest) front)
    | none =>
      let next ← c.toStream scope x
      c.pullConcat scope rest next

/-- Pulls `front`, and when it has ended what the transform makes of the next input. -/
def pullFlatMap (c : Calls) (t : Transform) : Nat → Stream → Stream → Run (Option Item × Stream)
  | 0, _, _ => Run.stuck
  | fuel + 1, input, front => do
    let (item, front) ← c.pull front
    match item with
    | some item => return (some item, .flatMap t input front)
    | none =>
      let (next, input) ← c.pull input
      match next with
      | none => return (none, .flatMap t .empty .empty)
      | some (.error e) => c.pullFlatMap t fuel input (.fail e)
      | some (.ok v) =>
        let front ← c.transform t v
        c.pullFlatMap t fuel input front

/-- Pulls `front`, and when it has ended what the operator makes of the next pair. -/
def pullZip (c : Calls) (op : Operator) :
    Nat → Stream → Stream → Stream → Run (Option Item × Stream)
  | 0, _, _, _ => Run.stuck
  | fuel + 1, left, right, front => do
    let (item, front) ← c.pull front
    match item with
    | some item => return (some item, .zip op left right front)
    | none =>
      let (first, left) ← c.pull left
      match first with
      | none => return (none, .zip op .empty .empty .empty)
      | some first =>
        let (second, right) ← c.pull right
        match second with
        | none => return (none, .zip op .empty .empty .empty)
        | some second =>
          match first, second with
          | .ok v, .ok w => c.pullZip op fuel left right (ofOutcome (op.binary v w))
          | .error e, _ => c.pullZip op fuel left right (.fail e)
          | _, .error e => c.pullZip op fuel left right (.fail e)

/-- An element with a value added. -/
def added (amount : Value) (item : Item) : Item := do
  let v ← item
  match ← Operator.binary .add v amount with
  | .value sum => return sum
  | .range _ _ => throw .invalidOp

/-- One step of pulling. -/
def pullStep (c : Calls) (fuel : Nat) (s : Stream) : Run (Option Item × Stream) := do
  match s with
  | .items [] => return (none, .items [])
  | .items (x :: xs) => return (some x, .items xs)
  | .range next last =>
    if next ≤ last then return (some (.ok (.int next)), .range (next + 1) last)
    else return (none, .range next last)
  | .concat scope operands front => c.pullConcat scope operands front
  | .flatMap t input front => c.pullFlatMap t fuel input front
  | .bound slot v inner =>
    Run.store slot v
    let (item, inner) ← c.pull inner
    return (item, .bound slot v inner)
  | .zip op left right front => c.pullZip op fuel left right front
  | .add amount input =>
    let (item, input) ← c.pull input
    return (item.map (added amount), .add amount input)
  | .chain first second =>
    let (item, first) ← c.pull first
    match item with
    | some item => return (some item, .chain first second)
    | none =>
      let (item, second) ← c.pull second
      return (item, .chain .empty second)
  | .ticks period told =>
    let world ← get
    if world.interrupted then return (none, .ticks period told)
    else
      let seconds := world.clock + (period * told.toFloat).floor.toUInt64.toNat
      return (some (.ok (.string (Timestamp.text seconds))), .ticks period (told + 1))
  | .child child =>
    let world ← get
    let (item, child) := child.pull world.interrupted
    return (item, .child child)

end Calls

/-! ## Tying the knot -/

namespace Eval

mutual

/-- The next element of a stream, if there is one, and what is left. -/
def pull (context : Context) : Nat → Stream → Run (Option Item × Stream)
  | 0, _ => Run.stuck
  | fuel + 1, s =>
    Calls.pullStep
      ⟨pull context fuel, invoke context fuel, toStream context fuel, force context fuel⟩ fuel s

/-- The stream that a factory makes of an input. -/
def invoke (context : Context) : Nat → Factory → Stream → Run Stream
  | 0, _, _ => Run.stuck
  | fuel + 1, f, input =>
    Calls.invokeStep context
      ⟨pull context fuel, invoke context fuel, toStream context fuel, force context fuel⟩ fuel f
      input

/-- The stream of an operand. -/
def toStream (context : Context) : Nat → Scope → Operand → Run Stream
  | 0, _, _ => Run.stuck
  | fuel + 1, scope, x =>
    Calls.toStreamStep
      ⟨pull context fuel, invoke context fuel, toStream context fuel, force context fuel⟩ fuel
      scope x

/-- An operand that waits for no parameter. -/
def force (context : Context) : Nat → Scope → Operand → Run (Except Error Operand)
  | 0, _, _ => Run.stuck
  | fuel + 1, scope, x =>
    Calls.forceStep
      ⟨pull context fuel, invoke context fuel, toStream context fuel, force context fuel⟩ fuel
      scope x

end

/-- The calls with so much fuel. -/
def calls (context : Context) (fuel : Nat) : Calls :=
  ⟨pull context fuel, invoke context fuel, toStream context fuel, force context fuel⟩

theorem pull_succ (context : Context) (fuel : Nat) (s : Stream) :
    pull context (fuel + 1) s = (calls context fuel).pullStep fuel s := rfl

theorem invoke_succ (context : Context) (fuel : Nat) (f : Factory) (input : Stream) :
    invoke context (fuel + 1) f input = (calls context fuel).invokeStep context fuel f input := rfl

theorem toStream_succ (context : Context) (fuel : Nat) (scope : Scope) (x : Operand) :
    toStream context (fuel + 1) scope x = (calls context fuel).toStreamStep fuel scope x := rfl

theorem force_succ (context : Context) (fuel : Nat) (scope : Scope) (x : Operand) :
    force context (fuel + 1) scope x = (calls context fuel).forceStep fuel scope x := rfl

end Eval

end Rill
