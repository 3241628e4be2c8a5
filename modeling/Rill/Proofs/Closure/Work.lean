import Rill.Proofs.Arguments
import Rill.Proofs.Forcing.Once
import Rill.Proofs.Pipeline

/-!
# What an activity consists of

Pulling a stream, using a factory, making the stream of an operand and the other activities
(`Work`) are done by doing others one after the other. `Needs` has one rule for each way of doing
one, but for programs and clocks, and `Needs.happens` says that the activity happens where the
others do. Two activities begin with storing the value of a closure (`Enters`): starting its body
on the value, and pulling what the body made.
-/

namespace Rill

/-- An activity, with what comes of it. -/
inductive Work where
  /-- Pulling gives `item` and leaves `rest`. -/
  | pull (s : Stream) (item : Option Item) (rest : Stream)
  /-- Pulling to the end gives a list. -/
  | drain (s : Stream) (xs : List Item)
  /-- A factory makes a stream of an input. -/
  | make (f : Factory) (input s : Stream)
  /-- A transform makes a stream of a value. -/
  | transform (t : Transform) (v : Value) (s : Stream)
  /-- An operand has a stream. -/
  | stream (scope : Scope) (x : Operand) (s : Stream)
  /-- Forcing an operand gives another. -/
  | force (scope : Scope) (x : Operand) (r : Except Error Operand)
  /-- A computation that waits comes to an operand. -/
  | evaluate (scope : Scope) (d : Deferred) (r : Except Error Operand)
  /-- The values that are left of a stream are collected. -/
  | collect (s : Stream) (r : Except Error (List Value))
  /-- The values of an operand are collected. -/
  | values (scope : Scope) (x : Operand) (r : Except Error (List Value))
  /-- The values of arguments are collected. -/
  | arguments (scope : Scope) (xs : List Operand) (r : Except Error (List Value))
  /-- The parts of a record are written. -/
  | contents (scope : Scope) (parts : List RecordPart) (r : Except Error (List String))

section

variable (context : Context)

/-- The activity is done, from one world to another. -/
def Work.Happens : Work → World → World → Prop
  | .pull s item rest, w, w' => Pulls context s w item rest w'
  | .drain s xs, w, w' => Drains context s w xs w'
  | .make f input s, w, w' => Makes context f input w s w'
  | .transform t v s, w, w' => Transforms context t v w s w'
  | .stream scope x s, w, w' => Opens context scope x w s w'
  | .force scope x r, w, w' => Forces context scope x w r w'
  | .evaluate scope d r, w, w' => Evaluates context scope d w r w'
  | .collect s r, w, w' => CollectsFrom context s w r w'
  | .values scope x r, w, w' => Collects context scope x w r w'
  | .arguments scope xs r, w, w' => CollectsAll context scope xs w r w'
  | .contents scope parts r, w, w' => Record.Gathers context scope parts w r w'

/-- The activities are done one after the other. -/
def Work.AllHappen : List Work → World → World → Prop
  | [], w, w' => w' = w
  | a :: rest, w, w' => ∃ w₁, a.Happens context w w₁ ∧ AllHappen rest w₁ w'

/-- The first activity is done by doing the others one after the other, if the named streams are
these. -/
inductive Needs (env : Environment) : Work → List Work → Prop
  /-- The stream in front comes first, then the next operand. -/
  | concatFront {scope xs front x front'} :
    Needs env (.pull (.concat scope xs front) (some x) (.concat scope xs front'))
      [.pull front (some x) front']
  | concatDone {scope front front'} :
    Needs env (.pull (.concat scope [] front) none (.concat scope [] .empty))
      [.pull front none front']
  | concatNext {scope x xs front front' next item s} :
    Needs env (.pull (.concat scope (x :: xs) front) item s)
      [.pull front none front', .stream scope x next, .pull (.concat scope xs next) item s]
  /-- The stream in front comes first, then what is made of the next input. -/
  | flatMapFront {t input front x front'} :
    Needs env (.pull (.flatMap t input front) (some x) (.flatMap t input front'))
      [.pull front (some x) front']
  | flatMapDone {t input front front' input'} :
    Needs env (.pull (.flatMap t input front) none (.flatMap t .empty .empty))
      [.pull front none front', .pull input none input']
  | flatMapError {t input front front' e input' item s} :
    Needs env (.pull (.flatMap t input front) item s)
      [.pull front none front', .pull input (some (.error e)) input',
        .pull (.flatMap t input' (.fail e)) item s]
  | flatMapValue {t input front front' v input' next item s} :
    Needs env (.pull (.flatMap t input front) item s)
      [.pull front none front', .pull input (some (.ok v)) input', .transform t v next,
        .pull (.flatMap t input' next) item s]
  /-- The stream in front comes first, then what is made of the next pair. -/
  | zipFront {op left right front x front'} :
    Needs env (.pull (.zip op left right front) (some x) (.zip op left right front'))
      [.pull front (some x) front']
  | zipLeft {op left right front front' left'} :
    Needs env (.pull (.zip op left right front) none (.zip op .empty .empty .empty))
      [.pull front none front', .pull left none left']
  | zipRight {op left right front front' x left' right'} :
    Needs env (.pull (.zip op left right front) none (.zip op .empty .empty .empty))
      [.pull front none front', .pull left (some x) left', .pull right none right']
  | zipPair {op left right front front' x left' y right' item s} :
    Needs env (.pull (.zip op left right front) item s)
      [.pull front none front', .pull left (some x) left', .pull right (some y) right',
        .pull (.zip op left' right' (pairStream op x y)) item s]
  | add {amount input item input'} :
    Needs env (.pull (.add amount input) (item.map (Calls.added amount)) (.add amount input'))
      [.pull input item input']
  | chainFirst {first second x first'} :
    Needs env (.pull (.chain first second) (some x) (.chain first' second))
      [.pull first (some x) first']
  | chainSecond {first second first' item second'} :
    Needs env (.pull (.chain first second) item (.chain .empty second'))
      [.pull first none first', .pull second item second']
  /-- A stream is pulled again and again. -/
  | drainEnd {s s'} : Needs env (.drain s []) [.pull s none s']
  | drainNext {s x s' xs} : Needs env (.drain s (x :: xs)) [.pull s (some x) s', .drain s' xs]
  | collectEnd {s s'} : Needs env (.collect s (.ok [])) [.pull s none s']
  | collectError {s e s'} :
    Needs env (.collect s (.error e)) [.pull s (some (.error e)) s']
  | collectNext {s v s' r} :
    Needs env (.collect s (r.map (v :: ·))) [.pull s (some (.ok v)) s', .collect s' r]
  /-- A factory uses others. -/
  | compose {f g input t s} :
    Needs env (.make (.compose f g) input s) [.make f input t, .make g t s]
  | andThen {f g input t xs s} :
    Needs env (.make (.andThen f g) input s) [.make f input t, .drain t xs, .make g .empty s]
  | unary {op f input s} :
    Needs env (.make (.unary op f) input (.flatMap (.unary op) s .empty)) [.make f .empty s]
  | left {op f v input s} :
    Needs env (.make (.left op f v) input (.flatMap (.left op v) s .empty)) [.make f .empty s]
  | right {op v f input s} :
    Needs env (.make (.right op v f) input (.flatMap (.right op v) s .empty)) [.make f .empty s]
  | zip {op f g input s t} :
    Needs env (.make (.zip op f g) input (.zip op s t .empty)) [.make f .empty s, .make g .empty t]
  | each {f v s} : Needs env (.transform (.each f) v s) [.make f (.once v) s]
  /-- A name stands for a local stream, or for a named one. -/
  | localName {scope name f input s} (h : Sorted.find? name scope.overrides = some f) :
    Needs env (.make (.reference scope name) input s) [.make f input s]
  | named {scope name f input s} (ho : Sorted.find? name scope.overrides = none)
    (hv : scope.isVarPath name = false) (hf : Sorted.find? name env.bindings = some f) :
    Needs env (.make (.reference scope name) input s) [.make f input s]
  /-- A command collects its arguments. -/
  | builtin {name scope xs input r} (h : name ≠ .prepend) :
    Needs env
      (.make (.builtin name scope xs) input
        (match r with
          | .error e => .fail e
          | .ok vs => Calls.builtinStream name vs input))
      [.arguments scope xs r]
  | argumentError {scope x xs e} :
    Needs env (.arguments scope (x :: xs) (.error e)) [.values scope x (.error e)]
  | argumentNext {scope x xs vs r} :
    Needs env (.arguments scope (x :: xs) (r.map (vs ++ ·)))
      [.values scope x (.ok vs), .arguments scope xs r]
  | values {scope x s r} : Needs env (.values scope x r) [.stream scope x s, .collect s r]
  /-- An operand is used, or comes to another. -/
  | factory {scope f s} : Needs env (.stream scope (.stream f) s) [.make f .empty s]
  | reference {scope name s} :
    Needs env (.stream scope (.streamRef name) s) [.make (.reference scope name) .empty s]
  | deferred {scope d x s} :
    Needs env (.stream scope (.deferred d) s) [.evaluate scope d (.ok x), .stream scope x s]
  | deferredError {scope d e} :
    Needs env (.stream scope (.deferred d) (.fail e)) [.evaluate scope d (.error e)]
  | force {scope d r} : Needs env (.force scope (.deferred d) r) [.evaluate scope d r]
  /-- A computation forces its operands, pulls its condition or writes its parts. -/
  | evaluateUnary {scope op x r} :
    Needs env (.evaluate scope (.unary op x) (r.map (.applyUnary scope op))) [.force scope x r]
  | evaluateLeftError {scope op x y e} :
    Needs env (.evaluate scope (.binary op x y) (.error e)) [.force scope x (.error e)]
  | evaluateBinary {scope op x x' y r} :
    Needs env (.evaluate scope (.binary op x y) (r.map (.applyBinary scope op x')))
      [.force scope x (.ok x'), .force scope y r]
  | evaluateTernary {scope c onTrue onFalse t item t'} :
    Needs env
      (.evaluate scope (.ternary c onTrue onFalse)
        (chosen scope onTrue onFalse (item.getD (.ok .null))))
      [.stream scope c t, .pull t item t']
  | evaluateRecord {scope type xs r} :
    Needs env
      (.evaluate scope (.record type xs)
        (r.bind fun texts => (Record.ofText type (Record.text texts)).map .value))
      [.contents scope (Record.parts xs) r]
  | contentsError {scope x parts e} :
    Needs env (.contents scope (.values x :: parts) (.error e)) [.values scope x (.error e)]
  | contentsValues {scope x parts vs r} :
    Needs env (.contents scope (.values x :: parts) (r.map ((Record.joined vs).render :: ·)))
      [.values scope x (.ok vs), .contents scope parts r]
  | contentsFixed {scope part parts t r}
    (h : ∀ w, Record.Contributes context scope part w (.ok t) w) :
    Needs env (.contents scope (part :: parts) (r.map (t :: ·))) [.contents scope parts r]

/-- The activity stores a value in a slot, and then it is the other. -/
inductive Enters (slot : Handle) (v : Value) : Work → Work → Prop
  | pull {s item s'} :
    Enters slot v (.pull (.bound slot v s) item (.bound slot v s')) (.pull s item s')
  | transform {body s} :
    Enters slot v (.transform (.bind slot body) v (.bound slot v s)) (.make body .empty s)

end

variable {context : Context} {env : Environment} {a b : Work} {as : List Work} {w w' : World}

/-- The activity happens where those happen that it needs. -/
theorem Needs.happens (h : Needs context env a as) (he : w.env = env)
    (k : Work.AllHappen context as w w') : a.Happens context w w' := by
  cases h with
  | concatFront =>
    obtain ⟨_, h, rfl⟩ := k
    exact pulls_concat.mpr (.front h)
  | concatDone =>
    obtain ⟨_, h, rfl⟩ := k
    exact pulls_concat.mpr (.done h rfl)
  | concatNext =>
    obtain ⟨_, h, _, o, _, p, rfl⟩ := k
    exact pulls_concat.mpr (.next h rfl o p)
  | flatMapFront =>
    obtain ⟨_, h, rfl⟩ := k
    exact pulls_flatMap.mpr (.front h)
  | flatMapDone =>
    obtain ⟨_, h, _, i, rfl⟩ := k
    exact pulls_flatMap.mpr (.done h i)
  | flatMapError =>
    obtain ⟨_, h, _, i, _, p, rfl⟩ := k
    exact pulls_flatMap.mpr (.error h i p)
  | flatMapValue =>
    obtain ⟨_, h, _, i, _, o, _, p, rfl⟩ := k
    exact pulls_flatMap.mpr (.value h i o p)
  | zipFront =>
    obtain ⟨_, h, rfl⟩ := k
    exact pulls_zip.mpr (.front h)
  | zipLeft =>
    obtain ⟨_, h, _, l, rfl⟩ := k
    exact pulls_zip.mpr (.leftDone h l)
  | zipRight =>
    obtain ⟨_, h, _, l, _, r, rfl⟩ := k
    exact pulls_zip.mpr (.rightDone h l r)
  | zipPair =>
    obtain ⟨_, h, _, l, _, r, _, p, rfl⟩ := k
    exact pulls_zip.mpr (.pair h l r p)
  | add =>
    obtain ⟨_, h, rfl⟩ := k
    exact pulls_add.mpr ⟨_, _, rfl, rfl, h⟩
  | chainFirst =>
    obtain ⟨_, h, rfl⟩ := k
    exact pulls_chain.mpr (.inl ⟨_, _, rfl, rfl, h⟩)
  | chainSecond =>
    obtain ⟨_, h, _, h', rfl⟩ := k
    exact pulls_chain.mpr (.inr ⟨_, _, _, rfl, h, h'⟩)
  | drainEnd =>
    obtain ⟨_, h, rfl⟩ := k
    exact .nil h
  | drainNext =>
    obtain ⟨_, h, _, d, rfl⟩ := k
    exact .cons h d
  | collectEnd =>
    obtain ⟨_, h, rfl⟩ := k
    exact collectsFrom_end h
  | collectError =>
    obtain ⟨_, h, rfl⟩ := k
    exact collectsFrom_error h
  | collectNext =>
    obtain ⟨_, h, _, c, rfl⟩ := k
    exact collectsFrom_value h c
  | compose =>
    obtain ⟨_, h, _, h', rfl⟩ := k
    exact makes_compose.mpr ⟨_, _, h, h'⟩
  | andThen =>
    obtain ⟨_, h, _, d, _, h', rfl⟩ := k
    exact makes_andThen.mpr ⟨_, _, _, _, h, d, h'⟩
  | unary =>
    obtain ⟨_, h, rfl⟩ := k
    exact makes_unary.mpr ⟨_, rfl, h⟩
  | left =>
    obtain ⟨_, h, rfl⟩ := k
    exact makes_left.mpr ⟨_, rfl, h⟩
  | right =>
    obtain ⟨_, h, rfl⟩ := k
    exact makes_right.mpr ⟨_, rfl, h⟩
  | zip =>
    obtain ⟨_, h, _, h', rfl⟩ := k
    exact makes_zip.mpr ⟨_, _, _, rfl, h, h'⟩
  | each =>
    obtain ⟨_, h, rfl⟩ := k
    exact transforms_each.mpr h
  | localName ho =>
    obtain ⟨_, h, rfl⟩ := k
    exact makes_reference_local ho h
  | named ho hv hf =>
    obtain ⟨_, h, rfl⟩ := k
    exact makes_reference ho hv (he ▸ hf) h
  | builtin hne =>
    obtain ⟨_, h, rfl⟩ := k
    exact (makes_builtin hne).mpr ⟨_, h, rfl⟩
  | argumentError =>
    obtain ⟨_, h, rfl⟩ := k
    exact collectsAll_cons.mpr (.inl ⟨_, h, rfl⟩)
  | argumentNext =>
    obtain ⟨_, h, _, h', rfl⟩ := k
    exact collectsAll_cons.mpr (.inr ⟨_, _, _, h, h', rfl⟩)
  | values =>
    obtain ⟨_, o, _, c, rfl⟩ := k
    exact collects_of_from o c
  | factory =>
    obtain ⟨_, h, rfl⟩ := k
    exact opens_stream.mpr h
  | reference =>
    obtain ⟨_, h, rfl⟩ := k
    exact opens_streamRef.mpr h
  | deferred =>
    obtain ⟨_, h, _, o, rfl⟩ := k
    exact opens_deferred h o
  | deferredError =>
    obtain ⟨_, h, rfl⟩ := k
    exact opens_deferred_error h
  | force =>
    obtain ⟨_, h, rfl⟩ := k
    exact forces_deferred_iff.mpr h
  | @evaluateUnary _ _ _ r =>
    obtain ⟨_, h, rfl⟩ := k
    cases r with
    | error e => exact evaluates_unary_iff.mpr (.inl ⟨e, h, rfl⟩)
    | ok y => exact evaluates_unary h
  | evaluateLeftError =>
    obtain ⟨_, h, rfl⟩ := k
    exact evaluates_binary_iff.mpr (.inl ⟨_, h, rfl⟩)
  | @evaluateBinary _ _ _ _ _ r =>
    obtain ⟨_, h, _, h', rfl⟩ := k
    cases r with
    | error e => exact evaluates_binary_iff.mpr (.inr ⟨_, _, h, .inl ⟨e, h', rfl⟩⟩)
    | ok y => exact evaluates_binary h h'
  | evaluateTernary =>
    obtain ⟨_, o, _, p, rfl⟩ := k
    exact evaluates_ternary o p
  | evaluateRecord =>
    obtain ⟨_, h, rfl⟩ := k
    exact Record.evaluates_record _ h
  | contentsError =>
    obtain ⟨_, h, rfl⟩ := k
    exact Record.gathers_error (.failing h)
  | contentsValues =>
    obtain ⟨_, h, _, h', rfl⟩ := k
    exact Record.gathers_cons (.values h) h'
  | contentsFixed hp =>
    obtain ⟨_, h, rfl⟩ := k
    exact Record.gathers_cons (hp _) h

/-- The activity happens where the other does when the value has been stored. -/
theorem Enters.happens {slot : Handle} {v : Value} (h : Enters slot v a b)
    (k : b.Happens context (w.store slot v) w') : a.Happens context w w' := by
  cases h with
  | pull => exact pulls_bound.mpr ⟨_, rfl, k⟩
  | transform => exact transforms_bind.mpr ⟨_, rfl, k⟩

end Rill
