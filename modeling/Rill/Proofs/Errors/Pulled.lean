import Rill.Proofs.Errors.Raises

/-!
# Pulling raises no other errors

`P` is a property that every error has for which a line is not at fault. Whatever is pulled, used,
opened or forced raises only errors that have it, if nothing that it is made of and no named stream
raises others (`Run.Gives`). Each step of `Rill.Eval` keeps to that if the calls that it makes do,
and so do the four activities, by one induction on the fuel (`Eval.calls_raise`). So every error
that can be pulled from a stream has the property (`Emits.raises`).
-/

namespace Rill

variable {P : Error → Prop} {scope : Scope}

/-! ## Operators on operands -/

namespace Operand.Raises

variable {x y : Operand}

theorem lazy {f : Factory} (hs : scope.Raises P) (hx : x.Raises P)
    (h : x.ready? scope = some (.lazy f)) : f.Raises P := by
  cases hx with
  | value v => cases h
  | stream hf =>
    cases h
    exact hf
  | streamRef name =>
    cases h
    exact .reference hs
  | word w =>
    simp only [Operand.ready?] at h
    split at h <;> cases h
  | deferred hd => cases h

theorem ofOutcome {r : Except Error Outcome} (h : ∀ e, r = .error e → P e) :
    (Operand.ofOutcome r).Raises P := by
  match r with
  | .ok (.value v) => exact .value v
  | .ok (.range first last) => exact .stream (.range first last)
  | .error e => exact .stream (.failing (h e rfl))

variable (hP : ∀ e : Error, e.isStructural = false → P e)
include hP

theorem applyUnary (hs : scope.Raises P) (hx : x.Raises P) (op : Operator) :
    (Operand.applyUnary scope op x).Raises P := by
  unfold Operand.applyUnary
  split
  next v _ => exact .ofOutcome fun e h => hP e (not_structural_of_unary h)
  next f h => exact .stream (.unary (hx.lazy hs h))
  next => exact .deferred (.unary hx)

theorem applyBinary (hs : scope.Raises P) (hx : x.Raises P) (hy : y.Raises P) (op : Operator) :
    (Operand.applyBinary scope op x y).Raises P := by
  unfold Operand.applyBinary
  split
  next => exact .ofOutcome fun e h => hP e (not_structural_of_binary h)
  next h _ => exact .stream (.left (hx.lazy hs h))
  next h => exact .stream (.right (hy.lazy hs h))
  next h k => exact .stream (.zip (hx.lazy hs h) (hy.lazy hs k))
  next => exact .deferred (.binary hx hy)

end Operand.Raises

/-- The operands of a record are among its parts. -/
theorem mem_of_mem_parts {x : Operand} {operands : List Operand}
    (h : .values x ∈ Record.parts operands) : x ∈ operands := by
  induction operands with
  | nil => cases h
  | cons y rest ih =>
    rcases List.mem_cons.mp h with e | h
    · have hxy : x = y := by
        cases y with
        | word w =>
          dsimp only at e
          split at e
          · cases e
          · split at e <;> cases e
            rfl
        | value v => cases e
        | stream _ | streamRef _ | deferred _ => exact RecordPart.values.inj e
      exact hxy ▸ List.mem_cons_self
    · exact List.mem_cons_of_mem y (ih h)

/-! ## Computations -/

namespace Run

variable {α β : Type} {x : Run α} {R S : α → Prop}

/-- In an environment that raises no other errors the computation leaves one that does not, and ends
with something of which `R` holds. -/
def Gives (P : Error → Prop) (x : Run α) (R : α → Prop) : Prop :=
  ∀ w a w', w.env.Raises P → x w = some (a, w') → w'.env.Raises P ∧ R a

theorem Gives.pure {a : α} (h : R a) : Gives P (pure a : Run α) R := by
  rintro w b w' hw ⟨⟩
  exact ⟨hw, h⟩

theorem Gives.get : Gives P (get : Run World) fun _ => True := by
  rintro w b w' hw ⟨⟩
  exact ⟨hw, trivial⟩

theorem Gives.stuck : Gives P (stuck : Run α) R := nofun

protected theorem Gives.bind {f : α → Run β} {T : β → Prop} (hx : Gives P x R)
    (hf : ∀ a, R a → Gives P (f a) T) : Gives P (x >>= f) T := by
  intro w b w' hw h
  obtain ⟨a, w₁, h₁, h₂⟩ := bind_eq_some.mp h
  obtain ⟨hw₁, ha⟩ := hx w a w₁ hw h₁
  exact hf a ha w₁ b w' hw₁ h₂

theorem gives_store (slot : Handle) (v : Value) : Gives P (store slot v) fun _ => True := by
  rintro w a w' hw ⟨⟩
  exact ⟨hw, trivial⟩

theorem gives_binding? (name : String) :
    Gives P (binding? name) fun f => ∀ g, f = some g → g.Raises P := by
  rintro w a w' hw ⟨⟩
  obtain ⟨hf, henv⟩ := hw.get? name
  exact ⟨henv, hf⟩

end Run

open Run (Gives)

/-- What a pull gave raises no other errors. -/
structure Pulled (P : Error → Prop) (r : Option Item × Stream) : Prop where
  item : ∀ e, r.1 = some (.error e) → P e
  rest : r.2.Raises P

namespace Calls

/-- The calls raise no other errors. -/
structure Raise (P : Error → Prop) (c : Calls) : Prop where
  pull : ∀ {s}, s.Raises P → Gives P (c.pull s) (Pulled P)
  invoke : ∀ {f s}, f.Raises P → s.Raises P → Gives P (c.invoke f s) (Stream.Raises P)
  toStream : ∀ {scope x}, scope.Raises P → x.Raises P →
    Gives P (c.toStream scope x) (Stream.Raises P)
  force : ∀ {scope x}, scope.Raises P → x.Raises P →
    Gives P (c.force scope x) (Either P (Operand.Raises P))

variable {c : Calls} (h : c.Raise P)
include h

/-! ## Pulling to the end -/

theorem collectFrom_gives : ∀ (n : Nat) (vs : List Value) {s : Stream}, s.Raises P →
    Gives P (c.collectFrom n vs s) (Either P fun _ => True)
  | 0, _, _, _ => .stuck
  | n + 1, vs, s, hs => by
    refine (h.pull hs).bind fun ⟨item, s⟩ hr => ?_
    match item with
    | none => exact .pure trivial
    | some (.error e) => exact .pure (hr.item e rfl)
    | some (.ok v) => exact collectFrom_gives n _ hr.rest

theorem drain_gives : ∀ (n : Nat) {s : Stream}, s.Raises P → Gives P (c.drain n s) fun _ => True
  | 0, _, _ => .stuck
  | n + 1, s, hs => by
    refine (h.pull hs).bind fun ⟨item, s⟩ hr => ?_
    match item with
    | none => exact .pure trivial
    | some _ => exact drain_gives n hr.rest

variable (n : Nat) (hs : scope.Raises P)
include hs

theorem values_gives {x : Operand} (hx : x.Raises P) :
    Gives P (c.values n scope x) (Either P fun _ => True) :=
  (h.toStream hs hx).bind fun _ hr => collectFrom_gives h n _ hr

theorem allValues_gives : ∀ {xs : List Operand}, (∀ x ∈ xs, x.Raises P) →
    Gives P (c.allValues n scope xs) (Either P fun _ => True)
  | [], _ => .pure trivial
  | x :: rest, hx => by
    obtain ⟨hx, hrest⟩ := List.forall_mem_cons.mp hx
    refine (values_gives h n hs hx).bind fun r hr => ?_
    match r with
    | .error e => exact .pure hr
    | .ok vs =>
      refine (allValues_gives hrest).bind fun r hr => ?_
      match r with
      | .error e => exact .pure hr
      | .ok _ => exact .pure trivial

omit n in
theorem firstValue_gives {x : Operand} (hx : x.Raises P) :
    Gives P (c.firstValue scope x) (Either P fun _ => True) := by
  refine (h.toStream hs hx).bind fun s hs => (h.pull hs).bind fun ⟨item, s⟩ hr => ?_
  match item with
  | none | some (.ok _) => exact .pure trivial
  | some (.error e) => exact .pure (hr.item e rfl)

theorem text_gives {x : Operand} (hx : x.Raises P) :
    Gives P (c.text n scope x) (Either P fun _ => True) := by
  match x with
  | .value _ => exact .pure trivial
  | .word _ => exact Gives.get.bind fun _ _ => .pure trivial
  | .stream _ | .streamRef _ | .deferred _ =>
    refine (values_gives h n hs hx).bind fun r hr => ?_
    match r with
    | .error e => exact .pure hr
    | .ok _ => exact .pure trivial

theorem texts_gives : ∀ {xs : List Operand}, (∀ x ∈ xs, x.Raises P) →
    Gives P (c.texts n scope xs) (Either P fun _ => True)
  | [], _ => .pure trivial
  | x :: rest, hx => by
    obtain ⟨hx, hrest⟩ := List.forall_mem_cons.mp hx
    refine (text_gives h n hs hx).bind fun r hr => ?_
    match r with
    | .error e => exact .pure hr
    | .ok t =>
      refine (texts_gives hrest).bind fun r hr => ?_
      match r with
      | .error e => exact .pure hr
      | .ok _ => exact .pure trivial

/-! ## Forcing -/

theorem recordContents_gives : ∀ {parts : List RecordPart},
    (∀ x, .values x ∈ parts → x.Raises P) →
    Gives P (c.recordContents n scope parts) (Either P fun _ => True)
  | [], _ => .pure trivial
  | .values x :: rest, hx => by
    refine (values_gives h n hs (hx x List.mem_cons_self)).bind fun r hr => ?_
    match r with
    | .error e => exact .pure hr
    | .ok vs =>
      have hrest (y : Operand) (hy : .values y ∈ rest) : y.Raises P := hx y (.tail _ hy)
      refine (recordContents_gives hrest).bind fun r hr => ?_
      match r with
      | .error e => exact .pure hr
      | .ok _ => exact .pure trivial
  | .mark _ :: rest, hx | .key _ :: rest, hx | .value _ :: rest, hx => by
    have hrest (y : Operand) (hy : .values y ∈ rest) : y.Raises P := hx y (.tail _ hy)
    refine (recordContents_gives hrest).bind fun r hr => ?_
    match r with
    | .error e => exact .pure hr
    | .ok _ => exact .pure trivial

theorem templatePieces_gives : ∀ pieces : List String,
    Gives P (c.templatePieces n scope pieces) (Either P fun _ => True)
  | [] => .pure trivial
  | piece :: rest => by
    simp only [templatePieces]
    split
    all_goals
      -- the piece itself, or what its reference stands for
      first
      | refine Gives.bind (R := Either P fun _ => True) (.pure trivial) fun content hr => ?_
      | refine (text_gives h n hs (.streamRef _)).bind fun content hr => ?_
      cases content with
      | error e => exact .pure hr
      | ok t =>
        refine (templatePieces_gives rest).bind fun r hr => ?_
        cases r with
        | error e => exact .pure hr
        | ok _ => exact .pure trivial

omit n in
theorem choose_gives {condition : Operand} {onTrue onFalse : List Operand}
    (hc : condition.Raises P) (ht : ∀ x ∈ onTrue, x.Raises P) (hf : ∀ x ∈ onFalse, x.Raises P) :
    Gives P (c.choose scope condition onTrue onFalse) (Either P (Operand.Raises P)) := by
  refine (firstValue_gives h hs hc).bind fun r hr => ?_
  match r with
  | .ok v =>
    show Gives P (if v.isTruthy = true then _ else _) _
    split
    · refine .pure ?_
      show Operand.Raises P (if onTrue.isEmpty = true then _ else _)
      split
      · exact .value v
      · exact .stream (.sequence hs ht)
    · exact .pure (.stream (.sequence hs hf))
  | .error e =>
    refine .pure ?_
    split
    · exact .stream (.sequence hs hf)
    · exact hr

variable (hP : ∀ e : Error, e.isStructural = false → P e)
include hP

theorem evaluate_gives {d : Deferred} (hd : d.Raises P) :
    Gives P (c.evaluate n scope d) (Either P (Operand.Raises P)) := by
  cases hd with
  | unary hx =>
    refine (h.force hs hx).bind fun r hr => ?_
    match r with
    | .error e => exact .pure hr
    | .ok x => exact .pure (.applyUnary hP hs hr _)
  | binary hx hy =>
    refine (h.force hs hx).bind fun r hr => ?_
    match r with
    | .error e => exact .pure hr
    | .ok x =>
      refine (h.force hs hy).bind fun r hr' => ?_
      match r with
      | .error e => exact .pure hr'
      | .ok y => exact .pure (.applyBinary hP hs hr hr' _)
  | ternary hc ht hf => exact choose_gives h hs hc ht hf
  | @record type operands hx =>
    have hparts (x : Operand) (k : .values x ∈ Record.parts operands) : x.Raises P :=
      hx x (mem_of_mem_parts k)
    refine (recordContents_gives h n hs hparts).bind fun r hr => ?_
    match r with
    | .error e => exact .pure hr
    | .ok contents =>
      refine .pure ?_
      cases hv : Record.ofText type (Record.text contents) with
      | error e => exact hP e (not_structural_of_ofText hv)
      | ok v => exact .value v
  | template text =>
    refine (templatePieces_gives h n hs _).bind fun r hr => ?_
    match r with
    | .error e => exact .pure hr
    | .ok _ => exact .pure (.value _)

theorem forceStep_gives {x : Operand} (hx : x.Raises P) :
    Gives P (c.forceStep n scope x) (Either P (Operand.Raises P)) := by
  cases hx with
  | value v => exact .pure (.value v)
  | stream hf => exact .pure (.stream hf)
  | streamRef name => exact .pure (.streamRef name)
  | word w =>
    refine Gives.get.bind fun world _ => ?_
    match scope.resolve? world.slots w with
    | some v => exact .pure (.value v)
    | none => exact .pure (.word w)
  | deferred hd =>
    refine (evaluate_gives h n hs hP hd).bind fun r hr => ?_
    match r with
    | .error e => exact .pure hr
    | .ok x => exact h.force hs hr

/-! ## Streams of operands -/

omit n in
theorem resolveReference_gives (name : String) {input : Stream} (hi : input.Raises P) :
    Gives P (c.resolveReference scope name input) (Stream.Raises P) := by
  unfold resolveReference
  split
  next f hf => exact h.invoke (hs.find? hf) hi
  next =>
    refine Gives.get.bind fun world _ => ?_
    split
    · exact .pure (.ofValue _)
    · refine (Run.gives_binding? name).bind fun f hf => ?_
      match f with
      | some f => exact h.invoke (hf f rfl) hi
      | none => exact .pure (.fail (hP _ rfl))

theorem toStreamStep_gives {x : Operand} (hx : x.Raises P) :
    Gives P (c.toStreamStep n scope x) (Stream.Raises P) := by
  cases hx with
  | value v => exact .pure (.ofValue v)
  | stream hf => exact h.invoke hf .empty
  | streamRef name => exact resolveReference_gives h hs hP name .empty
  | word w =>
    refine Gives.get.bind fun world _ => ?_
    match scope.resolve? world.slots w with
    | some v => exact .pure (.ofValue v)
    | none => exact .pure (.once _)
  | deferred hd =>
    refine (evaluate_gives h n hs hP hd).bind fun r hr => ?_
    match r with
    | .error e => exact .pure (.fail hr)
    | .ok x => exact h.toStream hs hr

/-! ## Using factories -/

omit h hs n in
theorem raises_builtinStream {name : Builtin} {values : List Value} {input : Stream}
    (hname : name = .add ∨ name = .get → P .missingOperand) (hi : input.Raises P) :
    (builtinStream name values input).Raises P := by
  cases name with
  | add =>
    cases values with
    | nil => exact .fail (hname (.inl rfl))
    | cons v vs => exact .add hi
  | get =>
    cases values with
    | nil => exact .fail (hname (.inr rfl))
    | cons v vs => exact .flatMap trivial hi .empty
  | args | echo => exact .once _
  | exit => exact .fail (hP _ rfl)
  | now =>
    unfold builtinStream
    cases hp : period values with
    | ok p => exact .ticks p 0
    | error e => exact .fail (hP e (not_structural_of_period hp))
  | prepend => exact hi

theorem runBuiltin_gives {name : Builtin} {args : List Operand} {input : Stream}
    (hname : name = .add ∨ name = .get → P .missingOperand) (hx : ∀ x ∈ args, x.Raises P)
    (hi : input.Raises P) :
    Gives P (c.runBuiltin n name scope args input) (Stream.Raises P) := by
  match name with
  | .prepend => exact .pure (.chain (.concat hs hx .empty) hi)
  | .add | .args | .echo | .exit | .get | .now =>
    refine (allValues_gives h n hs hx).bind fun r hr => ?_
    match r with
    | .error e => exact .pure (.fail hr)
    | .ok _ => exact .pure (raises_builtinStream hP hname hi)

theorem runProgram_gives (context : Context) (path : String) (program : Program)
    {args : List Operand} (hx : ∀ x ∈ args, x.Raises P) :
    Gives P (c.runProgram context n path program scope args) (Stream.Raises P) := by
  refine (texts_gives h n hs hx).bind fun r hr => ?_
  match r with
  | .error e => exact .pure (.fail hr)
  | .ok texts =>
    dsimp only
    split
    · exact .pure (.fail (hP _ rfl))
    · split
      · exact .pure (.fail (hP _ rfl))
      · rintro w a w' hw ⟨⟩
        exact ⟨hw, .child _⟩

omit hs in
theorem invokeStep_gives (context : Context) {f : Factory} {input : Stream} (hf : f.Raises P)
    (hi : input.Raises P) : Gives P (c.invokeStep context n f input) (Stream.Raises P) := by
  cases hf with
  | items hx => exact .pure (.items hx)
  | range first last => exact .pure (.range first last)
  | compose hf hg => exact (h.invoke hf hi).bind fun _ ht => h.invoke hg ht
  | andThen hf hg =>
    exact (h.invoke hf hi).bind fun _ ht => (drain_gives h n ht).bind fun _ _ => h.invoke hg .empty
  | builtin hname hs hx => exact runBuiltin_gives h n hs hP hname hx hi
  | program hs hx => exact runProgram_gives h n hs hP context _ _ hx
  | reference hs => exact resolveReference_gives h hs hP _ hi
  | sequence hs hx => exact .pure (.concat hs hx .empty)
  | bind hf => exact .pure (.flatMap hf hi .empty)
  | each hf => exact .pure (.flatMap hf hi .empty)
  | unary hf | left hf | right hf =>
    exact (h.invoke hf .empty).bind fun _ ht => .pure (.flatMap trivial ht .empty)
  | zip hf hg =>
    exact (h.invoke hf .empty).bind fun _ hl => (h.invoke hg .empty).bind fun _ hr =>
      .pure (.zip hl hr .empty)

/-! ## Pulling -/

omit h hs n hP in
theorem raises_ofOutcome {r : Except Error Outcome} (h : ∀ e, r = .error e → P e) :
    (ofOutcome r).Raises P := by
  match r with
  | .ok (.value v) => exact .once v
  | .ok (.range first last) => exact .range first last
  | .error e => exact .fail (h e rfl)

omit h hs n in
theorem raises_pair (op : Operator) (v w : Value) : (ofOutcome (op.binary v w)).Raises P :=
  raises_ofOutcome fun e he => hP e (not_structural_of_binary he)

omit hs n in
theorem transform_gives {t : Transform} (ht : t.Raises P) (v : Value) :
    Gives P (c.transform t v) (Stream.Raises P) := by
  match t with
  | .bind slot body =>
    exact (Run.gives_store slot v).bind fun _ _ => (h.invoke ht .empty).bind fun _ hi =>
      .pure (.bound hi)
  | .each body => exact h.invoke ht (.once v)
  | .unary op => exact .pure (raises_ofOutcome fun e he => hP e (not_structural_of_unary he))
  | .left op w | .right op w => exact .pure (raises_pair hP op _ _)
  | .get path =>
    refine .pure ?_
    cases v.lookup? path with
    | none => exact .empty
    | some v => exact .ofValue v

omit n hP in
theorem pullConcat_gives : ∀ {operands : List Operand} {front : Stream},
    (∀ x ∈ operands, x.Raises P) → front.Raises P →
    Gives P (c.pullConcat scope operands front) (Pulled P)
  | [], front, hx, hf => by
    refine (h.pull hf).bind fun ⟨item, front⟩ hr => ?_
    match item with
    | some _ => exact .pure ⟨hr.item, .concat hs hx hr.rest⟩
    | none => exact .pure ⟨nofun, .concat hs hx .empty⟩
  | x :: rest, front, hx, hf => by
    refine (h.pull hf).bind fun ⟨item, front⟩ hr => ?_
    match item with
    | some _ => exact .pure ⟨hr.item, .concat hs hx hr.rest⟩
    | none =>
      obtain ⟨hx, hrest⟩ := List.forall_mem_cons.mp hx
      exact (h.toStream hs hx).bind fun _ hn => pullConcat_gives hrest hn

omit n hs in
theorem pullFlatMap_gives {t : Transform} (ht : t.Raises P) : ∀ (n : Nat) {input front : Stream},
    input.Raises P → front.Raises P → Gives P (c.pullFlatMap t n input front) (Pulled P)
  | 0, _, _, _, _ => .stuck
  | n + 1, input, front, hi, hf => by
    refine (h.pull hf).bind fun ⟨item, front⟩ hr => ?_
    match item with
    | some _ => exact .pure ⟨hr.item, .flatMap ht hi hr.rest⟩
    | none =>
      refine (h.pull hi).bind fun ⟨next, input⟩ hr => ?_
      match next with
      | none => exact .pure ⟨nofun, .flatMap ht .empty .empty⟩
      | some (.error e) => exact pullFlatMap_gives ht n hr.rest (.fail (hr.item e rfl))
      | some (.ok v) =>
        exact (transform_gives h hP ht v).bind fun _ hf => pullFlatMap_gives ht n hr.rest hf

omit n hs in
theorem pullZip_gives (op : Operator) : ∀ (n : Nat) {left right front : Stream},
    left.Raises P → right.Raises P → front.Raises P →
    Gives P (c.pullZip op n left right front) (Pulled P)
  | 0, _, _, _, _, _, _ => .stuck
  | n + 1, left, right, front, hl, hr, hf => by
    refine (h.pull hf).bind fun ⟨item, front⟩ hp => ?_
    match item with
    | some _ => exact .pure ⟨hp.item, .zip hl hr hp.rest⟩
    | none =>
      refine (h.pull hl).bind fun ⟨first, left⟩ hl => ?_
      match first with
      | none => exact .pure ⟨nofun, .zip .empty .empty .empty⟩
      | some first =>
        refine (h.pull hr).bind fun ⟨second, right⟩ hr => ?_
        match second with
        | none => exact .pure ⟨nofun, .zip .empty .empty .empty⟩
        | some second =>
          match first, second with
          | .ok v, .ok w => exact pullZip_gives op n hl.rest hr.rest (raises_pair hP op v w)
          | .error e, .ok _ | .error e, .error _ =>
            exact pullZip_gives op n hl.rest hr.rest (.fail (hl.item e rfl))
          | .ok _, .error e => exact pullZip_gives op n hl.rest hr.rest (.fail (hr.item e rfl))

omit h hs n in
theorem raises_added {amount : Value} {item : Item} {e : Error} (hi : ∀ e, item = .error e → P e)
    (h : added amount item = .error e) : P e := by
  match item with
  | .error e' =>
    cases h
    exact hi e rfl
  | .ok v =>
    simp only [added, bind, Except.bind] at h
    cases hb : Operator.binary .add v amount with
    | error e' =>
      rw [hb] at h
      cases h
      exact hP e (not_structural_of_binary hb)
    | ok o =>
      rw [hb] at h
      cases o with
      | value sum => cases h
      | range _ _ =>
        cases h
        exact hP _ rfl

omit hs in
theorem pullStep_gives {s : Stream} (hs : s.Raises P) : Gives P (c.pullStep n s) (Pulled P) := by
  cases hs with
  | @items xs hx =>
    cases xs with
    | nil => exact .pure ⟨nofun, .empty⟩
    | cons x xs =>
      refine .pure ⟨fun e he => hx e ?_, .items fun e he => hx e (.tail _ he)⟩
      exact Option.some.inj he ▸ List.mem_cons_self
  | range next last =>
    show Gives P (if next ≤ last then _ else _) _
    split <;> exact .pure ⟨nofun, .range ..⟩
  | concat hs hx hf => exact pullConcat_gives h hs hx hf
  | flatMap ht hi hf => exact pullFlatMap_gives h hP ht n hi hf
  | bound hi =>
    exact (Run.gives_store _ _).bind fun _ _ => (h.pull hi).bind fun _ hr =>
      .pure ⟨hr.item, .bound hr.rest⟩
  | zip hl hr hf => exact pullZip_gives h hP _ n hl hr hf
  | add hi =>
    refine (h.pull hi).bind fun ⟨item, input⟩ hr => .pure ⟨fun e he => ?_, .add hr.rest⟩
    cases item with
    | none => cases he
    | some x =>
      refine raises_added hP (fun e' hx => hr.item e' ?_) (Option.some.inj he)
      rw [hx]
  | chain hf hs =>
    refine (h.pull hf).bind fun ⟨item, first⟩ hr => ?_
    match item with
    | some _ => exact .pure ⟨hr.item, .chain hr.rest hs⟩
    | none => exact (h.pull hs).bind fun _ hr => .pure ⟨hr.item, .chain .empty hr.rest⟩
  | ticks period told =>
    refine Gives.get.bind fun world _ => ?_
    split <;> exact .pure ⟨nofun, .ticks ..⟩
  | child c =>
    exact Gives.get.bind fun world _ =>
      .pure ⟨fun e he => hP e (not_structural_of_pull he), .child _⟩

end Calls

/-! ## The four activities -/

/-- Whatever the fuel, the four activities raise no other errors. -/
theorem Eval.calls_raise (context : Context) (hP : ∀ e : Error, e.isStructural = false → P e) :
    ∀ n : Nat, (Eval.calls context n).Raise P
  | 0 => ⟨fun _ => .stuck, fun _ _ => .stuck, fun _ _ => .stuck, fun _ _ => .stuck⟩
  | n + 1 =>
    have h := calls_raise context hP n
    ⟨Calls.pullStep_gives h n hP, Calls.invokeStep_gives h n hP context,
      fun hs hx => Calls.toStreamStep_gives h n hs hP hx,
      fun hs hx => Calls.forceStep_gives h n hs hP hx⟩

/-- The error can be pulled from the stream, now or later, in worlds of which `W` holds. -/
inductive Emits (context : Context) (W : World → Prop) : Stream → Error → Prop
  | now {s s' : Stream} {w w' : World} {e : Error} (hw : W w)
    (h : Pulls context s w (some (.error e)) s' w') : Emits context W s e
  | later {s s' : Stream} {w w' : World} {item : Item} {e : Error} (hw : W w)
    (h : Pulls context s w (some item) s' w') (k : Emits context W s' e) : Emits context W s e

variable {context : Context} (hP : ∀ e : Error, e.isStructural = false → P e)
include hP

theorem Pulls.raises {s s' : Stream} {item : Option Item} {w w' : World} (hw : w.env.Raises P)
    (hs : s.Raises P) (h : Pulls context s w item s' w') :
    w'.env.Raises P ∧ Pulled P (item, s') := by
  obtain ⟨n, h⟩ := h
  exact (Eval.calls_raise context hP n).pull hs w _ w' hw (h n (Nat.le_refl n))

theorem Makes.raises {f : Factory} {input s : Stream} {w w' : World} (hw : w.env.Raises P)
    (hf : f.Raises P) (hi : input.Raises P) (h : Makes context f input w s w') :
    w'.env.Raises P ∧ s.Raises P := by
  obtain ⟨n, h⟩ := h
  exact (Eval.calls_raise context hP n).invoke hf hi w _ w' hw (h n (Nat.le_refl n))

/-- From a stream that raises no other errors none can be pulled. -/
theorem Emits.raises {s : Stream} {e : Error} (hs : s.Raises P)
    (h : Emits context (fun w => w.env.Raises P) s e) : P e := by
  induction h with
  | now hw h => exact (h.raises hP hw hs).2.item _ rfl
  | later hw h _ ih => exact ih (h.raises hP hw hs).2.rest

end Rill
