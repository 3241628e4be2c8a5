import Rill.Eval

/-!
# Fuel only bounds

A computation that ended with some fuel ends in the same way with more. Each step of `Rill.Eval` is
monotone in the calls that it makes and in the fuel of its loops (`pullStep_le` and its siblings), so
the four activities are monotone by one induction on the fuel (`calls_le`).
-/

namespace Rill

namespace Run

/-- `y` ends as `x` does wherever `x` ends. -/
def Le {α : Type} (x y : Run α) : Prop := ∀ w r, x w = some r → y w = some r

theorem Le.refl {α : Type} (x : Run α) : Le x x := fun _ _ h => h

theorem Le.trans {α : Type} {x y z : Run α} (h : Le x y) (k : Le y z) : Le x z :=
  fun w r e => k w r (h w r e)

theorem stuck_le {α : Type} (x : Run α) : Le stuck x := by
  intro w r h
  cases h

theorem bind_eq_some {α β : Type} {x : Run α} {f : α → Run β} {w : World} {r : β × World} :
    (x >>= f) w = some r ↔ ∃ a w', x w = some (a, w') ∧ f a w' = some r := by
  show (x w).bind (fun p => f p.1 p.2) = some r ↔ _
  simp [Option.bind_eq_some_iff]

theorem bind_le {α β : Type} {x y : Run α} {f g : α → Run β} (h : Le x y)
    (k : ∀ a, Le (f a) (g a)) : Le (x >>= f) (y >>= g) := by
  intro w r e
  obtain ⟨a, w', e₁, e₂⟩ := bind_eq_some.mp e
  exact bind_eq_some.mpr ⟨a, w', h w _ e₁, k a w' r e₂⟩

/-- A computation that starts with what does not depend on calls. -/
theorem bind_le_right {α β : Type} (x : Run α) {f g : α → Run β} (k : ∀ a, Le (f a) (g a)) :
    Le (x >>= f) (x >>= g) := bind_le (.refl x) k

end Run

open Run (Le bind_le bind_le_right)

namespace Calls

/-- The calls of `d` end as those of `c` do wherever these end. -/
structure Below (c d : Calls) : Prop where
  pull : ∀ s, Le (c.pull s) (d.pull s)
  invoke : ∀ f s, Le (c.invoke f s) (d.invoke f s)
  toStream : ∀ scope x, Le (c.toStream scope x) (d.toStream scope x)
  force : ∀ scope x, Le (c.force scope x) (d.force scope x)

variable {c d : Calls} (h : c.Below d)
include h

/-! ## Pulling to the end -/

theorem collectFrom_le : ∀ {m n : Nat}, m ≤ n → ∀ (vs : List Value) (s : Stream),
    Le (c.collectFrom m vs s) (d.collectFrom n vs s)
  | 0, _, _, _, _ => Run.stuck_le _
  | m + 1, n + 1, hn, vs, s => by
    refine bind_le (h.pull s) fun ⟨item, s⟩ => ?_
    match item with
    | none => exact .refl _
    | some (.error e) => exact .refl _
    | some (.ok v) => exact collectFrom_le (Nat.le_of_succ_le_succ hn) _ _

theorem drain_le : ∀ {m n : Nat}, m ≤ n → ∀ s : Stream, Le (c.drain m s) (d.drain n s)
  | 0, _, _, _ => Run.stuck_le _
  | m + 1, n + 1, hn, s => by
    refine bind_le (h.pull s) fun ⟨item, s⟩ => ?_
    match item with
    | none => exact .refl _
    | some _ => exact drain_le (Nat.le_of_succ_le_succ hn) _

variable {m n : Nat} (hn : m ≤ n) (scope : Scope)
include hn

theorem values_le (x : Operand) : Le (c.values m scope x) (d.values n scope x) :=
  bind_le (h.toStream scope x) fun _ => collectFrom_le h hn _ _

theorem allValues_le : ∀ xs : List Operand, Le (c.allValues m scope xs) (d.allValues n scope xs)
  | [] => .refl _
  | x :: rest => by
    refine bind_le (values_le h hn scope x) fun r => ?_
    match r with
    | .error e => exact .refl _
    | .ok vs => exact bind_le (allValues_le rest) fun _ => .refl _

omit hn in
theorem firstValue_le (x : Operand) : Le (c.firstValue scope x) (d.firstValue scope x) :=
  bind_le (h.toStream scope x) fun s => bind_le (h.pull s) fun _ => .refl _

theorem text_le (x : Operand) : Le (c.text m scope x) (d.text n scope x) := by
  match x with
  | .value _ | .word _ => exact .refl _
  | .stream _ | .streamRef _ | .deferred _ => exact bind_le (values_le h hn scope _) fun _ => .refl _

theorem texts_le : ∀ xs : List Operand, Le (c.texts m scope xs) (d.texts n scope xs)
  | [] => .refl _
  | x :: rest => by
    refine bind_le (text_le h hn scope x) fun r => ?_
    match r with
    | .error e => exact .refl _
    | .ok t => exact bind_le (texts_le rest) fun _ => .refl _

/-! ## Forcing -/

theorem recordContents_le : ∀ parts : List RecordPart,
    Le (c.recordContents m scope parts) (d.recordContents n scope parts)
  | [] => .refl _
  | .values x :: rest => by
    refine bind_le (values_le h hn scope x) fun r => ?_
    match r with
    | .error e => exact .refl _
    | .ok vs => exact bind_le (recordContents_le rest) fun _ => .refl _
  | .mark _ :: rest | .key _ :: rest | .value _ :: rest =>
    bind_le (recordContents_le rest) fun _ => .refl _

theorem templatePieces_le : ∀ pieces : List String,
    Le (c.templatePieces m scope pieces) (d.templatePieces n scope pieces)
  | [] => .refl _
  | piece :: rest => by
    simp only [templatePieces]
    split
    · simp only [pure_bind]
      exact bind_le (templatePieces_le rest) fun _ => .refl _
    · refine bind_le (text_le h hn scope _) fun r => ?_
      match r with
      | .error e => exact .refl _
      | .ok t => exact bind_le (templatePieces_le rest) fun _ => .refl _

omit hn in
theorem choose_le (condition : Operand) (onTrue onFalse : List Operand) :
    Le (c.choose scope condition onTrue onFalse) (d.choose scope condition onTrue onFalse) :=
  bind_le (firstValue_le h scope condition) fun _ => .refl _

theorem evaluate_le (x : Deferred) : Le (c.evaluate m scope x) (d.evaluate n scope x) := by
  match x with
  | .unary op x => exact bind_le (h.force scope x) fun _ => .refl _
  | .binary op x y =>
    refine bind_le (h.force scope x) fun r => ?_
    match r with
    | .error e => exact .refl _
    | .ok x => exact bind_le (h.force scope y) fun _ => .refl _
  | .ternary condition onTrue onFalse => exact choose_le h scope condition onTrue onFalse
  | .record type operands => exact bind_le (recordContents_le h hn scope _) fun _ => .refl _
  | .template text => exact bind_le (templatePieces_le h hn scope _) fun _ => .refl _

theorem forceStep_le (x : Operand) : Le (c.forceStep m scope x) (d.forceStep n scope x) := by
  match x with
  | .value _ | .stream _ | .streamRef _ | .word _ => exact .refl _
  | .deferred x =>
    refine bind_le (evaluate_le h hn scope x) fun r => ?_
    match r with
    | .error e => exact .refl _
    | .ok x => exact h.force scope x

/-! ## Streams of operands -/

omit hn in
theorem resolveReference_le (name : String) (input : Stream) :
    Le (c.resolveReference scope name input) (d.resolveReference scope name input) := by
  unfold resolveReference
  split
  · exact h.invoke _ _
  · refine bind_le_right _ fun world => ?_
    split
    · exact .refl _
    · refine bind_le_right _ fun f => ?_
      match f with
      | some f => exact h.invoke f input
      | none => exact .refl _

theorem toStreamStep_le (x : Operand) :
    Le (c.toStreamStep m scope x) (d.toStreamStep n scope x) := by
  match x with
  | .value _ | .word _ => exact .refl _
  | .stream f => exact h.invoke f .empty
  | .streamRef name => exact resolveReference_le h scope name .empty
  | .deferred x =>
    refine bind_le (evaluate_le h hn scope x) fun r => ?_
    match r with
    | .error e => exact .refl _
    | .ok x => exact h.toStream scope x

/-! ## Using factories -/

theorem runBuiltin_le (name : Builtin) (args : List Operand) (input : Stream) :
    Le (c.runBuiltin m name scope args input) (d.runBuiltin n name scope args input) := by
  match name with
  | .prepend => exact .refl _
  | .add | .args | .echo | .exit | .get | .now =>
    exact bind_le (allValues_le h hn scope args) fun _ => .refl _

theorem runProgram_le (context : Context) (path : String) (program : Program)
    (args : List Operand) :
    Le (c.runProgram context m path program scope args)
      (d.runProgram context n path program scope args) :=
  bind_le (texts_le h hn scope args) fun _ => .refl _

omit scope in
theorem invokeStep_le (context : Context) (f : Factory) (input : Stream) :
    Le (c.invokeStep context m f input) (d.invokeStep context n f input) := by
  match f with
  | .items _ | .range _ _ | .sequence _ _ | .bind _ _ | .each _ => exact .refl _
  | .compose first second => exact bind_le (h.invoke first input) fun s => h.invoke second s
  | .andThen first second =>
    exact bind_le (h.invoke first input) fun s => bind_le (drain_le h hn s) fun _ =>
      h.invoke second .empty
  | .builtin name scope args => exact runBuiltin_le h hn scope name args input
  | .program path name scope args => exact runProgram_le h hn scope context path name args
  | .reference scope name => exact resolveReference_le h scope name input
  | .unary op source | .left op source _ | .right op _ source =>
    exact bind_le (h.invoke source .empty) fun _ => .refl _
  | .zip op left right =>
    exact bind_le (h.invoke left .empty) fun _ => bind_le (h.invoke right .empty) fun _ => .refl _

/-! ## Pulling -/

omit hn scope in
theorem transform_le (t : Transform) (v : Value) : Le (c.transform t v) (d.transform t v) := by
  match t with
  | .bind slot body => exact bind_le_right _ fun _ => bind_le (h.invoke body .empty) fun _ => .refl _
  | .each body => exact h.invoke body (.once v)
  | .unary _ | .left _ _ | .right _ _ | .get _ => exact .refl _

omit hn in
theorem pullConcat_le : ∀ (operands : List Operand) (front : Stream),
    Le (c.pullConcat scope operands front) (d.pullConcat scope operands front)
  | [], front => bind_le (h.pull front) fun _ => .refl _
  | x :: rest, front => by
    refine bind_le (h.pull front) fun ⟨item, front⟩ => ?_
    match item with
    | some item => exact .refl _
    | none => exact bind_le (h.toStream scope x) fun next => pullConcat_le rest next

omit hn scope in
theorem pullFlatMap_le (t : Transform) : ∀ {m n : Nat}, m ≤ n → ∀ input front : Stream,
    Le (c.pullFlatMap t m input front) (d.pullFlatMap t n input front)
  | 0, _, _, _, _ => Run.stuck_le _
  | m + 1, n + 1, hn, input, front => by
    have hn := Nat.le_of_succ_le_succ hn
    refine bind_le (h.pull front) fun ⟨item, front⟩ => ?_
    match item with
    | some item => exact .refl _
    | none =>
      refine bind_le (h.pull input) fun ⟨next, input⟩ => ?_
      match next with
      | none => exact .refl _
      | some (.error e) => exact pullFlatMap_le t hn _ _
      | some (.ok v) => exact bind_le (transform_le h t v) fun _ => pullFlatMap_le t hn _ _

omit hn scope in
theorem pullZip_le (op : Operator) : ∀ {m n : Nat}, m ≤ n → ∀ left right front : Stream,
    Le (c.pullZip op m left right front) (d.pullZip op n left right front)
  | 0, _, _, _, _, _ => Run.stuck_le _
  | m + 1, n + 1, hn, left, right, front => by
    have hn := Nat.le_of_succ_le_succ hn
    refine bind_le (h.pull front) fun ⟨item, front⟩ => ?_
    match item with
    | some item => exact .refl _
    | none =>
      refine bind_le (h.pull left) fun ⟨first, left⟩ => ?_
      match first with
      | none => exact .refl _
      | some first =>
        refine bind_le (h.pull right) fun ⟨second, right⟩ => ?_
        match second with
        | none => exact .refl _
        | some second =>
          match first, second with
          | .ok v, .ok w => exact pullZip_le op hn _ _ _
          | .error e, .ok _ | .error e, .error _ | .ok _, .error e => exact pullZip_le op hn _ _ _

omit scope in
theorem pullStep_le (s : Stream) : Le (c.pullStep m s) (d.pullStep n s) := by
  match s with
  | .items [] | .items (_ :: _) | .range _ _ | .ticks _ _ | .child _ => exact .refl _
  | .concat scope operands front => exact pullConcat_le h scope operands front
  | .flatMap t input front => exact pullFlatMap_le h t hn input front
  | .bound slot v inner => exact bind_le_right _ fun _ => bind_le (h.pull inner) fun _ => .refl _
  | .zip op left right front => exact pullZip_le h op hn left right front
  | .add amount input => exact bind_le (h.pull input) fun _ => .refl _
  | .chain first second =>
    refine bind_le (h.pull first) fun ⟨item, first⟩ => ?_
    match item with
    | some item => exact .refl _
    | none => exact bind_le (h.pull second) fun _ => .refl _

end Calls

/-! ## The four activities -/

namespace Eval

/-- One more unit of fuel. -/
theorem calls_succ (context : Context) : ∀ n : Nat, (calls context n).Below (calls context (n + 1))
  | 0 => ⟨fun _ => Run.stuck_le _, fun _ _ => Run.stuck_le _, fun _ _ => Run.stuck_le _,
      fun _ _ => Run.stuck_le _⟩
  | n + 1 =>
    have h := calls_succ context n
    ⟨fun s => Calls.pullStep_le h n.le_succ s, fun f s => Calls.invokeStep_le h n.le_succ context f s,
      fun scope x => Calls.toStreamStep_le h n.le_succ scope x,
      fun scope x => Calls.forceStep_le h n.le_succ scope x⟩

/-- Any more fuel. -/
theorem calls_le (context : Context) {m n : Nat} (h : m ≤ n) :
    (calls context m).Below (calls context n) := by
  induction h with
  | refl => exact ⟨fun _ => .refl _, fun _ _ => .refl _, fun _ _ => .refl _, fun _ _ => .refl _⟩
  | @step n _ ih =>
    have k := calls_succ context n
    exact ⟨fun s => (ih.pull s).trans (k.pull s), fun f s => (ih.invoke f s).trans (k.invoke f s),
      fun scope x => (ih.toStream scope x).trans (k.toStream scope x),
      fun scope x => (ih.force scope x).trans (k.force scope x)⟩

end Eval

end Rill
