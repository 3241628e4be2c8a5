import Rill.Proofs.Holding

/-!
# Pulling only stores

Whatever is pulled, used, opened or forced gives out no slot and takes none back: it only stores
values (`Run.Stores`). Each step of `Rill.Eval` does so if the calls that it makes do, and so do the
four activities, by one induction on the fuel (`Eval.calls_store`).
-/

namespace Rill

namespace Run

variable {α β : Type}

/-- The computation gives out no slot and takes none back. -/
def Stores (x : Run α) : Prop := ∀ w a w', x w = some (a, w') → w.slots.Alike w'.slots

theorem Stores.pure (a : α) : Stores (pure a : Run α) := by
  rintro w b w' ⟨⟩
  exact .refl _

theorem Stores.get : Stores (get : Run World) := by
  rintro w b w' ⟨⟩
  exact .refl _

theorem Stores.stuck : Stores (stuck : Run α) := nofun

protected theorem Stores.bind {x : Run α} {f : α → Run β} (hx : Stores x) (hf : ∀ a, Stores (f a)) :
    Stores (x >>= f) := by
  intro w b w' h
  obtain ⟨a, w₁, h₁, h₂⟩ := bind_eq_some.mp h
  exact (hx w a w₁ h₁).trans (hf a w₁ b w' h₂)

theorem stores_store (slot : Handle) (v : Value) : Stores (store slot v) := by
  rintro w a w' ⟨⟩
  exact Slots.alike_set ..

theorem stores_binding? (name : String) : Stores (binding? name) := by
  rintro w a w' ⟨⟩
  exact .refl _

end Run

open Run (Stores)

namespace Calls

/-- The calls only store. -/
structure Store (c : Calls) : Prop where
  pull : ∀ s, Stores (c.pull s)
  invoke : ∀ f s, Stores (c.invoke f s)
  toStream : ∀ scope x, Stores (c.toStream scope x)
  force : ∀ scope x, Stores (c.force scope x)

variable {c : Calls} (h : c.Store)
include h

/-! ## Pulling to the end -/

theorem collectFrom_stores : ∀ (n : Nat) (vs : List Value) (s : Stream),
    Stores (c.collectFrom n vs s)
  | 0, _, _ => .stuck
  | n + 1, vs, s => by
    refine (h.pull s).bind fun ⟨item, s⟩ => ?_
    match item with
    | none | some (.error e) => exact .pure _
    | some (.ok v) => exact collectFrom_stores n _ _

theorem drain_stores : ∀ (n : Nat) (s : Stream), Stores (c.drain n s)
  | 0, _ => .stuck
  | n + 1, s => by
    refine (h.pull s).bind fun ⟨item, s⟩ => ?_
    match item with
    | none => exact .pure _
    | some _ => exact drain_stores n s

variable (n : Nat) (scope : Scope)

theorem values_stores (x : Operand) : Stores (c.values n scope x) :=
  (h.toStream scope x).bind fun _ => collectFrom_stores h n _ _

theorem allValues_stores : ∀ xs : List Operand, Stores (c.allValues n scope xs)
  | [] => .pure _
  | x :: rest => by
    refine (values_stores h n scope x).bind fun r => ?_
    match r with
    | .error e => exact .pure _
    | .ok vs =>
      refine (allValues_stores rest).bind fun r => ?_
      match r with
      | .error _ | .ok _ => exact .pure _

omit n in
theorem firstValue_stores (x : Operand) : Stores (c.firstValue scope x) :=
  (h.toStream scope x).bind fun s => (h.pull s).bind fun _ => .pure _

theorem text_stores (x : Operand) : Stores (c.text n scope x) := by
  match x with
  | .value _ => exact .pure _
  | .word _ => exact Stores.get.bind fun _ => .pure _
  | .stream _ | .streamRef _ | .deferred _ =>
    refine (values_stores h n scope _).bind fun r => ?_
    match r with
    | .error _ | .ok _ => exact .pure _

theorem texts_stores : ∀ xs : List Operand, Stores (c.texts n scope xs)
  | [] => .pure _
  | x :: rest => by
    refine (text_stores h n scope x).bind fun r => ?_
    match r with
    | .error e => exact .pure _
    | .ok t =>
      refine (texts_stores rest).bind fun r => ?_
      match r with
      | .error _ | .ok _ => exact .pure _

/-! ## Forcing -/

theorem recordContents_stores : ∀ parts : List RecordPart,
    Stores (c.recordContents n scope parts)
  | [] => .pure _
  | .values x :: rest => by
    refine (values_stores h n scope x).bind fun r => ?_
    match r with
    | .error e => exact .pure _
    | .ok vs =>
      refine (recordContents_stores rest).bind fun r => ?_
      match r with
      | .error _ | .ok _ => exact .pure _
  | .mark _ :: rest | .key _ :: rest | .value _ :: rest => by
    refine (recordContents_stores rest).bind fun r => ?_
    match r with
    | .error _ | .ok _ => exact .pure _

theorem templatePieces_stores : ∀ pieces : List String,
    Stores (c.templatePieces n scope pieces)
  | [] => .pure _
  | piece :: rest => by
    simp only [templatePieces]
    split
    all_goals
      -- the piece itself, or what its reference stands for
      first
      | refine (Stores.pure _).bind fun content => ?_
      | refine (text_stores h n scope _).bind fun content => ?_
      cases content with
      | error e => exact .pure _
      | ok t =>
        refine (templatePieces_stores rest).bind fun r => ?_
        cases r <;> exact .pure _

omit n in
theorem choose_stores (condition : Operand) (onTrue onFalse : List Operand) :
    Stores (c.choose scope condition onTrue onFalse) := by
  refine (firstValue_stores h scope condition).bind fun r => ?_
  match r with
  | .ok v =>
    show Stores (if v.isTruthy = true then _ else _)
    split <;> exact .pure _
  | .error e => exact .pure _

theorem evaluate_stores (x : Deferred) : Stores (c.evaluate n scope x) := by
  match x with
  | .unary op x =>
    refine (h.force scope x).bind fun r => ?_
    match r with
    | .error _ | .ok _ => exact .pure _
  | .binary op x y =>
    refine (h.force scope x).bind fun r => ?_
    match r with
    | .error _ => exact .pure _
    | .ok x =>
      refine (h.force scope y).bind fun r => ?_
      match r with
      | .error _ | .ok _ => exact .pure _
  | .ternary condition onTrue onFalse => exact choose_stores h scope condition onTrue onFalse
  | .record type operands =>
    refine (recordContents_stores h n scope _).bind fun r => ?_
    match r with
    | .error _ | .ok _ => exact .pure _
  | .template text =>
    refine (templatePieces_stores h n scope _).bind fun r => ?_
    match r with
    | .error _ | .ok _ => exact .pure _

theorem forceStep_stores (x : Operand) : Stores (c.forceStep n scope x) := by
  match x with
  | .value _ | .stream _ | .streamRef _ => exact .pure _
  | .word w =>
    refine Stores.get.bind fun world => ?_
    match scope.resolve? world.slots w with
    | some _ | none => exact .pure _
  | .deferred x =>
    refine (evaluate_stores h n scope x).bind fun r => ?_
    match r with
    | .error e => exact .pure _
    | .ok x => exact h.force scope x

/-! ## Streams of operands -/

omit n in
theorem resolveReference_stores (name : String) (input : Stream) :
    Stores (c.resolveReference scope name input) := by
  unfold resolveReference
  split
  · exact h.invoke _ _
  · refine Stores.get.bind fun world => ?_
    split
    · exact .pure _
    · refine (Run.stores_binding? name).bind fun f => ?_
      match f with
      | some f => exact h.invoke f input
      | none => exact .pure _

theorem toStreamStep_stores (x : Operand) : Stores (c.toStreamStep n scope x) := by
  match x with
  | .value _ => exact .pure _
  | .word w =>
    refine Stores.get.bind fun world => ?_
    match scope.resolve? world.slots w with
    | some _ | none => exact .pure _
  | .stream f => exact h.invoke f .empty
  | .streamRef name => exact resolveReference_stores h scope name .empty
  | .deferred x =>
    refine (evaluate_stores h n scope x).bind fun r => ?_
    match r with
    | .error e => exact .pure _
    | .ok x => exact h.toStream scope x

/-! ## Using factories -/

theorem runBuiltin_stores (name : Builtin) (args : List Operand) (input : Stream) :
    Stores (c.runBuiltin n name scope args input) := by
  match name with
  | .prepend => exact .pure _
  | .add | .args | .echo | .exit | .get | .now =>
    refine (allValues_stores h n scope args).bind fun r => ?_
    match r with
    | .error _ | .ok _ => exact .pure _

theorem runProgram_stores (context : Context) (path : String) (program : Program)
    (args : List Operand) : Stores (c.runProgram context n path program scope args) := by
  refine (texts_stores h n scope args).bind fun r => ?_
  match r with
  | .error e => exact .pure _
  | .ok texts =>
    dsimp only
    split
    · exact .pure _
    · split
      · exact .pure _
      · rintro w a w' ⟨⟩
        exact .refl _

omit scope in
theorem invokeStep_stores (context : Context) (f : Factory) (input : Stream) :
    Stores (c.invokeStep context n f input) := by
  match f with
  | .items _ | .range _ _ | .sequence _ _ | .bind _ _ | .each _ => exact .pure _
  | .compose first second => exact (h.invoke first input).bind fun s => h.invoke second s
  | .andThen first second =>
    exact (h.invoke first input).bind fun s => (drain_stores h n s).bind fun _ =>
      h.invoke second .empty
  | .builtin name scope args => exact runBuiltin_stores h n scope name args input
  | .program path name scope args => exact runProgram_stores h n scope context path name args
  | .reference scope name => exact resolveReference_stores h scope name input
  | .unary op source | .left op source _ | .right op _ source =>
    exact (h.invoke source .empty).bind fun _ => .pure _
  | .zip op left right =>
    exact (h.invoke left .empty).bind fun _ => (h.invoke right .empty).bind fun _ => .pure _

/-! ## Pulling -/

omit n scope in
theorem transform_stores (t : Transform) (v : Value) : Stores (c.transform t v) := by
  match t with
  | .bind slot body =>
    exact (Run.stores_store slot v).bind fun _ => (h.invoke body .empty).bind fun _ => .pure _
  | .each body => exact h.invoke body (.once v)
  | .unary _ | .left _ _ | .right _ _ | .get _ => exact .pure _

omit n in
theorem pullConcat_stores : ∀ (operands : List Operand) (front : Stream),
    Stores (c.pullConcat scope operands front)
  | [], front => by
    refine (h.pull front).bind fun ⟨item, front⟩ => ?_
    match item with
    | some _ | none => exact .pure _
  | x :: rest, front => by
    refine (h.pull front).bind fun ⟨item, front⟩ => ?_
    match item with
    | some item => exact .pure _
    | none => exact (h.toStream scope x).bind fun next => pullConcat_stores rest next

omit n scope in
theorem pullFlatMap_stores (t : Transform) : ∀ (n : Nat) (input front : Stream),
    Stores (c.pullFlatMap t n input front)
  | 0, _, _ => .stuck
  | n + 1, input, front => by
    refine (h.pull front).bind fun ⟨item, front⟩ => ?_
    match item with
    | some item => exact .pure _
    | none =>
      refine (h.pull input).bind fun ⟨next, input⟩ => ?_
      match next with
      | none => exact .pure _
      | some (.error e) => exact pullFlatMap_stores t n _ _
      | some (.ok v) => exact (transform_stores h t v).bind fun _ => pullFlatMap_stores t n _ _

omit n scope in
theorem pullZip_stores (op : Operator) : ∀ (n : Nat) (left right front : Stream),
    Stores (c.pullZip op n left right front)
  | 0, _, _, _ => .stuck
  | n + 1, left, right, front => by
    refine (h.pull front).bind fun ⟨item, front⟩ => ?_
    match item with
    | some item => exact .pure _
    | none =>
      refine (h.pull left).bind fun ⟨first, left⟩ => ?_
      match first with
      | none => exact .pure _
      | some first =>
        refine (h.pull right).bind fun ⟨second, right⟩ => ?_
        match second with
        | none => exact .pure _
        | some second =>
          match first, second with
          | .ok v, .ok w => exact pullZip_stores op n _ _ _
          | .error e, .ok _ | .error e, .error _ | .ok _, .error e =>
            exact pullZip_stores op n _ _ _

omit scope in
theorem pullStep_stores (s : Stream) : Stores (c.pullStep n s) := by
  match s with
  | .items [] | .items (_ :: _) => exact .pure _
  | .range next last =>
    show Stores (if next ≤ last then _ else _)
    split <;> exact .pure _
  | .ticks period told =>
    refine Stores.get.bind fun world => ?_
    split <;> exact .pure _
  | .child child => exact Stores.get.bind fun _ => .pure _
  | .concat scope operands front => exact pullConcat_stores h scope operands front
  | .flatMap t input front => exact pullFlatMap_stores h t n input front
  | .bound slot v inner =>
    exact (Run.stores_store slot v).bind fun _ => (h.pull inner).bind fun _ => .pure _
  | .zip op left right front => exact pullZip_stores h op n left right front
  | .add amount input => exact (h.pull input).bind fun _ => .pure _
  | .chain first second =>
    refine (h.pull first).bind fun ⟨item, first⟩ => ?_
    match item with
    | some item => exact .pure _
    | none => exact (h.pull second).bind fun _ => .pure _

end Calls

/-! ## The four activities -/

/-- Whatever the fuel, the four activities only store. -/
theorem Eval.calls_store (context : Context) : ∀ n : Nat, (Eval.calls context n).Store
  | 0 => ⟨fun _ => .stuck, fun _ _ => .stuck, fun _ _ => .stuck, fun _ _ => .stuck⟩
  | n + 1 =>
    have h := calls_store context n
    ⟨Calls.pullStep_stores h n, Calls.invokeStep_stores h n context, Calls.toStreamStep_stores h n,
      Calls.forceStep_stores h n⟩

variable {context : Context} {w w' : World}

theorem Pulls.alike {s s' : Stream} {item : Option Item} (h : Pulls context s w item s' w') :
    w.slots.Alike w'.slots := by
  obtain ⟨n, h⟩ := h
  exact (Eval.calls_store context n).pull s w _ w' (h n (Nat.le_refl n))

theorem Makes.alike {f : Factory} {input s : Stream} (h : Makes context f input w s w') :
    w.slots.Alike w'.slots := by
  obtain ⟨n, h⟩ := h
  exact (Eval.calls_store context n).invoke f input w _ w' (h n (Nat.le_refl n))

end Rill
