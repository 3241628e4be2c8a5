import Rill.Proofs.Ends

/-!
# Which errors come out of a stream

`P` is a property of errors that every error has for which a line is not at fault. A factory, an
operand or a stream raises only such errors if the errors that stand in it have the property, and
`add` and `get` are used only if a missing operand has it (`Factory.Raises`, `Operand.Raises`,
`Stream.Raises`). The errors of operators, of texts that are no values and of programs have it
whatever they are applied to (`not_structural_of_binary`, `not_structural_of_read`,
`not_structural_of_pull`).
-/

namespace Rill

/-! ## What raises which errors -/

mutual

/-- Every error that the factory can bring into a stream has the property. -/
inductive Factory.Raises (P : Error → Prop) : Factory → Prop
  | items {xs : List Item} (h : ∀ e, .error e ∈ xs → P e) : Factory.Raises P (.items xs)
  | range (first last : Int) : Factory.Raises P (.range first last)
  | compose {f g : Factory} (hf : f.Raises P) (hg : g.Raises P) : Factory.Raises P (.compose f g)
  | andThen {f g : Factory} (hf : f.Raises P) (hg : g.Raises P) : Factory.Raises P (.andThen f g)
  /-- Without an argument, `add` and `get` lack an operand. -/
  | builtin {name : Builtin} {scope : Scope} {args : List Operand}
    (h : name = .add ∨ name = .get → P .missingOperand) (hs : scope.Raises P)
    (hx : ∀ x ∈ args, x.Raises P) : Factory.Raises P (.builtin name scope args)
  | program {path : String} {name : Program} {scope : Scope} {args : List Operand}
    (hs : scope.Raises P) (hx : ∀ x ∈ args, x.Raises P) :
    Factory.Raises P (.program path name scope args)
  | reference {scope : Scope} {name : String} (hs : scope.Raises P) :
    Factory.Raises P (.reference scope name)
  | sequence {scope : Scope} {operands : List Operand} (hs : scope.Raises P)
    (hx : ∀ x ∈ operands, x.Raises P) : Factory.Raises P (.sequence scope operands)
  | bind {slot : Handle} {body : Factory} (h : body.Raises P) : Factory.Raises P (.bind slot body)
  | each {body : Factory} (h : body.Raises P) : Factory.Raises P (.each body)
  | unary {op : Operator} {source : Factory} (h : source.Raises P) :
    Factory.Raises P (.unary op source)
  | left {op : Operator} {source : Factory} {v : Value} (h : source.Raises P) :
    Factory.Raises P (.left op source v)
  | right {op : Operator} {source : Factory} {v : Value} (h : source.Raises P) :
    Factory.Raises P (.right op v source)
  | zip {op : Operator} {f g : Factory} (hf : f.Raises P) (hg : g.Raises P) :
    Factory.Raises P (.zip op f g)

/-- So has every error of the local streams. -/
inductive Scope.Raises (P : Error → Prop) : Scope → Prop
  | mk {vars : List (String × Handle)} {overrides : List (String × Factory)}
    (h : ∀ name f, Sorted.find? name overrides = some f → f.Raises P) :
    Scope.Raises P (.mk vars overrides)

/-- So has every error of the operand. -/
inductive Operand.Raises (P : Error → Prop) : Operand → Prop
  | value (v : Value) : Operand.Raises P (.value v)
  | stream {f : Factory} (h : f.Raises P) : Operand.Raises P (.stream f)
  | streamRef (name : String) : Operand.Raises P (.streamRef name)
  | word (w : String) : Operand.Raises P (.word w)
  | deferred {d : Deferred} (h : d.Raises P) : Operand.Raises P (.deferred d)

/-- So has every error of what waits. -/
inductive Deferred.Raises (P : Error → Prop) : Deferred → Prop
  | unary {op : Operator} {x : Operand} (h : x.Raises P) : Deferred.Raises P (.unary op x)
  | binary {op : Operator} {x y : Operand} (hx : x.Raises P) (hy : y.Raises P) :
    Deferred.Raises P (.binary op x y)
  | ternary {condition : Operand} {onTrue onFalse : List Operand} (h : condition.Raises P)
    (ht : ∀ x ∈ onTrue, x.Raises P) (hf : ∀ x ∈ onFalse, x.Raises P) :
    Deferred.Raises P (.ternary condition onTrue onFalse)
  | record {type : Option String} {operands : List Operand} (h : ∀ x ∈ operands, x.Raises P) :
    Deferred.Raises P (.record type operands)
  | template (text : String) : Deferred.Raises P (.template text)

end

/-- Every error that the transform can bring into a stream has the property. -/
def Transform.Raises (P : Error → Prop) : Transform → Prop
  | .bind _ body | .each body => body.Raises P
  | .unary _ | .left _ _ | .right _ _ | .get _ => True

/-- Every error that can be pulled from the stream has the property. -/
inductive Stream.Raises (P : Error → Prop) : Stream → Prop
  | items {xs : List Item} (h : ∀ e, .error e ∈ xs → P e) : Stream.Raises P (.items xs)
  | range (next last : Int) : Stream.Raises P (.range next last)
  | concat {scope : Scope} {operands : List Operand} {front : Stream} (hs : scope.Raises P)
    (hx : ∀ x ∈ operands, x.Raises P) (h : front.Raises P) :
    Stream.Raises P (.concat scope operands front)
  | flatMap {t : Transform} {input front : Stream} (ht : t.Raises P) (hi : input.Raises P)
    (h : front.Raises P) : Stream.Raises P (.flatMap t input front)
  | bound {slot : Handle} {v : Value} {inner : Stream} (h : inner.Raises P) :
    Stream.Raises P (.bound slot v inner)
  | zip {op : Operator} {left right front : Stream} (hl : left.Raises P) (hr : right.Raises P)
    (h : front.Raises P) : Stream.Raises P (.zip op left right front)
  | add {amount : Value} {input : Stream} (h : input.Raises P) : Stream.Raises P (.add amount input)
  | chain {first second : Stream} (hf : first.Raises P) (hs : second.Raises P) :
    Stream.Raises P (.chain first second)
  | ticks (period : Float) (told : Nat) : Stream.Raises P (.ticks period told)
  | child (c : Child) : Stream.Raises P (.child c)

/-- Every error of the named streams has the property. -/
def Environment.Raises (P : Error → Prop) (env : Environment) : Prop :=
  ∀ name f, Sorted.find? name env.bindings = some f → f.Raises P

/-- An error that has the property, or something of which `R` holds. -/
def Either {α : Type} (P : Error → Prop) (R : α → Prop) : Except Error α → Prop
  | .error e => P e
  | .ok a => R a

variable {P : Error → Prop} {scope : Scope} {x y : Operand}

/-! ## Small facts -/

theorem Stream.Raises.empty : Stream.empty.Raises P := .items nofun

theorem Stream.Raises.once (v : Value) : (Stream.once v).Raises P := .items (by simp)

theorem Stream.Raises.fail {e : Error} (h : P e) : (Stream.fail e).Raises P :=
  .items (by simpa using h)

theorem Stream.Raises.ofValue (v : Value) : (Stream.ofValue v).Raises P := by
  unfold Stream.ofValue
  split
  · exact .items (by simp)
  · exact .once v

theorem Factory.Raises.constant (vs : List Value) : (Factory.constant vs).Raises P :=
  .items (by simp)

theorem Factory.Raises.failing {e : Error} (h : P e) : (Factory.failing e).Raises P :=
  .items (by simpa using h)

theorem Scope.Raises.empty : Scope.empty.Raises P := .mk nofun

theorem Scope.Raises.declare (h : scope.Raises P) (name : String) (slot : Handle) :
    (scope.declare name slot).Raises P := by
  cases h with
  | mk h => exact .mk h

theorem raises_of_insert {name : String} {f : Factory} {entries : Sorted Factory}
    (h : ∀ name f, Sorted.find? name entries = some f → f.Raises P) (hf : f.Raises P)
    (other : String) (g : Factory)
    (k : Sorted.find? other (Sorted.insert name f entries) = some g) : g.Raises P := by
  by_cases e : other = name
  · subst e
    rw [Sorted.find?_insert_self] at k
    exact Option.some.inj k ▸ hf
  · rw [Sorted.find?_insert_of_ne e] at k
    exact h other g k

theorem Scope.Raises.override {f : Factory} (h : scope.Raises P) (name : String)
    (hf : f.Raises P) : (scope.override name f).Raises P := by
  cases h with
  | mk h => exact .mk (raises_of_insert h hf)

theorem Scope.Raises.find? {name : String} {f : Factory} (h : scope.Raises P)
    (k : Sorted.find? name scope.overrides = some f) : f.Raises P := by
  cases h with
  | mk h => exact h name f k

theorem Environment.Raises.set {env : Environment} {f : Factory} (h : env.Raises P) (name : String)
    (hf : f.Raises P) : (env.set name f).Raises P := raises_of_insert h hf

theorem Environment.Raises.get? {env : Environment} (h : env.Raises P) (name : String) :
    (∀ f, (env.get? name).1 = some f → f.Raises P) ∧ (env.get? name).2.Raises P := by
  unfold Environment.get?
  split
  next f hf =>
    refine ⟨?_, h⟩
    rintro g ⟨⟩
    exact h name f hf
  next =>
    split
    next text _ =>
      refine ⟨?_, h.set name (.constant _)⟩
      rintro g ⟨⟩
      exact .constant _
    next => exact ⟨nofun, h⟩

/-! ## Errors of values -/

/-- A value that does not fit is no fault of the line. -/
theorem not_structural_unsupported (k : Kind) : (Operator.unsupported k).isStructural = false := by
  cases k <;> rfl

theorem not_structural_of_unary {op : Operator} {v : Value} {e : Error}
    (h : op.unary v = .error e) : e.isStructural = false := by
  unfold Operator.unary at h
  split at h
  · split at h <;> cases h
    rfl
  · split at h <;> cases h
    exact not_structural_unsupported _
  · split at h <;> cases h
    exact not_structural_unsupported _
  · split at h <;> cases h
    exact not_structural_unsupported _
  · cases h
  · cases h
    rfl

theorem not_structural_of_finite {x : Float} {e : Error} (h : Operator.finite x = .error e) :
    e.isStructural = false := by
  unfold Operator.finite at h
  split at h <;> cases h
  rfl

theorem not_structural_of_onNumbers {op : Operator} {x y : Float} {e : Error}
    (h : op.onNumbers x y = .error e) : e.isStructural = false := by
  unfold Operator.onNumbers at h
  split at h <;> first | exact not_structural_of_finite h | cases h
  rfl

theorem not_structural_of_onTruths {op : Operator} {a b : Bool} {e : Error}
    (h : op.onTruths a b = .error e) : e.isStructural = false := by
  unfold Operator.onTruths at h
  split at h <;> cases h
  rfl

theorem not_structural_of_onTexts {op : Operator} {s t : String} {e : Error}
    (h : op.onTexts s t = .error e) : e.isStructural = false := by
  unfold Operator.onTexts at h
  split at h <;> cases h
  rfl

theorem not_structural_of_binary {op : Operator} {v w : Value} {e : Error}
    (h : op.binary v w = .error e) : e.isStructural = false := by
  unfold Operator.binary at h
  split at h
  · exact not_structural_of_onNumbers h
  · exact not_structural_of_onTruths h
  · exact not_structural_of_onTexts h
  · split at h <;> cases h
    rfl

theorem not_structural_of_read {text : String} {e : Error} (h : Value.read text = .error e) :
    e.isStructural = false := by
  unfold Value.read at h
  split at h <;> cases h
  rfl

theorem not_structural_of_ofText {type : Option String} {text : String} {e : Error}
    (h : Record.ofText type text = .error e) : e.isStructural = false := by
  unfold Record.ofText at h
  cases hv : Value.read text with
  | error e' =>
    rw [hv] at h
    cases h
    exact not_structural_of_read hv
  | ok v =>
    rw [hv] at h
    cases type <;> cases h

theorem not_structural_of_period {vs : List Value} {e : Error} (h : Calls.period vs = .error e) :
    e.isStructural = false := by
  unfold Calls.period at h
  split at h
  · cases h
  · split at h
    · split at h <;> cases h
      rfl
    · cases h
      rfl

/-- Nor is a program that fails. -/
theorem not_structural_of_finish {c : Child} {e : Error} (h : c.finish.1 = some (.error e)) :
    e.isStructural = false := by
  unfold Child.finish Child.reap at h
  split at h
  · split at h
    · cases h
    · dsimp only at h
      split at h <;> cases h
      rfl
  · cases h

theorem not_structural_of_pullWithin {n : Nat} {c : Child} {e : Error}
    (h : (Child.pullWithin n c).1 = some (.error e)) : e.isStructural = false := by
  fun_induction Child.pullWithin n c with
  | case1 => cases h
  | case2 => exact not_structural_of_finish h
  | case3 => exact not_structural_of_finish h
  | case4 _ _ _ _ _ _ ih => exact ih h
  | case5 =>
    cases h
    rfl
  | case6 _ _ _ _ _ _ _ _ _ _ _ _ ih => exact ih h
  | case7 => cases h

theorem not_structural_of_pull {interrupt : Bool} {c : Child} {e : Error}
    (h : (c.pull interrupt).1 = some (.error e)) : e.isStructural = false := by
  unfold Child.pull at h
  split at h
  · cases h
  · exact not_structural_of_pullWithin h

end Rill
