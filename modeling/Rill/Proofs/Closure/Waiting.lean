import Rill.Proofs.Closure.Keeping

/-!
# Waiting for parameters

An operator on known operands is applied when the line is read. One on an operand that reads a
parameter waits: its sides are forced when its stream is made, and the operator is applied then. A
formula is built of values and words by operators (`Formula.operand`), and some of its words may be
parameters, with or without a path into them.

`Formula.opens_read` says that waiting makes no difference: in whatever world the stream of a
formula is made, it is the very stream of the formula in which the values of the parameters have
been written in their place (`Formula.read`), and it delivers what the operators make of these
values (`Formula.meaning`). What carries the induction is that a formula is the operand of its
values, or waits and comes to it (`ComesTo`).
-/

namespace Rill

/-- Operators over values and words. -/
inductive Formula where
  /-- A value. -/
  | value (v : Value)
  /-- A parameter, with or without a path into it, or a text. -/
  | word (text : String)
  /-- An operator with one operand. -/
  | unary (op : Operator) (x : Formula)
  /-- An operator with two operands. -/
  | binary (op : Operator) (x y : Formula)

namespace Formula

/-- The operand that a formula is. -/
def operand (scope : Scope) : Formula → Operand
  | value v => .value v
  | word text => .word text
  | unary op x => .applyUnary scope op (x.operand scope)
  | binary op x y => .applyBinary scope op (x.operand scope) (y.operand scope)

/-- The formula with values in place of the words that have one. -/
def read (values : String → Option Value) : Formula → Formula
  | value v => value v
  | word text => ((values text).map value).getD (word text)
  | unary op x => unary op (x.read values)
  | binary op x y => binary op (x.read values) (y.read values)

/-- What a formula stands for if some words have a value; the others are texts. -/
def meaning (values : String → Option Value) : Formula → Meaning
  | value v => .known v
  | word text => .known ((values text).getD (.string text))
  | unary op x => (x.meaning values).unary op
  | binary op x y => (x.meaning values).binary op (y.meaning values)

end Formula

variable {context : Context} {scope : Scope} {w : World} {x x' y y' : Operand} {m n : Meaning}

/-! ## Operands that do not wait -/

/-- An operand that waits for nothing, and what it stands for. -/
inductive Settled (context : Context) (scope : Scope) : Operand → Meaning → Prop
  | means {x : Operand} {m : Meaning} (h : Means context x m) : Settled context scope x m
  | text {word : String} (h : scope.isVarPath word = false) :
    Settled context scope (.word word) (.known (.string word))

namespace Settled

theorem forces (h : Settled context scope x m) : Forces context scope x w (.ok x) w := by
  cases h with
  | means h => exact h.forces w
  | text h => exact forces_text h

theorem delivers (h : Settled context scope x m) : x.Delivers context scope m.items := by
  cases h with
  | means h => exact h.delivers
  | text h => exact ⟨_, fun _ => opens_text h, .items _⟩

/-- To an operator a text is a value. -/
theorem ready (h : Settled context scope x m) :
    ∃ z, Means context z m ∧ x.ready? scope = z.ready? scope := by
  cases h with
  | means h => exact ⟨x, h, rfl⟩
  | text h => exact ⟨_, .known _, by simp [Operand.ready?, h]⟩

theorem applyUnary (h : Settled context scope x m) (op : Operator) :
    Settled context scope (.applyUnary scope op x) (m.unary op) := by
  obtain ⟨z, hz, e⟩ := h.ready
  have hz' : Means context (.applyUnary scope op z) (m.unary op) := hz.applyUnary op
  refine .means ?_
  rw [Operand.applyUnary, e]
  cases hz <;> exact hz'

theorem applyBinary (h : Settled context scope x m) (k : Settled context scope y n)
    (op : Operator) : Settled context scope (.applyBinary scope op x y) (m.binary op n) := by
  obtain ⟨z, hz, e⟩ := h.ready
  obtain ⟨z', hz', e'⟩ := k.ready
  have hzz : Means context (.applyBinary scope op z z') (m.binary op n) := hz.applyBinary hz' op
  refine .means ?_
  rw [Operand.applyBinary, e, e']
  cases hz <;> cases hz' <;> exact hzz

end Settled

/-! ## Operands that come to others -/

/-- In one world an operand is another already, or waits for parameters and comes to it when they
are read. -/
inductive ComesTo (context : Context) (scope : Scope) (w : World) : Operand → Operand → Prop
  | now (x : Operand) : ComesTo context scope w x x
  | word {word : String} {v : Value} (h : scope.resolve? w.slots word = some v) :
    ComesTo context scope w (.word word) (.value v)
  | deferred {d : Deferred} {y : Operand} (h : Evaluates context scope d w (.ok y) w) :
    ComesTo context scope w (.deferred d) y

namespace ComesTo

theorem waits (h : ComesTo context scope w x y) : x = y ∨ x.ready? scope = none := by
  cases h with
  | now => exact .inl rfl
  | @word word v h =>
    have hvar : scope.isVarPath word = true := by rw [Scope.isVarPath_eq_isSome w.slots, h]; rfl
    exact .inr (if_pos hvar)
  | deferred _ => exact .inr rfl

theorem forces (h : ComesTo context scope w x y) (k : Settled context scope y m) :
    Forces context scope x w (.ok y) w := by
  cases h with
  | now => exact k.forces
  | word h => exact forces_word h
  | deferred h => exact forces_deferred h k.forces

/-- The stream of an operand is the stream of what it comes to. -/
theorem opens (h : ComesTo context scope w x y) {s : Stream} {w' : World}
    (k : Opens context scope y w s w') : Opens context scope x w s w' := by
  cases h with
  | now => exact k
  | word h => exact (opens_word h).mpr (opens_value.mp k)
  | deferred h => exact opens_deferred h k

theorem applyUnary (h : ComesTo context scope w x x') (hx : Settled context scope x' m)
    (op : Operator) :
    ComesTo context scope w (.applyUnary scope op x) (.applyUnary scope op x') := by
  rcases h.waits with rfl | hwait
  · exact .now _
  · have e : Operand.applyUnary scope op x = .deferred (.unary op x) := by
      simp only [Operand.applyUnary, hwait]
    rw [e]
    exact .deferred (evaluates_unary (h.forces hx))

theorem applyBinary (h : ComesTo context scope w x x') (hx : Settled context scope x' m)
    (k : ComesTo context scope w y y') (hy : Settled context scope y' n) (op : Operator) :
    ComesTo context scope w (.applyBinary scope op x y) (.applyBinary scope op x' y') := by
  -- one side that waits is enough to make the operator wait
  have hlater (e : Operand.applyBinary scope op x y = .deferred (.binary op x y)) :
      ComesTo context scope w (.applyBinary scope op x y) (.applyBinary scope op x' y') := by
    rw [e]
    exact .deferred (evaluates_binary (h.forces hx) (k.forces hy))
  rcases h.waits with rfl | hwait
  · rcases k.waits with rfl | hwait
    · exact .now _
    · refine hlater ?_
      rw [Operand.applyBinary, hwait]
      rcases x.ready? scope with _ | _ | _ <;> rfl
  · exact hlater (by simp only [Operand.applyBinary, hwait])

end ComesTo

/-! ## Formulas -/

namespace Formula

/-- With the values of the parameters in their place, nothing waits. -/
theorem settled_read (context : Context) (scope : Scope) (slots : Slots) (e : Formula) :
    Settled context scope ((e.read (scope.resolve? slots)).operand scope)
      (e.meaning (scope.resolve? slots)) := by
  induction e with
  | value v => exact .means (.known v)
  | word text =>
    rw [read, meaning]
    cases hr : scope.resolve? slots text with
    | some v => exact .means (.known v)
    | none => exact .text (by rw [Scope.isVarPath_eq_isSome slots, hr]; rfl)
  | unary op x ih => exact ih.applyUnary op
  | binary op x y ihx ihy => exact ihx.applyBinary ihy op

theorem comesTo_read (context : Context) (scope : Scope) (w : World) (e : Formula) :
    ComesTo context scope w (e.operand scope)
      ((e.read (scope.resolve? w.slots)).operand scope) := by
  induction e with
  | value v => exact .now _
  | word text =>
    rw [read]
    cases hr : scope.resolve? w.slots text with
    | some v => exact .word hr
    | none => exact .now _
  | unary op x ih => exact ih.applyUnary (settled_read context scope w.slots x) op
  | binary op x y ihx ihy =>
    exact ihx.applyBinary (settled_read context scope w.slots x) ihy
      (settled_read context scope w.slots y) op

/-- A formula that reads parameters has the stream of the formula in which their values have been
written in their place, and it delivers what the operators make of them. -/
theorem opens_read (context : Context) (scope : Scope) (w : World) (e : Formula) :
    ∃ s, Opens context scope (e.operand scope) w s w ∧
      Opens context scope ((e.read (scope.resolve? w.slots)).operand scope) w s w ∧
      Delivers context s (e.meaning (scope.resolve? w.slots)).items := by
  obtain ⟨s, hopens, hdelivers⟩ := (settled_read context scope w.slots e).delivers
  exact ⟨s, (comesTo_read context scope w e).opens (hopens w), hopens w, hdelivers⟩

end Formula

end Rill
