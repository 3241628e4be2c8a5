import Rill.Proofs.Errors.Pulled
import Rill.Proofs.Line.Invariant
import Rill.Proofs.Step

/-!
# Errors of lines and errors of values

A line is refused with an error that says that the line is at fault, or because it comes to a token
in double quotes or to the end of a record that is no JSON text, and is always refused for that; the
second kind of error says that a value is at fault. Of the errors that are pulled from a line that
was read only a missing operand says that the line is at fault, and it comes from `add` or `get`
without an argument: in the line, or in a named stream. All this is `line_errors`.
-/

namespace Rill

variable {context : Context} {P : Error → Prop}

/-- A record is a value or waits, unless its text is no JSON text. -/
theorem build_cases (scope : Scope) (operands : List Operand) :
    (∃ text e, Record.ofText none text = .error e ∧ Record.build scope operands = .error e) ∨
    (∃ v, Record.build scope operands = .ok (.value v)) ∨
    Record.build scope operands = .ok (.deferred (.record none operands)) := by
  unfold Record.build
  split
  · generalize Record.text _ = text
    cases h : Record.ofText none text with
    | error e => exact .inl ⟨text, e, h, rfl⟩
    | ok v => exact .inr (.inl ⟨v, rfl⟩)
  · exact .inr (.inr rfl)

theorem Malformed.not_structural {tokens : List String} {w : World} {e : Error}
    (h : Malformed context tokens w e) : e.isStructural = false := by
  obtain ⟨p, t, left, -, h⟩ := h
  cases h with
  | token _ h => exact not_structural_of_read h
  | @record body _ _ h =>
    obtain ⟨text, e', he, hb⟩ | ⟨v, hb⟩ | hb := build_cases body.scope body.operands
    · cases hb.symm.trans h
      exact not_structural_of_ofText he
    · cases hb.symm.trans h
    · cases hb.symm.trans h

/-- Only their own names stand for `add` and `get`. -/
theorem name_of_ofName? {word : String} {name : Builtin} (h : Builtin.ofName? word = some name)
    (hname : name = .add ∨ name = .get) : word = "add" ∨ word = "get" := by
  simp only [Builtin.ofName?, Builtin.all, Sorted.find?] at h
  rcases hname with rfl | rfl
  · refine .inl (Decidable.byContradiction fun hne => ?_)
    rw [if_neg (Ne.symm hne)] at h
    repeat' split at h
    all_goals cases h
  · refine .inr (Decidable.byContradiction fun hne => ?_)
    repeat' split at h
    all_goals first | exact hne (Eq.symm ‹_›) | cases h

/-! ## Lines -/

/-- The operand raises no other errors, and is the name of `add` or `get` only if a missing operand
has the property. -/
structure Operand.Calm (P : Error → Prop) (x : Operand) : Prop where
  raises : x.Raises P
  name : ∀ w, x = .word w → w = "add" ∨ w = "get" → P .missingOperand

theorem Operand.Calm.leaf {t : String} {x : Operand} (h : Leaf.read t = .ok x)
    (ht : t = "add" ∨ t = "get" → P .missingOperand) : x.Calm P := by
  unfold Leaf.read at h
  split at h
  · cases h
    exact ⟨.streamRef _, nofun⟩
  · cases h
    unfold Operand.template
    split
    · exact ⟨.deferred (.template _), nofun⟩
    · exact ⟨.value _, nofun⟩
  · cases h
    exact ⟨.value _, nofun⟩
  · cases hv : Value.read t with
    | ok v =>
      rw [hv] at h
      cases h
      exact ⟨.value _, nofun⟩
    | error e =>
      rw [hv] at h
      cases h
  · split at h
    · split at h <;> cases h
      exact ⟨.value _, nofun⟩
    · split at h <;> cases h
      · exact ⟨.value _, nofun⟩
      · exact ⟨.word _, fun w hw => Operand.word.inj hw ▸ ht⟩

theorem raises_expression {scope : Scope} {xs : List Operand} (hs : scope.Raises P)
    (hx : ∀ x ∈ xs, x.Calm P) : (Stage.expression context scope xs).Raises P := by
  have hraises : ∀ x ∈ xs, x.Raises P := fun x h => (hx x h).raises
  match xs with
  | [] | .value _ :: _ | .stream _ :: _ | .deferred _ :: _ | .streamRef _ :: _ :: _ =>
    exact .sequence hs hraises
  | [.streamRef _] => exact .reference hs
  | .word w :: args =>
    have hargs : ∀ x ∈ args, x.Raises P := fun x h => hraises x (.tail _ h)
    simp only [Stage.expression]
    split
    · exact .sequence hs hraises
    · split
      next name hname =>
        refine .builtin (fun k => (hx _ List.mem_cons_self).name w rfl ?_) hs hargs
        split at hname
        · exact name_of_ofName? hname k
        · cases hname
      next =>
        split
        · exact .program hs hargs
        · exact .sequence hs hraises

/-- An operator never leaves a word. -/
theorem ofOutcome_ne_word (r : Except Error Outcome) (w : String) :
    Operand.ofOutcome r ≠ .word w := by
  match r with
  | .ok (.value _) | .ok (.range _ _) | .error _ => exact nofun

theorem applyUnary_ne_word (scope : Scope) (op : Operator) (x : Operand) (w : String) :
    Operand.applyUnary scope op x ≠ .word w := by
  unfold Operand.applyUnary
  split
  · exact ofOutcome_ne_word _ _
  all_goals exact nofun

theorem applyBinary_ne_word (scope : Scope) (op : Operator) (x y : Operand) (w : String) :
    Operand.applyBinary scope op x y ≠ .word w := by
  unfold Operand.applyBinary
  split
  · exact ofOutcome_ne_word _ _
  all_goals exact nofun

theorem short_of_mem {tokens : List String} {t : String}
    (hshort : "add" ∈ tokens ∨ "get" ∈ tokens → P .missingOperand) (ht : t ∈ tokens)
    (h : t = "add" ∨ t = "get") : P .missingOperand := by
  rcases h with rfl | rfl
  · exact hshort (.inl ht)
  · exact hshort (.inr ht)

/-- What reading a line makes raises no other errors than what it is made of. -/
def raising (context : Context) {tokens : List String}
    (hP : ∀ e : Error, e.isStructural = false → P e)
    (hshort : "add" ∈ tokens ∨ "get" ∈ tokens → P .missingOperand) :
    Parse.Invariant context tokens where
  operand := Operand.Calm P
  factory := Factory.Raises P
  scope := Scope.Raises P
  leaf ht h := .leaf h (short_of_mem hshort ht)
  word ht := ⟨.word _, fun _ hw => Operand.word.inj hw ▸ short_of_mem hshort ht⟩
  unary hs hx op := ⟨.applyUnary hP hs hx.raises op,
    fun w hw => absurd hw (applyUnary_ne_word _ _ _ _)⟩
  binary hs hx hy op := ⟨.applyBinary hP hs hx.raises hy.raises op,
    fun w hw => absurd hw (applyBinary_ne_word _ _ _ _ _)⟩
  ternary hs hx ht hf y hy := by
    unfold Operand.ternary at hy
    split at hy
    · split at hy
      · split at hy
        · exact List.mem_singleton.mp hy ▸ ⟨.value _, nofun⟩
        · exact ht y hy
      · exact hf y hy
    · refine List.mem_singleton.mp hy ▸ ⟨.deferred (.ternary hx.raises ?_ ?_), nofun⟩
      · exact fun y hy => (ht y hy).raises
      · exact fun y hy => (hf y hy).raises
  record {s xs x} hx h := by
    obtain ⟨text, e, -, hb⟩ | ⟨v, hb⟩ | hb := build_cases s xs
    · cases hb.symm.trans h
    · cases hb.symm.trans h
      exact ⟨.value v, nofun⟩
    · cases hb.symm.trans h
      exact ⟨.deferred (.record fun x hx' => (hx x hx').raises), nofun⟩
  typed hx type := by
    unfold Record.typed
    split
    · exact ⟨.value _, nofun⟩
    · cases hx.raises with
      | deferred hd =>
        cases hd with
        | record h => exact ⟨.deferred (.record h), nofun⟩
    · exact hx
  constant _ := ⟨.stream (.constant _), nofun⟩
  stream hf := ⟨.stream hf, nofun⟩
  expression := raises_expression
  compose := .compose
  nothing := .items nofun
  andThen := .andThen
  bind hf _ := .bind hf
  each := .each
  empty := .empty
  declare hs name slot := hs.declare name slot
  override hs name hf := hs.override name hf

/-- A line is refused for a fault of its own, unless it comes to a token in double quotes or to the
end of a record that is no JSON text, and then it is refused for that. From a line that is read no
error is pulled that puts the blame on the line, but for a missing operand, and that only if the
line has `add` or `get` in it or a named stream raises one: whatever property all other errors have,
and a missing operand in these cases, every error has it that can be pulled while the named streams
raise no others, and the line itself leaves them so. -/
theorem line_errors (context : Context) (tokens : List String) (w : World) :
    (∀ e w', parse context tokens w = (.error e, w') →
      (e.isStructural = true ↔ ¬ Malformed context tokens w e)) ∧
    (∀ e, Malformed context tokens w e → ∃ w', parse context tokens w = (.error e, w')) ∧
    ∀ P : Error → Prop, (∀ e, e.isStructural = false → P e) →
      ("add" ∈ tokens ∨ "get" ∈ tokens → P .missingOperand) → w.env.Raises P →
      (parse context tokens w).2.env.Raises P ∧
      ∀ f mode w₁ s w₂, parse context tokens w = (.ok (f, mode), w₁) →
        Makes context f .empty w₁ s w₂ →
        w₂.env.Raises P ∧ ∀ e, Emits context (fun w => w.env.Raises P) s e → P e := by
  refine ⟨fun e w' h => ?_, fun e h => parse_of_malformed h, ?_⟩
  · have hrefused : Refusal (Malformed context tokens w) e := refusal_of_parse h
    refine ⟨fun hs hm => ?_, fun hm => hrefused.resolve_right hm⟩
    exact absurd (hm.not_structural.symm.trans hs) nofun
  · intro P hP hshort hw
    obtain ⟨henv, hline⟩ := (raising context hP hshort).line_keeps hw
    refine ⟨henv, fun f mode w₁ s w₂ hparse hmakes => ?_⟩
    rw [hparse] at henv hline
    obtain ⟨hw₂, hs⟩ := hmakes.raises hP henv hline .empty
    exact ⟨hw₂, fun e he => he.raises hP hs⟩

/-- A text that is not closed is refused with the error of a value. And `1 | add` is read, but what
is pulled from it is a missing operand, though nothing else that blames the line. -/
theorem line_errors_add :
    let w : World := .ofEnvironment .empty
    let P : Error → Prop := fun e => e.isStructural = true → e = .missingOperand
    let e : Error := .json "EOF while parsing a string at line 1 column 4"
    (parse {} ["\"abc"] w = (.error e, w) ∧ Malformed {} ["\"abc"] w e ∧
      ¬ e.isStructural = true) ∧
    ∃ f mode s, parse {} ["1", "|", "add"] w = (.ok (f, mode), w) ∧ Makes {} f .empty w s w ∧
      Emits {} (fun w => w.env.Raises P) s .missingOperand ∧
      ∀ e, Emits {} (fun w => w.env.Raises P) s e → P e := by
  intro w P e
  have hrefused : parse {} ["\"abc"] w = (.error e, w) := rfl
  have hmalformed : Malformed {} ["\"abc"] w e :=
    ⟨_, _, _, .here _ _, .token (by decide) rfl⟩
  let f : Factory := .compose (.sequence .empty [.value (.int 1)]) (.builtin .add .empty [])
  have hread : parse {} ["1", "|", "add"] w = (.ok (f, .default), w) := rfl
  have hadd : Makes {} (.builtin .add .empty []) (.concat .empty [.value (.int 1)] .empty) w
      (.fail .missingOperand) w := makes_iff.mpr ⟨0, fun _ _ => rfl⟩
  have hmakes : Makes {} f .empty w (.fail .missingOperand) w :=
    makes_compose.mpr ⟨_, w, makes_sequence.mpr ⟨rfl, rfl⟩, hadd⟩
  have hw : w.env.Raises P := nofun
  obtain ⟨hfault, -⟩ := line_errors {} ["\"abc"] w
  obtain ⟨-, -, hpulled⟩ := line_errors {} ["1", "|", "add"] w
  refine ⟨⟨hrefused, hmalformed, fun hs => (hfault e w hrefused).mp hs hmalformed⟩, ?_⟩
  refine ⟨_, _, _, hread, hmakes, .now hw (pulls_items_cons.mpr ⟨⟨rfl, rfl⟩, rfl⟩), ?_⟩
  refine ((hpulled P (fun e hne hs => ?_) (fun _ _ => rfl) hw).2 _ _ _ _ _ hread hmakes).2
  exact absurd (hne.symm.trans hs) nofun

end Rill
