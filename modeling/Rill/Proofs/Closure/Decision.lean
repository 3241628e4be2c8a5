import Rill.Proofs.Closure.Nesting

/-!
# Choices inside one another

A `Decision` is a tree of choices by literals: at a node a literal picks one of two branches, or is
itself the choice if it counts as true, and at a leaf stands a term. Written without parentheses
(`Posed`), each `:` belongs to the nearest `?` that still waits for one, and everything after it to
the last branch. `parse_decision` says that such a line is read as the one term that the tree comes
to (`Decision.selected`), and that it has the stream of that term.

A decision is a phrase (`Decision.phrase`) whose conditions are known, so every choice is made while
the line is read (`Decision.operands_phrase`).
-/

namespace Rill

/-- Choices by literals between terms. -/
inductive Decision where
  /-- A term. -/
  | leaf (t : Term)
  /-- One of two decisions. -/
  | choice (c : Literal) (onTrue onFalse : Decision)
  /-- The literal itself, or a decision in its place. -/
  | fallback (c : Literal) (onFalse : Decision)

namespace Decision

/-- The term that a decision comes to, from the root down. -/
def selected : Decision → Term
  | leaf t => t
  | choice c a b => if c.value.isTruthy then a.selected else b.selected
  | fallback c b => if c.value.isTruthy then .literal c else b.selected

/-- The phrase that writes a decision. -/
def phrase : Decision → Phrase
  | leaf t => .plain [t]
  | choice c a b => .choice [] (.literal c) a.phrase b.phrase
  | fallback c b => .fallback [] (.literal c) b.phrase

/-- Every choice is made while the line is read. -/
theorem operands_phrase (scope : Scope) (d : Decision) :
    d.phrase.operands scope = [d.selected.operand scope] := by
  induction d with
  | leaf t => rfl
  | choice c a b iha ihb =>
    show Operand.ternary scope (.value c.value) (a.phrase.operands scope)
      (b.phrase.operands scope) = _
    rw [iha, ihb, selected]
    by_cases hc : c.value.isTruthy = true <;> simp [Operand.ternary, Operand.ready?, hc]
  | fallback c b ihb =>
    show Operand.ternary scope (.value c.value) [] (b.phrase.operands scope) = _
    rw [ihb, selected]
    by_cases hc : c.value.isTruthy = true <;>
      simp [Operand.ternary, Operand.ready?, hc, Term.operand]

end Decision

/-- The tokens write a decision without parentheses, before those that follow them. -/
inductive Posed : List String → Decision → List String → Prop
  | leaf {rest : List String} {t : Term} {ts : List String} (h : Spelled [] 0 rest t ts) :
    Posed rest (.leaf t) ts
  | choice {rest : List String} (c : Literal) {a b : Decision} {us vs : List String}
    (ha : Posed (":" :: (vs ++ rest)) a us) (hb : Posed rest b vs) :
    Posed rest (.choice c a b) (c.token :: "?" :: (us ++ ":" :: vs))
  | fallback {rest : List String} (c : Literal) {b : Decision} {vs : List String}
    (hb : Posed rest b vs) : Posed rest (.fallback c b) (c.token :: "?" :: ":" :: vs)

/-- A condition stands alone before its `?`. -/
theorem Literal.juxtaposed (c : Literal) (rest : List String) :
    Juxtaposed [] rest ([] ++ [.literal c]) [c.token] := .one (.literal c)

namespace Posed

variable {rest : List String} {d : Decision} {ts : List String}

/-- A decision is written as its phrase is. -/
theorem phrased (h : Posed rest d ts) : Phrased [] rest d.phrase ts := by
  induction h with
  | leaf h => exact .plain (.one h)
  | choice c _ _ iha ihb => exact Phrased.choice (c.juxtaposed _) iha ihb
  | fallback c _ ihb => exact Phrased.fallback (c.juxtaposed _) ihb

/-- What a decision comes to is written somewhere in the line. -/
theorem selected_spelled (h : Posed rest d ts) :
    ∃ rest' us, Spelled [] 0 rest' d.selected us := by
  induction h with
  | leaf h => exact ⟨_, _, h⟩
  | choice c _ _ iha ihb =>
    rw [Decision.selected]
    split
    · exact iha
    · exact ihb
  | fallback c _ ihb =>
    rw [Decision.selected]
    split
    · exact ⟨[], _, .literal c⟩
    · exact ihb

end Posed

/-- A term that is written where no parameter is visible depends on nothing. -/
theorem Spelled.means (context : Context) (scope : Scope) {tier : Nat} {rest : List String}
    {t : Term} {ts : List String} (h : Spelled [] tier rest t ts) :
    Means context (t.operand scope) (t.meaning []) := by
  have hreads : t.reads = false := by
    induction h with
    | literal l => rfl
    | param _ hn => cases hn
    | before _ ih | after _ _ _ ih => exact ih
    | between _ _ _ _ ihx ihy =>
      rw [Term.reads, ihx, ihy]
      rfl
  have hvisible : Visible [] scope [] [] := List.forall_mem_nil _
  have hstands : Stands context (Keeping [] []) scope t.reads (t.operand scope) (t.meaning []) :=
    h.stands hvisible
  rw [hreads] at hstands
  obtain ⟨hmeans⟩ := hstands
  exact hmeans

/-- A line of choices by literals inside one another is read as the term that they come to, with the
default print mode, and gives what that term gives. -/
theorem parse_decision (context : Context) {d : Decision} {tokens : List String}
    (h : Posed [] d tokens) (w : World) :
    parse context tokens w =
      (.ok (.sequence .empty [d.selected.operand .empty], .default), w) ∧
    Operand.Delivers context .empty (d.selected.operand .empty) (d.selected.meaning []).items ∧
    Factory.Delivers context (.sequence .empty [d.selected.operand .empty])
      (d.selected.meaning []).items := by
  constructor
  · rw [← d.operands_phrase]
    exact NestedLine.parse_eq context (.body h.phrased) w
  · obtain ⟨rest', us, hspelled⟩ := h.selected_spelled
    have hterm : Operand.Delivers context .empty (d.selected.operand .empty)
        (d.selected.meaning []).items := (hspelled.means context .empty).delivers
    refine ⟨hterm, ?_⟩
    simpa using Factory.Delivers.sequence .empty (.cons hterm .nil)

/-- `true ? false ? 'a' : '' ? : 'b' + 'c' : 'd'`: the second `:` belongs to the second `?`, the
third to the one after it, and the last to the first. -/
theorem parse_decision_three_deep :
    parse {} ["true", "?", "false", "?", "'a'", ":", "''", "?", ":", "'b'", "+", "'c'", ":", "'d'"]
      (.ofEnvironment .empty) =
        (.ok (.sequence .empty [.value (.string "bc")], .default), .ofEnvironment .empty) ∧
    Operand.Delivers {} .empty (.value (.string "bc")) [.ok (.string "bc")] ∧
    Factory.Delivers {} (.sequence .empty [.value (.string "bc")]) [.ok (.string "bc")] := by
  let a : Literal := ⟨"'a'", .string "a", rfl⟩
  let b : Literal := ⟨"'b'", .string "b", rfl⟩
  let c : Literal := ⟨"'c'", .string "c", rfl⟩
  let d : Literal := ⟨"'d'", .string "d", rfl⟩
  let empty : Literal := ⟨"''", .string "", rfl⟩
  let yes : Literal := ⟨"true", .bool true, rfl⟩
  let no : Literal := ⟨"false", .bool false, rfl⟩
  let sum : Term := .between .add rfl (.literal b) (.literal c)
  have hsum (rest : List String) : Posed rest (.leaf sum) ["'b'", "+", "'c'"] :=
    .leaf (.between (by decide) (.literal b) (.literal c) nofun)
  have hinner (rest : List String) :
      Posed rest (.choice no (.leaf (.literal a)) (.fallback empty (.leaf sum)))
        ["false", "?", "'a'", ":", "''", "?", ":", "'b'", "+", "'c'"] :=
    .choice no (.leaf (.literal a)) (.fallback empty (hsum _))
  have hline : Posed [] (.choice yes _ (.leaf (.literal d))) _ :=
    .choice yes (hinner _) (.leaf (.literal d))
  exact parse_decision {} hline (.ofEnvironment .empty)

end Rill
