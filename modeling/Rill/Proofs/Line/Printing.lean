import Rill.Proofs.Line.Expression
import Rill.Proofs.Line.Inside
import Rill.Proofs.Line.Turns

/-!
# What follows a line

An operator after a line is read as if the line had ended there (`Parse.Ends.all_append`), and folds
what binds at least as tightly; the rest is folded at the end of the longer line.

A `:` folds everything. So the line before it does not matter to the print mode that it sets, and it
does not matter to what the line does (`parse_window`).
-/

namespace Rill

namespace Parse

variable {context : Context} {tokens : List String} {w : World} {p q r : Parse} {root : Stage}

theorem Ends.outline (h : Ends context tokens w p r root) : Outline p :=
  (Outline.start w tokens).all h.read

/-! ## What follows a line -/

/-- To what looks ahead, an operator other than `->` is as good as the end of the line. -/
theorem ahead_operator {t : String} (ht : isOperator t = true) (hne : t ≠ "->")
    (after : List String) : ∀ rest, Ahead rest (rest ++ t :: after)
  | [] => by
    refine ⟨?_, ?_⟩
    · show (_ || isOperator t) = true
      rw [ht, Bool.or_true]
    · match after with
      | [] => rfl
      | u :: _ =>
        rw [List.nil_append, paramFollows_cons, ht]
        exact Bool.and_false _
  | [name] => by
    refine ⟨rfl, ?_⟩
    rw [List.singleton_append, paramFollows_cons, beq_eq_false_iff_ne.mpr hne]
    rfl
  | name :: u :: rest => by
    refine ⟨rfl, ?_⟩
    rw [List.cons_append, List.cons_append, paramFollows_cons, paramFollows_cons]

/-- Before an operator a line is read as it is alone. -/
theorem Ends.all_append (h : Ends context tokens w p r root) {t : String}
    (ht : isOperator t = true) (hne : t ≠ "->") (after : List String) :
    all context (tokens ++ t :: after) (.start w (tokens ++ t :: after)) =
      all context (t :: after) { p with tokens := t :: after } := by
  let a : Around := ⟨[], [], [], by
    rintro _ ⟨⟩⟩
  have hclosed : a.Closed := by
    rintro _ ⟨⟩
  have hinside (q : Parse) (left : List String) : q.inside a left = { q with tokens := left } := by
    simp [inside, a]
  have hall := all_inside a (disciplined_start w tokens) h.read (.inl hclosed)
    (ahead_operator ht hne after)
  rw [hinside, hinside] at hall
  exact hall

/-- The line after an operator, with the operands so far that follow it. -/
def entered (r : Parse) (o : Operator) (s : Stage) (left : List String) (xs : List Operand) :
    Parse :=
  { r with
    tokens := left
    stages := { s.child with operands := xs } :: r.stages
    pending := .op o :: r.pending }

variable {o : Operator} {s : Stage} {rest : List Stage} {after : List String}

theorem infixOp_of_folds (h : Folds context (Pending.binds o.folds) p r)
    (hs : r.stages = s :: rest) : infixOp context (.op o) p = .ok () (r.entered o s r.tokens []) := by
  refine (bind_ok h.foldAll_eq).trans ?_
  obtain ⟨left, stages, pending, taken, slots, env⟩ := r
  subst hs
  rfl

/-- A literal or a word becomes an operand. -/
theorem all_operand {t : String} {x : Operand} (ht : Leaf.read t = .ok x) (hm : t ∉ Yard.marks)
    (hd : s.recordDepth = 0) :
    all context [t] (r.entered o s [t] []) = .ok () (r.entered o s [] [x]) := by
  refine all_ok ((Yard.token_eq_leaf (s := { s.child with operands := [] }) hm rfl hd).trans ?_)
  exact bind_ok (lift_ok ht _)

namespace Ends

/-- At the end of a line no record is open. -/
theorem token_eq_plainToken (h : Ends context tokens w p r root) {t : String}
    (ht : isBracket t = false) (after : List String) :
    token context t { p with tokens := after } =
      plainToken context t { p with tokens := after } := by
  have ne (m : String) (hm : isBracket m = true := by decide) : (t == m) = false := by
    refine beq_eq_false_iff_ne.mpr ?_
    rintro rfl
    exact absurd (ht.symm.trans hm) nofun
  obtain ⟨s, rest, hs, -⟩ := h.disciplined.top
  have hd : s.recordDepth = 0 := h.outline.depth h.not_bracket s (by rw [hs]; rfl)
  obtain ⟨_, stages, pending, taken, slots, env⟩ := p
  subst hs
  simp only [token, ne "(", ne ")", ne "\x7b", ne "\x7d", Bool.false_eq_true, if_false]
  refine (bind_ok rfl).trans ?_
  rw [if_neg (Nat.not_lt_of_le (Nat.le_of_eq hd))]

/-- An operator after a line folds what binds as tightly, and waits. -/
theorem all_infix (h : Ends context tokens w p r root) {t : String} (ht : isOperator t = true)
    (hne : t ≠ "->")
    (htoken : token context t { p with tokens := after } =
      infixOp context (.op o) { p with tokens := after })
    (k : Folds context (Pending.binds o.folds) p q) (hs : q.stages = s :: rest) :
    all context (tokens ++ t :: after) (.start w (tokens ++ t :: after)) =
      all context after (q.entered o s after []) := by
  refine (h.all_append ht hne after).trans (all_ok (htoken.trans ?_))
  exact infixOp_of_folds (r := { q with tokens := after }) (k.with_tokens after) hs

end Ends

/-! ## Windows -/

/-- A `:` folds everything that binds. -/
theorem binds_window : Pending.binds Operator.window.folds = fun x => !x.isBracket := by
  funext x
  cases x with
  | op o => cases o <;> rfl
  | bind _ | ternary | ternaryElse | paren | brace _ => rfl

namespace Ends

/-- After a line a `:` is a window, as no `?` waits for it. -/
theorem all_window (h : Ends context tokens w p r root) (after : List String) :
    all context (tokens ++ ":" :: after) (.start w (tokens ++ ":" :: after)) =
      all context after (r.entered .window root after []) := by
  refine h.all_infix (by decide) (by decide) ?_ (binds_window ▸ h.folds) h.stages
  have hopen : hasOpenTernary 0 p.pending = false := by
    rw [← h.folds.folded.hasOpenTernary, h.pending]
    rfl
  refine (h.token_eq_plainToken (by decide) after).trans ?_
  obtain ⟨s, rest, hs, -⟩ := h.disciplined.top
  obtain ⟨_, stages, pending, taken, slots, env⟩ := p
  subst hs
  show (if hasOpenTernary 0 pending = true then _ else infixOp context (.op .window)) _ = _
  rw [if_neg (Bool.eq_false_iff.mp hopen)]

theorem all_literal (h : Ends context tokens w p r root) (l : Literal) :
    all context [l.token] (r.entered .window root [l.token] []) =
      .ok () (r.entered .window root [] [.value l.value]) := by
  refine all_operand l.read_eq (Yard.literal_not_mark l.read_eq) ?_
  refine (h.outline.folds h.folds).depth (fun x hx => ?_) root (by rw [h.stages]; rfl)
  rw [h.pending] at hx
  cases hx

/-- A window sets the print mode, and changes nothing else. -/
theorem parse_windowed (h : Ends context tokens w p r root) {more : List String} {xs : List Operand}
    (hread : all context (tokens ++ more) (.start w (tokens ++ more)) =
      .ok () (r.entered .window root [] xs)) :
    parse context (tokens ++ more) w =
      (.ok (root.toFactory context, windowMode xs), { w with slots := r.slots, env := r.env }) := by
  obtain ⟨-, -, hpending, hstages⟩ := h
  have hends : Ends context (tokens ++ more) w (r.entered .window root [] xs)
      { r with tokens := [], stages := [{ root with mode := some (windowMode xs) }] }
      { root with mode := some (windowMode xs) } := by
    obtain ⟨left, stages, pending, taken, slots, env⟩ := r
    subst hpending hstages
    exact ⟨hread, .step rfl rfl rfl (.done nofun), rfl, rfl⟩
  exact hends.parse_eq

end Ends

end Parse

open Parse (Ends)

variable {context : Context} {tokens : List String} {w w' : World} {f : Factory} {mode : Mode}

/-- A window at the end of a line only changes the print mode. With nothing after it everything is
pulled; with a literal after it the mode is the one that the window alone sets. In both cases the
line gives what it gives alone, and binds what it binds alone. -/
theorem parse_window (h : parse context tokens w = (.ok (f, mode), w')) (l : Literal) :
    parse context (tokens ++ [":"]) w = (.ok (f, .pull true), w') ∧
    ∃ window, (∀ w₀, ∃ g, parse context [":", l.token] w₀ = (.ok (g, window), w₀)) ∧
      parse context (tokens ++ [":", l.token]) w = (.ok (f, window), w') := by
  obtain ⟨p, r, root, hends, rfl, -, rfl⟩ := Parse.exists_ends h
  refine ⟨hends.parse_windowed (hends.all_window []), Parse.windowMode [.value l.value],
    fun w₀ => ?_, hends.parse_windowed ((hends.all_window _).trans (hends.all_literal l))⟩
  -- alone, the window follows a line of no tokens
  have hempty : parse context [] w₀ = (.ok (Stage.toFactory context { scope := .empty }, .default),
    w₀) := rfl
  obtain ⟨p₀, r₀, root₀, hends₀, -, -, hw₀⟩ := Parse.exists_ends hempty
  refine ⟨root₀.toFactory context, ?_⟩
  have halone := hends₀.parse_windowed ((hends₀.all_window _).trans (hends₀.all_literal l))
  rwa [← hw₀] at halone

/-- The `:` after `true ? 1 : 2` is a window, though the one before it is not. -/
theorem parse_window_choice :
    let w : World := .ofEnvironment .empty
    let f : Factory := .sequence .empty [.value (.int 1)]
    parse {} ["true", "?", "1", ":", "2"] w = (.ok (f, .default), w) ∧
    parse {} ["true", "?", "1", ":", "2", ":"] w = (.ok (f, .pull true), w) ∧
    ∃ window, (∀ w₀, ∃ g, parse {} [":", "3"] w₀ = (.ok (g, window), w₀)) ∧
      parse {} ["true", "?", "1", ":", "2", ":", "3"] w = (.ok (f, window), w) := by
  intro w f
  let known (v : Value) : Stage := { scope := .empty, operands := [.value v] }
  have hends : Ends {} ["true", "?", "1", ":", "2"] w
      ⟨[], [known (.int 2), known (.int 1), known (.bool true)], [.ternaryElse, .ternary], [],
        .empty, .empty⟩
      ⟨[], [known (.int 1)], [], [], .empty, .empty⟩ (known (.int 1)) :=
    ⟨(Parse.all_ok rfl).trans ((Parse.all_ok rfl).trans ((Parse.all_ok rfl).trans
      ((Parse.all_ok rfl).trans (Parse.all_ok rfl)))), .step rfl rfl rfl (.done nofun), rfl, rfl⟩
  exact ⟨hends.parse_eq, parse_window hends.parse_eq ⟨"3", .int 3, rfl⟩⟩

end Rill
