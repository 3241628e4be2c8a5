import Rill.Proofs.Line.Expression

/-!
# Expressions that read parameters

A `Term` is an expression over literals and parameters, with operators before, after and between
their operands. `Spelled` says how it is written without parentheses, and `Juxtaposed` how several
are written one after the other. Where the parameters are visible, reading the tokens of a term
leads to one operand more, which is built from its leaves up (`Spelled.reads`, `Term.operand`).
-/

namespace Rill

open Parse (bind_ok lift_ok)

/-- An operator after its operand takes it in place; `&` leaves it as it is. -/
def Operand.applyAfter (scope : Scope) (op : Operator) (x : Operand) : Operand :=
  if op = .background then x else .applyUnary scope op x

/-- An expression that may read parameters. -/
inductive Term where
  /-- A literal. -/
  | literal (l : Literal)
  /-- A parameter, with or without a path into it. -/
  | param (word : String)
  /-- An operator before its operand. -/
  | before (op : Operator) (h : op.place = .before) (x : Term)
  /-- An operator after its operand. -/
  | after (op : Operator) (h : op.place = .after) (x : Term)
  /-- An operator between its operands. -/
  | between (op : Operator) (h : op.isBetween = true) (x y : Term)

/-- The operand of a term, from the leaves up. -/
def Term.operand (scope : Scope) : Term → Operand
  | literal l => .value l.value
  | param word => .word word
  | before op _ x => .applyUnary scope op (x.operand scope)
  | after op _ x => .applyAfter scope op (x.operand scope)
  | between op _ x y => .applyBinary scope op (x.operand scope) (y.operand scope)

/-- A token that is read as a word, and is no operator and no bracket. -/
structure IsWord (token : String) : Prop where
  read_eq : Leaf.read token = .ok (.word token)
  operator : Parse.isOperator token = false
  bracket : Parse.isBracket token = false

/-- The tokens write a term, before those that follow them, where only operators of a tier or above
may stand and only some parameters are visible. A `..` stands after its operand if an operator
follows it, or nothing, and between its operands if no operator does. -/
inductive Spelled (names : List String) : Nat → List String → Term → List String → Prop
  | literal {tier : Nat} {rest : List String} (l : Literal) :
    Spelled names tier rest (.literal l) [l.token]
  | param {tier : Nat} {rest : List String} {word : String} (hw : IsWord word)
    (hn : Scope.head word ∈ names) : Spelled names tier rest (.param word) [word]
  | before {tier : Nat} {rest : List String} {op : Operator} {h : op.place = .before} {x : Term}
    {ts : List String} (hx : Spelled names (op.tier + 1) rest x ts) :
    Spelled names tier rest (.before op h x) (op.symbol :: ts)
  | after {tier : Nat} {rest : List String} {op : Operator} {h : op.place = .after} {x : Term}
    {ts : List String} (ht : tier ≤ op.tier) (hx : Spelled names op.tier (op.symbol :: rest) x ts)
    (hr : op = .rangeFrom → ∀ token ∈ rest.head?, Parse.isOperator token = true) :
    Spelled names tier rest (.after op h x) (ts ++ [op.symbol])
  | between {tier : Nat} {rest : List String} {op : Operator} {h : op.isBetween = true}
    {x y : Term} {ts us : List String} (ht : tier ≤ op.tier)
    (hx : Spelled names op.tier (op.symbol :: (us ++ rest)) x ts)
    (hy : Spelled names (op.tier + 1) rest y us)
    (hr : op = .range → ∀ token ∈ us.head?, Parse.isOperator token = false) :
    Spelled names tier rest (.between op h x y) (ts ++ op.symbol :: us)

/-- The tokens write terms one after the other, before those that follow them. No term but the first
begins with a sign, which would be an operator between it and the one before. -/
inductive Juxtaposed (names : List String) : List String → List Term → List String → Prop
  | one {rest : List String} {t : Term} {ts : List String} (h : Spelled names 0 rest t ts) :
    Juxtaposed names rest [t] ts
  | cons {rest : List String} {t : Term} {ts us : List String} {terms : List Term}
    (h : Spelled names 0 (us ++ rest) t ts) (hs : us.head? ≠ some "+" ∧ us.head? ≠ some "-")
    (k : Juxtaposed names rest terms us) : Juxtaposed names rest (t :: terms) (ts ++ us)

/-! ## What the tokens of a term are not -/

theorem IsWord.not_mark {token : String} (h : IsWord token) : token ∉ Yard.marks := by
  have hall : ∀ m ∈ Yard.marks, Parse.isOperator m = true ∨ Parse.isBracket m = true := by decide
  intro hm
  rcases hall token hm with k | k
  · exact absurd (h.operator.symm.trans k) nofun
  · exact absurd (h.bracket.symm.trans k) nofun

variable {names : List String} {context : Context} {g : Ground}

theorem Spelled.ne_nil {tier : Nat} {rest : List String} {t : Term} {ts : List String}
    (h : Spelled names tier rest t ts) : ts ≠ [] := by
  cases h <;> simp

/-- A range is open before an operator and at the end. -/
theorem endsRange_of_operator {rest : List String}
    (h : ∀ token ∈ rest.head?, Parse.isOperator token = true) : Parse.endsRange rest = true := by
  match rest with
  | [] => rfl
  | token :: rest =>
    show (_ || Parse.isOperator token) = true
    rw [h token rfl, Bool.or_true]

/-- A term does not begin with a bracket. -/
theorem Spelled.head_not_bracket {tier : Nat} {rest : List String} {t : Term} {ts : List String}
    (h : Spelled names tier rest t ts) : ∀ token ∈ ts.head?, Parse.isBracket token = false := by
  induction h with
  | literal l =>
    rintro _ ⟨⟩
    have hall : ∀ m, Parse.isBracket m = true → m ∈ Yard.marks := by
      intro m hm
      exact List.mem_append_left _ (List.mem_of_mem_take (i := 6) (List.contains_iff_mem.mp hm))
    by_contra hb
    exact Yard.literal_not_mark l.read_eq (hall _ (Bool.not_eq_false _ ▸ hb))
  | param hw _ =>
    rintro _ ⟨⟩
    exact hw.bracket
  | @before _ _ op _ _ _ _ _ =>
    rintro _ ⟨⟩
    cases op <;> rfl
  | after _ hx _ ih | between _ hx _ _ ih _ =>
    rwa [List.head?_append_of_ne_nil _ hx.ne_nil]

/-- A term that does not begin with an operator does not end the range before it. -/
theorem Spelled.endsRange {tier : Nat} {rest : List String} {t : Term} {ts : List String}
    (h : Spelled names tier rest t ts) (hs : ∀ token ∈ ts.head?, Parse.isOperator token = false)
    (more : List String) : Parse.endsRange (ts ++ more) = false := by
  obtain ⟨token, ts', rfl⟩ := List.exists_cons_of_ne_nil h.ne_nil
  have hb : Parse.isBracket token = false := h.head_not_bracket token rfl
  have hclose : [")", "\x7d", "]"].contains token = false := by
    simp only [Parse.isBracket, List.contains_eq_mem, decide_eq_false_iff_not, List.mem_cons,
      List.not_mem_nil, or_false, not_or] at hb ⊢
    exact ⟨hb.2.1, hb.2.2.2.1, hb.2.2.2.2.2⟩
  show (_ || Parse.isOperator token) = false
  rw [hclose, hs token rfl]
  rfl

/-! ## Reading terms -/

theorem Operand.Settled.applyAfter {scope scope' : Scope} {op : Operator} {x : Operand}
    (h : x.Settled scope) : (Operand.applyAfter scope' op x).Settled scope := by
  unfold Operand.applyAfter
  split
  · exact h
  · exact .applyUnary

namespace Yard

/-- An operator after its operand folds what binds at least as tightly, and takes the last operand
then. -/
theorem token_after (hg : g.Low) {op : Operator} (h : op.place = .after) {y : Yard}
    (hok : y.Ok g.scope) (ht : y.top ≠ []) {tokens : List String}
    (hr : op = .rangeFrom → Parse.endsRange tokens = true) {y' : Yard} {x : Operand}
    (e : y.collapse g.scope op.tier = y'.append x) :
    Parse.token context op.symbol (y.parse tokens g) =
      .ok () ((y'.append (.applyAfter g.scope op x)).parse tokens g) := by
  have hlow : Operator.and.tier ≤ op.tier := by cases op <;> first | decide | cases h
  have hfold : Parse.foldAll context _ (y.parse tokens g) = _ := foldAll_tier hg hlow hok ht
  rw [e] at hfold
  have hpop : (stage g.scope (y'.append x).top).pop = .ok (x, stage g.scope y'.top) := by
    simp only [Stage.pop, stage, append, List.getLast?_concat, List.dropLast_concat]
  have hpost : Parse.postfixOp context op (y.parse tokens g) =
      .ok () ((y'.append (.applyAfter g.scope op x)).parse tokens g) :=
    (bind_ok hfold).trans ((bind_ok rfl).trans ((bind_ok (lift_ok hpop _)).trans rfl))
  rw [← hpost]
  cases op with
  | background => rfl
  | rangeFrom =>
    show (if Parse.endsRange tokens = true then Parse.postfixOp context .rangeFrom else _) _ = _
    rw [hr rfl]
    rfl
  | _ => cases h

/-- An operator after its operand takes what was read before it. -/
theorem Reads.after (hg : g.Low) {op : Operator} (hop : op.place = .after) {tier : Nat}
    (ht : tier ≤ op.tier) {ts rest : List String} {y : Yard} (hne : ts ≠ [])
    (hs : Starts tier y (ts ++ [op.symbol])) (hok : y.Ok g.scope)
    (hr : op = .rangeFrom → Parse.endsRange rest = true) {right right₁ : Operand → Prop}
    (hx : Starts op.tier y ts →
      Reads context g (min op.tier Operator.not.tier) ts (op.symbol :: rest) right₁ y)
    (hright : ∀ x, right₁ x → right (.applyAfter g.scope op x)) :
    Reads context g (min tier Operator.not.tier) (ts ++ [op.symbol]) rest right y := by
  have htier : op.tier ≤ Operator.not.tier := by cases op <;> decide
  have hs' : Starts op.tier y ts := hs.of_head ht (List.head?_append_of_ne_nil _ hne)
  have hx := hx hs'
  rw [Nat.min_eq_left htier] at hx
  obtain ⟨y₁, x, run, hok₁, ht₁, hx, e⟩ := hx
  rw [hs'.collapse_append] at e
  have hok₂ : ((y.collapse g.scope op.tier).append x).Ok g.scope := e ▸ hok₁.collapse
  have hsettled : x.Settled g.scope := hok₂.top x (by simp [append])
  have hread : Reads context g op.tier (ts ++ [op.symbol]) rest right y := by
    refine ⟨_, _, fun tokens => ?_, hok.collapse.append hsettled.applyAfter, by simp [append],
      hright x hx, hs'.collapse_append_twice _⟩
    rw [List.append_assoc, List.singleton_append, run, all_cons (token_after hg hop hok₁ ht₁ hr e)]
  exact hread.mono (Nat.le_trans (Nat.min_le_left _ _) ht)

end Yard

open Yard (Reads Starts)

/-- Reading a term leads to one operand more, which is that of the term. -/
theorem Spelled.reads (context : Context) (hg : g.Low)
    (hnames : ∀ name ∈ names, g.scope.isVar name = true) {tier : Nat} {rest : List String}
    {t : Term} {ts : List String} (h : Spelled names tier rest t ts) :
    ∀ (y : Yard), y.Ok g.scope → Starts tier y ts →
      Reads context g (min tier Operator.not.tier) ts rest (· = t.operand g.scope) y := by
  induction h with
  | literal l =>
    intro y hok _
    have hm := Yard.literal_not_mark l.read_eq
    exact .of_token hok rfl (.value _) (Yard.token_leaf l.read_eq hm y)
  | param hw hn =>
    intro y hok _
    exact .of_token hok rfl (.word (hnames _ hn)) (Yard.token_leaf hw.read_eq hw.not_mark y)
  | @before tier rest op hop x ts hx ih =>
    intro y hok hs
    have hx := ih (y.push (.op op)) (hok.push (.inl hop)) (.inl ⟨rfl, Nat.lt_succ_self _⟩)
    exact .before hop hs hx fun _ e => congrArg _ e
  | @after tier rest op hop x ts ht hx hr ih =>
    intro y hok hs
    exact .after hg hop ht hx.ne_nil hs hok (fun e => endsRange_of_operator (hr e))
      (fun hs => ih y hok hs) fun _ e => congrArg _ e
  | @between tier rest op hop x z ts us ht hx hz hr ihx ihz =>
    intro y hok hs
    exact .between hg hop ht hx.ne_nil hs (fun e => hz.endsRange (hr e) rest)
      (fun hs => ihx y hok hs) (fun y hok hs => ihz y hok hs) fun _ _ e e' => by rw [e, e']; rfl

/-- Terms one after the other: each of them is one operand more. -/
theorem Juxtaposed.reads (context : Context) (hg : g.Low)
    (hnames : ∀ name ∈ names, g.scope.isVar name = true) {rest : List String} {terms : List Term}
    {ts : List String} (h : Juxtaposed names rest terms ts) :
    ∀ {y : Yard} {xs : List Operand}, y.Ok g.scope → Starts 0 y ts →
      y.collapse g.scope 0 = ⟨xs, []⟩ →
      ∃ y' : Yard, (∀ tokens, Parse.all context (ts ++ rest) (y.parse tokens g) =
          Parse.all context rest (y'.parse rest g)) ∧
        y'.Ok g.scope ∧ y'.top ≠ [] ∧
        y'.collapse g.scope 0 = ⟨xs ++ terms.map (Term.operand g.scope), []⟩ := by
  induction h with
  | one h =>
    intro y xs hok hs e
    obtain ⟨y', x, run, hok', ht', rfl, e'⟩ := h.reads context hg hnames y hok hs
    rw [Nat.zero_min, hs.collapse_append, e] at e'
    exact ⟨y', run, hok', ht', e'⟩
  | @cons t ts us terms h hsign _ ih =>
    intro y xs hok hs e
    have hs' : Starts 0 y ts := hs.of_head (Nat.le_refl 0) (List.head?_append_of_ne_nil _ h.ne_nil)
    obtain ⟨y₁, x, run₁, hok₁, ht₁, rfl, e₁⟩ := h.reads context hg hnames y hok hs'
    rw [Nat.zero_min, hs'.collapse_append, e] at e₁
    obtain ⟨y₂, run₂, hok₂, ht₂, e₂⟩ := ih hok₁ (.inr ⟨ht₁, hsign⟩) e₁
    refine ⟨y₂, fun tokens => ?_, hok₂, ht₂, ?_⟩
    · rw [List.append_assoc, run₁, run₂]
    · rw [e₂, List.append_assoc]
      rfl

end Rill
