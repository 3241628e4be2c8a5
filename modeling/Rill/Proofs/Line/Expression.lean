import Rill.Proofs.Line.Yard

/-!
# Expressions

An expression over literals is written with parentheses wherever a tier or the order of operators of
one tier asks for them, and anywhere else (`Written`). A line of expressions that stand one after
the other is read as these expressions: reading one leaves a yard that folds to the yard before it
with one operand more (`Written.reads`), and so the line delivers what the operands of the
expressions deliver, one after the other (`parse_written`).
-/

namespace Rill

/-- A token that writes a value: a number, a truth value, `null` or a text in quotes. -/
structure Literal where
  token : String
  value : Value
  read_eq : Leaf.read token = .ok (.value value)

/-- An expression. -/
inductive Tree where
  /-- A literal. -/
  | leaf (l : Literal)
  /-- An operator before its operand. -/
  | before (op : Operator) (h : op.place = .before) (x : Tree)
  /-- An operator between its operands. -/
  | between (op : Operator) (h : op.isBetween = true) (x y : Tree)

namespace Tree

/-- The operand of an expression, from the leaves up. -/
def operand : Tree → Operand
  | leaf l => .value l.value
  | before op _ x => .applyUnary .empty op x.operand
  | between op _ x y => .applyBinary .empty op x.operand y.operand

/-- What an expression stands for. -/
def meaning : Tree → Meaning
  | leaf l => .known l.value
  | before op _ x => x.meaning.unary op
  | between op _ x y => x.meaning.binary op y.meaning

theorem means {context : Context} : ∀ e : Tree, Means context e.operand e.meaning
  | leaf l => .known l.value
  | before op _ x => x.means.applyUnary op
  | between op _ x y => x.means.applyBinary y.means op

end Tree

/-- The tokens write an expression where only operators of a tier or above may stand without
parentheses. What follows `..` does not begin with an operator, which would end the range. -/
inductive Written : Nat → Tree → List String → Prop
  | leaf {tier : Nat} (l : Literal) : Written tier (.leaf l) [l.token]
  | before {tier : Nat} {op : Operator} {h : op.place = .before} {x : Tree} {ts : List String}
    (hx : Written (op.tier + 1) x ts) : Written tier (.before op h x) (op.symbol :: ts)
  | between {tier : Nat} {op : Operator} {h : op.isBetween = true} {x y : Tree}
    {ts us : List String} (ht : tier ≤ op.tier) (hx : Written op.tier x ts)
    (hy : Written (op.tier + 1) y us)
    (hr : op = .range → ∀ o : Operator, o.place = .before → us.head? ≠ some o.symbol) :
    Written tier (.between op h x y) (ts ++ op.symbol :: us)
  | group {tier : Nat} {x : Tree} {ts : List String} (hx : Written 0 x ts) :
    Written tier x ("(" :: (ts ++ [")"]))

variable {context : Context} {g : Ground}

/-- A pair of parentheses changes nothing. -/
theorem Means.toOperand {x : Operand} {m : Meaning} (h : Means context x m) :
    Means context ((Yard.stage .empty [x]).toOperand context) m := by
  cases h with
  | known v => exact .known v
  | elements h =>
    have k := Factory.Delivers.sequence .empty (.cons (Means.elements h).delivers .nil)
    simp only [Meaning.items, List.flatten_cons, List.flatten_nil, List.append_nil] at k
    exact .elements k

theorem Means.settled {scope : Scope} {x : Operand} {m : Meaning} (h : Means context x m) :
    x.Settled scope := by
  cases h with
  | known v => exact .value v
  | elements _ => exact .stream _

namespace Yard

theorem all_cons {token : String} {rest tokens : List String} {y y' : Yard}
    (h : Parse.token context token (y.parse rest g) = .ok () (y'.parse rest g)) :
    Parse.all context (token :: rest) (y.parse tokens g) =
      Parse.all context rest (y'.parse rest g) :=
  Parse.all_ok h

theorem Ok.append {scope : Scope} {y : Yard} (h : y.Ok scope) {x : Operand}
    (hx : x.Settled scope) : (y.append x).Ok scope := by
  refine ⟨fun z hz => ?_, h.frames⟩
  rcases List.mem_append.mp hz with hz | hz
  · exact h.top z hz
  · rw [List.mem_singleton.mp hz]; exact hx

theorem Ok.push {scope : Scope} {y : Yard} (h : y.Ok scope) {p : Pending}
    (hp : FrameOk (p, y.top)) : (y.push p).Ok scope := by
  refine ⟨nofun, fun f hf => ?_⟩
  rcases List.mem_cons.mp hf with rfl | hf
  · exact ⟨hp, h.top⟩
  · exact h.frames f hf

/-- Where an expression may begin: in a new stage, before which no operator binds as tightly, or
after other operands, if it does not begin with a sign. -/
def Starts (tier : Nat) (y : Yard) (ts : List String) : Prop :=
  y.top = [] ∧ Stuck tier y.frames ∨
    y.top ≠ [] ∧ ts.head? ≠ some "+" ∧ ts.head? ≠ some "-"

theorem Stuck.mono {tier tier' : Nat} (h : tier ≤ tier') :
    ∀ {frames : List (Pending × List Operand)}, Stuck tier frames → Stuck tier' frames
  | [], _ => trivial
  | (.op _, _) :: _, k => Nat.lt_of_lt_of_le k h
  | (.bind _, _) :: _, _ | (.ternary, _) :: _, _ | (.ternaryElse, _) :: _, _ | (.paren, _) :: _, _
  | (.brace _, _) :: _, _ => trivial

theorem Starts.of_head {tier tier' : Nat} (h : tier ≤ tier') {y : Yard} {ts us : List String}
    (hs : Starts tier y us) (e : us.head? = ts.head?) : Starts tier' y ts := by
  rcases hs with ⟨ht, hs⟩ | ⟨ht, hs⟩
  · exact .inl ⟨ht, hs.mono h⟩
  · exact .inr ⟨ht, e ▸ hs⟩

/-- Reading tokens leads from a yard to another that folds, at a tier, to the first with one operand
more, which is as it should be. -/
def Reads (context : Context) (g : Ground) (tier : Nat) (ts rest : List String)
    (right : Operand → Prop) (y : Yard) : Prop :=
  ∃ (y' : Yard) (x : Operand), (∀ tokens, Parse.all context (ts ++ rest) (y.parse tokens g) =
      Parse.all context rest (y'.parse rest g)) ∧
    y'.Ok g.scope ∧ y'.top ≠ [] ∧ right x ∧
    y'.collapse g.scope tier = (y.append x).collapse g.scope tier

variable {right right₁ right₂ : Operand → Prop}

/-- A token that leads to one operand more. -/
theorem Reads.of_token {tier : Nat} {token : String} {rest : List String} {y : Yard}
    {x : Operand} (hok : y.Ok g.scope) (hx : right x) (hs : x.Settled g.scope)
    (h : Parse.token context token (y.parse rest g) = .ok () ((y.append x).parse rest g)) :
    Reads context g tier [token] rest right y :=
  ⟨y.append x, x, fun _ => all_cons h, hok.append hs, by simp [append], hx, rfl⟩

/-- What is read at a tier is read at a lower one. -/
theorem Reads.mono {tier tier' : Nat} (h : tier ≤ tier') {ts rest : List String} {y : Yard} :
    Reads context g tier' ts rest right y → Reads context g tier ts rest right y := by
  rintro ⟨y', x, run, hok, ht, hx, e⟩
  refine ⟨y', x, run, hok, ht, hx, ?_⟩
  rw [← collapse_collapse h, e, collapse_collapse h]

/-- A group: what is between the parentheses is read in a stage of its own. -/
theorem Reads.group {tier : Nat} {ts rest : List String} {y : Yard} (hok : y.Ok g.scope)
    (h : Reads context g 0 ts (")" :: rest) right₁ (y.push .paren))
    (hright : ∀ x, right₁ x → right ((stage g.scope [x]).toOperand context) ∧
      ((stage g.scope [x]).toOperand context).Settled g.scope) :
    Reads context g tier ("(" :: (ts ++ [")"])) rest right y := by
  obtain ⟨y₁, x, run, hok₁, ht₁, hx, e⟩ := h
  have hgroup : y₁.collapse g.scope 0 = ⟨[x], (.paren, y.top) :: y.frames⟩ :=
    e.trans (collapse_of_stuck trivial)
  refine ⟨_, _, fun tokens => ?_, hok.append (hright x hx).2, by simp [append],
    (hright x hx).1, rfl⟩
  rw [List.cons_append, List.append_assoc, List.singleton_append, all_cons (token_open y)]
  exact (run _).trans (all_cons (token_close hok₁ ht₁ hgroup))

/-- An operator before its operand waits for it, and is folded with it: at its own tier, which no
operator exceeds. -/
theorem Reads.before {op : Operator} (hop : op.place = .before) {tier : Nat}
    {ts rest : List String} {y : Yard} (hs : Starts tier y (op.symbol :: ts))
    (h : Reads context g (min (op.tier + 1) Operator.not.tier) ts rest right₁ (y.push (.op op)))
    (hright : ∀ x, right₁ x → right (.applyUnary g.scope op x)) :
    Reads context g (min tier Operator.not.tier) (op.symbol :: ts) rest right y := by
  have htier : op.tier = Operator.not.tier := by cases op <;> first | rfl | cases hop
  have hsign : op ≠ .not → y.top = [] := by
    intro hne
    rcases hs with ⟨ht, -⟩ | ⟨-, hp, hm⟩
    · exact ht
    · cases op <;> first | exact absurd rfl hp | exact absurd rfl hm | exact absurd rfl hne
                         | cases hop
  rw [htier, Nat.min_eq_right (Nat.le_succ _), ← htier] at h
  obtain ⟨y₁, x, run, hok₁, ht₁, hx, e⟩ := h
  have hread : Reads context g op.tier (op.symbol :: ts) rest right y := by
    refine ⟨y₁, .applyUnary g.scope op x, fun tokens => ?_, hok₁, ht₁, hright x hx, ?_⟩
    · rw [List.cons_append, all_cons (token_before hop hsign), run]
    · rw [e]
      show collapseFrom g.scope op.tier [x] ((.op op, y.top) :: y.frames) = _
      rw [collapseFrom, if_pos (Nat.le_refl _), combine, if_pos hop]
      rfl
  exact hread.mono (htier ▸ Nat.min_le_right _ _)

/-- Where an expression begins, one operand more is not touched by folding at its tier. -/
theorem Starts.collapse_append {scope : Scope} {tier : Nat} {y : Yard} {ts : List String}
    (h : Starts tier y ts) (x : Operand) :
    (y.append x).collapse scope tier = (y.collapse scope tier).append x := by
  rcases h with ⟨-, hs⟩ | ⟨ht, -⟩
  · rw [collapse_of_stuck (y := y) hs, collapse_of_stuck (y := y.append x) hs]
  · exact Yard.collapse_append ht x

/-- Folding once more changes nothing. -/
theorem Starts.collapse_append_twice {scope : Scope} {tier : Nat} {y : Yard} {ts : List String}
    (h : Starts tier y ts) (x : Operand) :
    ((y.collapse scope tier).append x).collapse scope tier = (y.append x).collapse scope tier := by
  rw [← h.collapse_append, collapse_collapse (Nat.le_refl _)]

/-- An operator between operands is folded with the last operand before it, which nothing on top
binds more tightly, and the first after it. -/
theorem Starts.collapse_between {scope : Scope} {op : Operator} (hop : op.isBetween = true)
    {y y₁ y₂ : Yard} {ts : List String} (hs : Starts op.tier y ts) {x z : Operand}
    (e₁ : y₁.collapse scope op.tier = (y.append x).collapse scope op.tier)
    (e₂ : y₂.collapse scope (op.tier + 1) =
      (((y₁.collapse scope op.tier).push (.op op)).append z).collapse scope (op.tier + 1)) :
    y₂.collapse scope op.tier =
      (y.append (.applyBinary scope op x z)).collapse scope op.tier := by
  have hb : op.place ≠ .before := by cases op <;> first | decide | cases hop
  rw [hs.collapse_append] at e₁
  rw [← collapse_collapse (Nat.le_succ _) y₂, e₂, collapse_collapse (Nat.le_succ _), e₁]
  show collapseFrom scope op.tier [z] ((.op op, (y.collapse scope op.tier).top ++ [x]) ::
    (y.collapse scope op.tier).frames) = _
  rw [collapseFrom, if_pos (Nat.le_refl _), combine, if_neg hb, List.getLast?_concat,
    List.dropLast_concat]
  exact hs.collapse_append_twice _

/-- An operator between operands folds what is before it, waits for what is after it, and is folded
with it. -/
theorem Reads.between (hg : g.Low) {op : Operator} (hop : op.isBetween = true) {tier : Nat}
    (ht : tier ≤ op.tier) {ts us rest : List String} {y : Yard} (hne : ts ≠ [])
    (hs : Starts tier y (ts ++ op.symbol :: us))
    (hr : op = .range → Parse.endsRange (us ++ rest) = false)
    (hx : Starts op.tier y ts →
      Reads context g (min op.tier Operator.not.tier) ts (op.symbol :: (us ++ rest)) right₁ y)
    (hy : ∀ y : Yard, y.Ok g.scope → Starts (op.tier + 1) y us →
      Reads context g (min (op.tier + 1) Operator.not.tier) us rest right₂ y)
    (hright : ∀ x z, right₁ x → right₂ z → right (.applyBinary g.scope op x z)) :
    Reads context g (min tier Operator.not.tier) (ts ++ op.symbol :: us) rest right y := by
  have htier : op.tier < Operator.not.tier := by cases op <;> first | decide | cases hop
  have hs' : Starts op.tier y ts := hs.of_head ht (List.head?_append_of_ne_nil _ hne)
  have hx := hx hs'
  rw [Nat.min_eq_left (Nat.le_of_lt htier)] at hx
  simp only [Nat.min_eq_left (Nat.succ_le_of_lt htier)] at hy
  obtain ⟨y₁, x, run₁, hok₁, ht₁, hx, e₁⟩ := hx
  have hok₂ : ((y₁.collapse g.scope op.tier).push (.op op)).Ok g.scope :=
    hok₁.collapse.push (.inr ⟨hop, collapse_top_ne_nil ht₁⟩)
  obtain ⟨y₃, z, run₃, hok₃, ht₃, hz, e₃⟩ := hy _ hok₂ (.inl ⟨rfl, Nat.lt_succ_self _⟩)
  have hread : Reads context g op.tier (ts ++ op.symbol :: us) rest right y := by
    refine ⟨y₃, .applyBinary g.scope op x z, fun tokens => ?_, hok₃, ht₃, hright x z hx hz,
      hs'.collapse_between hop e₁ e₃⟩
    rw [List.append_assoc, List.cons_append, run₁, all_cons (token_between hg hop hok₁ ht₁ hr),
      run₃]
  exact hread.mono (Nat.le_trans (Nat.min_le_left _ _) ht)

end Yard

open Yard (Reads Starts)

theorem Written.ne_nil {tier : Nat} {e : Tree} {ts : List String} (h : Written tier e ts) :
    ts ≠ [] := by
  cases h <;> simp

/-- What follows `..` does not end the range. -/
theorem Written.endsRange {tier : Nat} {e : Tree} {ts : List String} (h : Written tier e ts)
    (hs : ∀ o : Operator, o.place = .before → ts.head? ≠ some o.symbol) (rest : List String) :
    Parse.endsRange (ts ++ rest) = false := by
  induction h generalizing rest with
  | leaf l =>
    have hm := Yard.literal_not_mark l.read_eq
    have ne (m : String) (k : m ∈ Yard.marks := by decide) : l.token ≠ m := fun h => hm (h ▸ k)
    show (_ || Parse.isOperator l.token) = false
    simp [Parse.isOperator, Yard.ofInfix?_eq_none hm, ne ")", ne "\x7d", ne "]", ne "!", ne "&",
      ne "?"]
  | @before tier op hop x ts hx ih => exact absurd rfl (hs op hop)
  | between _ hx _ _ ih _ =>
    rw [List.append_assoc]
    refine ih (fun o ho => ?_) _
    have := hs o ho
    rwa [List.head?_append_of_ne_nil _ hx.ne_nil] at this
  | group => rfl

/-- Reading an expression leads to one operand more, which stands for the expression. -/
theorem Written.reads (context : Context) (hg : g.Low) (hscope : g.scope = .empty) {tier : Nat}
    {e : Tree} {ts : List String} (h : Written tier e ts) :
    ∀ (y : Yard), y.Ok g.scope → Starts tier y ts → ∀ rest,
      Reads context g (min tier Operator.not.tier) ts rest (Means context · e.meaning) y := by
  induction h with
  | leaf l =>
    intro y hok _ rest
    have hm := Yard.literal_not_mark l.read_eq
    exact .of_token hok (.known l.value) (.value _) (Yard.token_leaf l.read_eq hm y)
  | @before tier op hop x ts hx ih =>
    intro y hok hs rest
    have hx := ih (y.push (.op op)) (hok.push (.inl hop)) (.inl ⟨rfl, Nat.lt_succ_self _⟩) rest
    exact .before hop hs hx fun _ h => h.applyUnary op
  | @between tier op hop x z ts us ht hx hz hr ihx ihz =>
    intro y hok hs rest
    exact .between hg hop ht hx.ne_nil hs (fun e => hz.endsRange (hr e) rest)
      (fun hs => ihx y hok hs _) (fun y hok hs => ihz y hok hs rest)
      fun _ _ h k => h.applyBinary k op
  | group hx ih =>
    intro y hok hs rest
    refine .group hok (ih _ (hok.push (p := .paren) trivial) (.inl ⟨rfl, trivial⟩) _) fun x hx => ?_
    rw [hscope]
    exact ⟨hx.toOperand, hx.toOperand.settled⟩

/-! ## Lines -/

/-- Expressions after other operands: each of them is one operand more. -/
theorem Written.reads_all (hg : g.Low) (hscope : g.scope = .empty) {trees : List Tree}
    {tss : List (List String)} (hw : List.Forall₂ (Written 0) trees tss) :
    ∀ {y : Yard} {xs : List Operand}, y.Ok g.scope → y.top ≠ [] →
      y.collapse g.scope 0 = ⟨xs, []⟩ →
      (∀ ts ∈ tss, ts.head? ≠ some "+" ∧ ts.head? ≠ some "-") →
      ∃ (y' : Yard) (zs : List Operand),
        Parse.all context tss.flatten (y.parse tss.flatten g) = .ok () (y'.parse [] g) ∧
        y'.Ok g.scope ∧ y'.top ≠ [] ∧ y'.collapse g.scope 0 = ⟨xs ++ zs, []⟩ ∧
        List.Forall₂ (Means context) zs (trees.map Tree.meaning) := by
  induction hw with
  | nil =>
    intro y xs hok ht e _
    exact ⟨y, [], rfl, hok, ht, by rw [e, List.append_nil], .nil⟩
  | @cons t ts trees tss hw _ ih =>
    intro y xs hok ht e hs
    have ⟨hsign, hs⟩ := List.forall_mem_cons.mp hs
    obtain ⟨y₁, x, run, hok₁, ht₁, hx, e₁⟩ :=
      hw.reads context hg hscope y hok (.inr ⟨ht, hsign⟩) tss.flatten
    rw [Nat.zero_min, Yard.collapse_append ht, e] at e₁
    obtain ⟨y₂, zs, run₂, hok₂, ht₂, e₂, hzs⟩ := ih hok₁ ht₁ e₁ hs
    refine ⟨y₂, x :: zs, (run _).trans run₂, hok₂, ht₂, ?_, .cons hx hzs⟩
    rw [e₂, List.append_assoc]
    rfl

/-- At the end of a line, all that waits is folded. -/
theorem Yard.finish (context : Context) (w : World) {y : Yard} (hok : y.Ok (Ground.start w).scope)
    (ht : y.top ≠ []) {xs : List Operand}
    (e : y.collapse (Ground.start w).scope 0 = ⟨xs, []⟩) :
    Parse.finish context (y.parse [] (.start w)) =
      .ok ((stage (Ground.start w).scope xs).toFactory context, .default)
        ⟨[], [], [], [], w.slots, w.env⟩ := by
  have k : Parse.foldAll context (fun p => !p.isBracket) (y.parse [] (.start w)) = _ :=
    foldAll_parse keeps_not_bracket hok ht
  rw [e] at k
  exact (Parse.bind_ok k).trans rfl

/-- Operands of which none names a command are a sequence. -/
theorem Yard.toFactory_stage {scope : Scope} {xs : List Operand}
    (h : ∀ x ∈ xs, x.Settled scope) :
    (stage scope xs).toFactory context = .sequence scope xs := by
  match xs with
  | [] => rfl
  | x :: xs =>
    have hx := h x List.mem_cons_self
    cases hx with
    | value _ | stream _ | deferred _ => rfl
    | word hw =>
      show (if scope.isVarPath _ then _ else _) = _
      rw [if_pos hw]
      cases xs <;> rfl

/-- The line of a list of expressions is read as the sequence of operands that stand for them. -/
theorem Written.parse_eq (context : Context) (w : World) {t : Tree} {trees : List Tree}
    {ts : List String} {tss : List (List String)} (hw : Written 0 t ts) (hws : List.Forall₂ (Written 0) trees tss)
    (hs : ∀ ts ∈ tss, ts.head? ≠ some "+" ∧ ts.head? ≠ some "-") :
    ∃ xs : List Operand,
      parse context (ts ++ tss.flatten) w = (.ok (.sequence .empty xs, .default), w) ∧
      List.Forall₂ (Means context) xs ((t :: trees).map Tree.meaning) := by
  obtain ⟨y₁, x, run, hok₁, ht₁, hx, e₁⟩ :=
    hw.reads context (Ground.low_start w) rfl ⟨[], []⟩ ⟨nofun, nofun⟩ (.inl ⟨rfl, trivial⟩)
      tss.flatten
  obtain ⟨y, zs, run', hok, ht, e, hzs⟩ := reads_all (Ground.low_start w) rfl hws hok₁ ht₁ e₁ hs
  have hsettled : (y.collapse (Ground.start w).scope 0).Ok (Ground.start w).scope := hok.collapse
  rw [e] at hsettled
  have hfinish := Yard.finish context w hok ht e
  rw [Yard.toFactory_stage hsettled.top] at hfinish
  have hall : (Parse.all context (ts ++ tss.flatten) >>= fun _ => Parse.finish context)
      (Parse.start w (ts ++ tss.flatten)) = _ :=
    (Parse.bind_ok ((run _).trans run')).trans hfinish
  exact ⟨x :: zs, parse_of_ok hall, .cons hx hzs⟩

/-- A line of expressions delivers what the operands of the expressions deliver, one after the
other, and is printed as lines are by default. -/
theorem parse_written (context : Context) {trees : List Tree} {tss : List (List String)}
    (hne : trees ≠ []) (hw : List.Forall₂ (Written 0) trees tss)
    (hs : ∀ ts ∈ tss.tail, ts.head? ≠ some "+" ∧ ts.head? ≠ some "-") (w : World) :
    ∃ (f : Factory) (xss : List (List Item)),
      parse context tss.flatten w = (.ok (f, .default), w) ∧
      List.Forall₂ (fun e xs => e.operand.Delivers context .empty xs) trees xss ∧
      f.Delivers context xss.flatten := by
  cases hw with
  | nil => exact absurd rfl hne
  | @cons t ts trees tss hw hws =>
    obtain ⟨xs, hparse, hxs⟩ := hw.parse_eq context w hws hs
    refine ⟨_, ((t :: trees).map Tree.meaning).map Meaning.items, hparse, ?_, .sequence _ ?_⟩
    · rw [List.map_map, List.forall₂_map_right_iff]
      exact List.forall₂_same.mpr fun e _ => e.means.delivers
    · rw [List.forall₂_map_right_iff]
      exact hxs.imp fun _ _ h => h.delivers

/-- `1 + 2 * (3 - -4)`, `!true` and `(1) .. 3` on one line. -/
theorem parse_written_neighbours : ∃ (f : Factory) (xss : List (List Item)),
    parse {} ["1", "+", "2", "*", "(", "3", "-", "-", "4", ")", "!", "true", "(", "1", ")", "..",
      "3"] (.ofEnvironment .empty) = (.ok (f, .default), .ofEnvironment .empty) ∧
    List.Forall₂ (Operand.Delivers {} .empty)
      [.applyBinary .empty .add (.value (.int 1)) (.applyBinary .empty .mul (.value (.int 2))
          (.applyBinary .empty .sub (.value (.int 3)) (.applyUnary .empty .neg (.value (.int 4))))),
        .applyUnary .empty .not (.value (.bool true)),
        .applyBinary .empty .range (.value (.int 1)) (.value (.int 3))] xss ∧
    f.Delivers {} xss.flatten := by
  have hdifference : Written 0 (.between .sub rfl (.leaf ⟨"3", .int 3, rfl⟩)
      (.before .neg rfl (.leaf ⟨"4", .int 4, rfl⟩))) ["3", "-", "-", "4"] :=
    .between (by decide) (.leaf _) (.before (.leaf _)) nofun
  have hsum : Written 0 (.between .add rfl (.leaf ⟨"1", .int 1, rfl⟩)
      (.between .mul rfl (.leaf ⟨"2", .int 2, rfl⟩) (.between .sub rfl (.leaf ⟨"3", .int 3, rfl⟩)
        (.before .neg rfl (.leaf ⟨"4", .int 4, rfl⟩)))))
      ["1", "+", "2", "*", "(", "3", "-", "-", "4", ")"] :=
    .between (by decide) (.leaf _) (.between (by decide) (.leaf _) (.group hdifference) nofun) nofun
  have hnot : Written 0 (.before .not rfl (.leaf ⟨"true", .bool true, rfl⟩)) ["!", "true"] :=
    .before (.leaf _)
  have hrange : Written 0
      (.between .range rfl (.leaf ⟨"1", .int 1, rfl⟩) (.leaf ⟨"3", .int 3, rfl⟩)) ["(", "1", ")", "..", "3"] :=
    .between (by decide) (.group (.leaf _)) (.leaf _)
      fun _ op _ => by cases op <;> decide
  have hall := List.Forall₂.cons hsum (.cons hnot (.cons hrange .nil))
  obtain ⟨f, xss, hparse, hxss, hf⟩ := parse_written {} (List.cons_ne_nil _ _) hall
    (by decide) (.ofEnvironment .empty)
  exact ⟨f, xss, hparse, (List.forall₂_map_left_iff (f := Tree.operand)).mpr hxss, hf⟩

end Rill
