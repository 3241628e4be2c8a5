import Rill.Proofs.Line.Term

/-!
# Terms and choices

A `Phrase` is what a stage consists of: terms one after the other, the last of which may be the
condition of a choice. What follows a choice belongs to its last branch, and the first branch ends
at the `:` that belongs to the `?` before it. While a branch is read, what comes before it waits
below (`Ground.ask`, `Ground.choose`). Reading a phrase leads to stacks that fold to the operands of
the phrase on the ground where it began (`Phrased.reads`, `Settles`), whatever asks for the folding:
a `|`, the `:` of a choice around the phrase, or the end of the line.
-/

namespace Rill

open Parse (bind_ok lift_ok)

/-- Terms one after the other, and then perhaps a choice. -/
inductive Phrase where
  /-- Terms alone. -/
  | plain (terms : List Term)
  /-- A choice between two phrases by the last term. -/
  | choice (terms : List Term) (condition : Term) (onTrue onFalse : Phrase)
  /-- The last term, or a phrase in its place. -/
  | fallback (terms : List Term) (condition : Term) (onFalse : Phrase)

/-- The operands of a phrase. -/
def Phrase.operands (scope : Scope) : Phrase → List Operand
  | plain terms => terms.map (Term.operand scope)
  | choice terms c onTrue onFalse =>
    terms.map (Term.operand scope) ++
      Operand.ternary scope (c.operand scope) (onTrue.operands scope) (onFalse.operands scope)
  | fallback terms c onFalse =>
    terms.map (Term.operand scope) ++
      Operand.ternary scope (c.operand scope) [] (onFalse.operands scope)

/-- The tokens write a phrase, before those that follow them. -/
inductive Phrased (names : List String) : List String → Phrase → List String → Prop
  | plain {rest : List String} {terms : List Term} {ts : List String}
    (h : Juxtaposed names rest terms ts) : Phrased names rest (.plain terms) ts
  | choice {rest : List String} {terms : List Term} {c : Term} {a b : Phrase}
    {ts us vs : List String}
    (h : Juxtaposed names ("?" :: (us ++ ":" :: (vs ++ rest))) (terms ++ [c]) ts)
    (ha : Phrased names (":" :: (vs ++ rest)) a us) (hb : Phrased names rest b vs) :
    Phrased names rest (.choice terms c a b) (ts ++ "?" :: (us ++ ":" :: vs))
  | fallback {rest : List String} {terms : List Term} {c : Term} {b : Phrase} {ts vs : List String}
    (h : Juxtaposed names ("?" :: ":" :: (vs ++ rest)) (terms ++ [c]) ts)
    (hb : Phrased names rest b vs) :
    Phrased names rest (.fallback terms c b) (ts ++ "?" :: ":" :: vs)

theorem Operand.Settled.ternary {scope : Scope} {c : Operand} {onTrue onFalse : List Operand}
    (ht : ∀ x ∈ onTrue, x.Settled scope) (hf : ∀ x ∈ onFalse, x.Settled scope) :
    ∀ x ∈ Operand.ternary scope c onTrue onFalse, x.Settled scope := by
  unfold Operand.ternary
  split
  · split_ifs
    · exact fun x hx => List.mem_singleton.mp hx ▸ .value _
    · exact ht
    · exact hf
  · exact fun x hx => List.mem_singleton.mp hx ▸ .deferred _

namespace Ground

/-- The ground of the first branch of a choice: the condition is the last of the operands. -/
def ask (g : Ground) (left : List Operand) : Ground :=
  { g with stages := Yard.stage g.scope left :: g.stages, pending := .ternary :: g.pending }

/-- The ground of the other branch. -/
def choose (g : Ground) (left onTrue : List Operand) : Ground :=
  { g.ask left with
    stages := Yard.stage g.scope onTrue :: (g.ask left).stages
    pending := .ternaryElse :: (g.ask left).pending }

theorem low_ask (g : Ground) (left : List Operand) : (g.ask left).Low := by
  rintro _ ⟨⟩ _ ⟨⟩
  decide

theorem low_choose (g : Ground) (left onTrue : List Operand) : (g.choose left onTrue).Low := by
  rintro _ ⟨⟩ _ ⟨⟩
  decide

end Ground

variable {names : List String} {context : Context} {g g' : Ground}

namespace Yard

/-- What is on one ground folds to operands on another, which is below or the same, and leaves as
many choices without their `:`. -/
structure Settles (context : Context) (g : Ground) (xs : List Operand) (y : Yard) (g' : Ground) :
    Prop where
  fold : ∀ (tokens : List String) {keep : Pending → Bool} {tier : Nat}, Keeps keep tier →
    tier ≤ Operator.and.tier → keep .ternaryElse = true → ∃ n, g.pending.length ≤ n ∧
      Parse.foldAll context keep (y.parse tokens g') =
        Parse.foldWhile context keep n ((⟨xs, []⟩ : Yard).parse tokens g)
  opened : ∀ closed, Parse.hasOpenTernary closed (y.frames.map Prod.fst ++ g'.pending) =
    Parse.hasOpenTernary closed g.pending
  settled : ∀ x ∈ xs, x.Settled g.scope

/-- What folds to operands alone has no choice in it. -/
theorem hasOpenTernary_frames {scope : Scope} {y : Yard} {xs : List Operand}
    (e : y.collapse scope 0 = ⟨xs, []⟩) (closed : Nat) (below : List Pending) :
    Parse.hasOpenTernary closed (y.frames.map Prod.fst ++ below) =
      Parse.hasOpenTernary closed below := by
  obtain ⟨top, frames⟩ := y
  replace e : collapseFrom scope 0 top frames = ⟨xs, []⟩ := e
  show Parse.hasOpenTernary closed (frames.map Prod.fst ++ below) = _
  fun_induction collapseFrom scope 0 top frames with
  | case1 => rfl
  | case2 _ op _ _ _ ih => exact ih e
  | case3 _ _ _ _ hle => exact absurd (Nat.zero_le _) hle
  | case4 => cases congrArg Yard.frames e

theorem Settles.of_collapse {y : Yard} {xs : List Operand} (hok : y.Ok g.scope) (ht : y.top ≠ [])
    (e : y.collapse g.scope 0 = ⟨xs, []⟩) : Settles context g xs y g where
  fold tokens _ _ hk hle _ := by
    refine ⟨_, Nat.le_refl _, ?_⟩
    rw [foldAll_parse hk hok ht, collapse_low hle hok, e]
  opened closed := hasOpenTernary_frames e closed _
  settled := by
    have h : (y.collapse g.scope 0).Ok g.scope := hok.collapse
    rw [e] at h
    exact h.top

/-- Nothing was read. -/
theorem Settles.empty : Settles context g [] ⟨[], []⟩ g where
  fold _ _ _ _ _ _ := ⟨_, Nat.le_refl _, rfl⟩
  opened _ := rfl
  settled := nofun

theorem foldTernary_stages {scope : Scope} {zs onTrue onFalse : List Operand} {c : Operand}
    {tokens : List String} {stages : List Stage} {pending : List Pending} {taken : List Handle}
    {slots : Slots} {env : Environment} :
    Parse.foldTernary ⟨tokens, stage scope onFalse :: stage scope onTrue ::
        stage scope (zs ++ [c]) :: stages, .ternary :: pending, taken, slots, env⟩ =
      .ok () ⟨tokens, stage scope (zs ++ Operand.ternary scope c onTrue onFalse) :: stages, pending,
        taken, slots, env⟩ := by
  have hpop : (stage scope (zs ++ [c])).pop = .ok (c, stage scope zs) := by
    simp only [Stage.pop, stage, List.getLast?_concat, List.dropLast_concat]
  have hpush := pushAll_stage scope zs (Operand.ternary scope c onTrue onFalse)
  have hleft : (do
      let left ← Parse.popStage
      let popped ← Parse.lift left.pop
      let left ← Parse.lift (popped.2.pushAll (Operand.ternary scope popped.1 onTrue onFalse))
      Parse.pushStage left : Parser Unit)
      ⟨tokens, stage scope (zs ++ [c]) :: stages, pending, taken, slots, env⟩ = _ :=
    (bind_ok rfl).trans ((bind_ok (lift_ok hpop _)).trans ((bind_ok (lift_ok hpush _)).trans rfl))
  exact hleft

/-- A choice is folded when both its branches are there. -/
theorem foldWhile_choose {keep : Pending → Bool} (hk : keep .ternaryElse = true) {n : Nat}
    {zs onTrue onFalse : List Operand} {c : Operand} {tokens : List String} :
    Parse.foldWhile context keep (n + 1)
        ((⟨onFalse, []⟩ : Yard).parse tokens (g.choose (zs ++ [c]) onTrue)) =
      Parse.foldWhile context keep n
        ((⟨zs ++ Operand.ternary g.scope c onTrue onFalse, []⟩ : Yard).parse tokens g) := by
  have hfold : Parse.fold context
      ((⟨onFalse, []⟩ : Yard).parse tokens (g.choose (zs ++ [c]) onTrue)) =
        .ok () ((⟨zs ++ Operand.ternary g.scope c onTrue onFalse, []⟩ : Yard).parse tokens g) :=
    (bind_ok rfl).trans foldTernary_stages
  rw [Parse.foldWhile_step rfl hk, bind_ok hfold]

theorem Settles.choose {zs onTrue onFalse : List Operand} {c : Operand} {y : Yard}
    (hzs : ∀ x ∈ zs, x.Settled g.scope) (htrue : ∀ x ∈ onTrue, x.Settled g.scope)
    (h : Settles context (g.choose (zs ++ [c]) onTrue) onFalse y g') :
    Settles context g (zs ++ Operand.ternary g.scope c onTrue onFalse) y g' where
  fold tokens keep tier hk hle helse := by
    obtain ⟨n, hn, e⟩ := h.fold tokens hk hle helse
    have hn : g.pending.length + 2 ≤ n := hn
    obtain ⟨m, rfl⟩ : ∃ m, n = m + 1 := ⟨n - 1, by omega⟩
    exact ⟨m, by omega, e.trans (foldWhile_choose helse)⟩
  opened closed := (h.opened closed).trans rfl
  settled x hx := by
    rcases List.mem_append.mp hx with hx | hx
    · exact hzs x hx
    · exact Operand.Settled.ternary htrue h.settled x hx

/-- `?` after a condition. -/
theorem token_ask (hg : g.Low) {y : Yard} (hok : y.Ok g.scope) (ht : y.top ≠ [])
    {left : List Operand} (e : y.collapse g.scope 0 = ⟨left, []⟩) (tokens : List String) :
    Parse.token context "?" (y.parse tokens g) =
      .ok () ((⟨[], []⟩ : Yard).parse tokens (g.ask left)) := by
  have hfold : Parse.foldAll context
      (Pending.binds fun t => decide (Operator.ternaryTier < t)) (y.parse tokens g) = _ :=
    foldAll_tier hg (Nat.le_refl _) hok ht
  rw [collapse_low (Nat.le_refl _) hok, e] at hfold
  have hinfix : Parse.infixOp context .ternary (y.parse tokens g) =
      .ok () ((⟨[], []⟩ : Yard).parse tokens (g.ask left)) := (bind_ok hfold).trans rfl
  exact hinfix

/-- The `:` of a choice, after its first branch. -/
theorem token_choose {left onTrue : List Operand} {y : Yard}
    (h : Settles context (g.ask left) onTrue y g') (tokens : List String) :
    Parse.token context ":" (y.parse tokens g') =
      .ok () ((⟨[], []⟩ : Yard).parse tokens (g.choose left onTrue)) := by
  have hopen : Parse.hasOpenTernary 0 (y.frames.map Prod.fst ++ g'.pending) = true :=
    (h.opened 0).trans rfl
  have hkeeps : Keeps (fun p =>
      p.binds (fun t => Operator.ternaryTier < t) || p == .ternaryElse) Operator.and.tier :=
    ⟨fun _ => Bool.or_false _, rfl⟩
  obtain ⟨n, -, hfold⟩ := h.fold tokens hkeeps (Nat.le_refl _) rfl
  rw [Parse.foldWhile_of_head (by rintro _ ⟨⟩; rfl)] at hfold
  have helse : Parse.ternaryElse context (y.parse tokens g') =
      .ok () ((⟨[], []⟩ : Yard).parse tokens (g.choose left onTrue)) := (bind_ok hfold).trans rfl
  rw [← helse]
  show (if Parse.hasOpenTernary 0 (y.frames.map Prod.fst ++ g'.pending) = true then
    Parse.ternaryElse context else _) _ = _
  rw [if_pos hopen]

end Yard

open Yard (Settles)

/-- Terms in a new stage. -/
theorem Juxtaposed.reads_first (context : Context) (hg : g.Low)
    (hnames : ∀ name ∈ names, g.scope.isVar name = true) {rest : List String} {terms : List Term}
    {ts : List String} (h : Juxtaposed names rest terms ts) :
    ∃ y : Yard, (∀ tokens, Parse.all context (ts ++ rest) ((⟨[], []⟩ : Yard).parse tokens g) =
        Parse.all context rest (y.parse rest g)) ∧
      y.Ok g.scope ∧ y.top ≠ [] ∧
      y.collapse g.scope 0 = ⟨terms.map (Term.operand g.scope), []⟩ :=
  h.reads context hg hnames (y := ⟨[], []⟩) ⟨nofun, nofun⟩ (.inl ⟨rfl, trivial⟩) rfl

/-- Terms up to a `?`, of which the last is a condition. -/
theorem Juxtaposed.reads_ask (context : Context) (hg : g.Low)
    (hnames : ∀ name ∈ names, g.scope.isVar name = true) {rest : List String} {terms : List Term}
    {c : Term} {ts : List String} (h : Juxtaposed names ("?" :: rest) (terms ++ [c]) ts) :
    (∀ tokens, Parse.all context (ts ++ "?" :: rest) ((⟨[], []⟩ : Yard).parse tokens g) =
      Parse.all context rest ((⟨[], []⟩ : Yard).parse rest
        (g.ask (terms.map (Term.operand g.scope) ++ [c.operand g.scope])))) ∧
    ∀ x ∈ terms.map (Term.operand g.scope), x.Settled g.scope := by
  obtain ⟨y, run, hok, ht, e⟩ := h.reads_first context hg hnames
  have hsettled : (y.collapse g.scope 0).Ok g.scope := hok.collapse
  rw [List.map_append, List.map_singleton] at e
  rw [e] at hsettled
  refine ⟨fun tokens => ?_, fun x hx => hsettled.top x (List.mem_append_left _ hx)⟩
  rw [run, Parse.all_ok (Yard.token_ask hg hok ht e rest)]

/-- Reading a phrase leads to stacks that fold to its operands. -/
theorem Phrased.reads (context : Context) {rest : List String} {phrase : Phrase}
    {ts : List String} (h : Phrased names rest phrase ts) :
    ∀ {g : Ground}, g.Low → (∀ name ∈ names, g.scope.isVar name = true) →
      ∃ (y : Yard) (g' : Ground),
        (∀ tokens, Parse.all context (ts ++ rest) ((⟨[], []⟩ : Yard).parse tokens g) =
          Parse.all context rest (y.parse rest g')) ∧
        Settles context g (phrase.operands g.scope) y g' := by
  -- on the derivation: what is read before a branch becomes part of the ground of the branch
  induction h with
  | plain h =>
    intro g hg hnames
    obtain ⟨y, run, hok, ht, e⟩ := h.reads_first context hg hnames
    exact ⟨y, g, run, .of_collapse hok ht e⟩
  | choice h _ _ iha ihb =>
    intro g hg hnames
    obtain ⟨run, hterms⟩ := h.reads_ask context hg hnames
    obtain ⟨y₁, g₁, run₁, h₁⟩ := iha (g.low_ask _) hnames
    obtain ⟨y₂, g₂, run₂, h₂⟩ := ihb (g.low_choose _ _) hnames
    refine ⟨y₂, g₂, fun tokens => ?_, .choose hterms h₁.settled h₂⟩
    rw [List.append_assoc, List.cons_append, List.append_assoc, List.cons_append, run, run₁,
      Parse.all_ok (Yard.token_choose h₁ _)]
    exact run₂ _
  | fallback h _ ihb =>
    intro g hg hnames
    obtain ⟨run, hterms⟩ := h.reads_ask context hg hnames
    obtain ⟨y₂, g₂, run₂, h₂⟩ := ihb (g.low_choose _ []) hnames
    refine ⟨y₂, g₂, fun tokens => ?_, .choose hterms nofun h₂⟩
    rw [List.append_assoc, List.cons_append, List.cons_append, run,
      Parse.all_ok (Yard.token_choose .empty _), run₂]

end Rill
