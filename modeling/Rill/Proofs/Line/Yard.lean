import Rill.Proofs.Delivers
import Rill.Proofs.Line.Steps

/-!
# The two stacks of an expression

While a line has only literals, parameters, operators on values and parentheses, each stage is no
more than its operands, and each pending operator or bracket stands on the stage before it: a
`Yard`. What is visible and what waits below is the `Ground` of the expression. Folding is then a
function (`Yard.collapse`), which the parser's folding computes (`foldAll_yard`), and what each
token does to a yard is one equation (`token_leaf`, `token_between`, `token_before`, `token_open`,
`token_close`).
-/

namespace Rill

open Parse (bind_ok lift_ok)

/-- The operands on top, and below them each pending operator or bracket with the operands of the
stage on which it stands. -/
structure Yard where
  top : List Operand
  frames : List (Pending × List Operand)

/-- What is visible to an expression, and what waits below its stages. -/
structure Ground where
  scope : Scope
  stages : List Stage
  pending : List Pending
  taken : List Handle
  slots : Slots
  env : Environment

namespace Ground

/-- Nothing is visible, and nothing waits. -/
def start (w : World) : Ground := ⟨.empty, [], [], [], w.slots, w.env⟩

/-- Nothing that an operator on values folds is on top of what waits. -/
def Low (g : Ground) : Prop :=
  ∀ p ∈ g.pending.head?, ∀ t, p.tier? = some t → t < Operator.and.tier

theorem low_start (w : World) : (start w).Low := nofun

theorem Low.stops {g : Ground} (hg : g.Low) {keep : Nat → Bool}
    (hk : ∀ t < Operator.and.tier, keep t = false) :
    ∀ p ∈ g.pending.head?, p.binds keep = false := by
  intro p hp
  unfold Pending.binds
  cases ht : p.tier? with
  | none => rfl
  | some t => exact hk t (hg p hp t ht)

end Ground

/-- An operand that is no reference, and no word but a parameter: it names no command and no
file. -/
inductive Operand.Settled (scope : Scope) : Operand → Prop
  | value (v : Value) : Settled scope (.value v)
  | stream (f : Factory) : Settled scope (.stream f)
  | word {w : String} (h : scope.isVarPath w = true) : Settled scope (.word w)
  | deferred (d : Deferred) : Settled scope (.deferred d)

namespace Operand.Settled

variable {scope scope' : Scope} {op : Operator} {x y : Operand}

theorem ofOutcome : ∀ r : Except Error Outcome, (Operand.ofOutcome r).Settled scope
  | .ok (.value v) => .value v
  | .ok (.range _ _) | .error _ => .stream _

theorem applyUnary : (Operand.applyUnary scope' op x).Settled scope := by
  unfold Operand.applyUnary
  split
  · exact ofOutcome _
  · exact .stream _
  · exact .deferred _

theorem applyBinary : (Operand.applyBinary scope' op x y).Settled scope := by
  unfold Operand.applyBinary
  split
  · exact ofOutcome _
  · exact .stream _
  · exact .stream _
  · exact .stream _
  · exact .deferred _

end Operand.Settled

/-- An operator between two values, or between the ends of a range. -/
def Operator.isBetween (op : Operator) : Bool := op.isValueOp || op == .range

namespace Yard

/-! ## Folding -/

/-- What an operator makes of the operands before it and after it: it takes its operands from where
they meet. -/
def combine (scope : Scope) (op : Operator) (left right : List Operand) : List Operand :=
  match right with
  | [] => left
  | y :: ys =>
    if op.place = .before then left ++ .applyUnary scope op y :: ys
    else
      match left.getLast? with
      | some x => left.dropLast ++ .applyBinary scope op x y :: ys
      | none => y :: ys

/-- Folds the operators on top that bind at a tier or more tightly. -/
def collapseFrom (scope : Scope) (tier : Nat) :
    List Operand → List (Pending × List Operand) → Yard
  | top, [] => ⟨top, []⟩
  | top, (.op op, left) :: rest =>
    if tier ≤ op.tier then collapseFrom scope tier (combine scope op left top) rest
    else ⟨top, (.op op, left) :: rest⟩
  | top, frame :: rest => ⟨top, frame :: rest⟩

/-- Folds the operators on top that bind at a tier or more tightly. -/
def collapse (scope : Scope) (tier : Nat) (y : Yard) : Yard :=
  collapseFrom scope tier y.top y.frames

/-- One operand more. -/
def append (y : Yard) (x : Operand) : Yard := ⟨y.top ++ [x], y.frames⟩

/-- An operator or a bracket, and a stage for what follows it. -/
def push (y : Yard) (p : Pending) : Yard := ⟨[], (p, y.top) :: y.frames⟩

/-- A frame that can be folded, or a parenthesis. -/
def FrameOk : Pending × List Operand → Prop
  | (.op op, left) => op.place = .before ∨ op.isBetween = true ∧ left ≠ []
  | (.paren, _) => True
  | _ => False

/-- Every frame can be folded as soon as there is an operand after it, and no operand names a
command or a file. -/
structure Ok (scope : Scope) (y : Yard) : Prop where
  top : ∀ x ∈ y.top, x.Settled scope
  frames : ∀ f ∈ y.frames, FrameOk f ∧ ∀ x ∈ f.2, x.Settled scope

/-! ## The parser's stacks -/

/-- A stage that is no more than its operands. -/
def stage (scope : Scope) (operands : List Operand) : Stage :=
  { scope := scope, operands := operands }

/-- A line whose stacks are a yard on some ground. -/
def parse (y : Yard) (tokens : List String) (g : Ground) : Parse :=
  ⟨tokens, stage g.scope y.top :: ((y.frames.map fun f => stage g.scope f.2) ++ g.stages),
    y.frames.map Prod.fst ++ g.pending, g.taken, g.slots, g.env⟩

/-- A stage inside so many records that is no more than its operands. -/
def stageIn (depth : Nat) (scope : Scope) (operands : List Operand) : Stage :=
  { scope := scope, operands := operands, recordDepth := depth }

/-- A line inside so many records whose stacks are a yard on some ground. -/
def parseIn (depth : Nat) (y : Yard) (tokens : List String) (g : Ground) : Parse :=
  ⟨tokens,
    stageIn depth g.scope y.top :: ((y.frames.map fun f => stageIn depth g.scope f.2) ++ g.stages),
    y.frames.map Prod.fst ++ g.pending, g.taken, g.slots, g.env⟩

theorem pushAll_stageIn (depth : Nat) (scope : Scope) (xs ys : List Operand) :
    (stageIn depth scope xs).pushAll ys = .ok (stageIn depth scope (xs ++ ys)) := by
  induction ys generalizing xs with
  | nil => rw [List.append_nil]; rfl
  | cons y ys ih =>
    have h := ih (xs ++ [y])
    rw [List.append_assoc] at h
    exact h

theorem pushAll_stage (scope : Scope) (xs ys : List Operand) :
    (stage scope xs).pushAll ys = .ok (stage scope (xs ++ ys)) :=
  pushAll_stageIn 0 scope xs ys

variable {depth : Nat} {tokens : List String} {g : Ground} {context : Context}

theorem foldPrefix_yard {op : Operator} {x : Operand} {xs left : List Operand}
    {frames : List (Pending × List Operand)} (h : op.place = .before) :
    Parse.foldPrefix op
        { (⟨x :: xs, (.op op, left) :: frames⟩ : Yard).parseIn depth tokens g with
          pending := frames.map Prod.fst ++ g.pending } =
      .ok () ((⟨combine g.scope op left (x :: xs), frames⟩ : Yard).parseIn depth tokens g) := by
  have e := pushAll_stageIn depth g.scope (left ++ [.applyUnary g.scope op x]) xs
  rw [List.append_assoc] at e
  simp only [combine, if_pos h]
  refine (bind_ok rfl).trans ((bind_ok rfl).trans ((bind_ok rfl).trans ((bind_ok rfl).trans ?_)))
  exact (bind_ok (lift_ok e _)).trans rfl

theorem foldBinary_yard {op : Operator} {x : Operand} {xs left : List Operand}
    {frames : List (Pending × List Operand)} (h : op.isBetween = true) (hl : left ≠ []) :
    Parse.foldBinary op
        { (⟨x :: xs, (.op op, left) :: frames⟩ : Yard).parseIn depth tokens g with
          pending := frames.map Prod.fst ++ g.pending } =
      .ok () ((⟨combine g.scope op left (x :: xs), frames⟩ : Yard).parseIn depth tokens g) := by
  have hb : op.place ≠ .before := by cases op <;> first | decide | cases h
  obtain ⟨l, hlast⟩ : ∃ l, left.getLast? = some l := ⟨_, List.getLast?_eq_some_getLast hl⟩
  have hpop : (stageIn depth g.scope left).pop = .ok (l, stageIn depth g.scope left.dropLast) := by
    simp only [Stage.pop, stageIn, hlast]
  have e := pushAll_stageIn depth g.scope (left.dropLast ++ [.applyBinary g.scope op l x]) xs
  rw [List.append_assoc] at e
  simp only [combine, if_neg hb, hlast]
  refine (bind_ok rfl).trans ((bind_ok rfl).trans ((bind_ok (lift_ok hpop _)).trans ?_))
  exact (bind_ok rfl).trans ((bind_ok rfl).trans ((bind_ok (lift_ok e _)).trans rfl))

/-- What follows `>` is compared if it does not name a file. -/
theorem fileName?_stageIn {scope : Scope} {x : Operand} {xs : List Operand}
    (hx : x.Settled scope) : Parse.fileName? (stageIn depth scope (x :: xs)) = none := by
  cases hx with
  | value _ | stream _ | deferred _ => rfl
  | word h => exact if_pos h

theorem foldGreater_yard {x : Operand} {xs left : List Operand}
    {frames : List (Pending × List Operand)} (hl : left ≠ []) (hx : x.Settled g.scope) :
    Parse.foldGreater (stageIn depth g.scope (x :: xs))
        { (⟨x :: xs, (.op .gt, left) :: frames⟩ : Yard).parseIn depth tokens g with
          pending := frames.map Prod.fst ++ g.pending } =
      .ok () ((⟨combine g.scope .gt left (x :: xs), frames⟩ : Yard).parseIn depth tokens g) := by
  unfold Parse.foldGreater
  rw [fileName?_stageIn hx]
  exact foldBinary_yard rfl hl

/-- Folding takes the operands from where the two stages meet. -/
theorem fold_yard {op : Operator} {x : Operand} {xs left : List Operand}
    {frames : List (Pending × List Operand)} (hf : FrameOk (.op op, left))
    (hx : x.Settled g.scope) :
    Parse.fold context ((⟨x :: xs, (.op op, left) :: frames⟩ : Yard).parseIn depth tokens g) =
      .ok () ((⟨combine g.scope op left (x :: xs), frames⟩ : Yard).parseIn depth tokens g) := by
  rcases hf with h | ⟨h, hl⟩
  · cases op <;> first | exact foldPrefix_yard h | cases h
  · cases op <;> first
      | exact foldBinary_yard h hl
      | exact foldGreater_yard hl hx
      | cases h

/-! ## Folding at a tier -/

variable {scope : Scope}

theorem combine_ne_nil {op : Operator} {left : List Operand} {x : Operand} {xs : List Operand} :
    combine scope op left (x :: xs) ≠ [] := by
  simp only [combine]
  split_ifs
  · simp
  · split <;> simp

theorem settled_combine {op : Operator} {left right : List Operand}
    (hl : ∀ x ∈ left, x.Settled scope) (hr : ∀ x ∈ right, x.Settled scope) :
    ∀ x ∈ combine scope op left right, x.Settled scope := by
  match right with
  | [] => exact hl
  | y :: ys =>
    have hys := fun x h => hr x (List.mem_cons_of_mem y h)
    simp only [combine]
    split_ifs
    · intro x hx
      simp only [List.mem_append, List.mem_cons] at hx
      rcases hx with hx | rfl | hx
      · exact hl x hx
      · exact .applyUnary
      · exact hys x hx
    · split
      · intro x hx
        simp only [List.mem_append, List.mem_cons] at hx
        rcases hx with hx | rfl | hx
        · exact hl x (List.dropLast_subset left hx)
        · exact .applyBinary
        · exact hys x hx
      · exact hr

theorem Ok.tail {top left : List Operand} {p : Pending} {frames : List (Pending × List Operand)}
    (h : Ok scope ⟨top, (p, left) :: frames⟩) {top' : List Operand}
    (ht : ∀ x ∈ top', x.Settled scope) : Ok scope ⟨top', frames⟩ :=
  ⟨ht, fun f hf => h.frames f (List.mem_cons_of_mem _ hf)⟩

theorem Ok.combine {top left : List Operand} {op : Operator}
    {frames : List (Pending × List Operand)} (h : Ok scope ⟨top, (.op op, left) :: frames⟩) :
    Ok scope ⟨combine scope op left top, frames⟩ :=
  h.tail (settled_combine (h.frames _ List.mem_cons_self).2 h.top)

/-- Every frame can be folded, and what follows an operator begins with an operand that names no
file. -/
def Foldable (scope : Scope) : List Operand → List (Pending × List Operand) → Prop
  | _, [] => True
  | top, f :: frames =>
    FrameOk f ∧ (∀ x ∈ top.head?, x.Settled scope) ∧ Foldable scope f.2 frames

theorem Ok.foldable {y : Yard} (h : y.Ok scope) : Foldable scope y.top y.frames := by
  obtain ⟨top, frames⟩ := y
  induction frames generalizing top with
  | nil => trivial
  | cons f frames ih =>
    obtain ⟨hf, hleft⟩ := h.frames f List.mem_cons_self
    exact ⟨hf, fun x hx => h.top x (List.mem_of_mem_head? hx), ih f.2 (h.tail hleft)⟩

/-- What begins with an operand that names no file still does after folding. -/
theorem settled_head_combine {op : Operator} {left right : List Operand}
    (hl : ∀ x ∈ left.head?, x.Settled scope) (hr : ∀ x ∈ right.head?, x.Settled scope) :
    ∀ x ∈ (combine scope op left right).head?, x.Settled scope := by
  match left, right with
  | left, [] => exact hl
  | [], y :: ys =>
    simp only [combine]
    split_ifs
    · rintro _ ⟨⟩
      exact .applyUnary
    · exact hr
  | [z], y :: ys =>
    simp only [combine]
    split_ifs
    · exact hl
    · rintro _ ⟨⟩
      exact .applyBinary
  | z :: z' :: zs, y :: ys =>
    simp only [combine]
    split_ifs
    · exact hl
    · obtain ⟨l, hlast⟩ : ∃ l, (z :: z' :: zs).getLast? = some l :=
        ⟨_, List.getLast?_eq_some_getLast (List.cons_ne_nil _ _)⟩
      rw [hlast]
      exact hl

theorem foldable_combine {op : Operator} {top left : List Operand}
    {frames : List (Pending × List Operand)}
    (h : Foldable scope top ((.op op, left) :: frames)) :
    Foldable scope (combine scope op left top) frames := by
  obtain ⟨-, htop, hleft⟩ := h
  match frames, hleft with
  | [], _ => trivial
  | f :: frames, ⟨hf, hhead, hrest⟩ => exact ⟨hf, settled_head_combine hhead htop, hrest⟩

theorem foldable_collapse {tier : Nat} {y : Yard} (h : Foldable scope y.top y.frames) :
    Foldable scope (y.collapse scope tier).top (y.collapse scope tier).frames := by
  obtain ⟨top, frames⟩ := y
  show Foldable scope (collapseFrom scope tier top frames).top
    (collapseFrom scope tier top frames).frames
  fun_induction collapseFrom scope tier top frames with
  | case1 => exact h
  | case2 _ _ _ _ _ ih => exact ih (foldable_combine h)
  | case3 => exact h
  | case4 => exact h

theorem Ok.collapse {tier : Nat} {y : Yard} (h : y.Ok scope) :
    (y.collapse scope tier).Ok scope := by
  obtain ⟨top, frames⟩ := y
  show (collapseFrom scope tier top frames).Ok scope
  fun_induction collapseFrom scope tier top frames with
  | case1 => exact h
  | case2 _ _ _ _ _ ih => exact ih h.combine
  | case3 => exact h
  | case4 => exact h

theorem collapse_top_ne_nil {tier : Nat} {y : Yard} (h : y.top ≠ []) :
    (y.collapse scope tier).top ≠ [] := by
  obtain ⟨top, frames⟩ := y
  show (collapseFrom scope tier top frames).top ≠ []
  fun_induction collapseFrom scope tier top frames with
  | case1 => exact h
  | case2 top op left rest _ ih =>
    obtain ⟨x, xs, rfl⟩ := List.exists_cons_of_ne_nil h
    exact ih combine_ne_nil
  | case3 => exact h
  | case4 => exact h

/-- Whether no operator on top binds at a tier or more tightly. -/
def Stuck (tier : Nat) : List (Pending × List Operand) → Prop
  | (.op op, _) :: _ => op.tier < tier
  | _ => True

theorem collapse_of_stuck {tier : Nat} {y : Yard} (h : Stuck tier y.frames) :
    y.collapse scope tier = y := by
  obtain ⟨top, frames⟩ := y
  show collapseFrom scope tier top frames = _
  fun_cases collapseFrom scope tier top frames with
  | case1 => rfl
  | case2 top op left rest hle => exact absurd hle (Nat.not_le.mpr h)
  | case3 => rfl
  | case4 => rfl

/-- Folding at a tier and then at a lower one is folding at the lower one. -/
theorem collapse_collapse {tier tier' : Nat} (h : tier ≤ tier') (y : Yard) :
    (y.collapse scope tier').collapse scope tier = y.collapse scope tier := by
  obtain ⟨top, frames⟩ := y
  show (collapseFrom scope tier' top frames).collapse scope tier =
    collapseFrom scope tier top frames
  fun_induction collapseFrom scope tier' top frames with
  | case1 => rfl
  | case2 top op left rest hle ih =>
    rw [ih, collapseFrom, if_pos (Nat.le_trans h hle)]
  | case3 => rfl
  | case4 => rfl

theorem combine_append {op : Operator} {left : List Operand} {x y : Operand} {xs : List Operand} :
    combine scope op left (x :: xs ++ [y]) = combine scope op left (x :: xs) ++ [y] := by
  simp only [combine, List.cons_append]
  split_ifs
  · simp
  · split <;> simp

/-- An operand after others is not touched by folding. -/
theorem collapse_append {tier : Nat} {y : Yard} (h : y.top ≠ []) (x : Operand) :
    (y.append x).collapse scope tier = (y.collapse scope tier).append x := by
  obtain ⟨top, frames⟩ := y
  show collapseFrom scope tier (top ++ [x]) frames = (collapseFrom scope tier top frames).append x
  fun_induction collapseFrom scope tier top frames with
  | case1 => rfl
  | case2 top op left rest hle ih =>
    obtain ⟨z, zs, rfl⟩ := List.exists_cons_of_ne_nil h
    rw [collapseFrom, if_pos hle, combine_append, ih combine_ne_nil]
  | case3 top op left rest hle => rw [collapseFrom, if_neg hle]; rfl
  | case4 top frame rest hne =>
    rw [collapseFrom]
    · rfl
    · exact hne

/-- No operator that waits binds less tightly than `&&`, so it is folded at any tier up to that. -/
theorem collapse_low {tier : Nat} (ht : tier ≤ Operator.and.tier) {y : Yard} (h : y.Ok scope) :
    y.collapse scope tier = y.collapse scope 0 := by
  have hlow {op : Operator} {left : List Operand} (hf : FrameOk (.op op, left)) :
      Operator.and.tier ≤ op.tier := by
    rcases hf with hf | ⟨hf, -⟩ <;> cases op <;> first | decide | cases hf
  obtain ⟨top, frames⟩ := y
  show collapseFrom scope tier top frames = collapseFrom scope 0 top frames
  fun_induction collapseFrom scope tier top frames with
  | case1 => rfl
  | case2 top op left rest hle ih =>
    have hzero : collapseFrom scope 0 top ((.op op, left) :: rest) =
        collapseFrom scope 0 (Yard.combine scope op left top) rest := by
      rw [collapseFrom, if_pos (Nat.zero_le _)]
    rw [ih h.combine, hzero]
  | case3 top op left rest hle =>
    exact absurd (Nat.le_trans ht (hlow (h.frames _ List.mem_cons_self).1)) hle
  | case4 top frame rest hne =>
    rw [collapseFrom]
    exact hne

/-- A test that holds of the operators that bind at a tier or more tightly. -/
structure Keeps (keep : Pending → Bool) (tier : Nat) : Prop where
  op : ∀ op, keep (.op op) = decide (tier ≤ op.tier)
  paren : keep .paren = false

theorem foldWhile_yard {keep : Pending → Bool} {tier : Nat} (hk : Keeps keep tier) :
    ∀ {frames : List (Pending × List Operand)} {top : List Operand},
      Foldable g.scope top frames → (top = [] → frames = []) →
      Parse.foldWhile context keep frames.length
          ((⟨top, frames⟩ : Yard).parseIn depth tokens g) =
        .ok () ((collapseFrom g.scope tier top frames).parseIn depth tokens g)
  | [], _, _, _ => rfl
  | (p, left) :: frames, top, hok, ht => by
    match p, hok.1 with
    | .op op, hf =>
      rw [collapseFrom]
      by_cases hle : tier ≤ op.tier
      · obtain ⟨x, xs, rfl⟩ := List.exists_cons_of_ne_nil fun he => List.cons_ne_nil _ _ (ht he)
        have hkeep : keep (.op op) = true := (hk.op op).trans (decide_eq_true hle)
        rw [if_pos hle, List.length_cons, Parse.foldWhile_step rfl hkeep]
        rw [bind_ok (fold_yard hf (hok.2.1 x rfl))]
        exact foldWhile_yard hk (foldable_combine hok) fun he => absurd he combine_ne_nil
      · have hkeep : keep (.op op) = false := (hk.op op).trans (decide_eq_false hle)
        rw [if_neg hle]
        exact Parse.foldWhile_of_head (by rintro _ ⟨⟩; exact hkeep) _
    | .paren, _ => exact Parse.foldWhile_of_head (by rintro _ ⟨⟩; exact hk.paren) _

/-- What is folded on top of others is folded before them. -/
theorem foldAll_parseIn {keep : Pending → Bool} {tier : Nat} (hk : Keeps keep tier) {y : Yard}
    (hok : Foldable g.scope y.top y.frames) (ht : y.top = [] → y.frames = []) :
    Parse.foldAll context keep (y.parseIn depth tokens g) =
      Parse.foldWhile context keep g.pending.length
        ((y.collapse g.scope tier).parseIn depth tokens g) := by
  refine (bind_ok rfl).trans ?_
  show Parse.foldWhile context keep (y.frames.map Prod.fst ++ g.pending).length _ = _
  rw [List.length_append, List.length_map, Parse.foldWhile_add]
  exact bind_ok (foldWhile_yard hk hok ht)

theorem foldAll_parse {keep : Pending → Bool} {tier : Nat} (hk : Keeps keep tier) {y : Yard}
    (hok : y.Ok g.scope) (ht : y.top ≠ []) :
    Parse.foldAll context keep (y.parse tokens g) =
      Parse.foldWhile context keep g.pending.length ((y.collapse g.scope tier).parse tokens g) :=
  foldAll_parseIn hk hok.foldable fun he => absurd he ht

/-- The parser's folding is folding at a tier, if it stops within the yard or on top of the
ground. -/
theorem foldAll_yard (context : Context) (tokens : List String) {keep : Pending → Bool}
    {tier : Nat} (hk : Keeps keep tier) {y : Yard} (hok : y.Ok g.scope) (ht : y.top ≠ [])
    (hg : ∀ p ∈ ((y.collapse g.scope tier).frames.map Prod.fst ++ g.pending).head?,
      keep p = false) :
    Parse.foldAll context keep (y.parse tokens g) =
      .ok () ((y.collapse g.scope tier).parse tokens g) :=
  (foldAll_parse hk hok ht).trans (Parse.foldWhile_of_head hg _)

theorem keeps_binds (tier : Nat) : Keeps (Pending.binds fun t => decide (tier ≤ t)) tier :=
  ⟨fun _ => rfl, rfl⟩

theorem keeps_not_bracket : Keeps (fun p => !p.isBracket) 0 :=
  ⟨fun _ => by simp [Pending.isBracket, Pending.tier?], rfl⟩

/-! ## Tokens -/

/-- What is left on top binds less tightly. -/
theorem stuck_collapse (tier : Nat) (y : Yard) : Stuck tier (y.collapse scope tier).frames := by
  obtain ⟨top, frames⟩ := y
  show Stuck tier (collapseFrom scope tier top frames).frames
  fun_induction collapseFrom scope tier top frames with
  | case1 => trivial
  | case2 _ _ _ _ _ ih => exact ih
  | case3 top op left rest hle => exact Nat.lt_of_not_le hle
  | case4 top frame rest hne =>
    obtain ⟨p, left⟩ := frame
    cases p with
    | op op => exact absurd rfl (hne op left)
    | _ => trivial

/-- Folding at the tier of an operator on values stops at the latest on top of the ground. -/
theorem foldAll_tierIn (hg : g.Low) {tier : Nat} (hlow : Operator.and.tier ≤ tier) {y : Yard}
    (hok : Foldable g.scope y.top y.frames) (ht : y.top ≠ []) :
    Parse.foldAll context (Pending.binds fun t => decide (tier ≤ t)) (y.parseIn depth tokens g) =
      .ok () ((y.collapse g.scope tier).parseIn depth tokens g) := by
  have hk : Keeps (Pending.binds fun t => decide (tier ≤ t)) tier := keeps_binds tier
  have hstop := hg.stops fun t ht => decide_eq_false (by omega : ¬ tier ≤ t)
  have hstuck : Stuck tier (y.collapse g.scope tier).frames := stuck_collapse tier y
  have hframes : Foldable g.scope (y.collapse g.scope tier).top (y.collapse g.scope tier).frames :=
    foldable_collapse hok
  refine (foldAll_parseIn hk hok fun he => absurd he ht).trans
    (Parse.foldWhile_of_head (fun p hp => ?_) _)
  change p ∈ ((y.collapse g.scope tier).frames.map Prod.fst ++ g.pending).head? at hp
  match hf : (y.collapse g.scope tier).frames with
  | [] =>
    rw [hf] at hp
    exact hstop p hp
  | (q, left) :: rest =>
    rw [hf] at hp hstuck hframes
    obtain rfl : q = p := Option.some.inj hp
    have hq := hframes.1
    cases q with
    | op op =>
      rw [hk.op]
      exact decide_eq_false (Nat.not_le.mpr hstuck)
    | paren => exact hk.paren
    | bind _ | ternary | ternaryElse | brace _ => exact absurd hq id

theorem foldAll_tier (hg : g.Low) {tier : Nat} (hlow : Operator.and.tier ≤ tier) {y : Yard}
    (hok : y.Ok g.scope) (ht : y.top ≠ []) :
    Parse.foldAll context (Pending.binds fun t => decide (tier ≤ t)) (y.parse tokens g) =
      .ok () ((y.collapse g.scope tier).parse tokens g) :=
  foldAll_tierIn hg hlow hok.foldable ht

/-- An operator between operands folds what binds at least as tightly. -/
theorem infixOp_yard (hg : g.Low) {op : Operator} (h : op.isBetween = true) {y : Yard}
    (hok : Foldable g.scope y.top y.frames) (ht : y.top ≠ []) :
    Parse.infixOp context (.op op) (y.parseIn depth tokens g) =
      .ok () (((y.collapse g.scope op.tier).push (.op op)).parseIn depth tokens g) := by
  have hr : op.isRightAssociative = false := by cases op <;> first | rfl | cases h
  have hlow : Operator.and.tier ≤ op.tier := by cases op <;> first | decide | cases h
  have k : Parse.foldAll context (Pending.binds fun t =>
      if op.isRightAssociative then decide (op.tier < t) else decide (op.tier ≤ t))
      (y.parseIn depth tokens g) =
        .ok () ((y.collapse g.scope op.tier).parseIn depth tokens g) := by
    rw [hr]
    exact foldAll_tierIn hg hlow hok ht
  exact (bind_ok k).trans rfl

/-- An operator between operands, where it stands after one. -/
theorem token_between (hg : g.Low) {op : Operator} (h : op.isBetween = true) {y : Yard}
    (hok : y.Ok g.scope) (ht : y.top ≠ []) (hr : op = .range → Parse.endsRange tokens = false) :
    Parse.token context op.symbol (y.parse tokens g) =
      .ok () (((y.collapse g.scope op.tier).push (.op op)).parse tokens g) := by
  have k : Parse.infixOp context (.op op) (y.parse tokens g) =
      .ok () (((y.collapse g.scope op.tier).push (.op op)).parse tokens g) :=
    infixOp_yard hg h hok.foldable ht
  rw [← k]
  obtain ⟨_ | ⟨x, xs⟩, frames⟩ := y
  · exact absurd rfl ht
  by_cases hop : op = .range
  · subst hop
    show (if Parse.endsRange tokens = true then Parse.postfixOp context .rangeFrom
      else Parse.infixOp context (.op .range)) _ = _
    rw [hr rfl]
    rfl
  · cases op <;> first | rfl | exact absurd rfl hop | cases h

/-- An operator before its operand. A sign is one only where no operand stands before it. -/
theorem token_before {op : Operator} (h : op.place = .before) {y : Yard}
    (hs : op ≠ .not → y.top = []) :
    Parse.token context op.symbol (y.parse tokens g) =
      .ok () ((y.push (.op op)).parse tokens g) := by
  obtain ⟨top, frames⟩ := y
  cases op with
  | not => rfl
  | neg | pos =>
    obtain rfl : top = [] := hs (by decide)
    rfl
  | _ => cases h

theorem token_open (y : Yard) :
    Parse.token context "(" (y.parse tokens g) = .ok () ((y.push .paren).parse tokens g) := rfl

/-- A closing parenthesis folds down to the opening one. -/
theorem token_close {y : Yard} (hok : y.Ok g.scope) (ht : y.top ≠ []) {top left : List Operand}
    {frames : List (Pending × List Operand)}
    (e : y.collapse g.scope 0 = ⟨top, (.paren, left) :: frames⟩) :
    Parse.token context ")" (y.parse tokens g) =
      .ok ()
        ((⟨left ++ [(stage g.scope top).toOperand context], frames⟩ : Yard).parse tokens g) := by
  have k := foldAll_yard context tokens keeps_not_bracket hok ht (by
    rw [e]
    rintro p hp
    obtain rfl : .paren = p := Option.some.inj hp
    rfl)
  rw [e] at k
  exact (bind_ok k).trans rfl

/-- A token that stands for something else than an operand. -/
def marks : List String :=
  ["(", ")", "\x7b", "\x7d", "[", "]", "!", "&", "?"] ++
    (Operator.all.filter fun op => op.place = .between).map Operator.symbol

theorem read_mark : ∀ token ∈ marks, Leaf.read token = .ok (.word token) := by
  simp only [marks, Operator.all, List.filter, Operator.place, decide_true, decide_false,
    reduceCtorEq, List.map_cons, List.map_nil, List.cons_append, List.nil_append,
    List.forall_mem_cons]
  repeat refine ⟨rfl, ?_⟩
  exact List.forall_mem_nil _

theorem literal_not_mark {token : String} {v : Value} (h : Leaf.read token = .ok (.value v)) :
    token ∉ marks := by
  intro hm
  have := h.symm.trans (read_mark token hm)
  cases this

theorem ofInfix?_eq_none {token : String} (h : token ∉ marks) : Operator.ofInfix? token = none := by
  cases e : Operator.ofInfix? token with
  | none => rfl
  | some op =>
    obtain ⟨hplace, rfl⟩ := Operator.symbol_of_ofInfix? e
    refine absurd (List.mem_append_right _ (List.mem_map_of_mem ?_)) h
    exact List.mem_filter.mpr ⟨op.mem_all, decide_eq_true hplace⟩

/-- A token that is no operator and no bracket is an operand outside records. -/
theorem token_eq_leaf {token : String} {p : Parse} {s : Stage} {rest : List Stage}
    (hm : token ∉ marks) (hs : p.stages = s :: rest) (hd : s.recordDepth = 0) :
    Parse.token context token p = Parse.leaf token p := by
  have ne (m : String) (k : m ∈ marks := by decide) : (token == m) = false := by
    simp only [beq_eq_false_iff_ne]
    rintro rfl
    exact hm k
  obtain ⟨tokens, stages, pending, taken, slots, env⟩ := p
  subst hs
  have e : Parse.plainToken context token ⟨tokens, s :: rest, pending, taken, slots, env⟩ =
      Parse.leaf token ⟨tokens, s :: rest, pending, taken, slots, env⟩ := by
    simp only [Parse.plainToken, ne "->", ne "?", ne ":", ne "..", ne "&", ne "!", ne "-", ne "+",
      Bool.false_and, Bool.false_eq_true, if_false, ofInfix?_eq_none hm]
    rfl
  simp only [Parse.token, ne "(", ne ")", ne "\x7b", ne "\x7d", Bool.false_eq_true, if_false]
  refine (bind_ok rfl).trans ?_
  rw [if_neg (Nat.not_lt_of_le (Nat.le_of_eq hd))]
  exact e

theorem token_leaf {token : String} {x : Operand} (h : Leaf.read token = .ok x)
    (hm : token ∉ marks) (y : Yard) :
    Parse.token context token (y.parse tokens g) = .ok () ((y.append x).parse tokens g) :=
  (token_eq_leaf hm rfl rfl).trans (bind_ok (lift_ok h _))

end Yard

end Rill
