import Rill.Proofs.Line.Expression
import Rill.Proofs.Line.Record

/-!
# Expressions inside a record

Inside a record an operator opens a stage as it does outside, and what comes after its operands goes
into that stage too: the comma, the next key and its colon. The stacks are a yard inside the record
(`Yard.parseIn`), and folding puts the operands back in order: reading an expression leads to one
operand more (`Inner.reads`), and so do a key, a colon and a comma (`Yard.Folds.word`), however the
operators of all fields fold or wait for each other.
-/

namespace Rill

open Parse (bind_ok all_ok)
open Record (isPunctuation)

/-- The tokens write an expression inside a record, where only operators of a tier or above may
stand without parentheses. All of these stand between values; what is inside parentheses is an
expression as anywhere else. -/
inductive Inner : Nat → Tree → List String → Prop
  | leaf {tier : Nat} (l : Literal) : Inner tier (.leaf l) [l.token]
  | between {tier : Nat} {op : Operator} {h : op.isBetween = true} {x y : Tree}
    {ts us : List String} (hop : op.isValueOp = true) (ht : tier ≤ op.tier)
    (hx : Inner op.tier x ts) (hy : Inner (op.tier + 1) y us) :
    Inner tier (.between op h x y) (ts ++ op.symbol :: us)
  | group {tier : Nat} {x : Tree} {ts : List String} (hx : Written 0 x ts) :
    Inner tier x ("(" :: (ts ++ [")"]))

/-- What is written inside a record is written alike outside. -/
theorem Inner.written {tier : Nat} {e : Tree} {ts : List String} (h : Inner tier e ts) :
    Written tier e ts := by
  induction h with
  | leaf l => exact .leaf l
  | between hop ht _ _ ihx ihy =>
    refine .between ht ihx ihy ?_
    rintro rfl
    cases hop
  | group hx => exact .group hx

/-- What depends on nothing is no punctuation. -/
theorem Means.not_punctuation {context : Context} {x : Operand} {m : Meaning}
    (h : Means context x m) : isPunctuation x = false := by
  cases h <;> rfl

namespace Yard

variable {context : Context} {depth : Nat} {g : Ground} {scope : Scope} {tokens : List String}

/-! ## Tokens inside a record -/

/-- What is below the stage on top. -/
def below (depth : Nat) (frames : List (Pending × List Operand)) (g : Ground) : Parse :=
  ⟨[], (frames.map fun f => stageIn depth g.scope f.2) ++ g.stages,
    frames.map Prod.fst ++ g.pending, g.taken, g.slots, g.env⟩

theorem parseIn_eq_on (y : Yard) :
    y.parseIn depth tokens g =
      (below depth y.frames g).on (stageIn depth g.scope []) tokens y.top := rfl

/-- A token that is no operator and no bracket is one operand more. -/
theorem token_leafIn (hin : (stageIn depth g.scope []).InRecord) {token : String} {x : Operand}
    (h : Leaf.read token = .ok x) (hm : token ∉ marks) (y : Yard) :
    Parse.token context token (y.parseIn depth tokens g) =
      .ok () ((y.append x).parseIn depth tokens g) := by
  rw [parseIn_eq_on, token_operand hin h hm]
  rfl

/-- A colon and a comma are one operand more. -/
theorem token_markIn (hin : (stageIn depth g.scope []).InRecord) {token : String}
    (h : token = ":" ∨ token = ",") (y : Yard) :
    Parse.token context token (y.parseIn depth tokens g) =
      .ok () ((y.append (.word token)).parseIn depth tokens g) := by
  rw [parseIn_eq_on, token_mark hin (h.imp_right .inl)]
  rfl

/-- A yard in which an operator may come next: all that waits can be folded, and the last operand is
no punctuation. -/
structure Valued (scope : Scope) (y : Yard) : Prop where
  foldable : Foldable scope y.top y.frames
  last : ∃ x, y.top.getLast? = some x ∧ isPunctuation x = false

theorem Valued.ne_nil {y : Yard} (h : y.Valued scope) : y.top ≠ [] := by
  obtain ⟨x, hx, -⟩ := h.last
  rintro he
  rw [he] at hx
  cases hx

theorem foldable_append {y : Yard} (h : Foldable scope y.top y.frames) {x : Operand}
    (hx : y.top = [] → y.frames ≠ [] → x.Settled scope) :
    Foldable scope (y.append x).top (y.append x).frames := by
  obtain ⟨top, frames⟩ := y
  cases frames with
  | nil => trivial
  | cons f frames =>
    obtain ⟨hf, hhead, hrest⟩ := h
    refine ⟨hf, ?_, hrest⟩
    cases top with
    | nil =>
      rintro _ ⟨⟩
      exact hx rfl (List.cons_ne_nil _ _)
    | cons z top => exact hhead

theorem Valued.of_append {y : Yard} (h : Foldable scope y.top y.frames) {x : Operand}
    {m : Meaning} (hx : Means context x m) : (y.append x).Valued scope :=
  ⟨foldable_append h fun _ _ => hx.settled, x, List.getLast?_concat, hx.not_punctuation⟩

/-- An operator folds what binds at least as tightly, in this field and in those before it. -/
theorem token_betweenIn (hg : g.Low) (hin : (stageIn depth g.scope []).InRecord) {op : Operator}
    (hop : op.isValueOp = true) (h : op.isBetween = true) {y : Yard} (hy : y.Valued g.scope) :
    Parse.token context op.symbol (y.parseIn depth tokens g) =
      .ok () (((y.collapse g.scope op.tier).push (.op op)).parseIn depth tokens g) := by
  have hbracket : op.symbol ≠ "(" ∧ op.symbol ≠ ")" ∧ op.symbol ≠ "\x7b" ∧ op.symbol ≠ "\x7d" := by
    cases op <;> decide
  have hplace : op.place = .between := by cases op <;> first | rfl | cases h
  obtain ⟨x, hlast, hx⟩ := hy.last
  have k : Parse.infixOp context (.op op) (y.parseIn depth tokens g) = _ :=
    infixOp_yard hg h hy.foldable hy.ne_nil
  rw [← k, parseIn_eq_on, token_inRecord hin hbracket]
  have htop : Parse.top ((below depth y.frames g).on (stageIn depth g.scope []) tokens y.top) =
      .ok (stageIn depth g.scope y.top) _ := rfl
  refine (bind_ok htop).trans ?_
  replace hlast : (stageIn depth g.scope y.top).operands.getLast? = some x := hlast
  simp only [Operator.ofInfix?_symbol hplace, hop, Bool.true_and, hlast, hx, Bool.not_false,
    if_true]

/-- The ground of a group inside a record. -/
def groundOf (depth : Nat) (y : Yard) (g : Ground) : Ground :=
  { g with
    stages := stageIn depth g.scope y.top ::
      ((y.frames.map fun f => stageIn depth g.scope f.2) ++ g.stages)
    pending := .paren :: (y.frames.map Prod.fst ++ g.pending) }

theorem low_groundOf (y : Yard) : (groundOf depth y g).Low := by
  rintro p hp t ht
  obtain rfl : .paren = p := Option.some.inj hp
  cases ht

theorem token_openIn (y : Yard) :
    Parse.token context "(" (y.parseIn depth tokens g) =
      .ok () ((⟨[], []⟩ : Yard).parse tokens (groundOf depth y g)) := rfl

/-- A closing parenthesis folds the group, which becomes one operand more. -/
theorem token_closeIn {y z : Yard} (hok : z.Ok g.scope) (ht : z.top ≠ []) {xs : List Operand}
    (e : z.collapse g.scope 0 = ⟨xs, []⟩) :
    Parse.token context ")" (z.parse tokens (groundOf depth y g)) =
      .ok () ((y.append ((stage g.scope xs).toOperand context)).parseIn depth tokens g) := by
  have k : Parse.foldAll context (fun p => !p.isBracket) (z.parse tokens (groundOf depth y g)) =
      .ok () ((z.collapse g.scope 0).parse tokens (groundOf depth y g)) := by
    refine foldAll_yard context tokens keeps_not_bracket hok ht fun p hp => ?_
    rw [show z.collapse (groundOf depth y g).scope 0 = ⟨xs, []⟩ from e] at hp
    obtain rfl : .paren = p := Option.some.inj hp
    rfl
  rw [e] at k
  exact (bind_ok k).trans rfl

/-! ## Reading expressions -/

/-- Reading tokens inside a record leads from a yard to another that folds, at a tier, to the first
with one operand more, which stands for something and after which an operator may come. -/
def ReadsIn (context : Context) (g : Ground) (depth tier : Nat) (ts rest : List String)
    (m : Meaning) (y : Yard) : Prop :=
  ∃ (y' : Yard) (x : Operand),
    (∀ tokens, Parse.all context (ts ++ rest) (y.parseIn depth tokens g) =
      Parse.all context rest (y'.parseIn depth rest g)) ∧
    y'.Valued g.scope ∧ Means context x m ∧
    y'.collapse g.scope tier = (y.append x).collapse g.scope tier

variable {tier : Nat} {ts us rest : List String} {m n : Meaning} {y : Yard}

theorem ReadsIn.mono {tier' : Nat} (h : tier ≤ tier') :
    ReadsIn context g depth tier' ts rest m y → ReadsIn context g depth tier ts rest m y := by
  rintro ⟨y', x, run, hy', hx, e⟩
  refine ⟨y', x, run, hy', hx, ?_⟩
  rw [← collapse_collapse h, e, collapse_collapse h]

/-- An operator between two expressions, of which the second is read in a stage of its own. -/
theorem ReadsIn.between (hg : g.Low) (hin : (stageIn depth g.scope []).InRecord) {op : Operator}
    (hop : op.isValueOp = true) (h : op.isBetween = true) (hs : Starts op.tier y [])
    (hx : ReadsIn context g depth op.tier ts (op.symbol :: (us ++ rest)) m y)
    (hz : ∀ y : Yard, Foldable g.scope y.top y.frames → Starts (op.tier + 1) y [] →
      ReadsIn context g depth (op.tier + 1) us rest n y) :
    ReadsIn context g depth op.tier (ts ++ op.symbol :: us) rest (m.binary op n) y := by
  obtain ⟨y₁, x, run₁, hy₁, hx, e₁⟩ := hx
  have hpush : Foldable g.scope ((y₁.collapse g.scope op.tier).push (.op op)).top
      ((y₁.collapse g.scope op.tier).push (.op op)).frames :=
    ⟨.inr ⟨h, collapse_top_ne_nil hy₁.ne_nil⟩, nofun, foldable_collapse hy₁.foldable⟩
  obtain ⟨y₂, z, run₂, hy₂, hz, e₂⟩ := hz _ hpush (.inl ⟨rfl, Nat.lt_succ_self _⟩)
  refine ⟨y₂, _, fun tokens => ?_, hy₂, hx.applyBinary hz op, hs.collapse_between h e₁ e₂⟩
  rw [List.append_assoc, List.cons_append, run₁, all_ok (token_betweenIn hg hin hop h hy₁)]
  exact run₂ _

/-- A group is read on a ground of its own. -/
theorem ReadsIn.group (hscope : g.scope = .empty) {e : Tree} (h : Written 0 e ts)
    (hy : Foldable g.scope y.top y.frames) (rest : List String) :
    ReadsIn context g depth tier ("(" :: (ts ++ [")"])) rest e.meaning y := by
  have hread := h.reads context (low_groundOf y : (groundOf depth y g).Low) hscope ⟨[], []⟩
    ⟨nofun, nofun⟩ (.inl ⟨rfl, trivial⟩) (")" :: rest)
  obtain ⟨z, x, run, hz, ht, hx, e⟩ := hread
  have hgroup : Means context ((stage g.scope [x]).toOperand context) _ := hscope ▸ hx.toOperand
  have hclose : Parse.token context ")" (z.parse rest (groundOf depth y g)) =
      .ok () ((y.append ((stage g.scope [x]).toOperand context)).parseIn depth rest g) :=
    @token_closeIn context depth g rest y z hz ht [x] e
  refine ⟨_, _, fun tokens => ?_, .of_append hy hgroup, hgroup, rfl⟩
  rw [List.cons_append, List.append_assoc, List.singleton_append, all_ok (token_openIn y)]
  exact (run _).trans (all_ok hclose)

end Yard

open Yard (Foldable Starts ReadsIn)

/-- Reading an expression inside a record leads to one operand more, which stands for it. -/
theorem Inner.reads (context : Context) {depth : Nat} {g : Ground} (hg : g.Low)
    (hscope : g.scope = .empty) (hin : (Yard.stageIn depth g.scope []).InRecord) {tier : Nat}
    {e : Tree} {ts : List String} (h : Inner tier e ts) :
    ∀ y : Yard, Foldable g.scope y.top y.frames → Starts tier y [] → ∀ rest,
      ReadsIn context g depth tier ts rest e.meaning y := by
  induction h with
  | leaf l =>
    intro y hy _ rest
    have hm : l.token ∉ Yard.marks := Yard.literal_not_mark l.read_eq
    have hmeans : Means context (.value l.value) (.known l.value) := .known l.value
    exact ⟨y.append (.value l.value), _, fun _ => all_ok (Yard.token_leafIn hin l.read_eq hm y),
      .of_append hy hmeans, hmeans, rfl⟩
  | @between tier op h x z ts us hop ht _ _ ihx ihz =>
    intro y hy hs rest
    have hs' : Starts op.tier y [] := hs.of_head ht rfl
    have hread : ReadsIn context g depth op.tier (ts ++ op.symbol :: us) rest _ y :=
      .between hg hin hop h hs' (ihx y hy hs' _) fun y hy hs => ihz y hy hs rest
    exact hread.mono ht
  | group hx =>
    intro y hy _ rest
    exact .group hscope hx hy rest

/-! ## Fields one after the other -/

namespace Yard

variable {context : Context} {depth : Nat} {g : Ground} {scope : Scope} {xs : List Operand}
  {y : Yard}

/-- A yard inside a record that folds to these operands. -/
structure Folds (scope : Scope) (xs : List Operand) (y : Yard) : Prop where
  foldable : Foldable scope y.top y.frames
  begun : y.top = [] → y.frames = []
  eq : y.collapse scope 0 = ⟨xs, []⟩

/-- A word more is one operand more, whatever it follows. -/
theorem Folds.word (h : Folds scope xs y) (x : Operand) : Folds scope (xs ++ [x]) (y.append x) := by
  have hfoldable : Foldable scope (y.append x).top (y.append x).frames :=
    foldable_append h.foldable fun ht hne => absurd (h.begun ht) hne
  have hne : (y.append x).top ≠ [] := by simp [append]
  refine ⟨hfoldable, fun ht => absurd ht hne, ?_⟩
  by_cases ht : y.top = []
  · -- the first operand of all
    obtain ⟨top, frames⟩ := y
    obtain rfl : top = [] := ht
    obtain rfl : frames = [] := h.begun rfl
    obtain ⟨rfl⟩ : xs = [] := congrArg Yard.top h.eq.symm
    rfl
  · rw [collapse_append ht, h.eq]
    rfl

/-- An expression more is one operand more. -/
theorem Folds.expression (hg : g.Low) (hscope : g.scope = .empty)
    (hin : (stageIn depth g.scope []).InRecord) (h : Folds g.scope xs y) (ht : y.top ≠ [])
    {e : Tree} {ts : List String} (hw : Inner 0 e ts) (rest : List String) :
    ∃ (y' : Yard) (x : Operand),
      (∀ tokens, Parse.all context (ts ++ rest) (y.parseIn depth tokens g) =
        Parse.all context rest (y'.parseIn depth rest g)) ∧
      Folds g.scope (xs ++ [x]) y' ∧ y'.top ≠ [] ∧ Means context x e.meaning := by
  obtain ⟨y', x, run, hy', hx, e⟩ :=
    hw.reads context hg hscope hin y h.foldable (.inr ⟨ht, nofun, nofun⟩) rest
  rw [collapse_append ht, h.eq] at e
  exact ⟨y', x, run, ⟨hy'.foldable, fun h => absurd h hy'.ne_nil, e⟩, hy'.ne_nil, hx⟩

end Yard

end Rill
