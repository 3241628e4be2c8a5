import Rill.Proofs.Line.Tokens

/-!
# What folding leaves

Folding an entry makes one stage of two, or of three if it is the `:` of a `?`. `Parse.Folding` says
what the new stage has of the old ones, and above all what becomes of their print modes: mostly the
first that is there is handed on, a `:` and a `>` set one of their own, and a choice and an
assignment keep only the one of the stage before them (`Hands`). What is folded depends neither on
the print mode of the stage on top nor on the tokens to come (`Parse.fold_recast`).

`Parse.Folds` is a run of foldings. A run that folds more can be interrupted where one that folds
less stops (`Parse.Folds.split`). A run that folds everything hands the print mode of the stage on
top through to the end, unless a choice waits (`Parse.Folds.carries`).

A line that is read ends with such a run, which leaves one stage (`Parse.Ends`): the factory of the
line is that of the stage, and so is its print mode.
-/

namespace Rill

/-! ## Stages with other operands -/

namespace Stage

variable {s s' : Stage} {x : Operand}

theorem eq_of_push (h : s.push x = .ok s') : ∃ xs, s' = { s with operands := xs } := by
  unfold push at h
  split at h <;> cases h
  exact ⟨_, rfl⟩

theorem eq_of_pushAll {xs : List Operand} (h : s.pushAll xs = .ok s') :
    ∃ ys, s' = { s with operands := ys } := by
  induction xs generalizing s with
  | nil =>
    cases h
    exact ⟨_, rfl⟩
  | cons x xs ih =>
    rw [pushAll_cons] at h
    cases hx : s.push x with
    | error e =>
      rw [hx] at h
      cases h
    | ok s₁ =>
      rw [hx] at h
      obtain ⟨ys, rfl⟩ := ih (s := s₁) h
      obtain ⟨_, rfl⟩ := eq_of_push hx
      exact ⟨ys, rfl⟩

theorem eq_of_pop (h : s.pop = .ok (x, s')) : ∃ xs, s' = { s with operands := xs } := by
  unfold pop at h
  split at h <;> cases h
  exact ⟨_, rfl⟩

/-- Whatever the print mode, the first operand can be taken. -/
theorem takeFirst_mode (h : s.takeFirst = .ok (x, s')) (mode : Option Mode) :
    takeFirst { s with mode := mode } = .ok (x, { s' with mode := mode }) ∧
      ∃ xs, s' = { s with operands := xs } := by
  unfold takeFirst at h ⊢
  split at h
  next hxs =>
    cases h
    exact ⟨by simp only [hxs], _, rfl⟩
  next => cases h

end Stage

/-! ## Print modes -/

/-- How folding an entry makes the print mode of the new stage, of that of the stage before the
entry and that of the stage on top. -/
inductive Hands (x : Pending) (before : Option Mode) : (Option Mode → Option Mode) → Prop
  /-- The first that is there, from the left. -/
  | first (hx : x ≠ .op .window) (hx' : x ≠ .ternaryElse) : Hands x before (before <|> ·)
  /-- The first that is there, from the right. -/
  | last (hx : x = .op .pipe ∨ x = .op .seq) : Hands x before (· <|> before)
  /-- One that the entry sets. -/
  | sets {mode : Mode} (hm : mode ≠ .default) (hx : x ≠ .ternaryElse) :
    Hands x before fun _ => some mode
  /-- The one before the entry. -/
  | drops (hx : x = .ternaryElse ∨ x = .op .assign) : Hands x before fun _ => before

/-- A print mode is not lost: if there is none in the end, there was none, and one that is put in
its place is there in the end. -/
def Passes (g : Option Mode → Option Mode) : Prop :=
  ∀ m, g m = none → m = none ∧ ∀ m', g (some m') = some m'

theorem Passes.comp {f g : Option Mode → Option Mode} (hf : Passes f) (hg : Passes g) :
    Passes (g ∘ f) := by
  intro m h
  obtain ⟨hm, hg⟩ := hg _ h
  obtain ⟨rfl, hf⟩ := hf _ hm
  exact ⟨rfl, fun m' => (congrArg g (hf m')).trans (hg m')⟩

namespace Hands

variable {x : Pending} {before : Option Mode} {g : Option Mode → Option Mode}

theorem passes (h : Hands x before g) (hx : x ≠ .ternaryElse) (hx' : x ≠ .op .assign) :
    Passes g := by
  intro m hm
  cases h with
  | first =>
    obtain ⟨rfl, rfl⟩ := Option.or_eq_none_iff.mp ((Option.orElse_eq_or ..).symm.trans hm)
    exact ⟨rfl, fun _ => rfl⟩
  | last =>
    obtain ⟨rfl, rfl⟩ := Option.or_eq_none_iff.mp ((Option.orElse_eq_or ..).symm.trans hm)
    exact ⟨rfl, fun _ => rfl⟩
  | sets => cases hm
  | drops hd => exact absurd hd (not_or.mpr ⟨hx, hx'⟩)

theorem ne_none (h : Hands (.op .window) before g) (m : Option Mode) : g m ≠ none := by
  cases h with
  | first hx => exact absurd rfl hx
  | last hx => exact absurd hx (by decide)
  | sets => exact nofun
  | drops hx => exact absurd hx (by decide)

theorem const (h : Hands .ternaryElse before g) (m m' : Option Mode) : g m = g m' := by
  cases h with
  | first _ hx => exact absurd rfl hx
  | last hx => exact absurd hx (by decide)
  | sets | drops => rfl

/-- No entry sets the default. -/
theorem ne_default (h : Hands x before g) (hb : before ≠ some .default) {m : Option Mode}
    (hm : m ≠ some .default) : g m ≠ some .default := by
  cases h with
  | first => cases before <;> assumption
  | last => cases m <;> assumption
  | sets h => simpa using h
  | drops => exact hb

end Hands

theorem windowMode_ne_default (operands : List Operand) :
    Parse.windowMode operands ≠ .default := by
  unfold Parse.windowMode
  split
  · split <;> nofun
  · nofun

namespace Parse

variable {context : Context} {p q r : Parse} {x : Pending}

/-- The line with a print mode for the stage on top, and with tokens to come. -/
def recast (p : Parse) (tokens : List String) (mode : Option Mode) : Parse :=
  { p with tokens := tokens, stages := p.stages.modifyHead fun s => { s with mode := mode } }

theorem recast_mode {s : Stage} {rest : List Stage} (hs : p.stages = s :: rest)
    (tokens : List String) : p.recast tokens s.mode = { p with tokens := tokens } := by
  obtain ⟨_, stages, pending, taken, slots, env⟩ := p
  subst hs
  rfl

/-! ## Folding one entry -/

/-- What a stage has of the two that it is made of. -/
structure Blend (right left s : Stage) : Prop where
  depth : s.recordDepth = left.recordDepth ∨ s.recordDepth = right.recordDepth
  vars : s.scope.vars = left.scope.vars ∨ s.scope.vars = right.scope.vars

/-- The two stages on top became one, as they do when the entry is folded, and would have become one
with any print mode of the first. -/
def Joint (m : Parser Unit) (x : Pending) (p q : Parse) : Prop :=
  ∃ right left s rest g, p.stages = right :: left :: rest ∧ q.stages = s :: rest ∧
    q.pending = p.pending ∧ Blend right left s ∧ Hands x left.mode g ∧ s.mode = g right.mode ∧
    ∀ tokens mode, m (p.recast tokens mode) = .ok () (q.recast tokens (g mode))

/-- The stage before the entry stays, with other operands. -/
theorem Blend.left {right left : Stage} (xs : List Operand) (mode : Option Mode) :
    Blend right left { left with operands := xs, mode := mode } := ⟨.inl rfl, .inl rfl⟩

/-- A step that takes the two stages on top makes one of them if what it does then makes one of what
it took, whatever the print mode of the first and the tokens to come. -/
theorem Joint.popTwo {f : Stage → Stage → Parser Unit}
    (h : (do let right ← popStage; let left ← popStage; f right left : Parser Unit) p = .ok () q)
    (k : ∀ right left rest, f right left { p with stages := rest } = .ok () q →
      ∃ s g, q.stages = s :: rest ∧ q.pending = p.pending ∧ Blend right left s ∧
        Hands x left.mode g ∧ s.mode = g right.mode ∧
        ∀ tokens mode, f { right with mode := mode } left
          { p with tokens := tokens, stages := rest } = .ok () (q.recast tokens (g mode))) :
    Joint (do let right ← popStage; let left ← popStage; f right left) x p q := by
  obtain ⟨right, _, hs, h⟩ := popStage_inv h
  obtain ⟨left, rest, hs', h⟩ := popStage_inv h
  obtain ⟨s, g, hq, hpending, hblend, hg, hmode, run⟩ := k right left rest h
  obtain ⟨tokens, stages, pending, taken, slots, env⟩ := p
  subst hs hs'
  exact ⟨right, left, s, rest, g, rfl, hq, hpending, hblend, hg, hmode, fun tokens mode =>
    (bind_ok rfl).trans ((bind_ok rfl).trans (run tokens mode))⟩

theorem joint_foldPrefix {op : Operator} (h : foldPrefix op p = .ok () q) (hx : x ≠ .op .window)
    (hx' : x ≠ .ternaryElse) : Joint (foldPrefix op) x p q := by
  refine .popTwo h fun right left rest h => ?_
  obtain ⟨⟨y, right₁⟩, h₁, h⟩ := lift_inv h
  obtain ⟨left₁, h₂, h⟩ := lift_inv h
  obtain ⟨left₂, h₃, h⟩ := lift_inv h
  cases h
  have htake := Stage.takeFirst_mode h₁
  obtain ⟨-, ys, rfl⟩ := htake none
  obtain ⟨_, rfl⟩ := Stage.eq_of_push h₂
  obtain ⟨zs, rfl⟩ := Stage.eq_of_pushAll h₃
  refine ⟨_, _, rfl, rfl, .left zs _, .first hx hx', rfl, fun tokens m => ?_⟩
  exact (bind_ok (lift_ok (htake m).1 _)).trans
    ((bind_ok (lift_ok h₂ _)).trans ((bind_ok (lift_ok h₃ _)).trans rfl))

theorem joint_foldBinary {op : Operator} (h : foldBinary op p = .ok () q) (hx : x ≠ .op .window)
    (hx' : x ≠ .ternaryElse) : Joint (foldBinary op) x p q := by
  refine .popTwo h fun right left rest h => ?_
  obtain ⟨⟨y, left₁⟩, h₁, h⟩ := lift_inv h
  obtain ⟨⟨z, right₁⟩, h₂, h⟩ := lift_inv h
  obtain ⟨left₂, h₃, h⟩ := lift_inv h
  obtain ⟨left₃, h₄, h⟩ := lift_inv h
  cases h
  have htake := Stage.takeFirst_mode h₂
  obtain ⟨-, ys, rfl⟩ := htake none
  obtain ⟨_, rfl⟩ := Stage.eq_of_pop h₁
  obtain ⟨_, rfl⟩ := Stage.eq_of_push h₃
  obtain ⟨zs, rfl⟩ := Stage.eq_of_pushAll h₄
  refine ⟨_, _, rfl, rfl, .left zs _, .first hx hx', rfl, fun tokens m => ?_⟩
  exact (bind_ok (lift_ok h₁ _)).trans ((bind_ok (lift_ok (htake m).1 _)).trans
    ((bind_ok (lift_ok h₃ _)).trans ((bind_ok (lift_ok h₄ _)).trans rfl)))

/-- What follows a look at the stage on top may use that stage. -/
theorem Joint.top {f : Stage → Parser Unit} {right : Stage} {rest : List Stage}
    (hs : p.stages = right :: rest) (h : Joint (f right) x p q)
    (k : ∀ mode, f { right with mode := mode } = f right) :
    Joint (do f (← Parse.top)) x p q := by
  obtain ⟨right', left, s, rest', g, hs', hq, hpending, hblend, hg, hmode, run⟩ := h
  refine ⟨right', left, s, rest', g, hs', hq, hpending, hblend, hg, hmode, fun tokens m => ?_⟩
  rw [← run tokens m, ← k m]
  obtain ⟨_, stages, pending, taken, slots, env⟩ := p
  subst hs
  exact bind_ok rfl

/-- `>` sends the output to a file if a word follows it that is no parameter, and else compares. -/
theorem joint_foldGreater (h : (do foldGreater (← top) : Parser Unit) p = .ok () q) :
    Joint (do foldGreater (← top)) (.op .gt) p q := by
  obtain ⟨right, upper, hs, h⟩ := top_inv h
  -- the print mode does not matter to the name of the file
  refine .top hs ?_ fun _ => rfl
  unfold foldGreater at h ⊢
  cases hfile : fileName? right with
  | none =>
    rw [hfile] at h
    exact joint_foldBinary h nofun nofun
  | some name =>
    rw [hfile] at h
    refine .popTwo h fun right left rest h => ?_
    obtain ⟨⟨y, right₁⟩, h₁, h⟩ := lift_inv h
    obtain ⟨left₁, h₂, h⟩ := lift_inv h
    cases h
    have htake := Stage.takeFirst_mode h₁
    obtain ⟨-, ys, rfl⟩ := htake none
    obtain ⟨zs, rfl⟩ := Stage.eq_of_pushAll h₂
    refine ⟨_, _, rfl, rfl, .left zs _, .sets (nofun : Mode.write name ≠ .default) nofun, rfl,
      fun tokens m => ?_⟩
    exact (bind_ok (lift_ok (htake m).1 _)).trans ((bind_ok (lift_ok h₂ _)).trans rfl)

theorem joint_foldAssign (h : foldAssign context p = .ok () q) :
    Joint (foldAssign context) (.op .assign) p q := by
  refine .popTwo h fun right left rest h => ?_
  obtain ⟨⟨target, left₁⟩, h₁, h⟩ := lift_inv h
  obtain ⟨xs, rfl⟩ := Stage.eq_of_pop h₁
  cases target with
  | streamRef name =>
    cases h
    refine ⟨_, _, rfl, rfl, .left xs _, .drops (.inr rfl), rfl, fun tokens m => ?_⟩
    exact (bind_ok (lift_ok h₁ _)).trans rfl
  | word name =>
    cases h
    refine ⟨_, _, rfl, rfl, ⟨.inl rfl, .inl rfl⟩, .drops (.inr rfl), rfl, fun tokens m => ?_⟩
    exact (bind_ok (lift_ok h₁ _)).trans rfl
  | value _ | stream _ | deferred _ => cases h

theorem joint_foldPipe (h : foldPipe context p = .ok () q) :
    Joint (foldPipe context) (.op .pipe) p q := by
  refine .popTwo h fun right left rest h => ?_
  cases h
  exact ⟨_, _, rfl, rfl, ⟨.inr rfl, .inr rfl⟩, .last (.inl rfl), rfl, fun _ _ => rfl⟩

theorem joint_foldSeq (h : foldSeq context p = .ok () q) :
    Joint (foldSeq context) (.op .seq) p q := by
  refine .popTwo h fun right left rest h => ?_
  cases h
  exact ⟨_, _, rfl, rfl, ⟨.inr rfl, .inr rfl⟩, .last (.inr rfl), rfl, fun _ _ => rfl⟩

theorem joint_foldWindow (h : foldWindow p = .ok () q) : Joint foldWindow (.op .window) p q := by
  refine .popTwo h fun right left rest h => ?_
  cases h
  exact ⟨_, _, rfl, rfl, ⟨.inl rfl, .inl rfl⟩, .sets (windowMode_ne_default right.operands) nofun,
    rfl, fun _ _ => rfl⟩

theorem joint_foldBind {slot : Handle} (h : foldBind context slot p = .ok () q) :
    Joint (foldBind context slot) (.bind slot) p q := by
  refine .popTwo h fun right left rest h => ?_
  split at h
  · cases h
  · rename_i hclosure
    cases h
    refine ⟨_, _, rfl, rfl, ⟨.inl rfl, .inl rfl⟩, .first nofun nofun, rfl, fun tokens m => ?_⟩
    exact (congrFun (if_neg hclosure) _).trans rfl

/-- What folding the entry on top leaves, if `g` makes the print mode of the new stage of that of
the stage on top. -/
inductive Folding (p q : Parse) (g : Option Mode → Option Mode) : Prop
  /-- An operator made one stage of two. -/
  | two {x : Pending} {below : List Pending} {right left s : Stage} {rest : List Stage}
    (hb : x.isBracket = false) (hx : x ≠ .ternary ∧ x ≠ .ternaryElse)
    (hp : p.pending = x :: below) (hs : p.stages = right :: left :: rest) (hq : q.pending = below)
    (hq' : q.stages = s :: rest) (hblend : Blend right left s) (hg : Hands x left.mode g)
    (hmode : s.mode = g right.mode)
  /-- A `?` and its `:` made one stage of three. -/
  | choice {below : List Pending} {right middle left s : Stage} {rest : List Stage}
    (hp : p.pending = .ternaryElse :: .ternary :: below)
    (hs : p.stages = right :: middle :: left :: rest) (hq : q.pending = below)
    (hq' : q.stages = s :: rest) (hblend : Blend right left s) (hg : Hands .ternaryElse left.mode g)
    (hmode : s.mode = g right.mode)

/-- Folding leaves what it leaves, whatever the print mode of the stage on top and the tokens. -/
def FoldsAs (context : Context) (p q : Parse) (g : Option Mode → Option Mode) : Prop :=
  ∀ tokens mode, fold context (p.recast tokens mode) = .ok () (q.recast tokens (g mode))

theorem Joint.folding {m : Parser Unit} {below : List Pending} (hp : p.pending = x :: below)
    (h : Joint m x { p with pending := below } q) (hb : x.isBracket = false)
    (hx : x ≠ .ternary ∧ x ≠ .ternaryElse)
    (e : ∀ tokens mode, fold context (p.recast tokens mode) =
      m (recast { p with pending := below } tokens mode)) :
    ∃ g, Folding p q g ∧ FoldsAs context p q g := by
  obtain ⟨right, left, s, rest, g, hs, hq, hpending, hblend, hg, hmode, run⟩ := h
  exact ⟨g, .two hb hx hp hs hpending hq hblend hg hmode,
    fun tokens mode => (e tokens mode).trans (run tokens mode)⟩

theorem folding_foldTernary {below : List Pending}
    (h : foldTernary { p with pending := below } = .ok () q)
    (hp : p.pending = .ternaryElse :: below) :
    ∃ g, Folding p q g ∧ FoldsAs context p q g := by
  obtain ⟨right, _, hs, h⟩ := popStage_inv h
  obtain ⟨middle, upper, hs', h⟩ := popStage_inv h
  obtain ⟨tokens, stages, pending, taken, slots, env⟩ := p
  subst hp hs hs'
  match below with
  | .ternary :: below =>
    have h : (do
        let left ← popStage
        let popped ← lift left.pop
        let left ← lift (popped.2.pushAll
          (Operand.ternary right.scope popped.1 middle.operands right.operands))
        pushStage left : Parser Unit) ⟨tokens, upper, below, taken, slots, env⟩ = .ok () q := h
    obtain ⟨left, rest, rfl, h⟩ := popStage_inv h
    obtain ⟨⟨y, left₁⟩, h₁, h⟩ := lift_inv h
    obtain ⟨left₂, h₂, h⟩ := lift_inv h
    cases h
    obtain ⟨_, rfl⟩ := Stage.eq_of_pop h₁
    obtain ⟨zs, rfl⟩ := Stage.eq_of_pushAll h₂
    refine ⟨_, .choice rfl rfl rfl rfl (.left zs _) (.drops (.inl rfl)) rfl, fun tokens m => ?_⟩
    have run : (do
        let left ← popStage
        let popped ← lift left.pop
        let left ← lift (popped.2.pushAll
          (Operand.ternary right.scope popped.1 middle.operands right.operands))
        pushStage left : Parser Unit) ⟨tokens, left :: rest, below, taken, slots, env⟩ =
          .ok () ⟨tokens, { left with operands := zs } :: rest, below, taken, slots, env⟩ :=
      (bind_ok rfl).trans ((bind_ok (lift_ok h₁ _)).trans ((bind_ok (lift_ok h₂ _)).trans rfl))
    exact run
  | [] | .op _ :: _ | .bind _ :: _ | .ternaryElse :: _ | .paren :: _ | .brace _ :: _ => cases h

/-- What is folded depends neither on the print mode of the stage on top nor on the tokens. -/
theorem fold_recast (h : fold context p = .ok () q) :
    ∃ g, Folding p q g ∧ FoldsAs context p q g := by
  obtain ⟨tokens, stages, _ | ⟨x, below⟩, taken, slots, env⟩ := p
  · cases h
  cases x with
  | op o =>
    cases o with
    | gt => exact Joint.folding rfl (joint_foldGreater h) rfl ⟨nofun, nofun⟩ fun _ _ => rfl
    | assign => exact Joint.folding rfl (joint_foldAssign h) rfl ⟨nofun, nofun⟩ fun _ _ => rfl
    | pipe => exact Joint.folding rfl (joint_foldPipe h) rfl ⟨nofun, nofun⟩ fun _ _ => rfl
    | seq => exact Joint.folding rfl (joint_foldSeq h) rfl ⟨nofun, nofun⟩ fun _ _ => rfl
    | window => exact Joint.folding rfl (joint_foldWindow h) rfl ⟨nofun, nofun⟩ fun _ _ => rfl
    | rangeFrom | background | bind => cases h
    | neg | pos | not =>
      exact Joint.folding rfl (joint_foldPrefix h nofun nofun) rfl ⟨nofun, nofun⟩ fun _ _ => rfl
    | _ =>
      exact Joint.folding rfl (joint_foldBinary h nofun nofun) rfl ⟨nofun, nofun⟩ fun _ _ => rfl
  | bind slot => exact Joint.folding rfl (joint_foldBind h) rfl ⟨nofun, nofun⟩ fun _ _ => rfl
  | ternaryElse => exact folding_foldTernary h rfl
  | ternary | paren | brace _ => cases h

/-- What is folded does not depend on the tokens to come. -/
theorem fold_with_tokens (h : fold context p = .ok () q) (tokens : List String) :
    fold context { p with tokens := tokens } = .ok () { q with tokens := tokens } := by
  obtain ⟨g, hfolding, hfolds⟩ := fold_recast h
  cases hfolding with
  | two _ _ _ hs _ hq _ _ hmode | choice _ hs _ hq _ _ hmode =>
    rw [← recast_mode hs tokens, ← recast_mode hq tokens, hmode]
    exact hfolds tokens _

theorem Folding.drops {g : Option Mode → Option Mode} (h : Folding p q g) :
    Pending.Drops p.pending q.pending := by
  cases h with
  | @two x below _ _ _ _ hb hx hp _ hq =>
    rw [hp, hq]
    cases x with
    | op o => exact .op o below
    | bind slot => exact .bind slot below
    | ternary => exact absurd rfl hx.1
    | ternaryElse => exact absurd rfl hx.2
    | paren | brace _ => cases hb
  | @choice below _ _ _ _ _ hp _ hq =>
    rw [hp, hq]
    exact .ternary below

/-! ## Runs of foldings -/

/-- The entries on top were folded one after the other, as long as `keep` held. -/
inductive Folds (context : Context) (keep : Pending → Bool) : Parse → Parse → Prop
  | done {p : Parse} (h : ∀ x ∈ p.pending.head?, keep x = false) : Folds context keep p p
  | step {p q r : Parse} {x : Pending} {below : List Pending} (hp : p.pending = x :: below)
    (hx : keep x = true) (h : fold context p = .ok () q) (k : Folds context keep q r) :
    Folds context keep p r

namespace Folds

variable {keep : Pending → Bool}

theorem of_foldWhile {n : Nat} (h : foldWhile context keep n p = .ok () r)
    (hn : p.pending.length ≤ n) : Folds context keep p r := by
  have stop (hhead : ∀ x ∈ p.pending.head?, keep x = false) : Folds context keep p r := by
    rw [foldWhile_of_head hhead] at h
    cases h
    exact .done hhead
  induction n generalizing p with
  | zero =>
    refine stop ?_
    rw [List.length_eq_zero_iff.mp (Nat.le_zero.mp hn)]
    nofun
  | succ n ih =>
    match hp : p.pending with
    | [] => exact stop (by rw [hp]; nofun)
    | x :: below =>
      cases hx : keep x with
      | false => exact stop (by rw [hp]; rintro _ ⟨⟩; exact hx)
      | true =>
        rw [foldWhile_step hp hx] at h
        obtain ⟨_, q, hq, h⟩ := bind_inv h
        obtain ⟨g, hfolding, -⟩ := fold_recast hq
        have hlength : q.pending.length < p.pending.length := hfolding.drops.length_lt
        refine .step hp hx hq (ih h (by omega) fun hhead => ?_)
        rw [foldWhile_of_head hhead] at h
        cases h
        exact .done hhead

theorem of_foldAll (h : foldAll context keep p = .ok () r) : Folds context keep p r :=
  of_foldWhile h (Nat.le_refl _)

theorem foldWhile_eq (h : Folds context keep p r) {n : Nat} (hn : p.pending.length ≤ n) :
    foldWhile context keep n p = .ok () r := by
  induction h generalizing n with
  | done h => exact foldWhile_of_head h n
  | @step p q r x below hp hx h _ ih =>
    obtain ⟨g, hfolding, -⟩ := fold_recast h
    have hlength : q.pending.length < p.pending.length := hfolding.drops.length_lt
    obtain ⟨n, rfl⟩ : ∃ m, n = m + 1 := ⟨n - 1, by omega⟩
    rw [foldWhile_step hp hx, bind_ok h]
    exact ih (by omega)

theorem foldAll_eq (h : Folds context keep p r) : foldAll context keep p = .ok () r :=
  h.foldWhile_eq (Nat.le_refl _)

theorem folded (h : Folds context keep p r) : Pending.Folded keep p.pending r.pending := by
  induction h with
  | done h => exact .done h
  | step _ _ h _ ih =>
    obtain ⟨g, hfolding, -⟩ := fold_recast h
    exact .drop hfolding.drops ih

theorem with_tokens (h : Folds context keep p r) (tokens : List String) :
    Folds context keep { p with tokens := tokens } { r with tokens := tokens } := by
  induction h with
  | done h => exact .done h
  | step hp hx h _ ih => exact .step hp hx (fold_with_tokens h tokens) ih

theorem subset (h : Folds context keep p r) : r.pending ⊆ p.pending := h.folded.suffix.subset

theorem not_bracket (h : Folds context keep p r) (hno : ∀ x ∈ p.pending, x.isBracket = false) :
    ∀ x ∈ r.pending, x.isBracket = false := fun x hx => hno x (h.subset hx)

/-- A run that folds more comes by where one that folds less stops. -/
theorem split {keep' : Pending → Bool} (h : Folds context keep' p r)
    (hk : ∀ x, keep x = true → keep' x = true) :
    ∃ q, Folds context keep p q ∧ Folds context keep' q r := by
  induction h with
  | @done p h =>
    refine ⟨p, .done fun x hx => Bool.eq_false_iff.mpr fun hkeep => ?_, .done h⟩
    exact absurd ((h x hx).symm.trans (hk x hkeep)) nofun
  | @step p q r x below hp hx h k ih =>
    cases hkeep : keep x with
    | true =>
      obtain ⟨q', h₁, h₂⟩ := ih
      exact ⟨q', .step hp hkeep h h₁, h₂⟩
    | false =>
      refine ⟨p, .done ?_, .step hp hx h k⟩
      rw [hp]
      rintro _ ⟨⟩
      exact hkeep

/-- What is not to be folded stays, unless it is the `?` of a `:` that is. -/
theorem mem (h : Folds context keep p r) {y : Pending} (hy : y ∈ p.pending)
    (hkeep : keep y = false) (ht : y = .ternary → keep .ternaryElse = false) :
    y ∈ r.pending := by
  induction h with
  | done => exact hy
  | @step p q r x below hp hx h _ ih =>
    refine ih ?_
    have hne : y ≠ x := by
      rintro rfl
      exact absurd (hkeep.symm.trans hx) nofun
    obtain ⟨g, hfolding, -⟩ := fold_recast h
    cases hfolding with
    | two _ _ hp' _ hq =>
      obtain ⟨rfl, rfl⟩ := List.cons.inj (hp.symm.trans hp')
      rw [hp] at hy
      rw [hq]
      exact (List.mem_cons.mp hy).resolve_left hne
    | choice hp' _ hq =>
      obtain ⟨rfl, rfl⟩ := List.cons.inj (hp.symm.trans hp')
      rw [hp] at hy
      rw [hq]
      refine (List.mem_cons.mp ((List.mem_cons.mp hy).resolve_left hne)).resolve_left fun e => ?_
      exact absurd ((ht e).symm.trans hx) nofun

/-- The parameters that are visible in a stage were visible in one before. -/
theorem vars (h : Folds context keep p r) :
    ∀ s ∈ r.stages, ∃ u ∈ p.stages, s.scope.vars = u.scope.vars := by
  induction h with
  | done => exact fun s hs => ⟨s, hs, rfl⟩
  | @step p q r x below _ _ h _ ih =>
    intro s hs
    obtain ⟨u, hu, e⟩ := ih s hs
    have blend {right left t : Stage} {upper rest : List Stage} (hs : p.stages = right :: upper)
        (hleft : left ∈ upper) (hrest : rest ⊆ upper) (hq : q.stages = t :: rest)
        (hblend : Blend right left t) : ∃ u ∈ p.stages, s.scope.vars = u.scope.vars := by
      rw [hq] at hu
      rw [hs]
      rcases List.mem_cons.mp hu with rfl | hu
      · rcases hblend.vars with hv | hv
        · exact ⟨left, List.mem_cons_of_mem _ hleft, e.trans hv⟩
        · exact ⟨right, List.mem_cons_self, e.trans hv⟩
      · exact ⟨u, List.mem_cons_of_mem _ (hrest hu), e⟩
    obtain ⟨g, hfolding, -⟩ := fold_recast h
    cases hfolding with
    | two _ _ _ hs _ hq hblend =>
      exact blend hs List.mem_cons_self (List.subset_cons_self ..) hq hblend
    | choice _ hs _ hq hblend =>
      exact blend hs (List.mem_cons_of_mem _ List.mem_cons_self)
        (fun _ hu => List.mem_cons_of_mem _ (List.mem_cons_of_mem _ hu)) hq hblend

end Folds

/-- What folding all entries of a line does to print modes. -/
structure Carries (p : Parse) (g : Option Mode → Option Mode) : Prop where
  /-- If a choice waits, the mode of the stage on top is lost. -/
  lost : .ternary ∈ p.pending → ∀ m m', g m = g m'
  /-- Else it is not. -/
  kept : .ternary ∉ p.pending → .op .assign ∉ p.pending → Passes g
  /-- If a `:` waits, and no choice before it, there is a mode in the end. -/
  window : ∀ below, .op .window :: below <:+ p.pending → .ternary ∉ below →
    .op .assign ∉ below → ∀ m, g m ≠ none

theorem Carries.comp {f g : Option Mode → Option Mode} (h : Folding p q f) (k : Carries q g) :
    Carries p (g ∘ f) := by
  cases h with
  | @two x below right left s rest hb hx hp hs hq hq' hblend hf hmode =>
    rw [← hq] at hp
    refine ⟨fun ht => ?_, fun ht ha => ?_, fun entries hw ht ha m => ?_⟩
    · rw [hp] at ht
      have ht : .ternary ∈ q.pending := (List.mem_cons.mp ht).resolve_left hx.1.symm
      exact fun m m' => k.lost ht (f m) (f m')
    · rw [hp] at ht ha
      obtain ⟨-, ht⟩ := not_or.mp (mt List.mem_cons.mpr ht)
      obtain ⟨hassign, ha⟩ := not_or.mp (mt List.mem_cons.mpr ha)
      exact (hf.passes hx.2 (Ne.symm hassign)).comp (k.kept ht ha)
    · rw [hp] at hw
      rcases List.suffix_cons_iff.mp hw with e | hw
      · obtain ⟨rfl, rfl⟩ := List.cons.inj e
        exact fun h => hf.ne_none m (k.kept ht ha _ h).1
      · exact k.window entries hw ht ha (f m)
  | @choice below right middle left s rest hp hs hq hq' hblend hf hmode =>
    have ht : .ternary ∈ p.pending := by rw [hp]; exact .tail _ (.head _)
    refine ⟨fun _ m m' => congrArg g (hf.const m m'), fun h => absurd ht h,
      fun entries hw hno ha m => ?_⟩
    rw [hp] at hw
    have hw := (List.suffix_cons_iff.mp hw).resolve_left nofun
    have hw := (List.suffix_cons_iff.mp hw).resolve_left nofun
    exact k.window entries (hq ▸ hw) hno ha (f m)

/-- Folding everything makes the print mode of the last stage of that of the stage on top. -/
theorem Folds.carries {keep : Pending → Bool} (h : Folds context keep p r) (hr : r.pending = []) :
    ∃ g, Carries p g ∧ (∀ s ∈ p.stages.head?, ∀ u ∈ r.stages.head?, u.mode = g s.mode) ∧
      ∀ tokens mode, Folds context keep (p.recast tokens mode) (r.recast tokens (g mode)) := by
  induction h with
  | @done p h =>
    refine ⟨id, ?_, fun s hs u hu => ?_, fun tokens mode => .done h⟩
    · refine ⟨?_, fun _ _ m h => ⟨h, fun _ => rfl⟩, fun below hw => ?_⟩
      · rw [hr]
        nofun
      · rw [hr] at hw
        cases List.suffix_nil.mp hw
    · rw [Option.some.inj (hs.symm.trans hu)]
      rfl
  | @step p q r x below hp hx h _ ih =>
    obtain ⟨f, hfolding, hfolds⟩ := fold_recast h
    obtain ⟨g, hcarries, hmode, run⟩ := ih hr
    refine ⟨g ∘ f, hcarries.comp hfolding, fun s hs u hu => ?_, fun tokens mode => ?_⟩
    · cases hfolding with
      | two _ _ _ hs' _ hq _ _ hm | choice _ hs' _ hq _ _ hm =>
        rw [hs'] at hs
        obtain rfl := Option.some.inj hs
        rw [hmode _ (by rw [hq]; rfl) u hu, hm]
        rfl
    · exact .step hp hx (hfolds tokens mode) (run tokens (f mode))

/-! ## The end of a line -/

variable {tokens : List String} {w : World} {root : Stage}

/-- The tokens are read to `p`, and folding everything leaves the stage `root` alone, in `r`. -/
structure Ends (context : Context) (tokens : List String) (w : World) (p r : Parse) (root : Stage) :
    Prop where
  read : all context tokens (.start w tokens) = .ok () p
  folds : Folds context (fun x => !x.isBracket) p r
  pending : r.pending = []
  stages : r.stages = [root]

theorem isBracket_of_brackets {pending : List Pending}
    (h : pending.filterMap Pending.bracket? = []) : ∀ x ∈ pending, x.isBracket = false := by
  intro x hx
  have hnone := List.filterMap_eq_nil_iff.mp h x hx
  cases x with
  | op _ | bind _ | ternary | ternaryElse => rfl
  | paren | brace _ => cases hnone

/-- A line that is read ends so. -/
theorem exists_ends {f : Factory} {mode : Mode} {w' : World}
    (h : parse context tokens w = (.ok (f, mode), w')) :
    ∃ p r root, Ends context tokens w p r root ∧ f = root.toFactory context ∧
      mode = root.mode.getD .default ∧ w' = { w with slots := r.slots, env := r.env } := by
  unfold parse EStateM.run at h
  split at h
  next hrun =>
    cases h
    obtain ⟨_, p, hread, hfinish⟩ := bind_inv hrun
    obtain ⟨_, r, hfold, hfinish⟩ := bind_inv hfinish
    have hfolds := Folds.of_foldAll hfold
    have hhead := hfolds.folded.head
    obtain ⟨left, stages, pending, taken, slots, env⟩ := r
    match pending, hfinish, hhead with
    | [], hfinish, _ =>
      obtain ⟨root, rest, hs, hfinish⟩ := popStage_inv (p := ⟨left, stages, [], taken, slots, env⟩)
        hfinish
      obtain ⟨hempty, hfinish⟩ | ⟨-, hfinish⟩ := ite_inv hfinish
      · cases hfinish
        obtain rfl : rest = [] := List.isEmpty_iff.mp hempty
        exact ⟨p, _, root, ⟨hread, hfolds, rfl, hs⟩, rfl, rfl, rfl⟩
      · cases hfinish
    | .op _ :: _, _, hhead | .bind _ :: _, _, hhead | .ternary :: _, _, hhead
    | .ternaryElse :: _, _, hhead => cases hhead _ rfl
  next => cases h

namespace Ends

/-- What is read then. -/
theorem parse_eq (h : Ends context tokens w p r root) :
    parse context tokens w = (.ok (root.toFactory context, root.mode.getD .default),
      { w with slots := r.slots, env := r.env }) := by
  obtain ⟨hread, hfolds, hpending, hstages⟩ := h
  obtain ⟨left, stages, pending, taken, slots, env⟩ := r
  subst hpending hstages
  have hfinish : finish context p =
      .ok (root.toFactory context, root.mode.getD .default) ⟨left, [], [], taken, slots, env⟩ :=
    bind_ok hfolds.foldAll_eq
  exact (parse_of_ok ((bind_ok hread).trans hfinish)).trans rfl

theorem disciplined (h : Ends context tokens w p r root) : p.Disciplined :=
  (disciplined_start w tokens).all h.read

theorem not_bracket (h : Ends context tokens w p r root) :
    ∀ x ∈ p.pending, x.isBracket = false := by
  refine isBracket_of_brackets ?_
  rw [← h.folds.folded.brackets, h.pending]
  rfl

end Ends

end Parse

end Rill
