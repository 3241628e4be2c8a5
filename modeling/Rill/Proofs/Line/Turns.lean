import Rill.Proofs.Line.Folding
import Rill.Proofs.Line.Moves

/-!
# What a token does in its turn

Each token first folds entries on top, and then gives the stage on top other operands, enters an
entry with a stage of its own, or closes a bracket (`Parse.Turn`, `Parse.turn_token`). Which entries
are folded, and which one is entered, is decided by the token (`Parse.Enters`).

Every turn keeps what the stacks look like (`Parse.Outline`): stages that no bracket parts lie in
equally many records, so outside all brackets a stage lies in none (`Parse.Outline.depth`), and no
stage has the default print mode, but only none at all or one that was asked for.
-/

namespace Rill

/-- Whether an operator between its operands folds what binds at a tier. -/
def Operator.folds (o : Operator) (tier : Nat) : Bool :=
  if o.isRightAssociative then o.tier < tier else o.tier ≤ tier

theorem Operator.folds_of_lt {o : Operator} {tier : Nat} (h : o.tier < tier) :
    o.folds tier = true := by
  unfold folds
  split <;> exact decide_eq_true (by omega)

theorem Operator.folds_eq_false {o : Operator} {tier : Nat} (h : tier < o.tier) :
    o.folds tier = false := by
  unfold folds
  split <;> exact decide_eq_false (by omega)

namespace Parse

variable {context : Context} {p q r : Parse} {t : String}

/-! ## Turns -/

/-- A token enters an entry when all on top have been folded of which `keep` holds. -/
inductive Enters (t : String) (p : Parse) : (Pending → Bool) → Pending → Prop
  | between {o : Operator} (h : Operator.ofInfix? t = some o) :
    Enters t p (Pending.binds o.folds) (.op o)
  | before {o : Operator} (ho : o.place = .before) (ht : loose t = false) :
    Enters t p (fun _ => false) (.op o)
  | bind (ht : t = "->") (slot : Handle) :
    Enters t p (Pending.binds fun u => Operator.bind.tier < u) (.bind slot)
  | ternary (ht : t = "?") : Enters t p (Pending.binds fun u => Operator.ternaryTier < u) .ternary
  | ternaryElse (ht : t = ":") (h : hasOpenTernary 0 p.pending = true) :
    Enters t p (fun x => x.binds (fun u => Operator.ternaryTier < u) || x == .ternaryElse)
      .ternaryElse
  | bracket {x : Pending} (hx : x.isBracket = true) (ht : t = "(" ∨ t = "\x7b") :
    Enters t p (fun _ => false) x

/-- What a token does. -/
inductive Turn (context : Context) (t : String) (p q : Parse) : Prop
  /-- The stage on top has other operands; a loose operator is a word only in a record. -/
  | touch {keep : Pending → Bool} {r : Parse} {s : Stage} {rest : List Stage} (xs : List Operand)
    (ht : loose t = true → ∀ u ∈ p.stages.head?, 0 < u.recordDepth)
    (h : Folds context keep p r) (hk : ∀ x, keep x = true → x.loose = false)
    (hs : r.stages = s :: rest) (hq : q.stages = { s with operands := xs } :: rest)
    (hq' : q.pending = r.pending)
  /-- An entry waits, and a stage was opened for what follows it. -/
  | enter {keep : Pending → Bool} {x : Pending} {r : Parse} {s u : Stage} {rest : List Stage}
    (hx : Enters t p keep x) (h : Folds context keep p r) (hs : r.stages = s :: rest)
    (hq : q.stages = u :: s :: rest) (hq' : q.pending = x :: r.pending) (hmode : u.mode = none)
    (hd : x.isBracket = false → u.recordDepth = s.recordDepth)
  /-- A bracket was closed. -/
  | close {x : Pending} {below : List Pending} {r : Parse} {body s u : Stage} {rest : List Stage}
    (hx : x.isBracket = true) (h : Folds context (fun x => !x.isBracket) p r)
    (hp : r.pending = x :: below) (hs : r.stages = body :: s :: rest) (hq : q.stages = u :: rest)
    (hq' : q.pending = below) (hmode : u.mode = s.mode ∨ u.mode = (s.mode <|> body.mode))
    (hd : u.recordDepth = s.recordDepth)

/-- Nothing is folded. -/
theorem folds_nothing (context : Context) (p : Parse) : Folds context (fun _ => false) p p :=
  .done fun _ _ => rfl

/-! ## Operands -/

/-- The stage on top has other operands. -/
def Refilled (p q : Parse) : Prop :=
  ∃ s rest xs, p.stages = s :: rest ∧ q.stages = { s with operands := xs } :: rest ∧
    q.pending = p.pending

theorem refilled_pushOperand {x : Operand} (h : pushOperand x p = .ok () q) : Refilled p q := by
  obtain ⟨s, rest, hs, h⟩ := popStage_inv h
  obtain ⟨s', h₁, h⟩ := lift_inv h
  cases h
  obtain ⟨xs, rfl⟩ := Stage.eq_of_push h₁
  exact ⟨s, rest, xs, hs, rfl, rfl⟩

theorem refilled_leaf (h : leaf t p = .ok () q) : Refilled p q := by
  obtain ⟨x, -, h⟩ := lift_inv h
  exact refilled_pushOperand h

theorem Refilled.turn (h : Refilled p q)
    (ht : loose t = true → ∀ u ∈ p.stages.head?, 0 < u.recordDepth) : Turn context t p q := by
  obtain ⟨s, rest, xs, hs, hq, hq'⟩ := h
  exact .touch xs ht (folds_nothing context p) nofun hs hq hq'

/-! ## Operators -/

theorem turn_infixOp {x : Pending} (h : infixOp context x p = .ok () q)
    (hx : Enters t p (Pending.binds fun u =>
      if (match x with | .op o => o.isRightAssociative | _ => true) then x.tier?.getD 0 < u
      else x.tier?.getD 0 ≤ u) x) : Turn context t p q := by
  obtain ⟨_, r, hr, h⟩ := bind_inv h
  obtain ⟨s, rest, hs, h⟩ := top_inv h
  cases h
  exact .enter hx (.of_foldAll hr) hs (congrArg (s.child :: ·) hs) rfl rfl fun _ => rfl

theorem turn_prefixOp {o : Operator} (h : prefixOp o p = .ok () q) (ho : o.place = .before)
    (ht : loose t = false) : Turn context t p q := by
  obtain ⟨s, rest, hs, h⟩ := top_inv h
  cases h
  exact .enter (.before ho ht) (folds_nothing context p) hs (congrArg (s.child :: ·) hs) rfl rfl
    fun _ => rfl

/-- What binds only what is tight is tight itself. -/
theorem loose_eq_false_of_binds {keep : Nat → Bool} {x : Pending} (h : x.binds keep = true)
    (hk : ∀ u ≤ Operator.ternaryTier, keep u = false) : x.loose = false := by
  unfold Pending.loose
  unfold Pending.binds at h ⊢
  split at h
  next u _ =>
    refine decide_eq_false fun hle => ?_
    exact absurd ((hk u hle).symm.trans h) nofun
  next => cases h

theorem turn_postfixOp {o : Operator} (h : postfixOp context o p = .ok () q)
    (ho : o.place = .after) (ht : loose t = false) : Turn context t p q := by
  obtain ⟨_, r, hr, h⟩ := bind_inv h
  obtain ⟨s, rest, hs, h⟩ := top_inv h
  obtain ⟨⟨x, s₁⟩, h₁, h⟩ := lift_inv h
  obtain ⟨s₂, h₂, h⟩ := lift_inv h
  cases h
  obtain ⟨_, rfl⟩ := Stage.eq_of_pop h₁
  obtain ⟨xs, rfl⟩ := Stage.eq_of_push h₂
  have htight (x : Pending) (hx : x.binds (fun u => o.tier ≤ u) = true) : x.loose = false := by
    refine loose_eq_false_of_binds hx fun u hu => decide_eq_false ?_
    have hlow : Operator.ternaryTier < o.tier := by cases o <;> first | decide | cases ho
    omega
  refine .touch xs (fun h => absurd (ht.symm.trans h) nofun) (.of_foldAll hr) htight hs ?_ rfl
  show _ :: r.stages.drop 1 = _
  rw [hs]
  rfl

theorem turn_ternaryElse (h : ternaryElse context p = .ok () q) (ht : t = ":")
    (hopen : hasOpenTernary 0 p.pending = true) : Turn context t p q := by
  obtain ⟨_, r, hr, h⟩ := bind_inv h
  obtain ⟨s, rest, hs, h⟩ := top_inv h
  cases h
  exact .enter (.ternaryElse ht hopen) (.of_foldAll hr) hs (congrArg (s.child :: ·) hs) rfl rfl
    fun _ => rfl

theorem turn_bindOp (h : bindOp context p = .ok () q) (ht : t = "->") : Turn context t p q := by
  obtain ⟨_, r, hr, h⟩ := bind_inv h
  obtain ⟨⟨scope, feed, operands, depth, closure, mode⟩, rest, hs, h⟩ := top_inv h
  match operands, h with
  | [.word name], h =>
    dsimp only at h
    split at h
    · cases h
    · cases h
      exact .enter (.bind ht _) (.of_foldAll hr) hs (congrArg (_ :: ·) hs) rfl rfl fun _ => rfl

/-! ## Brackets -/

theorem turn_openParen (h : openParen p = .ok () q) (ht : t = "(") : Turn context t p q := by
  obtain ⟨s, rest, hs, h⟩ := top_inv h
  cases h
  exact .enter (.bracket rfl (.inl ht)) (folds_nothing context p) hs (congrArg (_ :: ·) hs) rfl rfl
    nofun

theorem turn_openBrace (h : openBrace p = .ok () q) (ht : t = "\x7b") : Turn context t p q := by
  obtain ⟨_, _, hget, h⟩ := bind_inv h
  cases hget
  obtain ⟨s, rest, hs, h⟩ := top_inv h
  split at h
  all_goals
    cases h
    exact .enter (.bracket rfl (.inr ht)) (folds_nothing context p) hs (congrArg (_ :: ·) hs) rfl
      rfl nofun

/-- Where a bracket was closed, another stage is on top. -/
theorem Turn.of_close {x : Pending} {below : List Pending} {body s u : Stage} {rest : List Stage}
    (hx : x.isBracket = true) (h : foldAll context (fun x => !x.isBracket) p = .ok () r)
    (hp : r.pending = x :: below) (hs : r.stages = body :: s :: rest) (hq : q.stages = u :: rest)
    (hq' : q.pending = below) (hmode : u.mode = s.mode ∨ u.mode = (s.mode <|> body.mode))
    (hd : u.recordDepth = s.recordDepth) : Turn context t p q :=
  .close hx (.of_foldAll h) hp hs hq hq' hmode hd

theorem turn_closeParen (h : closeParen context p = .ok () q) : Turn context t p q := by
  obtain ⟨_, r, hr, h⟩ := bind_inv h
  obtain ⟨tokens, stages, pending, taken, slots, env⟩ := r
  match pending, h with
  | .paren :: below, h =>
    have h : (do
        let group ← popStage
        let s ← popStage
        let s ← lift (s.push (group.toOperand context))
        pushStage { s with mode := s.mode <|> group.mode } : Parser Unit)
          ⟨tokens, stages, below, taken, slots, env⟩ = .ok () q := h
    obtain ⟨group, _, hs, h⟩ := popStage_inv h
    obtain ⟨s, rest, hs', h⟩ := popStage_inv h
    obtain ⟨s', h₁, h⟩ := lift_inv h
    cases h
    obtain ⟨xs, rfl⟩ := Stage.eq_of_push h₁
    exact .of_close (x := .paren) rfl hr rfl (hs.trans (congrArg (group :: ·) hs')) rfl rfl
      (.inr rfl) rfl

/-- A record that is closed becomes an operand. -/
theorem refilled_closeRecord {body : Stage} (h : closeRecord body p = .ok () q) : Refilled p q := by
  obtain ⟨record, -, h⟩ := lift_inv h
  obtain ⟨s, rest, hs, h⟩ := top_inv h
  match hlast : s.operands.getLast? with
  | some (.word w) =>
    rw [hlast] at h
    dsimp only at h
    split at h
    · obtain ⟨_, p₁, h₁, h⟩ := bind_inv h
      cases h₁
      obtain ⟨s', rest', xs, hs', hq, hq'⟩ := refilled_pushOperand h
      obtain ⟨rfl, rfl⟩ := List.cons.inj hs'
      refine ⟨s, rest, xs, hs, ?_, hq'⟩
      rw [hq, hs]
      rfl
    · exact refilled_pushOperand h
  | none | some (.value _) | some (.streamRef _) | some (.stream _) | some (.deferred _) =>
    rw [hlast] at h
    exact refilled_pushOperand h

theorem turn_closeBrace (h : closeBrace context p = .ok () q) : Turn context t p q := by
  obtain ⟨_, r, hr, h⟩ := bind_inv h
  obtain ⟨tokens, stages, pending, taken, slots, env⟩ := r
  match pending, h with
  | .brace .record :: below, h =>
    have h : (popStage >>= closeRecord) ⟨tokens, stages, below, taken, slots, env⟩ = .ok () q := h
    obtain ⟨body, _, hs, h⟩ := popStage_inv h
    obtain ⟨s, rest, xs, hs', hq, hq'⟩ := refilled_closeRecord h
    exact .of_close (x := .brace .record) rfl hr rfl (hs.trans (congrArg (body :: ·) hs')) hq hq'
      (.inl rfl) rfl
  | .brace .closure :: below, h =>
    have h : (popStage >>= closeClosure context) ⟨tokens, stages, below, taken, slots, env⟩ =
      .ok () q := h
    obtain ⟨body, upper, hs, h⟩ := popStage_inv h
    obtain ⟨s, rest, hs', h⟩ := top_inv h
    obtain rfl : upper = s :: rest := hs'
    split at h
    · cases h
    · cases h
      exact .of_close (x := .brace .closure) rfl hr rfl hs rfl rfl (.inr rfl) rfl

/-! ## Tokens -/

theorem loose_eq_false_of_ofInfix? (h : Operator.ofInfix? t = none) (hne : t ≠ "?") :
    loose t = false := by
  refine Bool.eq_false_iff.mpr fun ht => ?_
  have hmem : t ∈ ["|", ";", ":", "?", "->", "="] := List.contains_iff_mem.mp ht
  simp only [List.mem_cons, List.not_mem_nil, or_false] at hmem
  rcases hmem with rfl | rfl | rfl | rfl | rfl | rfl
  case inr.inr.inr.inl => exact hne rfl
  all_goals cases h

theorem turn_recordToken (h : recordToken context t p = .ok () q)
    (hd : ∀ u ∈ p.stages.head?, 0 < u.recordDepth) : Turn context t p q := by
  obtain ⟨s, rest, hs, h⟩ := top_inv h
  cases ho : Operator.ofInfix? t with
  | some o =>
    rw [ho] at h
    obtain ⟨-, h⟩ | ⟨-, h⟩ := ite_inv h
    · exact turn_infixOp h (.between ho)
    · exact (refilled_pushOperand h).turn fun _ => hd
  | none =>
    rw [ho] at h
    obtain ⟨-, h⟩ | ⟨-, h⟩ := ite_inv h
    · exact (refilled_pushOperand h).turn fun _ => hd
    · exact (refilled_leaf h).turn fun _ => hd

theorem turn_plainToken (h : plainToken context t p = .ok () q) : Turn context t p q := by
  -- no symbol of an operator that stands before or after its operand is loose
  have tight {o : String} (ht : (t == o) = true) (ho : loose o = false) : loose t = false :=
    beq_iff_eq.mp ht ▸ ho
  obtain ⟨_, _, hget, h⟩ := bind_inv h
  cases hget
  obtain ⟨s, rest, hs, h⟩ := top_inv h
  obtain ⟨ht, h⟩ | ⟨-, h⟩ := ite_inv h
  · exact turn_bindOp h (beq_iff_eq.mp ht)
  obtain ⟨ht, h⟩ | ⟨hne, h⟩ := ite_inv h
  · exact turn_infixOp h (.ternary (beq_iff_eq.mp ht))
  obtain ⟨ht, h⟩ | ⟨-, h⟩ := ite_inv h
  · obtain ⟨ht, hopen⟩ := Bool.and_eq_true_iff.mp ht
    exact turn_ternaryElse h (beq_iff_eq.mp ht) hopen
  obtain ⟨ht, h⟩ | ⟨-, h⟩ := ite_inv h
  · exact turn_postfixOp h rfl (tight (Bool.and_eq_true_iff.mp ht).1 rfl)
  obtain ⟨ht, h⟩ | ⟨-, h⟩ := ite_inv h
  · exact turn_postfixOp h rfl (tight ht rfl)
  obtain ⟨ht, h⟩ | ⟨-, h⟩ := ite_inv h
  · exact turn_prefixOp h rfl (tight ht rfl)
  obtain ⟨ht, h⟩ | ⟨-, h⟩ := ite_inv h
  · exact turn_prefixOp h rfl (tight (Bool.and_eq_true_iff.mp ht).1 rfl)
  obtain ⟨ht, h⟩ | ⟨-, h⟩ := ite_inv h
  · exact turn_prefixOp h rfl (tight (Bool.and_eq_true_iff.mp ht).1 rfl)
  cases ho : Operator.ofInfix? t with
  | some o =>
    rw [ho] at h
    exact turn_infixOp h (.between ho)
  | none =>
    rw [ho] at h
    have hloose := loose_eq_false_of_ofInfix? ho fun ht => hne (beq_iff_eq.mpr ht)
    exact (refilled_leaf h).turn fun ht => absurd (hloose.symm.trans ht) nofun

/-- What any token does. -/
theorem turn_token (h : token context t p = .ok () q) : Turn context t p q := by
  obtain ⟨ht, h⟩ | ⟨-, h⟩ := ite_inv h
  · exact turn_openParen h (beq_iff_eq.mp ht)
  obtain ⟨-, h⟩ | ⟨-, h⟩ := ite_inv h
  · exact turn_closeParen h
  obtain ⟨ht, h⟩ | ⟨-, h⟩ := ite_inv h
  · exact turn_openBrace h (beq_iff_eq.mp ht)
  obtain ⟨-, h⟩ | ⟨-, h⟩ := ite_inv h
  · exact turn_closeBrace h
  obtain ⟨s, rest, hs, h⟩ := top_inv h
  obtain ⟨hd, h⟩ | ⟨-, h⟩ := ite_inv h
  · refine turn_recordToken h ?_
    rw [hs]
    rintro _ ⟨⟩
    exact hd
  · exact turn_plainToken h

/-! ## What the stacks look like -/

/-- Stages that no bracket parts lie in equally many records, and the lowest one in none. -/
inductive Level : List Stage → List Pending → Prop
  | root {s : Stage} (h : s.recordDepth = 0) : Level [s] []
  | entry {x : Pending} {s u : Stage} {rest : List Stage} {below : List Pending}
    (h : x.isBracket = false → s.recordDepth = u.recordDepth) (k : Level (u :: rest) below) :
    Level (s :: u :: rest) (x :: below)

namespace Level

variable {s s' : Stage} {stages rest : List Stage} {pending : List Pending}

theorem top (h : Level stages pending) : ∃ s rest, stages = s :: rest := by
  cases h with
  | root | entry => exact ⟨_, _, rfl⟩

theorem replace (h : Level (s :: rest) pending) (hd : s'.recordDepth = s.recordDepth) :
    Level (s' :: rest) pending := by
  cases h with
  | root h => exact .root (hd.trans h)
  | entry h k => exact .entry (fun hx => hd.trans (h hx)) k

theorem depth (h : Level (s :: rest) pending) (hno : ∀ x ∈ pending, x.isBracket = false) :
    s.recordDepth = 0 := by
  induction pending generalizing s rest with
  | nil =>
    cases h with
    | root h => exact h
  | cons x below ih =>
    obtain ⟨hx, hno⟩ := List.forall_mem_cons.mp hno
    cases h with
    | entry h k => exact (h hx).trans (ih k hno)

end Level

/-- What the stacks look like between two tokens: the stages are level, and where one has a print
mode it was asked for. -/
structure Outline (p : Parse) : Prop where
  level : Level p.stages p.pending
  modes : ∀ s ∈ p.stages, s.mode ≠ some .default

namespace Outline

/-- Another stage in the place of some on top. -/
theorem of_stages {s : Stage} {rest : List Stage} (hq : q.stages = s :: rest)
    (hlevel : Level (s :: rest) q.pending) (hmode : s.mode ≠ some .default)
    (hrest : ∀ u ∈ rest, u.mode ≠ some .default) : Outline q := by
  refine ⟨hq ▸ hlevel, ?_⟩
  rw [hq]
  exact List.forall_mem_cons.mpr ⟨hmode, hrest⟩

theorem folding {g : Option Mode → Option Mode} (h : Outline p) (k : Folding p q g) :
    Outline q := by
  obtain ⟨hlevel, hmodes⟩ := h
  cases k with
  | two hb _ hp hs hq hq' hblend hg hmode =>
    rw [hs] at hlevel hmodes
    rw [hp] at hlevel
    obtain ⟨hright, hmodes⟩ := List.forall_mem_cons.mp hmodes
    obtain ⟨hleft, hmodes⟩ := List.forall_mem_cons.mp hmodes
    cases hlevel with
    | entry he hlevel =>
      refine .of_stages hq' (hq ▸ hlevel.replace ?_) ?_ hmodes
      · exact hblend.depth.elim id fun hd => hd.trans (he hb)
      · exact hmode ▸ hg.ne_default hleft hright
  | choice hp hs hq hq' hblend hg hmode =>
    rw [hs] at hlevel hmodes
    rw [hp] at hlevel
    obtain ⟨hright, hmodes⟩ := List.forall_mem_cons.mp hmodes
    obtain ⟨-, hmodes⟩ := List.forall_mem_cons.mp hmodes
    obtain ⟨hleft, hmodes⟩ := List.forall_mem_cons.mp hmodes
    cases hlevel with
    | entry he hlevel =>
      cases hlevel with
      | entry he' hlevel =>
        refine .of_stages hq' (hq ▸ hlevel.replace ?_) ?_ hmodes
        · exact hblend.depth.elim id fun hd => hd.trans ((he rfl).trans (he' rfl))
        · exact hmode ▸ hg.ne_default hleft hright

theorem folds {keep : Pending → Bool} (h : Outline p) (k : Folds context keep p r) : Outline r := by
  induction k with
  | done => exact h
  | step _ _ hfold _ ih =>
    obtain ⟨g, hfolding, -⟩ := fold_recast hfold
    exact ih (h.folding hfolding)

theorem turn (h : Outline p) (k : Turn context t p q) : Outline q := by
  cases k with
  | touch xs _ hfolds _ hs hq hq' =>
    obtain ⟨hlevel, hmodes⟩ := h.folds hfolds
    rw [hs] at hlevel hmodes
    obtain ⟨hmode, hmodes⟩ := List.forall_mem_cons.mp hmodes
    exact .of_stages hq (hq' ▸ hlevel.replace rfl) hmode hmodes
  | enter _ hfolds hs hq hq' hmode hd =>
    obtain ⟨hlevel, hmodes⟩ := h.folds hfolds
    rw [hs] at hlevel hmodes
    exact .of_stages hq (hq' ▸ .entry hd hlevel) (by rw [hmode]; nofun) hmodes
  | close _ hfolds hp hs hq hq' hmode hd =>
    obtain ⟨hlevel, hmodes⟩ := h.folds hfolds
    rw [hs] at hlevel hmodes
    rw [hp] at hlevel
    obtain ⟨hbody, hmodes⟩ := List.forall_mem_cons.mp hmodes
    obtain ⟨hs, hmodes⟩ := List.forall_mem_cons.mp hmodes
    cases hlevel with
    | entry _ hlevel =>
      refine .of_stages hq (hq' ▸ hlevel.replace hd) ?_ hmodes
      rcases hmode with hmode | hmode
      · exact hmode ▸ hs
      · exact hmode ▸ (Hands.first nofun nofun : Hands .paren _ _).ne_default hs hbody

/-- The tokens of a line keep it. -/
theorem all {tokens : List String} (h : Outline p) (k : Parse.all context tokens p = .ok () q) :
    Outline q := by
  induction tokens generalizing p with
  | nil =>
    cases k
    exact h
  | cons t rest ih =>
    obtain ⟨r, hr, k⟩ := all_inv k
    have hnext : Outline { p with tokens := rest } := ⟨h.level, h.modes⟩
    exact ih (hnext.turn (turn_token hr)) k

theorem start (w : World) (tokens : List String) : Outline (.start w tokens) :=
  ⟨.root rfl, fun _ hs => List.mem_singleton.mp hs ▸ nofun⟩

/-- Outside brackets a stage lies in no record. -/
theorem depth (h : Outline p) (hno : ∀ x ∈ p.pending, x.isBracket = false) :
    ∀ s ∈ p.stages.head?, s.recordDepth = 0 := by
  obtain ⟨hlevel, -⟩ := h
  intro s hs
  obtain ⟨rest, hrest⟩ := List.head?_eq_some_iff.mp hs
  exact Level.depth (hrest ▸ hlevel) hno

end Outline

end Parse

end Rill
