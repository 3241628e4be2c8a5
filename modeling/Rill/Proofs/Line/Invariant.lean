import Rill.Proofs.Line.Discipline

/-!
# What everything in a line has in common

A property of operands, factories and scopes that everything has which is made of what has it
(`Parse.Invariant`) is a property of everything that reading a line leaves: of the factory of the
line, and of the named streams if it was one of them before (`Parse.Invariant.line_keeps`). Nothing
has to be known about the stacks for that: each step keeps the property of whatever lies on them
(`Parse.Keeps`).

The same steps show why a line is refused: it is at fault itself, or it comes to a text that was to
be read as a value and is none (`Malformed`).
-/

namespace Rill

/-- A stage that consists of values has nothing else. -/
theorem Stage.of_constants? {s : Stage} {vs : List Value} (h : s.constants? = some vs) :
    s.feed = none ∧ s.closure = none ∧ s.operands = vs.map .value := by
  unfold constants? at h
  split at h
  next hno =>
    obtain ⟨hfeed, hclosure⟩ := Bool.and_eq_true_iff.mp hno
    refine ⟨Option.isNone_iff_eq_none.mp hfeed, Option.isNone_iff_eq_none.mp hclosure, ?_⟩
    clear hno
    generalize s.operands = xs at h ⊢
    induction xs generalizing vs with
    | nil =>
      cases h
      rfl
    | cons x xs ih =>
      rw [List.mapM_cons] at h
      obtain ⟨v, hv, h⟩ := Option.bind_eq_some_iff.mp h
      obtain ⟨ws, hws, h⟩ := Option.bind_eq_some_iff.mp h
      cases h
      cases x with
      | value u =>
        cases hv
        exact congrArg _ (ih hws)
      | _ => cases hv
  next => cases h

namespace Parse

/-- A `}` that comes next closes a record, which is this stage when what is pending in it has been
folded. -/
def ClosesRecord (context : Context) (p : Parse) (body : Stage) : Prop :=
  ∃ (q : Parse) (below : List Pending) (rest : List Stage),
    foldAll context (fun x => !x.isBracket) p = .ok () q ∧
      q.pending = .brace .record :: below ∧ q.stages = body :: rest

/-- With the next token a text was to be read as a value, and is none: the token itself, in double
quotes, or the record that it closes. -/
inductive Unread (context : Context) (t : String) (p : Parse) (e : Error) : Prop
  | token (hq : t.toList.head? = some '"') (h : Value.read t = .error e)
  | record {body : Stage} (ht : t = "\x7d") (hc : ClosesRecord context p body)
    (h : Record.build body.scope body.operands = .error e)

end Parse

/-- A line of these tokens comes to a text that was to be read as a value, and is none. -/
def Malformed (context : Context) (tokens : List String) (w : World) (e : Error) : Prop :=
  ∃ p t left, Parse.Reaches context (.start w tokens) tokens p (t :: left) ∧
    Parse.Unread context t { p with tokens := left } e

/-- Why a line is refused: it is at fault itself, or bad in another way. -/
def Refusal (bad : Error → Prop) (e : Error) : Prop := e.isStructural = true ∨ bad e

namespace Parse

/-- A property of operands, of factories and of scopes that everything has which reading tokens
makes of what has it. -/
structure Invariant (context : Context) (tokens : List String) where
  operand : Operand → Prop
  factory : Factory → Prop
  scope : Scope → Prop
  /-- Tokens have it, as what they stand for and as words. -/
  leaf : ∀ {t x}, t ∈ tokens → Leaf.read t = .ok x → operand x
  word : ∀ {t}, t ∈ tokens → operand (.word t)
  /-- Operators keep it. -/
  unary : ∀ {s x}, scope s → operand x → ∀ op, operand (.applyUnary s op x)
  binary : ∀ {s x y}, scope s → operand x → operand y → ∀ op, operand (.applyBinary s op x y)
  ternary : ∀ {s x onTrue onFalse}, scope s → operand x → (∀ y ∈ onTrue, operand y) →
    (∀ y ∈ onFalse, operand y) → ∀ y ∈ Operand.ternary s x onTrue onFalse, operand y
  /-- Brackets keep it. -/
  record : ∀ {s xs x}, (∀ y ∈ xs, operand y) → Record.build s xs = .ok x → operand x
  typed : ∀ {x}, operand x → ∀ type, operand (Record.typed type x)
  constant : ∀ {vs : List Value}, (∀ v ∈ vs, operand (.value v)) → operand (.stream (.constant vs))
  stream : ∀ {f}, factory f → operand (.stream f)
  /-- Stages keep it. -/
  expression : ∀ {s xs}, scope s → (∀ x ∈ xs, operand x) → factory (Stage.expression context s xs)
  compose : ∀ {f g}, factory f → factory g → factory (.compose f g)
  nothing : factory (.items [])
  andThen : ∀ {f g}, factory f → factory g → factory (.andThen f g)
  bind : ∀ {f}, factory f → ∀ slot, factory (.bind slot f)
  each : ∀ {f}, factory f → factory (.each f)
  /-- Scopes keep it. -/
  empty : scope .empty
  declare : ∀ {s}, scope s → ∀ name slot, scope (s.declare name slot)
  override : ∀ {s f}, scope s → ∀ name, factory f → scope (s.override name f)

/-- The property that everything has. -/
def Invariant.all (context : Context) (tokens : List String) : Invariant context tokens where
  operand _ := True
  factory _ := True
  scope _ := True
  leaf _ _ := trivial
  word _ := trivial
  unary _ _ _ := trivial
  binary _ _ _ _ := trivial
  ternary _ _ _ _ _ _ := trivial
  record _ _ := trivial
  typed _ _ := trivial
  constant _ := trivial
  stream _ := trivial
  expression _ _ := trivial
  compose _ _ := trivial
  nothing := trivial
  andThen _ _ := trivial
  bind _ _ := trivial
  each _ := trivial
  empty := trivial
  declare _ _ _ := trivial
  override _ _ _ := trivial

variable {context : Context} {tokens : List String} (I : Invariant context tokens)
  (bad : Error → Prop) {α β : Type}

namespace Invariant

/-- Everything in the stage has the property. -/
structure Stage (s : Stage) : Prop where
  scope : I.scope s.scope
  feed : ∀ f, s.feed = some f → I.factory f
  operands : ∀ x ∈ s.operands, I.operand x
  closure : ∀ f, s.closure = some f → I.factory f

/-- Everything on the stacks has the property, and so have the named streams. -/
structure Line (p : Parse) : Prop where
  stages : ∀ s ∈ p.stages, I.Stage s
  env : ∀ name f, Sorted.find? name p.env.bindings = some f → I.factory f

variable {I} {s s' : Rill.Stage} {x : Operand}

namespace Stage

theorem child (h : I.Stage s) : I.Stage s.child := ⟨h.scope, nofun, nofun, nofun⟩

theorem depth (h : I.Stage s) (depth : Nat) : I.Stage { s with recordDepth := depth } :=
  ⟨h.scope, h.feed, h.operands, h.closure⟩

theorem mode (h : I.Stage s) (mode : Option Mode) : I.Stage { s with mode := mode } :=
  ⟨h.scope, h.feed, h.operands, h.closure⟩

theorem push (h : I.Stage s) (hx : I.operand x) (k : s.push x = .ok s') : I.Stage s' := by
  unfold Rill.Stage.push at k
  split at k <;> cases k
  refine ⟨h.scope, h.feed, fun y hy => ?_, h.closure⟩
  rcases List.mem_append.mp hy with hy | hy
  · exact h.operands y hy
  · exact List.mem_singleton.mp hy ▸ hx

theorem pushAll {xs : List Operand} (h : I.Stage s) (hx : ∀ x ∈ xs, I.operand x)
    (k : s.pushAll xs = .ok s') : I.Stage s' := by
  induction xs generalizing s with
  | nil =>
    cases k
    exact h
  | cons x xs ih =>
    obtain ⟨hx, hxs⟩ := List.forall_mem_cons.mp hx
    rw [Rill.Stage.pushAll_cons] at k
    cases hs : s.push x with
    | error e =>
      rw [hs] at k
      cases k
    | ok s₁ =>
      rw [hs] at k
      exact ih (h.push hx hs) hxs k

theorem pop {r : Operand × Rill.Stage} (h : I.Stage s) (k : s.pop = .ok r) :
    I.operand r.1 ∧ I.Stage r.2 := by
  unfold Rill.Stage.pop at k
  split at k <;> cases k
  next hx =>
    exact ⟨h.operands _ (List.mem_of_getLast? hx), h.scope, h.feed,
      fun y hy => h.operands y (List.dropLast_subset _ hy), h.closure⟩

theorem takeFirst {r : Operand × Rill.Stage} (h : I.Stage s) (k : s.takeFirst = .ok r) :
    I.operand r.1 ∧ I.Stage r.2 := by
  unfold Rill.Stage.takeFirst at k
  split at k <;> cases k
  next xs hx =>
    have hall := h.operands
    rw [hx] at hall
    obtain ⟨hfirst, hrest⟩ := List.forall_mem_cons.mp hall
    exact ⟨hfirst, h.scope, h.feed, hrest, h.closure⟩

theorem toFactory (h : I.Stage s) : I.factory (s.toFactory context) := by
  have hstage : I.factory (s.closure.getD (Rill.Stage.expression context s.scope s.operands)) := by
    cases hc : s.closure with
    | none => exact I.expression h.scope h.operands
    | some f => exact h.closure f hc
  unfold Rill.Stage.toFactory
  dsimp only
  split
  next f hf => exact I.compose (h.feed f hf) hstage
  next => exact hstage

theorem values (h : I.Stage s) {vs : List Value} (k : s.constants? = some vs) :
    ∀ v ∈ vs, I.operand (.value v) := by
  obtain ⟨-, -, hvs⟩ := Rill.Stage.of_constants? k
  intro v hv
  refine h.operands _ ?_
  rw [hvs]
  exact List.mem_map_of_mem hv

theorem toOperand (h : I.Stage s) : I.operand (s.toOperand context) := by
  unfold Rill.Stage.toOperand
  split
  next v hv => exact h.values hv v List.mem_cons_self
  next vs _ hvs => exact I.constant (h.values hvs)
  next => exact I.stream h.toFactory

end Stage

theorem Line.start {w : World} (h : ∀ name f, Sorted.find? name w.env.bindings = some f →
    I.factory f) (tokens' : List String) : I.Line (.start w tokens') :=
  ⟨fun _ hs => List.mem_singleton.mp hs ▸ ⟨I.empty, nofun, nofun, nofun⟩, h⟩

end Invariant

/-! ## Steps -/

/-- If the line has the property the step leaves one with the property. It ends with something of
which `R` holds, or with an error for which such a line is refused. -/
def KeepsAt (m : Parser α) (R : α → Prop) (p : Parse) : Prop :=
  I.Line p →
    match m p with
    | .ok a q => I.Line q ∧ R a
    | .error e q => I.Line q ∧ Refusal bad e

/-- The step does so from every line. -/
def Keeps (m : Parser α) (R : α → Prop) : Prop := ∀ p, KeepsAt I bad m R p

variable {I bad} {m : Parser α} {R : α → Prop} {S : β → Prop} {p : Parse}

namespace KeepsAt

protected theorem bind {f : α → Parser β} (hm : KeepsAt I bad m R p)
    (hf : ∀ a q, m p = .ok a q → R a → KeepsAt I bad (f a) S q) :
    KeepsAt I bad (m >>= f) S p := by
  intro hp
  have hend := hm hp
  cases h : m p with
  | ok a q =>
    rw [h] at hend
    rw [bind_ok h]
    exact hf a q h hend.2 hend.1
  | error e q =>
    rw [h] at hend
    rw [bind_error h]
    exact hend

protected theorem ite {c : Prop} [Decidable c] {m n : Parser α} (hm : c → KeepsAt I bad m R p)
    (hn : ¬ c → KeepsAt I bad n R p) : KeepsAt I bad (if c then m else n) R p := by
  split
  · rename_i h
    exact hm h
  · rename_i h
    exact hn h

/-- A line may be refused for other reasons too. -/
theorem mono {bad' : Error → Prop} (h : KeepsAt I bad m R p) (k : ∀ e, bad e → bad' e) :
    KeepsAt I bad' m R p := by
  intro hp
  have hend := h hp
  cases hm : m p with
  | ok a q =>
    rw [hm] at hend
    exact hend
  | error e q =>
    rw [hm] at hend
    exact ⟨hend.1, hend.2.imp_right (k e)⟩

end KeepsAt

namespace Keeps

protected theorem bind {f : α → Parser β} (hm : Keeps I bad m R)
    (hf : ∀ a, R a → Keeps I bad (f a) S) : Keeps I bad (m >>= f) S :=
  fun p => (hm p).bind fun a q _ ha => hf a ha q

protected theorem pure {a : α} (h : R a) : Keeps I bad (pure a) R := fun _ hp => ⟨hp, h⟩

protected theorem throw {e : Error} (h : e.isStructural = true) :
    Keeps I bad (throw e : Parser α) R := fun _ hp => ⟨hp, .inl h⟩

protected theorem ite {c : Prop} [Decidable c] {m n : Parser α} (hm : c → Keeps I bad m R)
    (hn : ¬ c → Keeps I bad n R) : Keeps I bad (if c then m else n) R :=
  fun p => .ite (fun h => hm h p) fun h => hn h p

protected theorem lift {r : Except Error α} {f : α → Parser β}
    (h : ∀ a, r = .ok a → Keeps I bad (f a) S) (hbad : ∀ e, r = .error e → Refusal bad e) :
    Keeps I bad (Parse.lift r >>= f) S := by
  cases r with
  | ok a => exact h a rfl
  | error e => exact fun p hp => ⟨hp, hbad e rfl⟩

protected theorem get {f : Parse → Parser β} (h : ∀ p, I.Line p → Keeps I bad (f p) S) :
    Keeps I bad (get >>= f) S := fun p hp => h p hp p hp

protected theorem set {p : Parse} (h : I.Line p) :
    Keeps I bad (set p : Parser PUnit) fun _ => True := fun _ _ => ⟨h, trivial⟩

protected theorem modify {f : Parse → Parse} (h : ∀ p, I.Line p → I.Line (f p)) :
    Keeps I bad (modify f) fun _ => True := fun p hp => ⟨h p hp, trivial⟩

protected theorem top {f : Stage → Parser β} (h : ∀ s, I.Stage s → Keeps I bad (f s) S) :
    Keeps I bad (Parse.top >>= f) S := by
  intro p hp
  obtain ⟨tokens, _ | ⟨s, rest⟩, pending, taken, slots, env⟩ := p
  · exact ⟨hp, .inl rfl⟩
  · exact h s (hp.stages s List.mem_cons_self) _ hp

protected theorem popStage {f : Stage → Parser β} (h : ∀ s, I.Stage s → Keeps I bad (f s) S) :
    Keeps I bad (Parse.popStage >>= f) S := by
  intro p hp
  obtain ⟨tokens, _ | ⟨s, rest⟩, pending, taken, slots, env⟩ := p
  · exact ⟨hp, .inl rfl⟩
  · obtain ⟨hs, hrest⟩ := List.forall_mem_cons.mp hp.stages
    exact h s hs _ ⟨hrest, hp.env⟩

protected theorem pushStage {s : Stage} (h : I.Stage s) :
    Keeps I bad (Parse.pushStage s) fun _ => True :=
  .modify fun _ hp => ⟨List.forall_mem_cons.mpr ⟨h, hp.stages⟩, hp.env⟩

protected theorem enter {x : Pending} {s : Stage} (h : I.Stage s) :
    Keeps I bad (Parse.enter x s) fun _ => True :=
  .modify fun _ hp => ⟨List.forall_mem_cons.mpr ⟨h, hp.stages⟩, hp.env⟩

protected theorem replace {s : Stage} (h : I.Stage s) :
    Keeps I bad (modify fun p => { p with stages := s :: p.stages.drop 1 }) fun _ => True :=
  .modify fun _ hp => ⟨List.forall_mem_cons.mpr
    ⟨h, fun t ht => hp.stages t (List.mem_of_mem_drop ht)⟩, hp.env⟩

end Keeps

/-- Which entries wait does not matter. -/
theorem Invariant.Line.with_pending {p : Parse} (h : I.Line p) (pending : List Pending) :
    I.Line { p with pending := pending } := ⟨h.stages, h.env⟩

section

variable {s s' : Stage} {x : Operand} {e : Error}

theorem refusal_of_push (h : s.push x = .error e) : Refusal bad e := by
  unfold Stage.push at h
  split at h <;> cases h
  exact .inl rfl

theorem refusal_of_pushAll {xs : List Operand} (h : s.pushAll xs = .error e) :
    Refusal bad e := by
  induction xs generalizing s with
  | nil => cases h
  | cons x xs ih =>
    rw [Stage.pushAll_cons] at h
    cases hs : s.push x with
    | error e' =>
      rw [hs] at h
      cases h
      exact refusal_of_push hs
    | ok s₁ =>
      rw [hs] at h
      exact ih h

theorem refusal_of_pop (h : s.pop = .error e) : Refusal bad e := by
  unfold Stage.pop at h
  split at h <;> cases h
  exact .inl rfl

theorem refusal_of_takeFirst (h : s.takeFirst = .error e) : Refusal bad e := by
  unfold Stage.takeFirst at h
  split at h <;> cases h
  exact .inl rfl

theorem refusal_of_leaf {t : String}
    (hbad : ∀ e, t.toList.head? = some '"' → Value.read t = .error e → bad e)
    (h : Leaf.read t = .error e) : Refusal bad e := by
  unfold Leaf.read at h
  split at h
  · cases h
  · cases h
  · cases h
  next hq =>
    cases hv : Value.read t with
    | ok v =>
      rw [hv] at h
      cases h
    | error e' =>
      rw [hv] at h
      cases h
      exact .inr (hbad _ (by rw [hq]; rfl) hv)
  · split at h
    · split at h <;> cases h
      exact .inl rfl
    · split at h <;> cases h

/-! ## Operands and folding -/

theorem keeps_pushOperand (hx : I.operand x) : Keeps I bad (pushOperand x) fun _ => True :=
  .popStage fun _ hs => .lift (fun _ k => .pushStage (hs.push hx k)) fun _ => refusal_of_push

theorem keeps_foldPrefix (op : Operator) : Keeps I bad (foldPrefix op) fun _ => True := by
  refine .popStage fun right hr => .popStage fun left hl => .lift (fun (x, right₁) h => ?_)
    fun _ => refusal_of_takeFirst
  obtain ⟨hx, hr₁⟩ := hr.takeFirst h
  refine .lift (fun left₁ h₁ => .lift (fun left₂ h₂ => .pushStage ?_) fun _ => refusal_of_pushAll)
    fun _ => refusal_of_push
  exact ((hl.push (I.unary hr₁.scope hx op) h₁).pushAll hr₁.operands h₂).mode _

theorem keeps_foldBinary (op : Operator) : Keeps I bad (foldBinary op) fun _ => True := by
  refine .popStage fun right hr => .popStage fun left hl => .lift (fun (x, left₁) h => ?_)
    fun _ => refusal_of_pop
  obtain ⟨hx, hl₁⟩ := hl.pop h
  refine .lift (fun (y, right₁) k => ?_) fun _ => refusal_of_takeFirst
  obtain ⟨hy, hr₁⟩ := hr.takeFirst k
  refine .lift (fun left₂ h₂ => .lift (fun left₃ h₃ => .pushStage ?_) fun _ => refusal_of_pushAll)
    fun _ => refusal_of_push
  exact ((hl₁.push (I.binary hr₁.scope hx hy op) h₂).pushAll hr₁.operands h₃).mode _

theorem keeps_foldGreater (s : Stage) : Keeps I bad (foldGreater s) fun _ => True := by
  unfold foldGreater
  split
  · exact keeps_foldBinary .gt
  · refine .popStage fun right hr => .popStage fun left hl => .lift (fun (_, right₁) h => ?_)
      fun _ => refusal_of_takeFirst
    refine .lift (fun left₁ h₁ => .pushStage ?_) fun _ => refusal_of_pushAll
    exact (hl.pushAll (hr.takeFirst h).2.operands h₁).mode _

theorem keeps_foldAssign : Keeps I bad (foldAssign context) fun _ => True := by
  refine .popStage fun right hr => .popStage fun left hl => .lift (fun (target, left₁) h => ?_)
    fun _ => refusal_of_pop
  have hl₁ := (hl.pop h).2
  match target with
  | .streamRef name =>
    refine Keeps.bind (.modify fun p hp => ⟨hp.stages, fun other g hg => ?_⟩) fun _ _ =>
      .pushStage hl₁
    by_cases e : other = name
    · subst e
      rw [Environment.set, Sorted.find?_insert_self] at hg
      exact Option.some.inj hg ▸ hr.toFactory
    · rw [Environment.set, Sorted.find?_insert_of_ne e] at hg
      exact hp.env other g hg
  | .word name =>
    exact .pushStage ⟨I.override hl₁.scope name hr.toFactory, hl₁.feed, hl₁.operands, hl₁.closure⟩
  | .value _ | .stream _ | .deferred _ => exact .throw rfl

theorem keeps_foldPipe : Keeps I bad (foldPipe context) fun _ => True := by
  refine .popStage fun right hr => .popStage fun left hl => .pushStage ?_
  refine ⟨hr.scope, ?_, hr.operands, hr.closure⟩
  rintro _ ⟨⟩
  split
  next f hf => exact I.compose hl.toFactory (hr.feed f hf)
  next => exact hl.toFactory

theorem keeps_foldSeq : Keeps I bad (foldSeq context) fun _ => True := by
  refine .popStage fun right hr => .popStage fun left hl => .pushStage ?_
  refine ⟨hr.scope, ?_, hr.operands, hr.closure⟩
  rintro _ ⟨⟩
  refine I.andThen hl.toFactory ?_
  cases hf : right.feed with
  | none => exact I.nothing
  | some f => exact hr.feed f hf

theorem keeps_foldWindow : Keeps I bad foldWindow fun _ => True :=
  .popStage fun _ _ => .popStage fun _ hl => .pushStage (hl.mode _)

theorem keeps_foldBind (slot : Handle) : Keeps I bad (foldBind context slot) fun _ => True := by
  refine .popStage fun right hr => .popStage fun left hl =>
    .ite (fun _ => .throw rfl) fun _ => .pushStage ⟨hl.scope, hl.feed, nofun, ?_⟩
  rintro _ ⟨⟩
  exact I.bind hr.toFactory slot

theorem keeps_foldTernary : Keeps I bad foldTernary fun _ => True := by
  refine .popStage fun onFalse hf => .popStage fun onTrue ht => .get fun p hp => ?_
  split
  · refine (Keeps.set (hp.with_pending _)).bind fun _ _ => .popStage fun left hl =>
      .lift (fun (x, left₁) h => ?_) fun _ => refusal_of_pop
    obtain ⟨hx, hl₁⟩ := hl.pop h
    refine .lift (fun left₂ h₂ => .pushStage ?_) fun _ => refusal_of_pushAll
    exact hl₁.pushAll (I.ternary hf.scope hx ht.operands hf.operands) h₂
  · exact (Keeps.set (hp.with_pending _)).bind fun _ _ => .throw rfl

theorem keeps_fold : Keeps I bad (fold context) fun _ => True := by
  refine .get fun p hp => ?_
  split
  · exact .throw rfl
  · refine (Keeps.set (hp.with_pending _)).bind fun _ _ => ?_
    split
    · exact .top fun s _ => keeps_foldGreater s
    · exact keeps_foldAssign
    · exact keeps_foldPipe
    · exact keeps_foldSeq
    · exact keeps_foldWindow
    · exact .ite (fun _ => keeps_foldPrefix _) fun _ =>
        .ite (fun _ => keeps_foldBinary _) fun _ => .throw rfl
    · exact keeps_foldBind _
    · exact .throw rfl
    · exact keeps_foldTernary
    · exact .throw rfl
    · exact .throw rfl

theorem keeps_foldWhile (keep : Pending → Bool) (n : Nat) :
    Keeps I bad (foldWhile context keep n) fun _ => True := by
  induction n with
  | zero => exact .pure trivial
  | succ n ih =>
    refine .get fun p _ => ?_
    split
    · exact .pure trivial
    · exact .ite (fun _ => keeps_fold.bind fun _ _ => ih) fun _ => .pure trivial

theorem keeps_foldAll (keep : Pending → Bool) : Keeps I bad (foldAll context keep) fun _ => True :=
  .get fun _ _ => keeps_foldWhile keep _

/-! ## Tokens -/

theorem keeps_infixOp (x : Pending) : Keeps I bad (infixOp context x) fun _ => True :=
  (keeps_foldAll _).bind fun _ _ => .top fun _ hs => .enter hs.child

theorem keeps_prefixOp (op : Operator) : Keeps I bad (prefixOp op) fun _ => True :=
  .top fun _ hs => .enter hs.child

theorem keeps_postfixOp (op : Operator) : Keeps I bad (postfixOp context op) fun _ => True := by
  refine (keeps_foldAll _).bind fun _ _ => .top fun s hs => .lift (fun (x, s₁) h => ?_)
    fun _ => refusal_of_pop
  obtain ⟨hx, hs₁⟩ := hs.pop h
  refine .lift (fun s₂ h₂ => .replace (hs₁.push ?_ h₂)) fun _ => refusal_of_push
  split
  · exact hx
  · exact I.unary hs₁.scope hx op

theorem keeps_ternaryElse : Keeps I bad (ternaryElse context) fun _ => True :=
  (keeps_foldAll _).bind fun _ _ => .top fun _ hs => .enter hs.child

theorem keeps_bindOp : Keeps I bad (bindOp context) fun _ => True := by
  refine (keeps_foldAll _).bind fun _ _ => .top fun s hs => ?_
  split
  · refine .ite (fun _ => .throw rfl) fun _ => .get fun p hp => ?_
    split
    refine Keeps.bind (.set ⟨hp.stages, hp.env⟩) fun _ _ => .enter ?_
    exact ⟨I.declare hs.scope _ _, nofun, nofun, nofun⟩
  · exact .throw rfl

theorem keeps_openParen : Keeps I bad openParen fun _ => True :=
  .top fun _ hs => .enter (hs.child.depth 0)

theorem keeps_closeParen : Keeps I bad (closeParen context) fun _ => True := by
  refine (keeps_foldAll _).bind fun _ _ => .get fun p hp => ?_
  split
  · refine (Keeps.set (hp.with_pending _)).bind fun _ _ => .popStage fun group hg =>
      .popStage fun s hs => .lift (fun s₁ h => .pushStage ?_) fun _ => refusal_of_push
    exact (hs.push hg.toOperand h).mode _
  · exact .throw rfl

theorem keeps_openBrace : Keeps I bad openBrace fun _ => True :=
  .get fun _ _ => .top fun _ hs => .ite (fun _ => .enter (hs.child.depth 0)) fun _ =>
    .enter (hs.child.depth _)

theorem keeps_closeRecord {body : Stage} (hb : I.Stage body)
    (hbad : ∀ e, Record.build body.scope body.operands = .error e → bad e) :
    Keeps I bad (closeRecord body) fun _ => True := by
  refine .lift (fun record h => ?_) fun e h => .inr (hbad e h)
  have hrecord : I.operand record := I.record hb.operands h
  refine .top fun s hs => ?_
  split
  · refine .ite (fun _ => ?_) fun _ => keeps_pushOperand hrecord
    refine Keeps.bind (.replace ?_) fun _ _ => keeps_pushOperand (I.typed hrecord _)
    exact ⟨hs.scope, hs.feed, fun y hy => hs.operands y (List.dropLast_subset _ hy), hs.closure⟩
  · exact keeps_pushOperand hrecord

theorem keeps_closeClosure {body : Stage} (hb : I.Stage body) :
    Keeps I bad (closeClosure context body) fun _ => True := by
  refine .top fun s hs => .ite (fun _ => .throw rfl) fun _ => .replace ?_
  refine ⟨hs.scope, hs.feed, hs.operands, ?_⟩
  rintro _ ⟨⟩
  split
  · exact hb.toFactory
  · exact I.each hb.toFactory

theorem keeps_closeBrace (hbad : ∀ body e, ClosesRecord context p body →
    Record.build body.scope body.operands = .error e → bad e) :
    KeepsAt I bad (closeBrace context) (fun _ => True) p := by
  refine (keeps_foldAll _ p).bind fun _ q hq _ => ?_
  intro hp
  obtain ⟨left, stages, _ | ⟨top, below⟩, taken, slots, env⟩ := q
  · exact ⟨hp, .inl rfl⟩
  cases top with
  | brace kind =>
    obtain _ | ⟨body, rest⟩ := stages
    · exact ⟨⟨hp.stages, hp.env⟩, .inl rfl⟩
    obtain ⟨hbody, hrest⟩ := List.forall_mem_cons.mp hp.stages
    have hopen : I.Line ⟨left, rest, below, taken, slots, env⟩ := ⟨hrest, hp.env⟩
    cases kind with
    | record =>
      have hclosed : ClosesRecord context p body := ⟨_, _, _, hq, rfl, rfl⟩
      exact keeps_closeRecord hbody (fun e h => hbad body e hclosed h) _ hopen
    | closure => exact keeps_closeClosure hbody _ hopen
  | _ => exact ⟨hp, .inl rfl⟩

section

variable {t : String} (ht : t ∈ tokens)
  (hbad : ∀ e, t.toList.head? = some '"' → Value.read t = .error e → bad e)

include ht hbad

theorem keeps_leaf : Keeps I bad (leaf t) fun _ => True :=
  .lift (fun _ h => keeps_pushOperand (I.leaf ht h)) fun _ => refusal_of_leaf hbad

theorem keeps_recordToken : Keeps I bad (recordToken context t) fun _ => True := by
  have hword : Keeps I bad (pushOperand (.word t)) fun _ => True := keeps_pushOperand (I.word ht)
  refine .top fun s _ => ?_
  cases Operator.ofInfix? t with
  | some o => exact .ite (fun _ => keeps_infixOp _) fun _ => hword
  | none => exact .ite (fun _ => hword) fun _ => keeps_leaf ht hbad

theorem keeps_plainToken : Keeps I bad (plainToken context t) fun _ => True := by
  refine .get fun p _ => .top fun s _ => ?_
  refine .ite (fun _ => keeps_bindOp) fun _ => .ite (fun _ => keeps_infixOp _) fun _ =>
    .ite (fun _ => keeps_ternaryElse) fun _ => .ite (fun _ => keeps_postfixOp _) fun _ =>
    .ite (fun _ => keeps_postfixOp _) fun _ => .ite (fun _ => keeps_prefixOp _) fun _ =>
    .ite (fun _ => keeps_prefixOp _) fun _ => .ite (fun _ => keeps_prefixOp _) fun _ => ?_
  split
  · exact keeps_infixOp _
  · exact keeps_leaf ht hbad

end

/-- Each token keeps the property, whatever it is. -/
theorem keeps_token {t : String} (ht : t ∈ tokens) (p : Parse) :
    KeepsAt I (Unread context t p) (token context t) (fun _ => True) p := by
  refine .ite (fun _ => keeps_openParen p) fun _ => .ite (fun _ => keeps_closeParen p) fun _ =>
    .ite (fun _ => keeps_openBrace p) fun _ => .ite (fun h => ?_) fun _ => ?_
  · exact keeps_closeBrace fun body e hc h' => .record (beq_iff_eq.mp h) hc h'
  · have hbad (e : Error) (hq : t.toList.head? = some '"') (h : Value.read t = .error e) :
        Unread context t p e := .token hq h
    have hrest : Keeps I (Unread context t p) (do
        let s ← top
        if 0 < s.recordDepth then recordToken context t else plainToken context t) fun _ => True :=
      .top fun _ _ => .ite (fun _ => keeps_recordToken ht hbad) fun _ => keeps_plainToken ht hbad
    exact hrest p

end

/-! ## Lines -/

/-- Tokens are refused for nothing else than the first of them that is. -/
theorem keeps_all {ts : List String} (ht : ∀ t ∈ ts, t ∈ tokens) (p : Parse)
    (hbad : ∀ q t left e, Reaches context p ts q (t :: left) →
      Unread context t { q with tokens := left } e → bad e) :
    KeepsAt I bad (all context ts) (fun _ => True) p := by
  induction ts generalizing p with
  | nil => exact Keeps.pure trivial p
  | cons t rest ih =>
    obtain ⟨ht, hrest⟩ := List.forall_mem_cons.mp ht
    have hnext : Keeps I bad (modify fun p => { p with tokens := rest }) fun _ => True :=
      .modify fun _ hp => ⟨hp.stages, hp.env⟩
    refine (hnext p).bind fun _ q hq _ => ?_
    cases hq
    have htoken : KeepsAt I bad (token context t) (fun _ => True) { p with tokens := rest } :=
      (keeps_token ht _).mono fun e h => hbad p t rest e (.here p _) h
    exact htoken.bind fun _ r hr _ => ih hrest r fun q t left e h => hbad q t left e (.read hr h)

theorem keeps_finish : Keeps I bad (finish context) fun r => I.factory r.1 := by
  refine (keeps_foldAll _).bind fun _ _ => .get fun p _ => ?_
  split
  · exact .throw rfl
  · exact .throw rfl
  · refine .popStage fun root hr => .get fun _ _ => .ite (fun _ => .pure ?_) fun _ => .throw rfl
    exact hr.toFactory

end Parse

open Parse (Invariant)

/-- A line makes what has the property of named streams that have it, and is refused only if it is
at fault or a text is no value. -/
theorem Parse.Invariant.line_keeps {context : Context} {tokens : List String}
    (I : Invariant context tokens) {w : World}
    (hw : ∀ name f, Sorted.find? name w.env.bindings = some f → I.factory f) :
    (∀ name f, Sorted.find? name (parse context tokens w).2.env.bindings = some f → I.factory f) ∧
    match (parse context tokens w).1 with
    | .ok (f, _) => I.factory f
    | .error e => Refusal (Malformed context tokens w) e := by
  have hall : KeepsAt I (Malformed context tokens w) (Parse.all context tokens) (fun _ => True)
      (.start w tokens) :=
    keeps_all (fun _ ht => ht) _ fun q t left e h k => ⟨q, t, left, h, k⟩
  have h := hall.bind (fun _ q _ _ => keeps_finish q) (Invariant.Line.start hw tokens)
  cases hr : (do Parse.all context tokens; Parse.finish context : Parser (Factory × Mode))
      (Parse.start w tokens) with
  | ok r q =>
    rw [hr] at h
    rw [parse_of_ok hr]
    exact ⟨h.1.env, h.2⟩
  | error e q =>
    rw [hr] at h
    rw [parse_of_error hr]
    exact ⟨h.1.env, h.2⟩

/-- Why a line is refused, whatever there is in it. -/
theorem refusal_of_parse {context : Context} {tokens : List String} {w w' : World} {e : Error}
    (h : parse context tokens w = (.error e, w')) : Refusal (Malformed context tokens w) e := by
  have hkeeps := (Invariant.all context tokens).line_keeps (w := w) fun _ _ _ => trivial
  rw [h] at hkeeps
  exact hkeeps.2

/-! ## Texts that are no values -/

namespace Parse

/-- A token in double quotes is an operand wherever it stands. -/
theorem token_quoted {context : Context} {t : String} {p : Parse}
    (ht : t.toList.head? = some '"') (hs : p.stages ≠ []) :
    token context t p = leaf t p := by
  have ne (m : String) (hm : m.toList.head? ≠ some '"') : (t == m) = false := by
    rw [beq_eq_false_iff_ne]
    rintro rfl
    exact hm ht
  have hop : Operator.ofInfix? t = none := by
    cases h : Operator.ofInfix? t with
    | none => rfl
    | some op =>
      obtain ⟨-, rfl⟩ := Operator.symbol_of_ofInfix? h
      cases op <;> cases ht
  have hoperator : isOperator t = false := by
    rw [isOperator, hop, ne "!" (by decide), ne "&" (by decide), ne "?" (by decide)]
    rfl
  obtain ⟨tokens, _ | ⟨s, rest⟩, pending, taken, slots, env⟩ := p
  · exact absurd rfl hs
  simp only [token, ne "(" (by decide), ne ")" (by decide), ne "\x7b" (by decide),
    ne "\x7d" (by decide), Bool.false_eq_true, if_false]
  refine (bind_ok rfl).trans ?_
  split
  · refine (bind_ok rfl).trans ?_
    simp only [hop, hoperator, Bool.false_eq_true, if_false]
  · refine (bind_ok rfl).trans ((bind_ok rfl).trans ?_)
    simp only [hop, ne "->" (by decide), ne "?" (by decide), ne ":" (by decide),
      ne ".." (by decide), ne "&" (by decide), ne "!" (by decide), ne "-" (by decide),
      ne "+" (by decide), Bool.false_and, Bool.false_eq_true, if_false]

/-- A text that is no value is the error of the token. -/
theorem token_of_unread {context : Context} {t : String} {p : Parse} {e : Error}
    (h : Unread context t p e) (hs : p.stages ≠ []) : ∃ q, token context t p = .error e q := by
  cases h with
  | token hq h =>
    obtain ⟨cs, hcs⟩ := List.head?_eq_some_iff.mp hq
    have hread : Leaf.read t = .error e := by
      simp only [Leaf.read, hcs, h]
      rfl
    refine ⟨p, (token_quoted hq hs).trans ?_⟩
    rw [leaf, hread]
    rfl
  | record ht hc h =>
    subst ht
    obtain ⟨⟨left, stages, pending, taken, slots, env⟩, below, rest, hfold, rfl, rfl⟩ := hc
    refine ⟨⟨left, rest, below, taken, slots, env⟩, (bind_ok hfold).trans ?_⟩
    refine (bind_ok rfl).trans ((bind_ok rfl).trans ((bind_ok rfl).trans ?_))
    show closeRecord _ _ = _
    rw [closeRecord, h]
    rfl

end Parse

/-- A line that comes to a text that is no value is refused for that. -/
theorem parse_of_malformed {context : Context} {tokens : List String} {w : World} {e : Error}
    (h : Malformed context tokens w e) : ∃ w', parse context tokens w = (.error e, w') := by
  obtain ⟨p, t, left, hreach, hunread⟩ := h
  obtain ⟨s, rest, hs, -⟩ := (hreach.disciplined (Parse.disciplined_start w tokens)).top
  obtain ⟨q, hq⟩ := Parse.token_of_unread hunread (by rw [hs]; exact List.cons_ne_nil s rest)
  exact ⟨_, parse_of_error (Parse.bind_error (hreach.all_eq.trans (Parse.all_error hq)))⟩

end Rill
