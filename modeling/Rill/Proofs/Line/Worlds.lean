import Mathlib.Data.List.Forall2
import Rill.Proofs.Line.Stacks

/-!
# A line is read in every world or in none

Reading a line looks at its tokens, at the values and words that it has read, and at the names of
the parameters. It looks neither at which slots the parameters got nor at what is bound. So two
lines that are the same but for that (`Parse.Akin`) are read alike: each step ends in both or fails
in both (`Parse.Agree`). Whether some tokens are a line does not depend on the world
(`exists_parse_of_parse`).
-/

namespace Rill

/-- To reading a line the operands are the same. -/
inductive Operand.Akin : Operand → Operand → Prop
  | value (v : Value) : Akin (.value v) (.value v)
  | stream (f g : Factory) : Akin (.stream f) (.stream g)
  | streamRef (name : String) : Akin (.streamRef name) (.streamRef name)
  | word (w : String) : Akin (.word w) (.word w)
  | deferred (c d : Deferred) : Akin (.deferred c) (.deferred d)

/-- The same names are parameters. -/
def Scope.Akin (s t : Scope) : Prop := ∀ name, s.isVar name = t.isVar name

/-- To reading a line the stages are the same. -/
structure Stage.Akin (s t : Stage) : Prop where
  scope : s.scope.Akin t.scope
  feed : s.feed.isSome = t.feed.isSome
  operands : List.Forall₂ Operand.Akin s.operands t.operands
  recordDepth : s.recordDepth = t.recordDepth
  closure : s.closure.isSome = t.closure.isSome

/-- To reading a line the entries are the same. -/
inductive Pending.Akin : Pending → Pending → Prop
  | op (o : Operator) : Akin (.op o) (.op o)
  | bind (h k : Handle) : Akin (.bind h) (.bind k)
  | ternary : Akin .ternary .ternary
  | ternaryElse : Akin .ternaryElse .ternaryElse
  | paren : Akin .paren .paren
  | brace (kind : Body) : Akin (.brace kind) (.brace kind)

/-- Both are results, of which `R` holds, or both are errors. -/
inductive Both {α β : Type} (R : α → β → Prop) : Except Error α → Except Error β → Prop
  | ok {a : α} {b : β} (h : R a b) : Both R (.ok a) (.ok b)
  | error (e e' : Error) : Both R (.error e) (.error e')

protected theorem Pending.Akin.refl (x : Pending) : x.Akin x := by
  cases x <;> constructor

/-! ## Operands -/

/-- To an operator the operands are the same. -/
inductive Ready.Akin : Option Ready → Option Ready → Prop
  | known (v : Value) : Akin (some (.known v)) (some (.known v))
  | lazy (f g : Factory) : Akin (some (.lazy f)) (some (.lazy g))
  | none : Akin none none

theorem Scope.Akin.isVarPath {s t : Scope} (h : s.Akin t) (w : String) :
    s.isVarPath w = t.isVarPath w := h _

theorem Scope.Akin.declare {s t : Scope} (hs : s.Akin t) (name : String) (h k : Handle) :
    (s.declare name h).Akin (t.declare name k) := by
  intro other
  show (Sorted.find? other (Sorted.insert name h s.vars)).isSome =
    (Sorted.find? other (Sorted.insert name k t.vars)).isSome
  by_cases e : other = name
  · rw [e, Sorted.find?_insert_self, Sorted.find?_insert_self]
    rfl
  · rw [Sorted.find?_insert_of_ne e, Sorted.find?_insert_of_ne e]
    exact hs other

namespace Operand.Akin

variable {s t : Scope} {x y x' y' : Operand}

theorem ready (hs : s.Akin t) (h : x.Akin y) : Ready.Akin (x.ready? s) (y.ready? t) := by
  cases h with
  | value v => exact .known v
  | stream f g => exact .lazy f g
  | streamRef name => exact .lazy _ _
  | deferred c d => exact .none
  | word w =>
    simp only [Operand.ready?, hs.isVarPath w]
    split
    · exact .none
    · exact .known _

theorem ofOutcome (r : Except Error Outcome) :
    (Operand.ofOutcome r).Akin (Operand.ofOutcome r) := by
  match r with
  | .ok (.value v) => exact .value v
  | .ok (.range _ _) | .error _ => exact .stream _ _

theorem applyUnary (hs : s.Akin t) (h : x.Akin y) (op : Operator) :
    (Operand.applyUnary s op x).Akin (Operand.applyUnary t op y) := by
  have hready := h.ready hs
  unfold Operand.applyUnary
  generalize x.ready? s = a, y.ready? t = b at hready
  cases hready with
  | known v => exact .ofOutcome _
  | lazy f g => exact .stream _ _
  | none => exact .deferred _ _

theorem applyBinary (hs : s.Akin t) (h : x.Akin y) (k : x'.Akin y') (op : Operator) :
    (Operand.applyBinary s op x x').Akin (Operand.applyBinary t op y y') := by
  have hready := h.ready hs
  have kready := k.ready hs
  unfold Operand.applyBinary
  generalize x.ready? s = a, y.ready? t = b at hready
  generalize x'.ready? s = a', y'.ready? t = b' at kready
  cases hready with
  | none => exact .deferred _ _
  | known v =>
    cases kready with
    | known w => exact .ofOutcome _
    | lazy f g => exact .stream _ _
    | none => exact .deferred _ _
  | lazy f g =>
    cases kready with
    | known w => exact .stream _ _
    | lazy f' g' => exact .stream _ _
    | none => exact .deferred _ _

theorem ternary {ts ts' fs fs' : List Operand} (hs : s.Akin t) (h : x.Akin y)
    (ht : List.Forall₂ Operand.Akin ts ts') (hf : List.Forall₂ Operand.Akin fs fs') :
    List.Forall₂ Operand.Akin (Operand.ternary s x ts fs) (Operand.ternary t y ts' fs') := by
  have hready := h.ready hs
  unfold Operand.ternary
  generalize x.ready? s = a, y.ready? t = b at hready
  cases hready with
  | known v =>
    dsimp only
    split
    · cases ht with
      | nil => exact .cons (.value v) .nil
      | cons hx hrest => exact .cons hx hrest
    · exact hf
  | lazy f g => exact .cons (.deferred _ _) .nil
  | none => exact .cons (.deferred _ _) .nil

/-- Operands that need no evaluation are the same. -/
theorem eq_of_isFixed (h : x.Akin y) (hx : Record.isFixed s x = true) : x = y := by
  cases h with
  | value v => rfl
  | word w => rfl
  | stream f g => cases hx
  | streamRef name => rfl
  | deferred c d => cases hx

theorem isFixed (hs : s.Akin t) (h : x.Akin y) : Record.isFixed s x = Record.isFixed t y := by
  cases h with
  | word w =>
    show (!s.isVarPath w) = !t.isVarPath w
    rw [hs.isVarPath]
  | _ => rfl

theorem build {xs ys : List Operand} (hs : s.Akin t) (h : List.Forall₂ Operand.Akin xs ys) :
    Both Operand.Akin (Record.build s xs) (Record.build t ys) := by
  have hall : xs.all (Record.isFixed s) = ys.all (Record.isFixed t) := by
    induction h with
    | nil => rfl
    | cons hx _ ih => rw [List.all_cons, List.all_cons, hx.isFixed hs, ih]
  unfold Record.build
  rw [← hall]
  split
  next hfixed =>
    have hxs : xs = ys := by
      clear hall
      induction h with
      | nil => rfl
      | cons hx _ ih =>
        rw [List.all_cons, Bool.and_eq_true] at hfixed
        rw [hx.eq_of_isFixed hfixed.1, ih hfixed.2]
    rw [hxs]
    cases Record.ofText none (Record.text ((Record.parts ys).map Record.fixedContent)) with
    | error e => exact .error e e
    | ok v => exact .ok (.value v)
  next => exact .ok (.deferred _ _)

theorem typed (h : x.Akin y) (type : String) :
    (Record.typed type x).Akin (Record.typed type y) := by
  cases h with
  | value v => exact .value _
  | stream f g => exact .stream f g
  | streamRef name => exact .streamRef name
  | word w => exact .word w
  | deferred c d =>
    have waits (d : Deferred) : ∃ d', Record.typed type (.deferred d) = .deferred d' := by
      unfold Record.typed
      split
      next h => cases h
      next => exact ⟨_, rfl⟩
      next => exact ⟨_, rfl⟩
    obtain ⟨c', hc⟩ := waits c
    obtain ⟨d', hd⟩ := waits d
    rw [hc, hd]
    exact .deferred c' d'

end Operand.Akin

/-! ## Stages -/

theorem isEmpty_of_forall₂ {α β : Type} {R : α → β → Prop} {xs : List α} {ys : List β}
    (h : List.Forall₂ R xs ys) : xs.isEmpty = ys.isEmpty := by
  cases h <;> rfl

theorem forall₂_getLast {α β : Type} {R : α → β → Prop} {xs : List α} {ys : List β}
    (h : List.Forall₂ R xs ys) :
    Option.Rel R xs.getLast? ys.getLast? ∧ List.Forall₂ R xs.dropLast ys.dropLast := by
  induction h with
  | nil => exact ⟨.none, .nil⟩
  | cons hx hrest ih =>
    cases hrest with
    | nil => exact ⟨.some hx, .nil⟩
    | cons hy hrest =>
      rw [List.getLast?_cons_cons, List.getLast?_cons_cons, List.dropLast_cons_cons,
        List.dropLast_cons_cons]
      exact ⟨ih.1, .cons hx ih.2⟩

namespace Stage.Akin

variable {s t : Stage} {x y : Operand}

theorem child (h : s.Akin t) : s.child.Akin t.child := ⟨h.scope, rfl, .nil, h.recordDepth, rfl⟩

theorem mode (h : s.Akin t) (m m' : Option Mode) :
    Stage.Akin { s with mode := m } { t with mode := m' } :=
  ⟨h.scope, h.feed, h.operands, h.recordDepth, h.closure⟩

theorem push (h : s.Akin t) (hx : x.Akin y) : Both Stage.Akin (s.push x) (t.push y) := by
  unfold Stage.push
  rw [← h.closure]
  split
  · exact .error _ _
  · exact .ok ⟨h.scope, h.feed, List.rel_append h.operands (.cons hx .nil), h.recordDepth,
      h.closure⟩

theorem pushAll {xs ys : List Operand} (h : s.Akin t) (hx : List.Forall₂ Operand.Akin xs ys) :
    Both Stage.Akin (s.pushAll xs) (t.pushAll ys) := by
  induction hx generalizing s t with
  | nil => exact .ok h
  | @cons x y xs ys hx _ ih =>
    rw [Stage.pushAll_cons, Stage.pushAll_cons]
    have hpush := h.push hx
    generalize s.push x = r, t.push y = r' at hpush
    cases hpush with
    | error e e' => exact .error e e'
    | ok h => exact ih h

/-- An operand that was taken, and the stage without it. -/
def Taken (r r' : Operand × Stage) : Prop := r.1.Akin r'.1 ∧ r.2.Akin r'.2

theorem pop (h : s.Akin t) : Both Taken s.pop t.pop := by
  obtain ⟨hlast, hinit⟩ := forall₂_getLast h.operands
  unfold Stage.pop
  cases hx : s.operands.getLast? <;> cases hy : t.operands.getLast? <;> rw [hx, hy] at hlast
  · exact .error _ _
  · cases hlast
  · cases hlast
  · cases hlast with
    | some hxy => exact .ok ⟨hxy, h.scope, h.feed, hinit, h.recordDepth, h.closure⟩

theorem takeFirst (h : s.Akin t) : Both Taken s.takeFirst t.takeFirst := by
  have hall := h.operands
  unfold Stage.takeFirst
  generalize s.operands = xs, t.operands = ys at hall
  cases hall with
  | nil => exact .error _ _
  | cons hx hrest => exact .ok ⟨hx, h.scope, h.feed, hrest, h.recordDepth, h.closure⟩

theorem constants? (h : s.Akin t) : s.constants? = t.constants? := by
  have hall := h.operands
  unfold Stage.constants?
  have hfeed : s.feed.isNone = t.feed.isNone := by
    rw [← Option.not_isSome, ← Option.not_isSome, h.feed]
  have hclosure : s.closure.isNone = t.closure.isNone := by
    rw [← Option.not_isSome, ← Option.not_isSome, h.closure]
  rw [hfeed, hclosure]
  congr 1
  generalize s.operands = xs, t.operands = ys at hall
  induction hall with
  | nil => rfl
  | cons hx _ ih =>
    rw [List.mapM_cons, List.mapM_cons, ih]
    cases hx <;> rfl

theorem toOperand (context : Context) (h : s.Akin t) :
    (s.toOperand context).Akin (t.toOperand context) := by
  unfold Stage.toOperand
  rw [h.constants?]
  split
  · exact .value _
  · exact .stream _ _
  · exact .stream _ _

end Stage.Akin

/-! ## Steps -/

namespace Parse

variable {context : Context} {α β γ δ : Type} {m : Parser α} {n : Parser β} {R : α → β → Prop}
  {S : γ → δ → Prop}

/-- To reading a line what has been read is the same. -/
structure Akin (p q : Parse) : Prop where
  tokens : p.tokens = q.tokens
  stages : List.Forall₂ Stage.Akin p.stages q.stages
  pending : List.Forall₂ Pending.Akin p.pending q.pending

/-- Both steps end with the same and with results of which `R` holds, or both fail. -/
inductive Agreed (R : α → β → Prop) :
    EStateM.Result Error Parse α → EStateM.Result Error Parse β → Prop
  | ok {a : α} {b : β} {p q : Parse} (hp : Akin p q) (h : R a b) : Agreed R (.ok a p) (.ok b q)
  | error (e e' : Error) (p q : Parse) : Agreed R (.error e p) (.error e' q)

/-- From lines that are the same to them the steps go the same way. -/
def Agree (m : Parser α) (n : Parser β) (R : α → β → Prop) : Prop :=
  ∀ p q, Akin p q → Agreed R (m p) (n q)

/-- Nothing is said about the results. -/
abbrev Any (_ : α) (_ : β) : Prop := True

namespace Agree

protected theorem bind {f : α → Parser γ} {g : β → Parser δ} (hm : Agree m n R)
    (hf : ∀ a b, R a b → Agree (f a) (g b) S) : Agree (m >>= f) (n >>= g) S := by
  intro p q h
  have hend := hm p q h
  cases hp : m p with
  | ok a p' =>
    cases hq : n q with
    | ok b q' =>
      rw [hp, hq] at hend
      rw [bind_ok hp, bind_ok hq]
      cases hend with
      | ok hakin hr => exact hf a b hr p' q' hakin
    | error e q' =>
      rw [hp, hq] at hend
      cases hend
  | error e p' =>
    cases hq : n q with
    | ok b q' =>
      rw [hp, hq] at hend
      cases hend
    | error e' q' =>
      rw [bind_error hp, bind_error hq]
      exact .error e e' p' q'

protected theorem pure {a : α} {b : β} (h : R a b) : Agree (pure a) (pure b) R :=
  fun _ _ hp => .ok hp h

protected theorem throw (e e' : Error) : Agree (throw e) (throw e') R :=
  fun _ _ _ => .error e e' _ _

protected theorem ite {c d : Prop} [Decidable c] [Decidable d] (h : c ↔ d) {m m' : Parser α}
    {n n' : Parser β} (hm : Agree m n R) (hn : Agree m' n' R) :
    Agree (if c then m else m') (if d then n else n') R := by
  by_cases hc : c
  · rw [if_pos hc, if_pos (h.mp hc)]
    exact hm
  · rw [if_neg hc, if_neg (mt h.mpr hc)]
    exact hn

protected theorem lift {r : Except Error α} {r' : Except Error β} {f : α → Parser γ}
    {g : β → Parser δ} (h : Both R r r') (hf : ∀ a b, R a b → Agree (f a) (g b) S) :
    Agree (Parse.lift r >>= f) (Parse.lift r' >>= g) S := by
  cases h with
  | ok h => exact hf _ _ h
  | error e e' => exact fun _ _ _ => .error e e' _ _

protected theorem top {f : Stage → Parser γ} {g : Stage → Parser δ}
    (hf : ∀ s t, s.Akin t → Agree (f s) (g t) S) : Agree (top >>= f) (top >>= g) S := by
  intro p q h
  obtain ⟨tokens, stages, pending, taken, slots, env⟩ := p
  obtain ⟨tokens', stages', pending', taken', slots', env'⟩ := q
  cases h.stages with
  | nil => exact .error _ _ _ _
  | cons hs hrest => exact hf _ _ hs _ _ ⟨h.tokens, .cons hs hrest, h.pending⟩

protected theorem popStage {f : Stage → Parser γ} {g : Stage → Parser δ}
    (hf : ∀ s t, s.Akin t → Agree (f s) (g t) S) :
    Agree (popStage >>= f) (popStage >>= g) S := by
  intro p q h
  obtain ⟨tokens, stages, pending, taken, slots, env⟩ := p
  obtain ⟨tokens', stages', pending', taken', slots', env'⟩ := q
  cases h.stages with
  | nil => exact .error _ _ _ _
  | cons hs hrest => exact hf _ _ hs _ _ ⟨h.tokens, hrest, h.pending⟩

protected theorem modify {f g : Parse → Parse} (h : ∀ p q, Akin p q → Akin (f p) (g q)) :
    Agree (modify f) (modify g) Any := fun p q hp => .ok (h p q hp) trivial

protected theorem pushStage {s t : Stage} (h : s.Akin t) :
    Agree (pushStage s) (pushStage t) Any :=
  .modify fun _ _ hp => ⟨hp.tokens, .cons h hp.stages, hp.pending⟩

protected theorem enter {x y : Pending} {s t : Stage} (hx : x.Akin y) (h : s.Akin t) :
    Agree (enter x s) (enter y t) Any :=
  .modify fun _ _ hp => ⟨hp.tokens, .cons h hp.stages, .cons hx hp.pending⟩

protected theorem replace {s t : Stage} (h : s.Akin t) :
    Agree (modify fun p => { p with stages := s :: p.stages.drop 1 })
      (modify fun p => { p with stages := t :: p.stages.drop 1 }) Any :=
  .modify fun _ _ hp => ⟨hp.tokens, .cons h (List.forall₂_drop 1 hp.stages), hp.pending⟩

end Agree

/-! ## Folding -/

theorem agree_pushOperand {x y : Operand} (hx : x.Akin y) :
    Agree (pushOperand x) (pushOperand y) Any :=
  .popStage fun _ _ hs => .lift (hs.push hx) fun _ _ h => .pushStage h

theorem agree_foldPrefix (op : Operator) : Agree (foldPrefix op) (foldPrefix op) Any :=
  .popStage fun _ _ hr => .popStage fun _ _ hl => .lift hr.takeFirst fun _ _ ⟨hx, hr⟩ =>
    .lift (hl.push (.applyUnary hr.scope hx op)) fun _ _ h => .lift (h.pushAll hr.operands)
      fun _ _ h => .pushStage (h.mode _ _)

theorem agree_foldBinary (op : Operator) : Agree (foldBinary op) (foldBinary op) Any :=
  .popStage fun _ _ hr => .popStage fun _ _ hl => .lift hl.pop fun _ _ ⟨hx, hl⟩ =>
    .lift hr.takeFirst fun _ _ ⟨hy, hr⟩ => .lift (hl.push (.applyBinary hr.scope hx hy op))
      fun _ _ h => .lift (h.pushAll hr.operands) fun _ _ h => .pushStage (h.mode _ _)

theorem fileName?_akin {s t : Stage} (h : s.Akin t) : fileName? s = fileName? t := by
  have hall := h.operands
  unfold fileName?
  generalize s.operands = xs, t.operands = ys at hall
  cases hall with
  | nil => rfl
  | cons hx _ =>
    cases hx with
    | word w =>
      show (if s.scope.isVarPath w then none else some w) =
        if t.scope.isVarPath w then none else some w
      rw [h.scope.isVarPath]
    | _ => rfl

theorem agree_foldGreater {s t : Stage} (h : s.Akin t) :
    Agree (foldGreater s) (foldGreater t) Any := by
  unfold foldGreater
  rw [fileName?_akin h]
  split
  · exact agree_foldBinary .gt
  · exact .popStage fun _ _ hr => .popStage fun _ _ hl => .lift hr.takeFirst fun _ _ ⟨_, hr⟩ =>
      .lift (hl.pushAll hr.operands) fun _ _ h => .pushStage (h.mode _ _)

theorem agree_foldAssign : Agree (foldAssign context) (foldAssign context) Any := by
  refine .popStage fun _ _ _ => .popStage fun _ _ hl => .lift hl.pop ?_
  rintro ⟨x, left⟩ ⟨y, left'⟩ ⟨hx, hl⟩
  cases hx with
  | streamRef name =>
    refine Agree.bind (.modify ?_) fun _ _ _ => .pushStage hl
    exact fun _ _ hp => ⟨hp.tokens, hp.stages, hp.pending⟩
  | word name => exact .pushStage ⟨hl.scope, hl.feed, hl.operands, hl.recordDepth, hl.closure⟩
  | _ => exact .throw _ _

theorem agree_foldPipe : Agree (foldPipe context) (foldPipe context) Any :=
  .popStage fun _ _ hr => .popStage fun _ _ _ =>
    .pushStage ⟨hr.scope, rfl, hr.operands, hr.recordDepth, hr.closure⟩

theorem agree_foldSeq : Agree (foldSeq context) (foldSeq context) Any :=
  .popStage fun _ _ hr => .popStage fun _ _ _ =>
    .pushStage ⟨hr.scope, rfl, hr.operands, hr.recordDepth, hr.closure⟩

theorem agree_foldWindow : Agree foldWindow foldWindow Any :=
  .popStage fun _ _ _ => .popStage fun _ _ hl => .pushStage (hl.mode _ _)

theorem agree_foldBind (h k : Handle) : Agree (foldBind context h) (foldBind context k) Any :=
  .popStage fun _ _ _ => .popStage fun _ _ hl => .ite (by rw [hl.closure]) (.throw _ _)
    (.pushStage ⟨hl.scope, hl.feed, .nil, hl.recordDepth, rfl⟩)

theorem agree_foldTernary : Agree foldTernary foldTernary Any := by
  refine .popStage fun f f' hf => .popStage fun s t ht p q h => ?_
  obtain ⟨tokens, stages, pending, taken, slots, env⟩ := p
  obtain ⟨tokens', stages', pending', taken', slots', env'⟩ := q
  cases h.pending with
  | nil => exact .error _ _ _ _
  | cons hx hrest =>
    cases hx with
    | ternary =>
      have hleft : Agree (do
          let left ← popStage
          let popped ← lift left.pop
          let left ← lift
            (popped.2.pushAll (Operand.ternary f.scope popped.1 s.operands f.operands))
          pushStage left) (do
          let left ← popStage
          let popped ← lift left.pop
          let left ← lift
            (popped.2.pushAll (Operand.ternary f'.scope popped.1 t.operands f'.operands))
          pushStage left) Any :=
        .popStage fun _ _ hl => .lift hl.pop fun _ _ ⟨hx, hl⟩ =>
          .lift (hl.pushAll (Operand.Akin.ternary hf.scope hx ht.operands hf.operands)) fun _ _ h =>
            .pushStage h
      exact hleft _ _ ⟨h.tokens, h.stages, hrest⟩
    | _ => exact .error _ _ _ _

theorem agree_fold : Agree (fold context) (fold context) Any := by
  intro p q h
  obtain ⟨tokens, stages, pending, taken, slots, env⟩ := p
  obtain ⟨tokens', stages', pending', taken', slots', env'⟩ := q
  cases h.pending with
  | nil => exact .error _ _ _ _
  | @cons x y xs ys hx hrest =>
    have hakin : Akin ⟨tokens, stages, xs, taken, slots, env⟩
        ⟨tokens', stages', ys, taken', slots', env'⟩ := ⟨h.tokens, h.stages, hrest⟩
    cases hx with
    | op o =>
      cases o with
      | gt => exact Agree.top (fun _ _ hs => agree_foldGreater hs) _ _ hakin
      | assign => exact agree_foldAssign _ _ hakin
      | pipe => exact agree_foldPipe _ _ hakin
      | seq => exact agree_foldSeq _ _ hakin
      | window => exact agree_foldWindow _ _ hakin
      | rangeFrom | background | bind => exact .error _ _ _ _
      | neg | pos | not => exact agree_foldPrefix _ _ _ hakin
      | _ => exact agree_foldBinary _ _ _ hakin
    | bind slot slot' => exact agree_foldBind slot slot' _ _ hakin
    | ternaryElse => exact agree_foldTernary _ _ hakin
    | ternary | paren | brace _ => exact .error _ _ _ _

/-- Which slot a `->` has taken makes no difference. -/
def Blind (keep : Pending → Bool) : Prop := ∀ x y, x.Akin y → keep x = keep y

theorem agree_foldWhile {keep : Pending → Bool} (hk : Blind keep) (n : Nat) :
    Agree (foldWhile context keep n) (foldWhile context keep n) Any := by
  induction n with
  | zero => exact .pure trivial
  | succ n ih =>
    intro p q h
    obtain ⟨tokens, stages, pending, taken, slots, env⟩ := p
    obtain ⟨tokens', stages', pending', taken', slots', env'⟩ := q
    cases h.pending with
    | nil => exact .ok ⟨h.tokens, h.stages, .nil⟩ trivial
    | @cons x y _ _ hx hrest =>
      have hstep : Agree (if keep x then do fold context; foldWhile context keep n else return ())
          (if keep y then do fold context; foldWhile context keep n else return ()) Any :=
        .ite (by rw [hk x y hx]) (agree_fold.bind fun _ _ _ => ih) (.pure trivial)
      exact hstep _ _ ⟨h.tokens, h.stages, .cons hx hrest⟩

theorem agree_foldAll {keep : Pending → Bool} (hk : Blind keep) :
    Agree (foldAll context keep) (foldAll context keep) Any := by
  intro p q h
  have hlength : p.pending.length = q.pending.length := h.pending.length_eq
  show Agreed Any (foldWhile context keep p.pending.length p)
    (foldWhile context keep q.pending.length q)
  rw [hlength]
  exact agree_foldWhile hk _ p q h

theorem blind_binds (k : Nat → Bool) : Blind (Pending.binds k) := by
  intro x y h
  cases h <;> rfl

theorem blind_bracket : Blind fun x => !x.isBracket := by
  intro x y h
  cases h <;> rfl

/-! ## Tokens -/

theorem agree_infixOp (x : Pending) : Agree (infixOp context x) (infixOp context x) Any :=
  (agree_foldAll (blind_binds _)).bind fun _ _ _ => .top fun _ _ hs => .enter (.refl x) hs.child

theorem agree_prefixOp (op : Operator) : Agree (prefixOp op) (prefixOp op) Any :=
  .top fun _ _ hs => .enter (.refl _) hs.child

theorem agree_postfixOp (op : Operator) :
    Agree (postfixOp context op) (postfixOp context op) Any := by
  refine (agree_foldAll (blind_binds _)).bind fun _ _ _ => .top fun _ _ hs => .lift hs.pop ?_
  rintro ⟨x, s⟩ ⟨y, t⟩ ⟨hx, hs⟩
  refine .lift (hs.push ?_) fun _ _ h => .replace h
  split
  · exact hx
  · exact .applyUnary hs.scope hx op

theorem agree_ternaryElse : Agree (ternaryElse context) (ternaryElse context) Any := by
  refine (agree_foldAll ?_).bind fun _ _ _ => .top fun _ _ hs => .enter (.refl _) hs.child
  intro x y h
  cases h <;> rfl

theorem agree_bindOp : Agree (bindOp context) (bindOp context) Any := by
  refine (agree_foldAll (blind_binds _)).bind fun _ _ _ => .top fun s t hs => ?_
  have hall := hs.operands
  generalize s.operands = xs, t.operands = ys at hall
  cases hall with
  | nil => exact .throw _ _
  | cons hx hrest =>
    cases hrest with
    | cons _ _ => cases hx <;> exact .throw _ _
    | nil =>
      cases hx with
      | word name =>
        refine .ite Iff.rfl (.throw _ _) fun p q h => ?_
        exact .ok ⟨h.tokens, .cons ⟨hs.scope.declare name _ _, rfl, .nil, hs.recordDepth, rfl⟩
          h.stages, .cons (.bind _ _) h.pending⟩ trivial
      | _ => exact .throw _ _

theorem agree_openParen : Agree openParen openParen Any :=
  .top fun _ _ hs => .enter (.refl _) ⟨hs.scope, rfl, .nil, rfl, rfl⟩

theorem agree_closeParen : Agree (closeParen context) (closeParen context) Any := by
  refine (agree_foldAll blind_bracket).bind fun _ _ _ p q h => ?_
  obtain ⟨tokens, stages, pending, taken, slots, env⟩ := p
  obtain ⟨tokens', stages', pending', taken', slots', env'⟩ := q
  cases h.pending with
  | nil => exact .error _ _ _ _
  | cons hx hrest =>
    cases hx with
    | paren =>
      have hclose : Agree (do
          let group ← popStage
          let s ← popStage
          let s ← lift (s.push (group.toOperand context))
          pushStage { s with mode := s.mode <|> group.mode }) (do
          let group ← popStage
          let s ← popStage
          let s ← lift (s.push (group.toOperand context))
          pushStage { s with mode := s.mode <|> group.mode }) Any :=
        .popStage fun _ _ hg => .popStage fun _ _ hs =>
          .lift (hs.push (hg.toOperand context)) fun _ _ h => .pushStage (h.mode _ _)
      exact hclose _ _ ⟨h.tokens, h.stages, hrest⟩
    | _ => exact .error _ _ _ _

theorem opensClosure_akin {s t : Stage} {xs ys : List Pending} (hs : s.Akin t)
    (h : List.Forall₂ Pending.Akin xs ys) (tokens : List String) :
    opensClosure s xs tokens = opensClosure t ys tokens := by
  have hempty : s.operands.isEmpty = t.operands.isEmpty := isEmpty_of_forall₂ hs.operands
  have hclosure : s.closure.isNone = t.closure.isNone := by
    rw [← Option.not_isSome, ← Option.not_isSome, hs.closure]
  unfold opensClosure
  rw [hs.recordDepth, hempty, hclosure]
  congr 1
  cases h with
  | nil => rfl
  | cons hx _ =>
    cases hx with
    | op o => cases o <;> rfl
    | _ => rfl

theorem agree_openBrace : Agree openBrace openBrace Any := by
  intro p q h
  have hbrace : Agree (do
      let s ← top
      if opensClosure s p.pending p.tokens then
        enter (.brace .closure) { s.child with recordDepth := 0 }
      else enter (.brace .record) { s.child with recordDepth := s.recordDepth + 1 }) (do
      let s ← top
      if opensClosure s q.pending q.tokens then
        enter (.brace .closure) { s.child with recordDepth := 0 }
      else enter (.brace .record) { s.child with recordDepth := s.recordDepth + 1 }) Any := by
    refine .top fun s t hs => .ite ?_ (.enter (.refl _) ⟨hs.scope, rfl, .nil, rfl, rfl⟩)
      (.enter (.refl _) ⟨hs.scope, rfl, .nil, congrArg (· + 1) hs.recordDepth, rfl⟩)
    rw [opensClosure_akin hs h.pending, h.tokens]
  exact hbrace p q h

theorem agree_closeRecord {body body' : Stage} (hb : body.Akin body') :
    Agree (closeRecord body) (closeRecord body') Any := by
  refine .lift (Operand.Akin.build hb.scope hb.operands) fun x y hx => .top fun s t hs => ?_
  obtain ⟨hlast, hinit⟩ := forall₂_getLast hs.operands
  generalize s.operands.getLast? = a, t.operands.getLast? = b at hlast
  cases hlast with
  | none => exact agree_pushOperand hx
  | some hw =>
    cases hw with
    | word w =>
      refine .ite ?_ ?_ (agree_pushOperand hx)
      · simp only [isTypeName, hs.scope.isVarPath]
      · refine Agree.bind (.replace ?_) fun _ _ _ => agree_pushOperand (hx.typed w)
        exact ⟨hs.scope, hs.feed, hinit, hs.recordDepth, hs.closure⟩
    | _ => exact agree_pushOperand hx

theorem agree_closeClosure {body body' : Stage} :
    Agree (closeClosure context body) (closeClosure context body') Any := by
  refine .top fun s t hs => .ite ?_ (.throw _ _)
    (.replace ⟨hs.scope, hs.feed, hs.operands, hs.recordDepth, rfl⟩)
  have hempty : s.operands.isEmpty = t.operands.isEmpty := isEmpty_of_forall₂ hs.operands
  rw [hs.closure, hempty]

theorem agree_closeBrace : Agree (closeBrace context) (closeBrace context) Any := by
  refine (agree_foldAll blind_bracket).bind fun _ _ _ p q h => ?_
  obtain ⟨tokens, stages, pending, taken, slots, env⟩ := p
  obtain ⟨tokens', stages', pending', taken', slots', env'⟩ := q
  cases h.pending with
  | nil => exact .error _ _ _ _
  | @cons x y xs ys hx hrest =>
    cases hx with
    | brace kind =>
      have hakin : Akin ⟨tokens, stages, xs, taken, slots, env⟩
        ⟨tokens', stages', ys, taken', slots', env'⟩ := ⟨h.tokens, h.stages, hrest⟩
      cases kind with
      | record => exact Agree.popStage (fun _ _ hb => agree_closeRecord hb) _ _ hakin
      | closure => exact Agree.popStage (fun _ _ _ => agree_closeClosure) _ _ hakin
    | _ => exact .error _ _ _ _

theorem agree_leaf (t : String) : Agree (leaf t) (leaf t) Any := by
  refine Agree.lift (R := Operand.Akin) ?_ fun _ _ hx => agree_pushOperand hx
  cases Leaf.read t with
  | error e => exact .error e e
  | ok x =>
    refine .ok ?_
    cases x with
    | value v => exact .value v
    | stream f => exact .stream f f
    | streamRef name => exact .streamRef name
    | word w => exact .word w
    | deferred d => exact .deferred d d

theorem agree_recordToken (token : String) :
    Agree (recordToken context token) (recordToken context token) Any := by
  refine .top fun s t hs => ?_
  have hword : Agree (pushOperand (.word token)) (pushOperand (.word token)) Any :=
    agree_pushOperand (.word token)
  cases Operator.ofInfix? token with
  | none => exact .ite Iff.rfl hword (agree_leaf token)
  | some op =>
    refine .ite ?_ (agree_infixOp _) hword
    obtain ⟨hlast, -⟩ := forall₂_getLast hs.operands
    generalize s.operands.getLast? = a, t.operands.getLast? = b at hlast
    cases hlast with
    | none => exact Iff.rfl
    | some hx => cases hx <;> exact Iff.rfl

theorem hasOpenTernary_akin {xs ys : List Pending} (h : List.Forall₂ Pending.Akin xs ys)
    (closed : Nat) : hasOpenTernary closed xs = hasOpenTernary closed ys := by
  induction h generalizing closed with
  | nil => rfl
  | cons hx _ ih =>
    cases hx with
    | ternary => rw [hasOpenTernary, hasOpenTernary, ih]
    | ternaryElse => exact ih (closed + 1)
    | op _ | bind _ _ => exact ih closed
    | paren | brace _ => rfl

theorem agree_plainToken (token : String) :
    Agree (plainToken context token) (plainToken context token) Any := by
  intro p q h
  refine Agree.top (fun s t hs => ?_) p q h
  have hempty : s.operands.isEmpty = t.operands.isEmpty := isEmpty_of_forall₂ hs.operands
  refine .ite Iff.rfl agree_bindOp (.ite Iff.rfl (agree_infixOp _) (.ite ?_ agree_ternaryElse
    (.ite ?_ (agree_postfixOp _) (.ite Iff.rfl (agree_postfixOp _) (.ite Iff.rfl (agree_prefixOp _)
    (.ite ?_ (agree_prefixOp _) (.ite ?_ (agree_prefixOp _) ?_)))))))
  · rw [hasOpenTernary_akin h.pending]
  · rw [h.tokens]
  · rw [hempty]
  · rw [hempty]
  · cases Operator.ofInfix? token with
    | some op => exact agree_infixOp _
    | none => exact agree_leaf token

theorem agree_token (t : String) : Agree (token context t) (token context t) Any := by
  refine .ite Iff.rfl agree_openParen (.ite Iff.rfl agree_closeParen (.ite Iff.rfl agree_openBrace
    (.ite Iff.rfl agree_closeBrace (.top fun _ _ hs => ?_))))
  exact .ite (by rw [hs.recordDepth]) (agree_recordToken t) (agree_plainToken t)

/-! ## Lines -/

theorem agree_all (tokens : List String) :
    Agree (all context tokens) (all context tokens) Any := by
  induction tokens with
  | nil => exact .pure trivial
  | cons t rest ih =>
    refine Agree.bind (.modify ?_) fun _ _ _ => (agree_token t).bind fun _ _ _ => ih
    exact fun _ _ hp => ⟨rfl, hp.stages, hp.pending⟩

theorem agree_finish : Agree (finish context) (finish context) Any := by
  refine (agree_foldAll blind_bracket).bind fun _ _ _ p q h => ?_
  have hroot : Agree (do
      let root ← popStage
      if (← get).stages.isEmpty then return (root.toFactory context, root.mode.getD .default)
      else throw .missingOperator : Parser (Factory × Mode)) (do
      let root ← popStage
      if (← get).stages.isEmpty then return (root.toFactory context, root.mode.getD .default)
      else throw .missingOperator : Parser (Factory × Mode)) Any := by
    refine .popStage fun s t hs p q h => ?_
    have hempty : p.stages.isEmpty = q.stages.isEmpty := isEmpty_of_forall₂ h.stages
    exact Agree.ite (by rw [hempty]) (.pure trivial) (.throw _ _) p q h
  obtain ⟨tokens, stages, pending, taken, slots, env⟩ := p
  obtain ⟨tokens', stages', pending', taken', slots', env'⟩ := q
  cases h.pending with
  | nil => exact hroot _ _ ⟨h.tokens, h.stages, .nil⟩
  | cons hx hrest =>
    cases hx with
    | paren | brace _ => exact .error _ _ _ _
    | bind _ _ => exact hroot _ _ ⟨h.tokens, h.stages, .cons (.bind _ _) hrest⟩
    | _ => exact hroot _ _ ⟨h.tokens, h.stages, .cons (.refl _) hrest⟩

theorem akin_start (tokens : List String) (w w' : World) :
    Akin (start w tokens) (start w' tokens) :=
  ⟨rfl, .cons ⟨fun _ => rfl, rfl, .nil, rfl, rfl⟩ .nil, .nil⟩

end Parse

/-- What is a line in some world is a line in every world. -/
theorem exists_parse_of_parse {context : Context} {tokens : List String} {w w₁ : World}
    {r : Factory × Mode} (h : parse context tokens w = (.ok r, w₁)) (w' : World) :
    ∃ r' w₂, parse context tokens w' = (.ok r', w₂) := by
  have hline : Parse.Agree (do Parse.all context tokens; Parse.finish context)
      (do Parse.all context tokens; Parse.finish context) Parse.Any :=
    (Parse.agree_all tokens).bind fun _ _ _ => Parse.agree_finish
  have hagree := hline _ _ (Parse.akin_start tokens w w')
  cases hp : (do Parse.all context tokens; Parse.finish context : Parser (Factory × Mode))
      (Parse.start w tokens) with
  | error e q =>
    rw [parse_of_error hp] at h
    cases h
  | ok r q =>
    cases hq : (do Parse.all context tokens; Parse.finish context : Parser (Factory × Mode))
        (Parse.start w' tokens) with
    | ok r' q' => exact ⟨r', _, parse_of_ok hq⟩
    | error e q' =>
      rw [hp, hq] at hagree
      cases hagree

end Rill
