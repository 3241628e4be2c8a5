import Rill.Proofs.Line.Steps
import Rill.Proofs.Sorted

/-!
# What a line does to the environment

A line binds names while it is read, whenever an `=` is folded. It never looks at the environment:
in whatever environment it is read, it makes the same bindings and ends in the same way
(`Parse.tracks_line`). A line that fails keeps the bindings that it made before. So it leaves what is
bound alone exactly if these were there already, and always if it has no `=`
(`parse_error_bindings`).
-/

namespace Rill

/-- The environment after some names were bound, one after the other. -/
def Environment.setAll (env : Environment) (made : List (String × Factory)) : Environment :=
  { env with bindings := Sorted.merge env.bindings made }

namespace Parse

/-- The line in another environment. -/
def within (p : Parse) (env : Environment) : Parse := { p with env := env }

/-- An `=` waits only if there is one in the line. -/
def AssignOk (line : List String) (p : Parse) : Prop := .op .assign ∈ p.pending → "=" ∈ line

/-- In every environment, reading goes on from `p` in the same way, and makes the same bindings;
none if there is no `=` in the line. -/
inductive Tracked {α : Type} (line : List String) (m : Parser α) (p : Parse) : Prop
  | ok (a : α) (q : Parse) (made : List (String × Factory)) (hq : AssignOk line q)
    (hm : made = [] ∨ "=" ∈ line)
    (h : ∀ env, m (p.within env) = .ok a (q.within (env.setAll made)))
  | error (e : Error) (q : Parse) (made : List (String × Factory)) (hm : made = [] ∨ "=" ∈ line)
    (h : ∀ env, m (p.within env) = .error e (q.within (env.setAll made)))

/-- A step of reading a line that never looks at the environment. -/
def Tracks {α : Type} (line : List String) (m : Parser α) : Prop :=
  ∀ p, AssignOk line p → Tracked line m p

end Parse

open Parse (AssignOk Tracked Tracks)

variable {α β : Type} {line : List String} {context : Context}

namespace Parse

/-! ## Steps one after the other -/

theorem Tracked.bind {m : Parser α} {f : α → Parser β} {p : Parse} (hm : Tracked line m p)
    (hf : ∀ a, Tracks line (f a)) : Tracked line (m >>= f) p := by
  cases hm with
  | ok a q made hq hmade h =>
    have step (env : Environment) : (m >>= f) (p.within env) = f a (q.within (env.setAll made)) :=
      bind_ok (h env)
    have both (env : Environment) (more : List (String × Factory)) :
        (env.setAll made).setAll more = env.setAll (made ++ more) := by
      simp only [Environment.setAll, Sorted.merge, List.foldl_append]
    have either {more : List (String × Factory)} (hmore : more = [] ∨ "=" ∈ line) :
        made ++ more = [] ∨ "=" ∈ line := by
      rcases hmade with rfl | h
      · exact hmore
      · exact .inr h
    cases hf a q hq with
    | ok b r more hr hmore k =>
      exact .ok b r (made ++ more) hr (either hmore) fun env => by rw [step, k, both]
    | error e r more hmore k =>
      exact .error e r (made ++ more) (either hmore) fun env => by rw [step, k, both]
  | error e q made hmade h =>
    exact .error e q made hmade fun env => bind_error (h env)

namespace Tracks

protected theorem bind {m : Parser α} {f : α → Parser β} (hm : Tracks line m)
    (hf : ∀ a, Tracks line (f a)) : Tracks line (m >>= f) := fun p hp => (hm p hp).bind hf

protected theorem pure (a : α) : Tracks line (pure a : Parser α) :=
  fun p hp => .ok a p [] hp (.inl rfl) fun _ => rfl

protected theorem throw (e : Error) : Tracks line (throw e : Parser α) :=
  fun p _ => .error e p [] (.inl rfl) fun _ => rfl

protected theorem lift : ∀ r : Except Error α, Tracks line (Parse.lift r)
  | .ok a => .pure a
  | .error e => .throw e

protected theorem ite {c : Prop} [Decidable c] {m n : Parser α} (hm : Tracks line m)
    (hn : Tracks line n) : Tracks line (if c then m else n) := by
  split
  · exact hm
  · exact hn

/-- A change of the stacks that does not look at the environment. -/
protected theorem modify {f : Parse → Parse} (h : ∀ p env, f (p.within env) = (f p).within env)
    (hp : ∀ p, AssignOk line p → AssignOk line (f p)) :
    Tracks line (modify f : Parser Unit) :=
  fun p hok => .ok () (f p) [] (hp p hok) (.inl rfl) fun env => by
    show EStateM.Result.ok () (f (p.within env)) = _
    rw [h]
    rfl

/-- A step that looks at the line, but not at its environment. -/
protected theorem get {f : Parse → Parser α} (h : ∀ p, AssignOk line p →
    ∃ m, (∀ env, f (p.within env) (p.within env) = m (p.within env)) ∧ Tracked line m p) :
    Tracks line (get >>= f) := by
  intro p hp
  obtain ⟨m, e, hm⟩ := h p hp
  cases hm with
  | ok a q made hq hmade k => exact .ok a q made hq hmade fun env => (e env).trans (k env)
  | error r q made hmade k => exact .error r q made hmade fun env => (e env).trans (k env)

/-- A step that looks at the stacks or the tokens only. -/
protected theorem look {f : Parse → Parser α} (e : ∀ p env, f (p.within env) = f p)
    (h : ∀ p, Tracks line (f p)) : Tracks line (MonadState.get >>= f) :=
  .get fun p hp => ⟨f p, fun env => by rw [e], h p p hp⟩

end Tracks

/-! ## The stacks -/

theorem tracks_top : Tracks line top := by
  refine .get fun p hp => ?_
  obtain ⟨tokens, _ | ⟨s, rest⟩, pending, taken, slots, e⟩ := p
  · exact ⟨throw _, fun _ => rfl, Tracks.throw _ _ hp⟩
  · exact ⟨pure s, fun _ => rfl, Tracks.pure s _ hp⟩

theorem tracks_pushStage (s : Stage) : Tracks line (pushStage s) :=
  .modify (fun _ _ => rfl) fun _ => id

theorem tracks_popStage : Tracks line popStage := by
  refine .get fun p hp => ?_
  obtain ⟨tokens, _ | ⟨s, rest⟩, pending, taken, slots, e⟩ := p
  · exact ⟨throw _, fun _ => rfl, Tracks.throw _ _ hp⟩
  · refine ⟨do modify fun q => { q with stages := rest }; return s, fun _ => rfl, ?_⟩
    refine Tracked.bind (.ok () ⟨tokens, rest, pending, taken, slots, e⟩ [] hp (.inl rfl) ?_)
      fun _ => .pure s
    exact fun _ => rfl

theorem tracks_enter {pending : Pending} (h : pending = .op .assign → "=" ∈ line) (s : Stage) :
    Tracks line (enter pending s) := by
  refine .modify (fun _ _ => rfl) fun p hp hmem => ?_
  rcases List.mem_cons.mp hmem with e | hmem
  · exact h e.symm
  · exact hp hmem

theorem tracks_pushOperand (x : Operand) : Tracks line (pushOperand x) :=
  .bind tracks_popStage fun _ => (Tracks.lift _).bind fun _ => tracks_pushStage _

/-! ## Folding -/

theorem tracks_foldPrefix (op : Operator) : Tracks line (foldPrefix op) :=
  .bind tracks_popStage fun _ => .bind tracks_popStage fun _ => (Tracks.lift _).bind fun _ =>
    (Tracks.lift _).bind fun _ => (Tracks.lift _).bind fun _ => tracks_pushStage _

theorem tracks_foldBinary (op : Operator) : Tracks line (foldBinary op) :=
  .bind tracks_popStage fun _ => .bind tracks_popStage fun _ => (Tracks.lift _).bind fun _ =>
    (Tracks.lift _).bind fun _ => (Tracks.lift _).bind fun _ => (Tracks.lift _).bind fun _ =>
      tracks_pushStage _

theorem tracks_foldGreater (s : Stage) : Tracks line (foldGreater s) := by
  unfold foldGreater
  split
  · exact tracks_foldBinary .gt
  · exact .bind tracks_popStage fun _ => .bind tracks_popStage fun _ =>
      (Tracks.lift _).bind fun _ => (Tracks.lift _).bind fun _ => tracks_pushStage _

/-- The one step that binds a name. -/
theorem tracks_foldAssign (h : "=" ∈ line) : Tracks line (foldAssign context) := by
  refine .bind tracks_popStage fun right => .bind tracks_popStage fun left =>
    (Tracks.lift _).bind fun (target, left) => ?_
  match target with
  | .streamRef name =>
    refine Tracks.bind (fun p hp => ?_) fun _ => tracks_pushStage left
    exact .ok () p [(name, right.toFactory context)] hp (.inr h) fun _ => rfl
  | .word name => exact tracks_pushStage _
  | .value _ | .stream _ | .deferred _ => exact .throw _

theorem tracks_foldPipe : Tracks line (foldPipe context) :=
  .bind tracks_popStage fun _ => .bind tracks_popStage fun _ => tracks_pushStage _

theorem tracks_foldSeq : Tracks line (foldSeq context) :=
  .bind tracks_popStage fun _ => .bind tracks_popStage fun _ => tracks_pushStage _

theorem tracks_foldWindow : Tracks line foldWindow :=
  .bind tracks_popStage fun _ => .bind tracks_popStage fun _ => tracks_pushStage _

theorem tracks_foldBind (slot : Handle) : Tracks line (foldBind context slot) :=
  .bind tracks_popStage fun _ => .bind tracks_popStage fun _ => .ite (.throw _) (tracks_pushStage _)

/-- Operators that wait no longer. -/
theorem tracks_setPending {p : Parse} (hp : AssignOk line p) {pending : List Pending}
    (h : pending ⊆ p.pending) {m : Parser α} (hm : Tracks line m) :
    ∃ n : Parser α, (∀ env, (do set { p.within env with pending := pending }; m : Parser α)
      (p.within env) = n (p.within env)) ∧ Tracked line n p := by
  refine ⟨do modify fun q => { q with pending := pending }; m, fun _ => rfl, ?_⟩
  refine Tracked.bind (.ok () { p with pending := pending } [] (fun hmem => hp (h hmem)) (.inl rfl)
    fun _ => rfl) fun _ => hm

theorem tracks_foldTernary : Tracks line foldTernary := by
  refine .bind tracks_popStage fun onFalse => .bind tracks_popStage fun onTrue => ?_
  refine .get fun p hp => ?_
  have hrest : Tracks line (do
      let left ← popStage
      let popped ← lift left.pop
      let left ← lift
        (popped.2.pushAll (Operand.ternary onFalse.scope popped.1 onTrue.operands onFalse.operands))
      pushStage left) :=
    .bind tracks_popStage fun _ => (Tracks.lift _).bind fun _ => (Tracks.lift _).bind fun _ =>
      tracks_pushStage _
  obtain ⟨tokens, stages, pending, taken, slots, e⟩ := p
  cases pending with
  | nil => exact tracks_setPending hp (List.drop_subset 1 _) (.throw _)
  | cons top rest =>
    cases top with
    | ternary => exact tracks_setPending hp (List.subset_cons_self ..) hrest
    | _ => exact tracks_setPending hp (List.drop_subset 1 _) (.throw _)

theorem tracks_fold : Tracks line (fold context) := by
  refine .get fun p hp => ?_
  obtain ⟨tokens, stages, _ | ⟨top, rest⟩, taken, slots, e⟩ := p
  · exact ⟨throw _, fun _ => rfl, Tracks.throw _ _ hp⟩
  · refine tracks_setPending hp (List.subset_cons_self top rest) ?_
    cases top with
    | op o =>
      have hother : Tracks line (if o.place = .before then foldPrefix o
          else if o.isValueOp || o = .range then foldBinary o
          else throw (.parse ("unexpected operator " ++ o.symbol))) :=
        .ite (tracks_foldPrefix o) (.ite (tracks_foldBinary o) (.throw _))
      cases o with
      | gt => exact .bind tracks_top fun s => tracks_foldGreater s
      | assign => exact tracks_foldAssign (hp List.mem_cons_self)
      | pipe => exact tracks_foldPipe
      | seq => exact tracks_foldSeq
      | window => exact tracks_foldWindow
      | _ => exact hother
    | bind slot => exact tracks_foldBind slot
    | ternary => exact .throw _
    | ternaryElse => exact tracks_foldTernary
    | paren => exact .throw _
    | brace _ => exact .throw _

theorem tracks_foldWhile (keep : Pending → Bool) :
    ∀ count, Tracks line (foldWhile context keep count)
  | 0 => .pure ()
  | count + 1 => by
    refine .get fun p hp => ?_
    obtain ⟨tokens, stages, _ | ⟨top, rest⟩, taken, slots, e⟩ := p
    · exact ⟨pure (), fun _ => rfl, Tracks.pure _ _ hp⟩
    · refine ⟨_, fun _ => rfl, ?_⟩
      exact Tracks.ite (.bind tracks_fold fun _ => tracks_foldWhile keep count) (.pure ()) _ hp

theorem tracks_foldAll (keep : Pending → Bool) : Tracks line (foldAll context keep) :=
  .get fun p hp => ⟨_, fun _ => rfl, tracks_foldWhile keep p.pending.length p hp⟩

/-! ## Operators -/

theorem tracks_infixOp {pending : Pending} (h : pending = .op .assign → "=" ∈ line) :
    Tracks line (infixOp context pending) :=
  (tracks_foldAll _).bind fun _ => .bind tracks_top fun _ => tracks_enter h _

theorem tracks_prefixOp {op : Operator} (h : op ≠ .assign) : Tracks line (prefixOp op) :=
  .bind tracks_top fun _ => tracks_enter (fun e => absurd (Pending.op.inj e) h) _

theorem tracks_postfixOp (op : Operator) : Tracks line (postfixOp context op) :=
  (tracks_foldAll _).bind fun _ => .bind tracks_top fun _ => (Tracks.lift _).bind fun _ =>
    (Tracks.lift _).bind fun _ => .modify (fun _ _ => rfl) fun _ => id

theorem tracks_ternaryElse : Tracks line (ternaryElse context) :=
  (tracks_foldAll _).bind fun _ => .bind tracks_top fun _ => tracks_enter (by nofun) _

theorem tracks_bindOp : Tracks line (bindOp context) := by
  refine (tracks_foldAll _).bind fun _ => .bind tracks_top fun s => ?_
  split
  · refine .ite (.throw _) (.get fun p hp => ?_)
    rename_i name _
    let next : Parse := { p with slots := p.slots.alloc.2, taken := p.taken ++ [p.slots.alloc.1] }
    refine ⟨do
      modify fun q => { q with slots := next.slots, taken := next.taken }
      enter (.bind p.slots.alloc.1)
        { s.child with scope := s.child.scope.declare name p.slots.alloc.1 }, fun _ => rfl, ?_⟩
    refine Tracked.bind (.ok () next [] hp (.inl rfl) fun _ => rfl) fun _ => ?_
    exact tracks_enter (by nofun) _
  · exact .throw _

/-! ## Brackets -/

theorem tracks_openParen : Tracks line openParen :=
  .bind tracks_top fun _ => tracks_enter (by nofun) _

theorem tracks_closeParen : Tracks line (closeParen context) := by
  refine (tracks_foldAll _).bind fun _ => .get fun p hp => ?_
  have hgroup : Tracks line (do
      let group ← popStage
      let s ← popStage
      let s ← lift (s.push (group.toOperand context))
      pushStage { s with mode := s.mode <|> group.mode }) :=
    .bind tracks_popStage fun _ => .bind tracks_popStage fun _ => (Tracks.lift _).bind fun _ =>
      tracks_pushStage _
  obtain ⟨tokens, stages, _ | ⟨top, rest⟩, taken, slots, e⟩ := p
  · exact ⟨throw _, fun _ => rfl, Tracks.throw _ _ hp⟩
  · cases top with
    | paren => exact tracks_setPending hp (List.subset_cons_self ..) hgroup
    | _ => exact ⟨throw _, fun _ => rfl, Tracks.throw _ _ hp⟩

theorem tracks_openBrace : Tracks line openBrace := by
  refine .look (fun _ _ => rfl) fun p => .bind tracks_top fun s => ?_
  exact .ite (tracks_enter (by nofun) _) (tracks_enter (by nofun) _)

theorem tracks_closeRecord (body : Stage) : Tracks line (closeRecord body) := by
  refine (Tracks.lift _).bind fun record => .bind tracks_top fun s => ?_
  split
  · refine .ite (.bind ?_ fun _ => tracks_pushOperand _) (tracks_pushOperand _)
    exact .modify (fun _ _ => rfl) fun _ => id
  · exact tracks_pushOperand _

theorem tracks_closeClosure (body : Stage) : Tracks line (closeClosure context body) :=
  .bind tracks_top fun _ => .ite (.throw _) (.modify (fun _ _ => rfl) fun _ => id)

theorem tracks_closeBrace : Tracks line (closeBrace context) := by
  refine (tracks_foldAll _).bind fun _ => .get fun p hp => ?_
  obtain ⟨tokens, stages, _ | ⟨top, rest⟩, taken, slots, e⟩ := p
  · exact ⟨throw _, fun _ => rfl, Tracks.throw _ _ hp⟩
  · cases top with
    | brace kind =>
      refine tracks_setPending hp (List.subset_cons_self ..) (.bind tracks_popStage fun body => ?_)
      cases kind with
      | record => exact tracks_closeRecord body
      | closure => exact tracks_closeClosure body
    | _ => exact ⟨throw _, fun _ => rfl, Tracks.throw _ _ hp⟩

/-! ## Tokens -/

theorem tracks_leaf (token : String) : Tracks line (leaf token) :=
  (Tracks.lift _).bind fun _ => tracks_pushOperand _

theorem tracks_operator {token : String} (h : token ∈ line) {op : Operator}
    (e : Operator.ofInfix? token = some op) : Tracks line (infixOp context (.op op)) := by
  refine tracks_infixOp fun heq => ?_
  obtain rfl := Pending.op.inj heq
  obtain ⟨-, rfl⟩ := Operator.symbol_of_ofInfix? e
  exact h

theorem tracks_recordToken {token : String} (h : token ∈ line) :
    Tracks line (recordToken context token) := by
  refine .bind tracks_top fun s => ?_
  cases e : Operator.ofInfix? token with
  | some op => exact .ite (tracks_operator h e) (tracks_pushOperand _)
  | none => exact .ite (tracks_pushOperand _) (tracks_leaf _)

theorem tracks_plainToken {token : String} (h : token ∈ line) :
    Tracks line (plainToken context token) := by
  refine .look (fun _ _ => rfl) fun p => .bind tracks_top fun s => ?_
  refine .ite tracks_bindOp (.ite (tracks_infixOp (by nofun)) (.ite tracks_ternaryElse ?_))
  refine .ite (tracks_postfixOp _) (.ite (tracks_postfixOp _) ?_)
  refine .ite (tracks_prefixOp (by decide)) (.ite (tracks_prefixOp (by decide)) ?_)
  refine .ite (tracks_prefixOp (by decide)) ?_
  cases e : Operator.ofInfix? token with
  | some op => exact tracks_operator h e
  | none => exact tracks_leaf _

theorem tracks_token {token : String} (h : token ∈ line) :
    Tracks line (Parse.token context token) := by
  refine .ite tracks_openParen (.ite tracks_closeParen (.ite tracks_openBrace ?_))
  refine .ite tracks_closeBrace (.bind tracks_top fun s => ?_)
  exact .ite (tracks_recordToken h) (tracks_plainToken h)

theorem tracks_all : ∀ {tokens : List String}, tokens ⊆ line → Tracks line (all context tokens)
  | [], _ => .pure ()
  | t :: rest, h => by
    refine .bind ?_ fun _ => (tracks_token (h List.mem_cons_self)).bind fun _ => tracks_all ?_
    · exact .modify (fun _ _ => rfl) fun _ => id
    · exact fun _ hmem => h (List.mem_cons_of_mem t hmem)

theorem tracks_finish : Tracks line (finish context) := by
  refine (tracks_foldAll _).bind fun _ => .get fun p hp => ?_
  have hroot : Tracks line (do
      let root ← popStage
      if (← get).stages.isEmpty then return (root.toFactory context, root.mode.getD .default)
      else throw .missingOperator) :=
    .bind tracks_popStage fun root => .look (fun _ _ => rfl) fun p => .ite (.pure _) (.throw _)
  obtain ⟨tokens, stages, _ | ⟨top, rest⟩, taken, slots, e⟩ := p
  · exact ⟨_, fun _ => rfl, hroot _ hp⟩
  · cases top with
    | paren | brace _ => exact ⟨throw _, fun _ => rfl, Tracks.throw _ _ hp⟩
    | _ => exact ⟨_, fun _ => rfl, hroot _ hp⟩

/-- A line never looks at the environment. -/
theorem tracks_line (context : Context) (tokens : List String) :
    Tracks tokens (do all context tokens; finish context) :=
  (tracks_all fun _ => id).bind fun _ => tracks_finish

end Parse

/-- What a line binds, with the last stream for each name: what is bound after it if nothing was
before. -/
def lineBindings (context : Context) (tokens : List String) (w : World) : Sorted Factory :=
  (parse context tokens { w with env := .empty }).2.env.bindings

/-- A line that fails keeps the bindings that it made before, which are the same in every
environment, and none if it has no `=`. So it leaves what is bound alone exactly if all of them were
there already. -/
theorem parse_error_bindings {tokens : List String} {w w' : World} {e : Error}
    (h : parse context tokens w = (.error e, w')) :
    (lineBindings context tokens w = [] ∨ "=" ∈ tokens) ∧
      (∀ env, parse context tokens { w with env := env } =
        (.error e, { w' with env := env.setAll (lineBindings context tokens w) })) ∧
      ((∀ name, Sorted.find? name w'.env.bindings = Sorted.find? name w.env.bindings) ↔
        ∀ name f, Sorted.find? name (lineBindings context tokens w) = some f →
          Sorted.find? name w.env.bindings = some f) := by
  have hstart : AssignOk tokens (Parse.start w tokens) := nofun
  cases Parse.tracks_line context tokens _ hstart with
  | ok a q made _ _ k => cases h.symm.trans (parse_of_ok (k w.env))
  | error e' q made hm k =>
    have hrun (env : Environment) : parse context tokens { w with env := env } = _ :=
      parse_of_error (k env)
    cases h.symm.trans (hrun w.env)
    have hbound : lineBindings context tokens w = Sorted.ofList made := by
      rw [lineBindings, hrun .empty]
      rfl
    have hset (env : Environment) : env.setAll (lineBindings context tokens w) = env.setAll made := by
      rw [Environment.setAll, hbound, Sorted.merge_ofList]
      rfl
    refine ⟨?_, fun env => by rw [hset]; exact hrun env, ?_⟩
    · rw [hbound]
      exact hm.imp_left fun hnone => by rw [hnone]; rfl
    · rw [hbound]
      show (∀ name, Sorted.find? name (Sorted.merge w.env.bindings made) = _) ↔ _
      simp only [Sorted.find?_merge]
      constructor
      · intro hsame name f hf
        rw [← hsame name, hf, Option.some_or]
      · intro hthere name
        cases hf : Sorted.find? name (Sorted.ofList made) with
        | none => rfl
        | some f => rw [Option.some_or, hthere name f hf]

/-- `$x = 1 ; )` is no line, and binds a name. -/
theorem parse_error_bindings_kept : ∃ w' : World,
    parse {} ["$x", "=", "1", ";", ")"] (.ofEnvironment .empty) =
      (.error (.mismatchedBracket ')'), w') ∧
    Sorted.find? "x" w'.env.bindings = some (.sequence .empty [.value (.int 1)]) ∧
    ¬ ∀ name, Sorted.find? name w'.env.bindings = Sorted.find? name Environment.empty.bindings := by
  let f : Factory := .sequence .empty [.value (.int 1)]
  -- the semicolon folds the assignment, and the parenthesis closes nothing
  have hopen : Parse.all {} ["$x", "=", "1", ";", ")"]
      (Parse.start (.ofEnvironment .empty) ["$x", "=", "1", ";", ")"]) =
      Parse.all {} [";", ")"] ⟨[";", ")"], [{ scope := .empty, operands := [.value (.int 1)] },
        { scope := .empty, operands := [.streamRef "x"] }], [.op .assign], [], .empty, .empty⟩ :=
    (Parse.all_ok rfl).trans ((Parse.all_ok rfl).trans (Parse.all_ok rfl))
  have hfold : Parse.token {} ";" ⟨[")"], [{ scope := .empty, operands := [.value (.int 1)] },
      { scope := .empty, operands := [.streamRef "x"] }], [.op .assign], [], .empty, .empty⟩ =
      .ok () ⟨[")"], [{ scope := .empty }, { scope := .empty }], [.op .seq], [], .empty,
        Environment.empty.set "x" f⟩ := rfl
  have hclose : Parse.token {} ")" ⟨[], [{ scope := .empty }, { scope := .empty }], [.op .seq], [],
      .empty, Environment.empty.set "x" f⟩ = .error (.mismatchedBracket ')') ⟨[],
        [{ scope := .empty, feed := some (.andThen (.sequence .empty []) (.items [])) }], [], [],
        .empty, Environment.empty.set "x" f⟩ := rfl
  have hparse := parse_of_error (Parse.bind_error (f := fun _ => Parse.finish {})
    (hopen.trans ((Parse.all_ok hfold).trans (Parse.all_error hclose))))
  obtain ⟨-, -, hiff⟩ := parse_error_bindings hparse
  refine ⟨_, hparse, rfl, fun hsame => ?_⟩
  have hnothing : ({ World.ofEnvironment .empty with env := .empty } : World) =
      .ofEnvironment .empty := rfl
  have hbound : lineBindings {} ["$x", "=", "1", ";", ")"] (.ofEnvironment .empty) =
      [("x", f)] := by
    rw [lineBindings, hnothing, hparse]
    rfl
  cases hiff.mp hsame "x" f (by rw [hbound]; rfl)

end Rill
