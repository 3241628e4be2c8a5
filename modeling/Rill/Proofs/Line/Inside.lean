import Rill.Proofs.Line.Moves

/-!
# Parts of a line

A part of a line that can be read alone can be read where it stands, and does to the stages and the
entries of its own what it does alone (`Parse.all_inside`), if it stands in brackets, or if outside
brackets it has only operators that bind more tightly than what is around it (`outside`). So the
body of a closure is read as a line of its own is, in the scope of the closure (`Parse.Comes`), and
the closure becomes the stage that it stands in (`Parse.all_closure`). A group is read in the same
way, and becomes an operand (`Parse.all_group`).

What the lowest stage is at the beginning of a part it is at the end, if nothing stands in the part
outside brackets that changes it (`Lasting`): each move of the stacks leaves the lowest stage alone
(`Parse.Calm`). A body in which no `|`, `;` or `->` stands outside brackets (`unpiped`) comes to a
stage that nothing feeds and that is no closure itself (`Parse.Comes.unfed`).
-/

namespace Rill

/-- Whether no token of a kind stands outside brackets, of which these are open. -/
def outside (bad : String → Bool) : List String → List Bracket → Bool
  | [], _ => true
  | t :: rest, opened =>
    !(opened.isEmpty && bad t) && (Bracket.next t opened).all (outside bad rest)

/-- What `outside` says of the first token and of the rest. -/
theorem outside_cons {bad : String → Bool} {t : String} {rest : List String}
    {opened opened' : List Bracket} (h : outside bad (t :: rest) opened = true)
    (hnext : Bracket.next t opened = some opened') :
    (bad t = true → opened ≠ []) ∧ outside bad rest opened' = true := by
  rw [outside, Bool.and_eq_true, hnext] at h
  refine ⟨fun hbad hnil => ?_, h.2⟩
  rw [hbad, hnil] at h
  cases h.1

namespace Parse

variable {context : Context} {a : Around} {α β : Type} {p q : Parse} {t : String}

theorem Ahead.refl (tokens : List String) : Ahead tokens tokens := ⟨rfl, rfl⟩

/-! ## After a token -/

/-- However the step is done, something has been read then. -/
def Begins (m : Parser α) : Prop := ∀ p r q, m p = .ok r q → Begun q

namespace Begins

protected theorem bind {m : Parser α} {f : α → Parser β} (hf : ∀ a, Begins (f a)) :
    Begins (m >>= f) := by
  intro p r q h
  cases hm : m p with
  | ok a p₁ =>
    rw [bind_ok hm] at h
    exact hf a p₁ r q h
  | error e p₁ =>
    rw [bind_error hm] at h
    cases h

protected theorem lift {r : Except Error α} {f : α → Parser β}
    (hf : ∀ a, r = .ok a → Begins (f a)) : Begins (Parse.lift r >>= f) := by
  cases r with
  | ok a => exact hf a rfl
  | error e => exact fun _ _ _ h => nomatch h

protected theorem throw (e : Error) : Begins (throw e : Parser α) := fun _ _ _ h => nomatch h

protected theorem ite {c : Prop} [Decidable c] {m n : Parser α} (hm : Begins m) (hn : Begins n) :
    Begins (if c then m else n) := by
  split
  · exact hm
  · exact hn

protected theorem enter {x : Pending} {s : Stage} : Begins (Parse.enter x s) := by
  intro p r q h
  cases h
  exact nofun

protected theorem modify {f : Parse → Parse} {s : Stage} (hf : ∀ p, (f p).stages.head? = some s)
    (hs : s.operands ≠ [] ∨ s.closure ≠ none) : Begins (modify f) := by
  intro p r q h _ s' hs'
  cases h
  obtain rfl : s = s' := Option.some.inj ((hf p).symm.trans hs')
  exact hs

end Begins

theorem operands_of_push {s s' : Stage} {x : Operand} (h : s.push x = .ok s') :
    s'.operands ≠ [] := by
  unfold Stage.push at h
  split at h <;> cases h
  exact List.append_ne_nil_of_right_ne_nil _ (List.cons_ne_nil _ _)

theorem begins_pushOperand (x : Operand) : Begins (pushOperand x) :=
  .bind fun _ => .lift fun _ h => .modify (fun _ => rfl) (.inl (operands_of_push h))

theorem begins_infixOp (x : Pending) : Begins (infixOp context x) :=
  .bind fun _ => .bind fun _ => .enter

theorem begins_prefixOp (op : Operator) : Begins (prefixOp op) := .bind fun _ => .enter

theorem begins_postfixOp (op : Operator) : Begins (postfixOp context op) :=
  .bind fun _ => .bind fun _ => .lift fun _ _ => .lift fun _ h =>
    .modify (fun _ => rfl) (.inl (operands_of_push h))

theorem begins_bindOp : Begins (bindOp context) := by
  refine .bind fun _ => .bind fun s => ?_
  split
  · exact .ite (.throw _) (.bind fun _ => .bind fun _ => .enter)
  · exact .throw _

theorem begins_openBrace : Begins openBrace :=
  .bind fun _ => .bind fun _ => .ite (.enter) (.enter)

theorem begins_closeParen : Begins (closeParen context) := by
  refine .bind fun _ => .bind fun p => ?_
  split
  · refine .bind fun _ => .bind fun _ => .bind fun _ => .lift fun _ h =>
      .modify (fun _ => rfl) (.inl ?_)
    have hne := operands_of_push h
    exact hne
  · exact .throw _

theorem begins_closeRecord (body : Stage) : Begins (closeRecord body) := by
  refine .bind fun record => .bind fun s => ?_
  split
  · exact .ite (.bind fun _ => begins_pushOperand _) (begins_pushOperand _)
  · exact begins_pushOperand _

theorem begins_closeClosure (body : Stage) : Begins (closeClosure context body) :=
  .bind fun _ => .ite (.throw _) (.modify (fun _ => rfl) (.inr nofun))

theorem begins_closeBrace : Begins (closeBrace context) := by
  refine .bind fun _ => .bind fun p => ?_
  split
  · refine .bind fun _ => .bind fun body => ?_
    split
    · exact begins_closeRecord body
    · exact begins_closeClosure body
  · exact .throw _

theorem begins_leaf (t : String) : Begins (leaf t) := .bind fun _ => begins_pushOperand _

theorem begins_recordToken (t : String) : Begins (recordToken context t) := by
  refine .bind fun s => ?_
  cases Operator.ofInfix? t with
  | some o => exact .ite (begins_infixOp _) (begins_pushOperand _)
  | none => exact .ite (begins_pushOperand _) (begins_leaf t)

theorem begins_plainToken (t : String) : Begins (plainToken context t) := by
  refine .bind fun p => .bind fun s => .ite begins_bindOp (.ite (begins_infixOp _)
    (.ite (.bind fun _ => .bind fun _ => .enter) (.ite (begins_postfixOp _)
    (.ite (begins_postfixOp _) (.ite (begins_prefixOp _) (.ite (begins_prefixOp _)
    (.ite (begins_prefixOp _) ?_)))))))
  split
  · exact begins_infixOp _
  · exact begins_leaf t

theorem begins_token (t : String) : Begins (token context t) :=
  .ite (.bind fun _ => .enter) (.ite begins_closeParen (.ite begins_openBrace
    (.ite begins_closeBrace (.bind fun _ => .ite (begins_recordToken t) (begins_plainToken t)))))

/-! ## Where a part stands -/

/-- Outside brackets, of which those of `p` are open, the tokens are no loose operators, and they do
not begin with a brace. -/
structure Tight (tokens : List String) (p : Parse) : Prop where
  outside : outside loose tokens p.brackets = true
  brace : tokens.head? = some "\x7b" → Begun p

/-- A part of a line that can be read alone is read in the same way where it stands. -/
theorem all_inside (a : Around) (hp : p.Disciplined) {tokens : List String}
    (h : all context tokens p = .ok () q) (hfits : a.Closed ∨ Tight tokens p) {after : List String}
    (hafter : ∀ rest, Ahead rest (rest ++ after)) :
    all context (tokens ++ after) (p.inside a (tokens ++ after)) =
      all context after (q.inside a after) := by
  induction tokens generalizing p with
  | nil =>
    cases h
    rfl
  | cons t rest ih =>
    have hrest := hp.with_tokens rest
    obtain ⟨r, hr, h⟩ := all_inv h
    have hreads := hrest.reads hr
    have hnext : Bracket.next t p.brackets = some r.brackets := hreads.brackets
    have hclose (ht : t = ")" ∨ t = "\x7d") : p.brackets ≠ [] := by
      intro hnil
      rw [hnil] at hnext
      rcases ht with rfl | rfl <;> cases hnext
    have htoken : Fits a t { p with tokens := rest } ∧ (a.Closed ∨ Tight rest r) := by
      refine hfits.elim (fun h => ⟨.of_closed h, .inl h⟩) fun h => ?_
      obtain ⟨hloose, htight⟩ := outside_cons h.outside hnext
      refine ⟨⟨fun ht => .inr (hloose ht), fun ht => .inr (hclose ht), fun ht => .inr ?_⟩,
        .inr ⟨htight, fun _ => begins_token t _ _ _ hr⟩⟩
      exact h.brace (congrArg some ht)
    obtain ⟨-, hstep⟩ := leads_token hrest (hafter rest) htoken.1 () r hr
    exact (all_ok hstep).trans (ih hreads.disciplined h htoken.2)

/-! ## Closures -/

/-- A line of its own, with what `p` has bound and taken. -/
def alone (p : Parse) (scope : Scope) (tokens : List String) : Parse :=
  ⟨tokens, [{ scope }], [], p.taken, p.slots, p.env⟩

/-- Reading tokens from `p`, and folding what is pending then, comes to one stage. -/
structure Comes (context : Context) (tokens : List String) (p : Parse) (body : Stage) (q : Parse) :
    Prop where
  read : (do all context tokens; foldAll context fun x => !x.isBracket : Parser Unit) p = .ok () q
  stages : q.stages = [body]
  pending : q.pending = []

theorem disciplined_alone (p : Parse) (scope : Scope) (tokens : List String) :
    (p.alone scope tokens).Disciplined :=
  ⟨rfl, trivial, nofun, fun _ hs => List.mem_singleton.mp hs ▸ .inl rfl⟩

/-- The stage that a closure is. -/
def closureStage (context : Context) (body : Stage) : Factory :=
  if body.closure.isSome || body.feed.isSome then body.toFactory context
  else .each (body.toFactory context)

theorem closeClosure_ok {s body : Stage} {rest : List Stage} (hs : p.stages = s :: rest)
    (hc : s.closure = none) (ho : s.operands = []) :
    closeClosure context body p = .ok () { p with
      stages :=
        { s with closure := some (closureStage context body), mode := s.mode <|> body.mode } ::
          rest } := by
  obtain ⟨tokens, stages, pending, taken, slots, env⟩ := p
  subst hs
  refine (bind_ok rfl).trans ?_
  have hnot : ¬ (s.closure.isSome || !s.operands.isEmpty) = true := by simp [hc, ho]
  rw [if_neg hnot]
  rfl

theorem fresh_of_opensClosure {s : Stage} {pending : List Pending} {tokens : List String}
    (h : opensClosure s pending tokens = true) : s.closure = none ∧ s.operands = [] := by
  unfold opensClosure at h
  simp only [Bool.and_eq_true, Option.isNone_iff_eq_none, List.isEmpty_iff] at h
  exact ⟨h.1.2, h.1.1.2⟩

theorem token_openClosure {s : Stage} {rest : List Stage} {left : List String}
    (hs : p.stages = s :: rest) (ho : opensClosure s p.pending left = true) :
    token context "\x7b" { p with tokens := left } = .ok () { p with
      tokens := left, pending := .brace .closure :: p.pending
      stages := { scope := s.scope } :: p.stages } := by
  obtain ⟨tokens, stages, pending, taken, slots, env⟩ := p
  subst hs
  show openBrace _ = _
  refine (bind_ok rfl).trans ((bind_ok rfl).trans ?_)
  rw [if_pos ho]
  rfl

/-- What stands in brackets is read as it is alone, and folded at the bracket that closes. -/
theorem Comes.bracketed {body : Stage} {tokens : List String} (h : Comes context tokens p body q)
    (hp : p.Disciplined) (ha : a.Closed) {close : String} (hclose : close = ")" ∨ close = "\x7d")
    (after : List String) :
    ∃ r : Parse, all context (tokens ++ close :: after) (p.inside a (tokens ++ close :: after)) =
        all context (close :: after) (r.inside a (close :: after)) ∧
      foldAll context (fun x => !x.isBracket) (r.inside a after) = .ok () (q.inside a after) := by
  obtain ⟨_, r, hr, hfold⟩ := bind_inv h.read
  refine ⟨r, all_inside a hp hr (.inl ha) (ahead_append ?_), ?_⟩
  · rintro _ ⟨⟩
    exact hclose.imp_right .inl
  · exact (leads_foldAll_brackets close (hp.all hr) (.inl ha) () q hfold).2

/-- A closure is read as its body is read alone, and becomes the stage that it stands in. -/
theorem all_closure {s body : Stage} {rest : List Stage} {tokens after : List String}
    (hs : p.stages = s :: rest)
    (ho : opensClosure s p.pending (tokens ++ "\x7d" :: after) = true)
    (h : Comes context tokens (p.alone s.scope tokens) body q) :
    all context ("\x7b" :: (tokens ++ "\x7d" :: after)) p =
      all context after ⟨after,
        { s with closure := some (closureStage context body), mode := s.mode <|> body.mode } ::
          rest,
        p.pending, q.taken, q.slots, q.env⟩ := by
  obtain ⟨hc, hempty⟩ := fresh_of_opensClosure ho
  let a : Around := .bracketed p.stages (.brace .closure) p.pending [] rfl
  obtain ⟨r, hr, hfold⟩ := h.bracketed (disciplined_alone p s.scope tokens)
    (Around.closed_bracketed : a.Closed) (.inr rfl) after
  refine (all_ok (token_openClosure hs ho)).trans (hr.trans (all_ok ?_))
  show closeBrace context (r.inside a after) = _
  refine (bind_ok hfold).trans ?_
  obtain ⟨_, hstages, hpending⟩ := h
  obtain ⟨_, _, _, taken, slots, env⟩ := q
  subst hstages hpending
  show closeClosure context body ⟨after, p.stages, p.pending, taken, slots, env⟩ = _
  exact closeClosure_ok hs hc hempty

/-! ## Groups -/

theorem token_openParen {s : Stage} {rest : List Stage} {left : List String}
    (hs : p.stages = s :: rest) :
    token context "(" { p with tokens := left } = .ok () { p with
      tokens := left, pending := .paren :: p.pending
      stages := { scope := s.scope } :: p.stages } := by
  obtain ⟨tokens, stages, pending, taken, slots, env⟩ := p
  subst hs
  rfl

/-- A group in which no name is visible is read as a line of its own is, and becomes an operand. -/
theorem all_group {s body : Stage} {rest : List Stage} {tokens left after : List String}
    {pending : List Pending} {taken : List Handle} {w : World} (hscope : s.scope = .empty)
    (hc : s.closure = none) (h : Comes context tokens (.start w tokens) body q) :
    all context ("(" :: (tokens ++ ")" :: after))
        ⟨left, s :: rest, pending, taken, w.slots, w.env⟩ =
      all context after ⟨after,
        { s with
          operands := s.operands ++ [body.toOperand context]
          mode := s.mode <|> body.mode } :: rest,
        pending, taken ++ q.taken, q.slots, q.env⟩ := by
  let a : Around := .bracketed (s :: rest) .paren pending taken rfl
  obtain ⟨r, hr, hfold⟩ := h.bracketed (disciplined_start w tokens)
    (Around.closed_bracketed : a.Closed) (.inl rfl) after
  refine (all_ok (token_openParen rfl)).trans (Eq.trans ?_ (hr.trans (all_ok ?_)))
  · simp [inside, start, Around.bracketed, hscope]
  show closeParen context (r.inside a after) = _
  refine (bind_ok hfold).trans ?_
  obtain ⟨_, hstages, hpending⟩ := h
  obtain ⟨_, _, _, taken', slots, env⟩ := q
  subst hstages hpending
  have hpush : s.push (body.toOperand context) =
      .ok { s with operands := s.operands ++ [body.toOperand context] } := by
    simp [Stage.push, hc]
  show (do
    let s ← lift (s.push (body.toOperand context))
    pushStage { s with mode := s.mode <|> body.mode } : Parser Unit)
      ⟨after, rest, pending, taken ++ taken', slots, env⟩ = _
  rw [hpush]
  rfl

end Parse

/-! ## The lowest stage -/

/-- A property of the lowest stage that no entry takes away which is not `wild`, and no token stands
for a wild entry which is not `bad`. -/
structure Lasting (wild : Pending → Bool) (bad : String → Bool) (root : Stage → Prop) : Prop where
  stands : ∀ {t : String} {x : Pending}, Denotes t x → wild x = true → bad t = true
  closes : ∀ {t : String}, t = ")" ∨ t = "\x7d" → bad t = false
  feeds : ∀ {x : Pending}, x.feeds = true → wild x = true
  assign : ∀ {s s' : Stage}, wild (.op .assign) = false → s.Similar s' → root s → root s'
  twin : ∀ {s s' : Stage}, s.Twin s' → root s → root s'
  depth : ∀ {s : Stage}, root s → s.recordDepth = 0

section

variable {wild : Pending → Bool} {bad : String → Bool} {root : Stage → Prop}

/-- An entry that is not wild joins stages so that the property stays, and the depth. -/
theorem Lasting.joins (h : Lasting wild bad root) {x : Pending} {left s : Stage}
    (hx : wild x = false) (hjoins : x.Joins left s) :
    (root left → root s) ∧ s.recordDepth = left.recordDepth := by
  rcases hjoins with hfeeds | htwin | ⟨rfl, hsimilar⟩
  · exact absurd (hx.symm.trans (h.feeds hfeeds)) nofun
  · exact ⟨h.twin htwin, htwin.recordDepth⟩
  · exact ⟨h.assign hx hsimilar, hsimilar.recordDepth⟩

namespace Parse

/-- The lowest stage has the property, and nothing that waits will take it away. Outside brackets no
stage is one of a record. -/
def Calm (wild : Pending → Bool) (root : Stage → Prop) : List Stage → List Pending → Prop
  | stages, [] => ∃ s, stages = [s] ∧ root s
  | stages, x :: pending =>
    ((∀ y ∈ pending, y.isBracket = false) → wild x = false ∧
      (x.isBracket = false → ∀ s ∈ stages.head?, s.recordDepth = 0)) ∧
      (x = .brace .closure → pending ≠ []) ∧ Calm wild root stages.tail pending

/-- A bracket is open. -/
def Bracketed (pending : List Pending) : Prop := ∃ y ∈ pending, y.isBracket = true

theorem Bracketed.cons {pending : List Pending} (h : Bracketed pending) (x : Pending) :
    Bracketed (x :: pending) := by
  obtain ⟨y, hy, hbracket⟩ := h
  exact ⟨y, List.mem_cons_of_mem x hy, hbracket⟩

theorem Bracketed.below {x : Pending} {pending : List Pending} (h : Bracketed (x :: pending))
    (hx : x.isBracket = false) : Bracketed pending := by
  obtain ⟨y, hy, hbracket⟩ := h
  rcases List.mem_cons.mp hy with rfl | hy
  · exact absurd (hx.symm.trans hbracket) nofun
  · exact ⟨y, hy, hbracket⟩

theorem bracketed_of_brackets {p : Parse} (h : p.brackets ≠ []) : Bracketed p.pending := by
  obtain ⟨b, hb⟩ := List.exists_mem_of_ne_nil _ h
  obtain ⟨y, hy, hyb⟩ := List.mem_filterMap.mp hb
  refine ⟨y, hy, ?_⟩
  cases y with
  | paren | brace _ => rfl
  | op _ | bind _ | ternary | ternaryElse => cases hyb

namespace Calm

variable {stages : List Stage} {pending : List Pending}

theorem depth (h : Calm wild root stages pending) (hl : Lasting wild bad root)
    (hno : ∀ y ∈ pending, y.isBracket = false) : ∀ s ∈ stages.head?, s.recordDepth = 0 := by
  cases pending with
  | nil =>
    obtain ⟨s, rfl, hs⟩ := h
    rintro _ ⟨⟩
    exact hl.depth hs
  | cons x pending =>
    obtain ⟨hx, hno⟩ := List.forall_mem_cons.mp hno
    exact (h.1 hno).2 hx

/-- Nothing waits that is wild, if no bracket is open. -/
theorem wild_eq_false (h : Calm wild root stages pending)
    (hno : ∀ y ∈ pending, y.isBracket = false) : ∀ x ∈ pending, wild x = false := by
  induction pending generalizing stages with
  | nil => exact nofun
  | cons x pending ih =>
    obtain ⟨-, hno⟩ := List.forall_mem_cons.mp hno
    exact List.forall_mem_cons.mpr ⟨(h.1 hno).1, ih h.2.2 hno⟩

/-- Of the stage on top only the property matters, if it is the lowest one, and the depth, if no
bracket is open. -/
theorem replace {s s' : Stage} {rest : List Stage} (h : Calm wild root (s :: rest) pending)
    (hroot : pending = [] → root s → root s')
    (hdepth : (∀ y ∈ pending, y.isBracket = false) → s'.recordDepth = s.recordDepth) :
    Calm wild root (s' :: rest) pending := by
  cases pending with
  | nil =>
    obtain ⟨_, e, hs⟩ := h
    obtain ⟨rfl, rfl⟩ := List.cons.inj e
    exact ⟨s', rfl, hroot rfl hs⟩
  | cons x pending =>
    obtain ⟨hground, hbrace, hrest⟩ := h
    refine ⟨fun hno => ⟨(hground hno).1, fun hx => ?_⟩, hbrace, hrest⟩
    rintro _ ⟨⟩
    exact (hdepth (List.forall_mem_cons.mpr ⟨hx, hno⟩)).trans ((hground hno).2 hx s rfl)

variable {p q : Parse} {t : String}

/-- No move but one for a bad token outside brackets takes the property away. -/
theorem move (h : Calm wild root p.stages p.pending) (hl : Lasting wild bad root)
    (ht : bad t = true → Bracketed p.pending) (hm : Move t p q) :
    Calm wild root q.stages q.pending ∧ (bad t = true → Bracketed q.pending) := by
  cases hm with
  | touch htouched =>
    obtain ⟨s, s', rest, hs, htwin, hq, hq'⟩ := htouched
    rw [hs] at h
    rw [hq, hq']
    exact ⟨h.replace (fun _ => hl.twin htwin) fun _ => htwin.recordDepth, ht⟩
  | @enter x s u rest hx hc hs hd hq hq' =>
    rw [hq, hq']
    refine ⟨⟨fun hno => ⟨Bool.eq_false_iff.mpr fun hwild => ?_, fun hbracket => ?_⟩, hc, h⟩,
      fun hbad => (ht hbad).cons _⟩
    · obtain ⟨y, hy, hbracket⟩ := ht (hl.stands hx hwild)
      exact absurd ((hno y hy).symm.trans hbracket) nofun
    · rintro _ ⟨⟩
      exact (hd hbracket).trans (h.depth hl hno u (by rw [hs]; rfl))
  | fold hb hp hs hjoins hq hq' =>
    rw [hp, hs] at h
    obtain ⟨hground, -, hrest⟩ := h
    rw [hp] at ht
    rw [hq, hq']
    refine ⟨hrest.replace (fun hnil => ?_) fun hno => ?_, fun hbad => (ht hbad).below hb⟩
    · subst hnil
      exact (hl.joins (hground nofun).1 hjoins).1
    · exact (hl.joins (hground hno).1 hjoins).2
  | ternary hp hs htwin hq hq' =>
    rw [hp, hs] at h
    obtain ⟨-, -, -, -, hrest⟩ := h
    rw [hp] at ht
    rw [hq, hq']
    exact ⟨hrest.replace (fun _ => hl.twin htwin) fun _ => htwin.recordDepth,
      fun hbad => ((ht hbad).below rfl).below rfl⟩
  | close hcloses hp hs hd hclose hq hq' =>
    rw [hp, hs] at h
    obtain ⟨-, hbelow, hrest⟩ := h
    rw [hq, hq']
    refine ⟨hrest.replace (fun hnil => ?_) fun _ => hd, fun hbad => ?_⟩
    · exact hl.twin (hclose.resolve_left fun hx => hbelow hx hnil)
    · exact absurd ((hl.closes hcloses).symm.trans hbad) nofun

theorem moves (h : Calm wild root p.stages p.pending) (hl : Lasting wild bad root)
    (ht : bad t = true → Bracketed p.pending) (hm : Moves t p q) :
    Calm wild root q.stages q.pending := by
  have both : Calm wild root q.stages q.pending ∧ (bad t = true → Bracketed q.pending) := by
    induction hm with
    | refl => exact ⟨h, ht⟩
    | tail _ hmove ih => exact ih.1.move hl ih.2 hmove
  exact both.1

variable {context : Context} {tokens : List String}

theorem all (hc : Calm wild root p.stages p.pending) (hl : Lasting wild bad root)
    (hp : p.Disciplined) (ho : outside bad tokens p.brackets = true)
    (h : Parse.all context tokens p = .ok () q) : Calm wild root q.stages q.pending := by
  induction tokens generalizing p with
  | nil =>
    cases h
    exact hc
  | cons t rest ih =>
    have hrest := hp.with_tokens rest
    obtain ⟨r, hr, h⟩ := all_inv h
    have hreads := hrest.reads hr
    have hclosed : (Around.bracketed [] .paren [] [] rfl).Closed := Around.closed_bracketed
    obtain ⟨hmoves, -⟩ := leads_token hrest (.refl rest) (.of_closed hclosed) () r hr
    have hnext : Bracket.next t p.brackets = some r.brackets := hreads.brackets
    obtain ⟨hbad, ho⟩ := outside_cons ho hnext
    have hcalm := Calm.moves (p := { p with tokens := rest }) hc hl
      (fun hb => bracketed_of_brackets (hbad hb)) hmoves
    exact ih hcalm hreads.disciplined ho h

end Calm

variable {context : Context} {p q : Parse} {tokens : List String} {scope : Scope} {body : Stage}

/-- A part comes to a stage that has the property, if it begins with one that has it. -/
theorem Comes.lasting (h : Comes context tokens (p.alone scope tokens) body q)
    (hl : Lasting wild bad root) (hs : root { scope }) (ho : outside bad tokens [] = true) :
    root body := by
  obtain ⟨hread, hstages, hpending⟩ := h
  have hp := disciplined_alone p scope tokens
  obtain ⟨_, r, hr, hfold⟩ := bind_inv hread
  have hstart : Calm wild root (p.alone scope tokens).stages (p.alone scope tokens).pending :=
    ⟨_, rfl, hs⟩
  have hcalm : Calm wild root r.stages r.pending := hstart.all hl hp ho hr
  have hclosed : (Around.bracketed [] .paren [] [] rfl).Closed := Around.closed_bracketed
  have hleads : Leads (.bracketed [] .paren [] [] rfl) []
      (foldAll context fun x => !x.isBracket) r fun _ => Moves ")" r :=
    leads_foldAll_brackets ")" (hp.all hr) (.inl hclosed)
  obtain ⟨hmoves, -⟩ := hleads () q hfold
  have hno : bad ")" = false := hl.closes (.inl rfl)
  have hend := hcalm.moves hl (fun h => absurd (hno.symm.trans h) nofun) hmoves
  rw [hstages, hpending] at hend
  obtain ⟨s, e, hroot⟩ := hend
  obtain rfl : body = s := (List.cons.inj e).1
  exact hroot

end Parse

end

/-! ## Bodies that nothing feeds -/

/-- Whether no `|`, `;` or `->` stands outside brackets, of which these are open. -/
def unpiped : List String → List Bracket → Bool
  | [], _ => true
  | t :: rest, opened =>
    !(opened.isEmpty && feeds t) && (Bracket.next t opened).all (unpiped rest)

example : unpiped ["a", "(", "b", "|", "c", ")", "+", "d"] [] = true := by decide

example : unpiped ["a", "(", "b", ")", "|", "c"] [] = false := by decide

theorem unpiped_eq (tokens : List String) (opened : List Bracket) :
    unpiped tokens opened = outside feeds tokens opened := by
  induction tokens generalizing opened with
  | nil => rfl
  | cons t rest ih => rw [unpiped, outside, funext ih]

/-- What nothing feeds and is no closure stays so without a `|`, `;` or `->`. -/
theorem lasting_unfed : Lasting Pending.feeds feeds fun s =>
    s.feed = none ∧ s.closure = none ∧ s.recordDepth = 0 where
  stands h := h.feeds
  closes h := by rcases h with rfl | rfl <;> rfl
  feeds h := h
  assign _ h := fun ⟨hf, hc, hd⟩ => ⟨h.feed.trans hf, h.closure.trans hc, h.recordDepth.trans hd⟩
  twin h := fun ⟨hf, hc, hd⟩ => ⟨h.feed.trans hf, h.closure.trans hc, h.recordDepth.trans hd⟩
  depth h := h.2.2

/-- A body outside whose brackets nothing is piped comes to a stage that nothing feeds. -/
theorem Parse.Comes.unfed {context : Context} {p q : Parse} {scope : Scope} {tokens : List String}
    {body : Stage} (h : Comes context tokens (p.alone scope tokens) body q)
    (hu : unpiped tokens [] = true) : body.feed = none ∧ body.closure = none := by
  rw [unpiped_eq] at hu
  obtain ⟨hfeed, hclosure, -⟩ := h.lasting lasting_unfed ⟨rfl, rfl, rfl⟩ hu
  exact ⟨hfeed, hclosure⟩

end Rill
