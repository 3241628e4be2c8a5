import Rill.Proofs.Line.Stacks

/-!
# What a token does to the stacks

From stacks in good order every token leads to stacks in good order, or to an error (`Parse.Reads`,
`Parse.goes_token`). A bracket opens or closes one among the pending entries, as `Bracket.next` says
of the line alone; a `->` outside records takes a slot; no other token does the one or the other.
The only error that has to do with the stacks is that a bracket closes one that is not the
innermost.
-/

namespace Rill

namespace Parse

variable {context : Context} {p q : Parse}

/-! ## Keeping the stacks in good order -/

/-- The open brackets, the innermost first. -/
def brackets (p : Parse) : List Bracket := p.pending.filterMap Pending.bracket?

/-- The operands of the stage on top have changed, and nothing else. -/
structure Kept (p q : Parse) : Prop where
  disciplined : q.Disciplined
  same : Same p q
  pending : q.pending = p.pending

/-- The stacks have changed, but neither the brackets nor the slots. -/
structure Plain (p q : Parse) : Prop where
  disciplined : q.Disciplined
  same : Same p q
  brackets : q.brackets = p.brackets

theorem Kept.plain (h : Kept p q) : Plain p q :=
  ⟨h.disciplined, h.same, congrArg (List.filterMap Pending.bracket?) h.pending⟩

theorem Plain.trans {r : Parse} (h : Plain p q) (k : Plain q r) : Plain p r :=
  ⟨k.disciplined, h.same.trans k.same, k.brackets.trans h.brackets⟩

theorem Cleared.plain {keep : Pending → Bool} (h : Cleared keep p q) : Plain p q :=
  ⟨h.disciplined, h.same, h.folded.brackets⟩

theorem disciplined_start (w : World) (tokens : List String) : (start w tokens).Disciplined :=
  ⟨rfl, trivial, nofun, fun _ hs => List.mem_singleton.mp hs ▸ .inl rfl⟩

namespace Disciplined

/-- Which tokens are to come does not matter to the stacks. -/
theorem with_tokens (hp : p.Disciplined) (tokens : List String) :
    Disciplined { p with tokens := tokens } := ⟨hp.length, hp.stacked, hp.waits, hp.stages⟩

/-- There is a stage on top. -/
theorem top (hp : p.Disciplined) : ∃ s rest, p.stages = s :: rest ∧ s.Ok := by
  obtain ⟨s, rest, h⟩ := List.exists_cons_of_length_eq_add_one hp.length
  exact ⟨s, rest, h, hp.stages s (h ▸ List.mem_cons_self)⟩

theorem enter (hp : p.Disciplined) {x : Pending} {s : Stage} (hpending : q.pending = x :: p.pending)
    (hstages : q.stages = s :: p.stages) (hx : x.On p.pending) (hw : x.Waits) (hs : s.Ok) :
    q.Disciplined := by
  refine ⟨?_, ?_, ?_, ?_⟩
  · rw [hpending, hstages, List.length_cons, List.length_cons, hp.length]
  · rw [hpending]
    exact ⟨hx, hp.stacked⟩
  · rw [hpending]
    rintro y (_ | ⟨_, hy⟩)
    · exact hw
    · exact hp.waits y hy
  · rw [hstages]
    rintro t (_ | ⟨_, ht⟩)
    · exact hs
    · exact hp.stages t ht

/-- Another stage in the place of the one on top. -/
theorem replace (hp : p.Disciplined) {s s' : Stage} {rest : List Stage}
    (h : p.stages = s :: rest) (hs : s'.Ok) : Kept p { p with stages := s' :: rest } := by
  refine ⟨⟨?_, hp.stacked, hp.waits, ?_⟩, ⟨rfl, rfl⟩, rfl⟩
  · exact (congrArg List.length h).symm.trans hp.length
  · rintro t (_ | ⟨_, ht⟩)
    · exact hs
    · exact hp.stages t (h ▸ List.mem_cons_of_mem _ ht)

end Disciplined

/-! ## Operands -/

theorem goes_pushOperand (hp : p.Disciplined) (x : Operand) :
    Goes (pushOperand x) p (fun _ => Kept p) (Fails p) := by
  obtain ⟨s, rest, h, -⟩ := hp.top
  refine .popStage h (.lift (fun s' hs => .pushStage ?_) fun e he => ?_)
  · exact hp.replace h (.inl (Stage.closure_of_push hs))
  · exact .intro (Stage.local_of_push he)

theorem local_of_read {text : String} {e : Error} (h : Value.read text = .error e) : e.Local := by
  unfold Value.read at h
  split at h <;> cases h
  exact .json _

theorem local_of_leaf {token : String} {e : Error} (h : Leaf.read token = .error e) : e.Local := by
  unfold Leaf.read at h
  split at h
  · cases h
  · cases h
  · cases h
  · cases hv : Value.read token with
    | ok v =>
      rw [hv] at h
      cases h
    | error e' =>
      rw [hv] at h
      cases h
      exact local_of_read hv
  · split at h
    · split at h <;> cases h
      exact .parse (by rw [String.append_assoc, String.append_assoc, String.toList_append]; rfl)
        (by decide : 'i' ≠ 'u')
    · split at h <;> cases h

theorem goes_leaf (hp : p.Disciplined) (t : String) :
    Goes (leaf t) p (fun _ => Kept p) (Fails p) :=
  .lift (fun x _ => goes_pushOperand hp x) fun _ he => .intro (local_of_leaf he)

/-! ## Operators -/

theorem isBracket_of_binds {keep : Nat → Bool} {x : Pending} (h : x.binds keep = true) :
    x.isBracket = false := by
  unfold Pending.binds at h
  unfold Pending.isBracket
  split at h
  · rename_i ht
    rw [ht]
    rfl
  · cases h

theorem le_of_binds (right : Bool) {t u : Nat} {lower : Pending} (hu : lower.tier? = some u)
    (h : lower.binds (fun v => if right then t < v else t ≤ v) = false) : u ≤ t := by
  rw [Pending.binds, hu] at h
  cases right with
  | true => exact Nat.le_of_not_lt (of_decide_eq_false h)
  | false => exact Nat.le_of_lt (Nat.lt_of_not_le (of_decide_eq_false h))

theorem goes_infixOp (hp : p.Disciplined) {x : Pending} (hx : x ≠ .ternaryElse) (hw : x.Waits)
    (hb : x.bracket? = none) : Goes (infixOp context x) p (fun _ => Plain p) (Fails p) := by
  refine (goes_foldAll (fun _ => isBracket_of_binds) hp).bind fun _ q hq => ?_
  obtain ⟨s, rest, hs, -⟩ := hq.disciplined.top
  refine .top hs
    (.enter ⟨hq.disciplined.enter rfl rfl ⟨fun h => absurd h hx, ?_⟩ hw s.ok_child, ?_, ?_⟩)
  · intro lower hlower t u ht hu
    have h := hq.folded.head lower hlower
    rw [ht] at h
    exact le_of_binds _ hu h
  · exact ⟨hq.same.taken, hq.same.slots⟩
  · exact (List.filterMap_cons_none hb).trans hq.folded.brackets

theorem goes_prefixOp (hp : p.Disciplined) {o : Operator} (ho : o.place = .before) :
    Goes (prefixOp o) p (fun _ => Plain p) (Fails p) := by
  obtain ⟨s, rest, hs, -⟩ := hp.top
  have htier : o.tier = 10 := by cases o <;> first | rfl | cases ho
  have hwaits : (Pending.op o).Waits := ⟨by rw [ho]; decide, by rintro rfl; cases ho⟩
  refine .top hs (.enter ⟨hp.enter rfl rfl ⟨nofun, ?_⟩ hwaits s.ok_child, ⟨rfl, rfl⟩, rfl⟩)
  intro lower _ t u ht hu
  exact Option.some.inj ht ▸ htier ▸ Pending.tier_le hu

theorem goes_postfixOp (hp : p.Disciplined) (o : Operator) :
    Goes (postfixOp context o) p (fun _ => Plain p) (Fails p) := by
  refine (goes_foldAll (fun _ => isBracket_of_binds) hp).bind fun _ q hq => ?_
  obtain ⟨s, rest, hs, -⟩ := hq.disciplined.top
  refine .top hs (.lift (fun (x, s₁) h₁ => .lift (fun s₂ h₂ => .replace hs ?_) fun e he => ?_)
    fun e he => ?_)
  · exact hq.plain.trans (hq.disciplined.replace hs (.inl (Stage.closure_of_push h₂))).plain
  · exact .trans hq.same (.intro (Stage.local_of_push he))
  · exact .trans hq.same (.intro (Stage.local_of_pop he))

/-- A `?` that waits is on top when all that binds more tightly has been folded. -/
theorem goes_ternaryElse (hp : p.Disciplined) (h : hasOpenTernary 0 p.pending = true) :
    Goes (ternaryElse context) p (fun _ => Plain p) (Fails p) := by
  have hk (x : Pending) (hx : (x.binds (fun t => Operator.ternaryTier < t) || x == .ternaryElse)
      = true) : x.isBracket = false := by
    rcases Bool.or_eq_true_iff.mp hx with hx | hx
    · exact isBracket_of_binds hx
    · rw [beq_iff_eq.mp hx]
      rfl
  refine (goes_foldAll hk hp).bind fun _ q hq => ?_
  obtain ⟨s, rest, hs, -⟩ := hq.disciplined.top
  have htop : q.pending.head? = some .ternary := by
    have hopen := hq.folded.hasOpenTernary.trans h
    have hhead := hq.folded.head
    have hstacked := hq.disciplined.stacked
    match he : q.pending with
    | [] =>
      rw [he] at hopen
      cases hopen
    | x :: below =>
      rw [he] at hopen hhead hstacked
      have hx := hhead x rfl
      -- nothing that binds less tightly than `?` can be above it
      have htier {t : Nat} (ht : x.tier? = some t) : t = Operator.ternaryTier := by
        refine Nat.le_antisymm ?_ (Nat.le_of_not_lt fun hlt => ?_)
        · have hb := (Bool.or_eq_false_iff.mp hx).1
          rw [Pending.binds, ht] at hb
          exact Nat.le_of_not_lt (of_decide_eq_false hb)
        · rw [hstacked.hasOpenTernary ht hlt] at hopen
          cases hopen
      cases x with
      | ternary => rfl
      | ternaryElse => cases hx
      | op o => exact absurd (htier rfl) (by cases o <;> decide)
      | bind _ => exact absurd (htier rfl) (by decide)
      | paren | brace _ => cases hopen
  refine .top hs
    (.enter ⟨hq.disciplined.enter rfl rfl ⟨fun _ => htop, ?_⟩ trivial s.ok_child, ?_, ?_⟩)
  · rw [htop]
    intro lower hlower t u ht hu
    obtain rfl : .ternary = lower := Option.some.inj hlower
    exact Nat.le_of_eq (Option.some.inj (hu.symm.trans ht))
  · exact ⟨hq.same.taken, hq.same.slots⟩
  · exact hq.folded.brackets

/-- A `->` takes a slot, and waits with it. -/
structure Binds (p q : Parse) : Prop where
  pending : q.pending.head? = some (.bind p.slots.alloc.1)
  taken : q.taken = p.taken ++ [p.slots.alloc.1]
  slots : q.slots = p.slots.alloc.2

theorem goes_bindOp (hp : p.Disciplined) :
    Goes (bindOp context) p (fun _ q => q.Disciplined ∧ q.brackets = p.brackets ∧ Binds p q)
      (Fails p) := by
  refine (goes_foldAll (fun _ => isBracket_of_binds) hp).bind fun _ q hq => ?_
  obtain ⟨s, rest, hs, -⟩ := hq.disciplined.top
  refine .top hs ?_
  have hthrow (text : String) : Goes (throw (.invalidSignature text) : Parser Unit) q
      (fun _ r => r.Disciplined ∧ r.brackets = p.brackets ∧ Binds p r) (Fails p) :=
    .throw (.trans hq.same (.intro (.invalidSignature text)))
  split
  next name _ =>
    refine .ite (fun _ => hthrow _) fun _ => ?_
    let slot := q.slots.alloc.1
    refine .ok () { q with
      slots := q.slots.alloc.2, taken := q.taken ++ [slot], pending := .bind slot :: q.pending
      stages := { s.child with scope := s.child.scope.declare name slot } :: q.stages }
      ⟨hq.disciplined.enter rfl rfl ⟨nofun, ?_⟩ trivial (.inl rfl), hq.folded.brackets, ?_⟩
      fun _ => rfl
    · intro lower hlower t u ht hu
      have h := hq.folded.head lower hlower
      rw [← Option.some.inj ht]
      exact le_of_binds true hu h
    · have hslots : p.slots = q.slots := hq.same.slots.symm
      exact ⟨by rw [hslots]; rfl, by rw [hslots, ← hq.same.taken], by rw [hslots]⟩
  next => exact hthrow _

/-! ## Brackets -/

theorem goes_openParen (hp : p.Disciplined) :
    Goes openParen p
      (fun _ q => q.Disciplined ∧ Same p q ∧ q.brackets = .paren :: p.brackets) (Fails p) := by
  obtain ⟨s, rest, hs, -⟩ := hp.top
  exact .top hs (.enter ⟨hp.enter rfl rfl ⟨nofun, nofun⟩ trivial (.inl rfl), ⟨rfl, rfl⟩, rfl⟩)

theorem goes_openBrace (hp : p.Disciplined) :
    Goes openBrace p
      (fun _ q => q.Disciplined ∧ Same p q ∧ q.brackets = .brace :: p.brackets) (Fails p) := by
  obtain ⟨s, rest, hs, -⟩ := hp.top
  have enter (kind : Body) (depth : Nat) :
      Goes (Parse.enter (.brace kind) { s.child with recordDepth := depth }) p
        (fun _ q => q.Disciplined ∧ Same p q ∧ q.brackets = .brace :: p.brackets) (Fails p) :=
    .enter ⟨hp.enter rfl rfl ⟨nofun, nofun⟩ trivial (.inl rfl), ⟨rfl, rfl⟩, rfl⟩
  refine Goes.step (n := do
    let s ← top
    if opensClosure s p.pending p.tokens then
      Parse.enter (.brace .closure) { s.child with recordDepth := 0 }
    else Parse.enter (.brace .record) { s.child with recordDepth := s.recordDepth + 1 })
    (.top hs (.ite (fun _ => enter ..) fun _ => enter ..)) fun _ => rfl

/-- What lies below a bracket is in good order without it and the stage that it opened. -/
theorem Disciplined.close (hp : p.Disciplined) {x : Pending} {below : List Pending}
    (h : p.pending = x :: below) :
    ∃ body s rest, p.stages = body :: s :: rest ∧
      Disciplined { p with pending := below, stages := s :: rest } := by
  obtain ⟨body, s, rest, hs, hlength⟩ := hp.stages_eq h
  have hok : s.Ok := hp.stages s (hs ▸ .tail _ List.mem_cons_self)
  refine ⟨body, s, rest, hs, hp.of_merged (h ▸ List.suffix_cons ..) ?_ hlength ?_⟩
  · rw [hs]
    exact (List.suffix_cons ..).trans (List.suffix_cons ..)
  · exact ⟨⟨s, hok, rfl⟩, rfl, rfl, rfl⟩

theorem local_of_build {scope : Scope} {xs : List Operand} {e : Error}
    (h : Record.build scope xs = .error e) : e.Local := by
  unfold Record.build at h
  split at h
  · unfold Record.ofText at h
    cases hv : Value.read (Record.text ((Record.parts xs).map Record.fixedContent)) with
    | ok v =>
      rw [hv] at h
      cases h
    | error e' =>
      rw [hv] at h
      cases h
      exact local_of_read hv
  · cases h

theorem goes_closeRecord (hp : p.Disciplined) (body : Stage) :
    Goes (closeRecord body) p (fun _ => Kept p) (Fails p) := by
  obtain ⟨s, rest, hs, hok⟩ := hp.top
  refine .lift (fun record _ => .top hs ?_) fun _ he => .intro (local_of_build he)
  split
  next w hlast =>
    refine .ite (fun _ => ?_) fun _ => goes_pushOperand hp record
    have hok' : Stage.Ok { s with operands := s.operands.dropLast } :=
      hok.imp_right fun h => by rw [h]; rfl
    refine Goes.bind (Goes.replace hs (hp.replace hs hok') : Goes _ p (fun _ => Kept p) (Fails p))
      fun _ q hq => ?_
    refine (goes_pushOperand hq.disciplined _).mono (fun _ r hr => ?_)
      fun e r hr => .trans hq.same hr
    exact ⟨hr.disciplined, hq.same.trans hr.same, hr.pending.trans hq.pending⟩
  next => exact goes_pushOperand hp record

theorem goes_closeClosure (hp : p.Disciplined) (body : Stage) :
    Goes (closeClosure context body) p (fun _ => Kept p) (Fails p) := by
  obtain ⟨s, rest, hs, -⟩ := hp.top
  refine .top hs (.ite (fun _ => .throw (.intro .closureNotFinal)) fun h => .replace hs ?_)
  refine hp.replace hs (.inr ?_)
  simpa using (not_or.mp (mt Bool.or_eq_true_iff.mpr h)).2

/-- What a token that is refused says about the stacks: nothing, or that a bracket closes one that
is not the innermost. -/
structure Refuses (t : String) (p : Parse) (e : Error) (q : Parse) : Prop where
  same : Same p q
  error : e.Local ∨ (∃ c, e = .mismatchedBracket c) ∧ Bracket.next t p.brackets = none

theorem Fails.refuses {t : String} {e : Error} (h : Fails p e q) : Refuses t p e q :=
  ⟨h.same, .inl h.error⟩

/-- The innermost bracket, if there is one, is on top when all else has been folded. -/
inductive Innermost (q : Parse) : Prop
  | none (hp : q.pending = []) (hb : q.brackets = [])
  | paren (below : List Pending) (hp : q.pending = .paren :: below)
    (hb : q.brackets = .paren :: below.filterMap Pending.bracket?)
  | brace (kind : Body) (below : List Pending) (hp : q.pending = .brace kind :: below)
    (hb : q.brackets = .brace :: below.filterMap Pending.bracket?)

theorem goes_foldAll_brackets (context : Context) (hp : p.Disciplined) :
    Goes (foldAll context fun x => !x.isBracket) p (fun _ q => Plain p q ∧ Innermost q)
      (Fails p) := by
  refine (goes_foldAll (fun x hx => by simpa using hx) hp).mono
    (fun _ q hq => ⟨hq.plain, ?_⟩) fun _ _ h => h
  have hhead := hq.folded.head
  match h : q.pending with
  | [] => exact .none h (congrArg (List.filterMap Pending.bracket?) h)
  | .paren :: below => exact .paren below h (congrArg (List.filterMap Pending.bracket?) h)
  | .brace kind :: below => exact .brace kind below h (congrArg (List.filterMap Pending.bracket?) h)
  | .op o :: _ | .bind _ :: _ | .ternary :: _ | .ternaryElse :: _ =>
    rw [h] at hhead
    cases hhead _ rfl

theorem goes_closeParen (hp : p.Disciplined) :
    Goes (closeParen context) p
      (fun _ q => q.Disciplined ∧ Same p q ∧ Bracket.next ")" p.brackets = some q.brackets)
      (Refuses ")" p) := by
  refine ((goes_foldAll_brackets context hp).mono (fun _ _ h => h) fun _ _ h => h.refuses).bind
    fun _ q ⟨hq, hin⟩ => ?_
  obtain ⟨hgood, hsame, hbrackets⟩ := hq
  rw [← hbrackets]
  obtain ⟨tokens, stages, pending, taken, slots, env⟩ := q
  have refuse (h : Bracket.next ")" p.brackets = none) :
      Refuses ")" p (.mismatchedBracket ')') ⟨tokens, stages, pending, taken, slots, env⟩ :=
    ⟨hsame, .inr ⟨⟨_, rfl⟩, h⟩⟩
  cases hin with
  | none hpending hb =>
    subst hpending
    exact .error _ _ (refuse (by rw [← hbrackets, hb]; rfl)) fun _ => rfl
  | brace kind below hpending hb =>
    subst hpending
    exact .error _ _ (refuse (by rw [← hbrackets, hb]; rfl)) fun _ => rfl
  | paren below hpending hb =>
    obtain ⟨group, s, rest, hs, hclosed⟩ := hgood.close hpending
    subst hs hpending
    refine Goes.step (q := ⟨tokens, group :: s :: rest, below, taken, slots, env⟩) (n := do
      let group ← popStage
      let s ← popStage
      let s ← lift (s.push (group.toOperand context))
      pushStage { s with mode := s.mode <|> group.mode }) ?_ fun _ => rfl
    refine .popStage rfl (.popStage rfl (.lift (fun s' h' => .pushStage ?_) fun e he => ?_))
    · have hok : Stage.Ok { s' with mode := s'.mode <|> group.mode } :=
        Stage.Ok.mode (.inl (Stage.closure_of_push h')) _
      have hk := hclosed.replace rfl hok
      exact ⟨hk.disciplined, ⟨hsame.taken, hsame.slots⟩, rfl⟩
    · exact ⟨⟨hsame.taken, hsame.slots⟩, .inl (Stage.local_of_push he)⟩

theorem goes_closeBrace (hp : p.Disciplined) :
    Goes (closeBrace context) p
      (fun _ q => q.Disciplined ∧ Same p q ∧ Bracket.next "\x7d" p.brackets = some q.brackets)
      (Refuses "\x7d" p) := by
  refine ((goes_foldAll_brackets context hp).mono (fun _ _ h => h) fun _ _ h => h.refuses).bind
    fun _ q ⟨hq, hin⟩ => ?_
  obtain ⟨hgood, hsame, hbrackets⟩ := hq
  rw [← hbrackets]
  obtain ⟨tokens, stages, pending, taken, slots, env⟩ := q
  have refuse (h : Bracket.next "\x7d" p.brackets = none) :
      Refuses "\x7d" p (.mismatchedBracket '\x7d') ⟨tokens, stages, pending, taken, slots, env⟩ :=
    ⟨hsame, .inr ⟨⟨_, rfl⟩, h⟩⟩
  cases hin with
  | none hpending hb =>
    subst hpending
    exact .error _ _ (refuse (by rw [← hbrackets, hb]; rfl)) fun _ => rfl
  | paren below hpending hb =>
    subst hpending
    exact .error _ _ (refuse (by rw [← hbrackets, hb]; rfl)) fun _ => rfl
  | brace kind below hpending hb =>
    obtain ⟨body, s, rest, hs, hclosed⟩ := hgood.close hpending
    subst hs hpending
    have hsame' : Same p ⟨tokens, s :: rest, below, taken, slots, env⟩ :=
      ⟨hsame.taken, hsame.slots⟩
    have close {m : Parser Unit}
        (hm : Goes m ⟨tokens, s :: rest, below, taken, slots, env⟩
          (fun _ => Kept ⟨tokens, s :: rest, below, taken, slots, env⟩)
          (Fails ⟨tokens, s :: rest, below, taken, slots, env⟩)) :
        Goes m ⟨tokens, s :: rest, below, taken, slots, env⟩ (fun _ r => r.Disciplined ∧ Same p r ∧
          some (below.filterMap Pending.bracket?) = some r.brackets) (Refuses "\x7d" p) :=
      hm.mono (fun _ r hr => ⟨hr.disciplined, hsame'.trans hr.same, congrArg some
        (congrArg (List.filterMap Pending.bracket?) hr.pending.symm)⟩)
        fun e r hr => ⟨hsame'.trans hr.same, .inl hr.error⟩
    cases kind with
    | record => exact (close (goes_closeRecord hclosed body)).step fun _ => rfl
    | closure => exact (close (goes_closeClosure hclosed body)).step fun _ => rfl

/-! ## Tokens -/

/-- A symbol between operands, and the operator that it writes. -/
theorem waits_of_ofInfix? {t : String} {o : Operator} (h : Operator.ofInfix? t = some o)
    (ht : t ≠ "->") : (Pending.op o).Waits := by
  obtain ⟨hplace, rfl⟩ := Operator.symbol_of_ofInfix? h
  refine ⟨by rw [hplace]; nofun, ?_⟩
  rintro rfl
  exact ht rfl

theorem goes_recordToken (hp : p.Disciplined) (t : String) :
    Goes (recordToken context t) p (fun _ => Plain p) (Fails p) := by
  obtain ⟨s, rest, hs, -⟩ := hp.top
  have push (x : Operand) : Goes (pushOperand x) p (fun _ => Plain p) (Fails p) :=
    (goes_pushOperand hp x).mono (fun _ _ h => h.plain) fun _ _ h => h
  refine .top hs ?_
  cases h : Operator.ofInfix? t with
  | some o =>
    refine .ite (fun hv => goes_infixOp hp nofun ?_ rfl) fun _ => push _
    have hvalue : o.isValueOp = true := (Bool.and_eq_true_iff.mp hv).1
    exact waits_of_ofInfix? h (by rintro rfl; cases h; cases hvalue)
  | none =>
    exact .ite (fun _ => push _) fun _ =>
      (goes_leaf hp t).mono (fun _ _ h => h.plain) fun _ _ h => h

/-- Whether a token is a `->` outside records. -/
def takesSlot (t : String) (p : Parse) : Bool :=
  t == "->" && p.stages.head?.all fun s => s.recordDepth == 0

/-- What a token does to the stacks, the brackets and the slots. -/
structure Reads (t : String) (p q : Parse) : Prop where
  disciplined : q.Disciplined
  brackets : Bracket.next t p.brackets = some q.brackets
  same : takesSlot t p = false → Same p q
  binds : takesSlot t p = true → Binds p q

theorem Plain.reads {t : String} (h : Plain p q) (ht : ∀ b, Bracket.next t b = some b)
    (hs : takesSlot t p = false) : Reads t p q :=
  ⟨h.disciplined, (ht _).trans (congrArg some h.brackets.symm), fun _ => h.same,
    fun hs' => absurd (hs.symm.trans hs') nofun⟩

theorem goes_plainToken (hp : p.Disciplined) {t : String} {s : Stage} {rest : List Stage}
    (hs : p.stages = s :: rest) (hd : ¬ 0 < s.recordDepth) (ht : ∀ b, Bracket.next t b = some b) :
    Goes (plainToken context t) p (fun _ => Reads t p) (Fails p) := by
  have htakes : takesSlot t p = (t == "->") := by
    have hzero : (s.recordDepth == 0) = true := beq_iff_eq.mpr (Nat.eq_zero_of_not_pos hd)
    rw [takesSlot, hs, List.head?_cons, Option.all_some, hzero, Bool.and_true]
  refine .get (.top hs (.ite (fun h => ?_) fun h => ?_)) fun _ => rfl
  · refine goes_bindOp hp |>.mono (fun _ q ⟨hq, hb, hbinds⟩ => ?_) fun _ _ h => h
    exact ⟨hq, (ht _).trans (congrArg some hb.symm), fun h' => absurd (h'.symm.trans htakes) (by
      rw [h]; nofun), fun _ => hbinds⟩
  · have hnot : takesSlot t p = false := htakes.trans (Bool.eq_false_iff.mpr h)
    have plain {m : Parser Unit} (hm : Goes m p (fun _ => Plain p) (Fails p)) :
        Goes m p (fun _ => Reads t p) (Fails p) :=
      hm.mono (fun _ _ hq => hq.reads ht hnot) fun _ _ h => h
    refine .ite (fun _ => plain (goes_infixOp hp nofun trivial rfl)) fun _ => ?_
    refine .ite (fun h => plain (goes_ternaryElse hp (Bool.and_eq_true_iff.mp h).2)) fun _ => ?_
    refine .ite (fun _ => plain (goes_postfixOp hp _)) fun _ => ?_
    refine .ite (fun _ => plain (goes_postfixOp hp _)) fun _ => ?_
    refine .ite (fun _ => plain (goes_prefixOp hp rfl)) fun _ => ?_
    refine .ite (fun _ => plain (goes_prefixOp hp rfl)) fun _ => ?_
    refine .ite (fun _ => plain (goes_prefixOp hp rfl)) fun _ => plain ?_
    cases ho : Operator.ofInfix? t with
    | some o => exact goes_infixOp hp nofun (waits_of_ofInfix? ho (by simpa using h)) rfl
    | none => exact (goes_leaf hp t).mono (fun _ _ h => h.plain) fun _ _ h => h

/-- What a token can do, from stacks in good order. -/
theorem goes_token (context : Context) (hp : p.Disciplined) (t : String) :
    Goes (token context t) p (fun _ => Reads t p) (Refuses t p) := by
  have bracket {m : Parser Unit} {bad : Error → Parse → Prop} (ht : t ≠ "->")
      (hm : Goes m p (fun _ q => q.Disciplined ∧ Same p q ∧
        Bracket.next t p.brackets = some q.brackets) bad)
      (hbad : ∀ e q, bad e q → Refuses t p e q) : Goes m p (fun _ => Reads t p) (Refuses t p) := by
    refine hm.mono (fun _ q ⟨hq, hsame, hb⟩ => ⟨hq, hb, fun _ => hsame, fun h => ?_⟩) hbad
    exact absurd (beq_iff_eq.mp (Bool.and_eq_true_iff.mp h).1) ht
  refine .ite (fun h => ?_) fun h₁ => .ite (fun h => ?_) fun h₂ => .ite (fun h => ?_) fun h₃ =>
    .ite (fun h => ?_) fun h₄ => ?_
  · obtain rfl := beq_iff_eq.mp h
    exact bracket (by decide) ((goes_openParen hp).mono
      (fun _ q ⟨hq, hsame, hb⟩ => ⟨hq, hsame, congrArg some hb.symm⟩) fun _ _ h => h)
      fun _ _ h => h.refuses
  · obtain rfl := beq_iff_eq.mp h
    exact bracket (by decide) (goes_closeParen hp) fun _ _ h => h
  · obtain rfl := beq_iff_eq.mp h
    exact bracket (by decide) ((goes_openBrace hp).mono
      (fun _ q ⟨hq, hsame, hb⟩ => ⟨hq, hsame, congrArg some hb.symm⟩) fun _ _ h => h)
      fun _ _ h => h.refuses
  · obtain rfl := beq_iff_eq.mp h
    exact bracket (by decide) (goes_closeBrace hp) fun _ _ h => h
  · have ht (b : List Bracket) : Bracket.next t b = some b := by
      simp only [beq_iff_eq] at h₁ h₂ h₃ h₄
      simp only [Bracket.next, h₁, h₂, h₃, h₄, if_false]
    obtain ⟨s, rest, hs, -⟩ := hp.top
    refine .top hs (.ite (fun hd => ?_) fun hd => ?_)
    · refine (goes_recordToken hp t).mono (fun _ q hq => hq.reads ht ?_) fun _ _ h => h.refuses
      rw [takesSlot, hs]
      exact Bool.and_eq_false_imp.mpr fun _ => beq_eq_false_iff_ne.mpr (Nat.ne_of_gt hd)
    · exact (goes_plainToken hp hs hd ht).mono (fun _ _ h => h) fun _ _ h => h.refuses

/-- What a token did that could be read. -/
theorem Disciplined.reads (hp : p.Disciplined) {t : String}
    (h : Parse.token context t p = .ok () q) : Reads t p q := by
  obtain ⟨_, r, hr, hreads⟩ | ⟨e, r, hr, -⟩ := (goes_token context hp t).outcome
  · cases h.symm.trans hr
    exact hreads
  · cases h.symm.trans hr

theorem Disciplined.all (hp : p.Disciplined) {tokens : List String}
    (h : Parse.all context tokens p = .ok () q) : q.Disciplined := by
  induction tokens generalizing p with
  | nil =>
    cases h
    exact hp
  | cons t rest ih =>
    obtain ⟨r, hr, h⟩ := all_inv h
    exact ih ((hp.with_tokens rest).reads hr).disciplined h

/-! ## The end of a line -/

/-- How a line can end: with one stage left and no bracket open, or with an error that the stacks
cannot be blamed for, unless a bracket was not closed. -/
theorem finish_cases (context : Context) (hp : p.Disciplined) :
    (∃ r q, finish context p = .ok r q ∧ Same p q ∧ p.brackets = []) ∨
    ∃ e q, finish context p = .error e q ∧ Same p q ∧
      (e.Local ∨ (∃ c, e = .mismatchedBracket c) ∧ p.brackets ≠ []) := by
  obtain ⟨_, q, h, hq, hin⟩ | ⟨e, q, h, hq⟩ := (goes_foldAll_brackets context hp).outcome
  · have hfinish : finish context p = _ := bind_ok h
    rw [hfinish]
    obtain ⟨hgood, hsame, hbrackets⟩ := hq
    rw [← hbrackets]
    obtain ⟨tokens, stages, pending, taken, slots, env⟩ := q
    cases hin with
    | none hpending hb =>
      subst hpending
      obtain ⟨s, rfl⟩ := List.length_eq_one_iff.mp hgood.length
      exact .inl ⟨_, _, rfl, ⟨hsame.taken, hsame.slots⟩, hb⟩
    | paren below hpending hb =>
      subst hpending
      exact .inr ⟨_, _, rfl, hsame, .inr ⟨⟨_, rfl⟩, by rw [hb]; nofun⟩⟩
    | brace kind below hpending hb =>
      subst hpending
      exact .inr ⟨_, _, rfl, hsame, .inr ⟨⟨_, rfl⟩, by rw [hb]; nofun⟩⟩
  · exact .inr ⟨e, q, bind_error h, hq.same, .inl hq.error⟩

end Parse

/-! ## Lines -/

/-- The brackets that are open after some tokens, unless one of them closes one that is not the
innermost. -/
def Bracket.scan : List String → List Bracket → Option (List Bracket)
  | [], opened => some opened
  | t :: rest, opened => (Bracket.next t opened).bind (Bracket.scan rest)

/-- Reading tokens leaves open the brackets that they leave open, or ends with an error that the
stacks cannot be blamed for, unless a bracket closes one that is not the innermost. -/
theorem Parse.all_brackets (context : Context) {p : Parse} (hp : p.Disciplined)
    (tokens : List String) :
    (∃ q, Parse.all context tokens p = .ok () q ∧ q.Disciplined ∧
      Bracket.scan tokens p.brackets = some q.brackets) ∨
    ∃ e q, Parse.all context tokens p = .error e q ∧
      (e.Local ∨ (∃ c, e = .mismatchedBracket c) ∧ Bracket.scan tokens p.brackets = none) := by
  induction tokens generalizing p with
  | nil => exact .inl ⟨p, rfl, hp, rfl⟩
  | cons t rest ih =>
    obtain ⟨_, r, hr, hreads⟩ | ⟨e, r, hr, hrefuses⟩ :=
      (Parse.goes_token context (hp.with_tokens rest) t).outcome
    · have hnext : Bracket.next t p.brackets = some r.brackets := hreads.brackets
      rw [Parse.all_ok hr, Bracket.scan, hnext]
      exact ih hreads.disciplined
    · refine .inr ⟨e, r, Parse.all_error hr, hrefuses.error.imp_right fun ⟨hc, hnext⟩ => ⟨hc, ?_⟩⟩
      have hnext : Bracket.next t p.brackets = none := hnext
      rw [Bracket.scan, hnext]
      rfl

/-- A line that is read has no bracket open at its end. One that is refused has an error that the
stacks cannot be blamed for, or a bracket without its partner. -/
theorem parse_brackets (context : Context) (tokens : List String) (w : World) :
    (∃ r w', parse context tokens w = (.ok r, w') ∧ Bracket.scan tokens [] = some []) ∨
    ∃ e w', parse context tokens w = (.error e, w') ∧
      (e.Local ∨ (∃ c, e = .mismatchedBracket c) ∧ Bracket.scan tokens [] ≠ some []) := by
  obtain ⟨q, hq, hgood, hscan⟩ | ⟨e, q, hq, he⟩ :=
    Parse.all_brackets context (Parse.disciplined_start w tokens) tokens
  · have hscan : Bracket.scan tokens [] = some q.brackets := hscan
    obtain ⟨r, q', hr, -, hb⟩ | ⟨e, q', hr, -, he⟩ := Parse.finish_cases context hgood
    · exact .inl ⟨r, _, parse_of_ok ((Parse.bind_ok hq).trans hr), hscan.trans (congrArg some hb)⟩
    · refine .inr ⟨e, _, parse_of_error ((Parse.bind_ok hq).trans hr), he.imp_right fun ⟨hc, hb⟩ =>
        ⟨hc, fun h => hb (Option.some.inj (hscan.symm.trans h))⟩⟩
  · refine .inr ⟨e, _, parse_of_error (Parse.bind_error hq), he.imp_right fun ⟨hc, hscan⟩ =>
      ⟨hc, fun h => ?_⟩⟩
    have hscan : Bracket.scan tokens [] = none := hscan
    exact nomatch hscan.symm.trans h

end Rill
