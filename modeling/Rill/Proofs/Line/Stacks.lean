import Rill.Proofs.Line.Steps

/-!
# The two stacks of a line

Between two tokens the stacks of a line are in good order (`Parse.Disciplined`): there is one stage
more than there are pending entries, the `:` of a `?` stands on its `?`, no operator stands on one
that binds more tightly, and no stage is a closure and has operands. `Parse.Goes` says of a step to
what ends it can come, and that it neither reads nor takes what lies below the stages of its line.
Folding what is pending keeps the stacks in good order, and never asks for a stage or for a `?` that
is not there (`Parse.goes_foldAll`).
-/

namespace Rill

/-! ## Brackets -/

/-- A kind of brackets. -/
inductive Bracket where
  /-- Parentheses. -/
  | paren
  /-- Braces. -/
  | brace
  deriving DecidableEq, Repr

/-- The brackets that are open after a token, the innermost first, unless it closes one that is not
the innermost. -/
def Bracket.next (token : String) (opened : List Bracket) : Option (List Bracket) :=
  if token = "(" then some (.paren :: opened)
  else if token = "\x7b" then some (.brace :: opened)
  else if token = ")" then
    match opened with
    | .paren :: rest => some rest
    | _ => none
  else if token = "\x7d" then
    match opened with
    | .brace :: rest => some rest
    | _ => none
  else some opened

namespace Pending

/-- The bracket that an entry is. -/
def bracket? : Pending → Option Bracket
  | paren => some .paren
  | brace _ => some .brace
  | _ => none

/-- The entry may stand directly on these: the `:` of a `?` on its `?`, and an operator on a bracket
or on one that binds no more tightly. -/
structure On (upper : Pending) (below : List Pending) : Prop where
  ternary : upper = .ternaryElse → below.head? = some .ternary
  tier : ∀ lower ∈ below.head?, ∀ t u, upper.tier? = some t → lower.tier? = some u → u ≤ t

/-- Each entry may stand on those below it. -/
def Stacked : List Pending → Prop
  | [] => True
  | upper :: below => upper.On below ∧ Stacked below

/-- The entry is no operator that never waits. -/
def Waits : Pending → Prop
  | op o => o.place ≠ .after ∧ o ≠ .bind
  | _ => True

/-- What is left of the pending entries when one has been folded. -/
inductive Drops : List Pending → List Pending → Prop
  | op (o : Operator) (rest : List Pending) : Drops (.op o :: rest) rest
  | bind (slot : Handle) (rest : List Pending) : Drops (.bind slot :: rest) rest
  | ternary (rest : List Pending) : Drops (.ternaryElse :: .ternary :: rest) rest

/-- What is left of the pending entries when all on top were folded of which `keep` holds. -/
inductive Folded (keep : Pending → Bool) : List Pending → List Pending → Prop
  | done {entries : List Pending} (h : ∀ p ∈ entries.head?, keep p = false) :
    Folded keep entries entries
  | drop {entries rest left : List Pending} (h : Drops entries rest) (k : Folded keep rest left) :
    Folded keep entries left

theorem tier_le {p : Pending} {t : Nat} (h : p.tier? = some t) : t ≤ 10 := by
  have ops (o : Operator) : o.tier ≤ 10 := by cases o <;> decide
  cases p with
  | op o => exact Option.some.inj h ▸ ops o
  | bind _ => exact Option.some.inj h ▸ ops .bind
  | ternary | ternaryElse =>
    have e : Operator.ternaryTier = t := Option.some.inj h
    rw [← e]
    decide
  | paren | brace _ => cases h

theorem Drops.suffix {entries rest : List Pending} (h : Drops entries rest) : rest <:+ entries := by
  cases h with
  | op o rest => exact List.suffix_cons ..
  | bind slot rest => exact List.suffix_cons ..
  | ternary rest => exact (List.suffix_cons ..).trans (List.suffix_cons ..)

theorem Drops.length_lt {entries rest : List Pending} (h : Drops entries rest) :
    rest.length < entries.length := by
  cases h with
  | op _ rest | bind _ rest => exact Nat.lt_succ_self _
  | ternary rest => exact Nat.lt_succ_of_lt (Nat.lt_succ_self _)

/-- Folding an operator leaves the brackets. -/
theorem Drops.brackets {entries rest : List Pending} (h : Drops entries rest) :
    rest.filterMap bracket? = entries.filterMap bracket? := by
  cases h <;> rfl

/-- Folding an operator, or a `?` with its `:`, leaves the `?` that wait. -/
theorem Drops.hasOpenTernary {entries rest : List Pending} (h : Drops entries rest) :
    Parse.hasOpenTernary 0 rest = Parse.hasOpenTernary 0 entries := by
  cases h <;> rfl

theorem Stacked.of_suffix {entries rest : List Pending} (h : Stacked entries)
    (hs : rest <:+ entries) : Stacked rest := by
  obtain ⟨front, rfl⟩ := hs
  induction front with
  | nil => exact h
  | cons p front ih => exact ih h.2

namespace Folded

variable {keep : Pending → Bool} {entries left : List Pending}

theorem brackets (h : Folded keep entries left) :
    left.filterMap bracket? = entries.filterMap bracket? := by
  induction h with
  | done => rfl
  | drop h _ ih => exact ih.trans h.brackets

theorem hasOpenTernary (h : Folded keep entries left) :
    Parse.hasOpenTernary 0 left = Parse.hasOpenTernary 0 entries := by
  induction h with
  | done => rfl
  | drop h _ ih => exact ih.trans h.hasOpenTernary

theorem suffix (h : Folded keep entries left) : left <:+ entries := by
  induction h with
  | done => exact List.suffix_refl _
  | drop h _ ih => exact ih.trans h.suffix

theorem head (h : Folded keep entries left) : ∀ p ∈ left.head?, keep p = false := by
  induction h with
  | done h => exact h
  | drop _ _ ih => exact ih

end Folded

/-- Above an operator that binds less tightly than `?` no `?` can wait, down to the next bracket. -/
theorem Stacked.hasOpenTernary {closed : Nat} {p : Pending} {below : List Pending}
    (h : Stacked (p :: below)) {t : Nat} (ht : p.tier? = some t) (hlt : t < Operator.ternaryTier) :
    Parse.hasOpenTernary closed (p :: below) = false := by
  -- on what is below: the tiers fall, until there is a bracket or nothing
  induction below generalizing p t with
  | nil =>
    cases p with
    | ternary | ternaryElse => exact absurd (Option.some.inj ht) (Nat.ne_of_gt hlt)
    | _ => rfl
  | cons q below ih =>
    have rest : Parse.hasOpenTernary closed (q :: below) = false := by
      cases hq : q.tier? with
      | none => cases q <;> first | rfl | cases hq
      | some u => exact ih h.2 hq (Nat.lt_of_le_of_lt (h.1.tier q rfl t u ht hq) hlt)
    cases p with
    | ternary | ternaryElse => exact absurd (Option.some.inj ht) (Nat.ne_of_gt hlt)
    | op _ | bind _ => exact rest
    | paren | brace _ => rfl

end Pending

/-! ## Stages -/

/-- A stage is no closure, or has no operands. -/
def Stage.Ok (s : Stage) : Prop := s.closure = none ∨ s.operands = []

/-- An error that the stacks cannot be blamed for, nor the brackets of the line. -/
structure Error.Local (e : Error) : Prop where
  operator : e ≠ .missingOperator
  unexpected : ∀ text, e ≠ .parse ("unexpected operator" ++ text)
  bracket : ∀ c, e ≠ .mismatchedBracket c

namespace Error.Local

theorem missingOperand : Error.missingOperand.Local := ⟨nofun, nofun, nofun⟩

theorem missingTernary : Error.missingTernary.Local := ⟨nofun, nofun, nofun⟩

theorem closureNotFinal : Error.closureNotFinal.Local := ⟨nofun, nofun, nofun⟩

theorem invalidSignature (text : String) : (Error.invalidSignature text).Local :=
  ⟨nofun, nofun, nofun⟩

theorem json (text : String) : (Error.json text).Local := ⟨nofun, nofun, nofun⟩

/-- A text that begins in another way than `unexpected operator`. -/
theorem parse {c : Char} {cs : List Char} {text : String} (h : text.toList = c :: cs)
    (hc : c ≠ 'u') : (Error.parse text).Local := by
  refine ⟨nofun, fun text' e => hc ?_, nofun⟩
  have e := congrArg String.toList (Error.parse.inj e)
  rw [h, String.toList_append] at e
  exact (List.cons.inj e).1

end Error.Local

namespace Stage

variable {s s' : Stage} {x : Operand} {e : Error}

theorem ok_child (s : Stage) : s.child.Ok := .inl rfl

theorem Ok.mode (h : s.Ok) (mode : Option Mode) : Stage.Ok { s with mode := mode } := h

theorem closure_of_push (h : s.push x = .ok s') : s'.closure = none := by
  unfold push at h
  split at h
  · cases h
  · rename_i hc
    cases h
    simpa using hc

theorem local_of_push (h : s.push x = .error e) : e.Local := by
  unfold push at h
  split at h
  · cases h
    exact .closureNotFinal
  · cases h

theorem pushAll_cons (s : Stage) (x : Operand) (xs : List Operand) :
    s.pushAll (x :: xs) = s.push x >>= fun s => s.pushAll xs := List.foldlM_cons ..

theorem Ok.pushAll (hs : s.Ok) {xs : List Operand} (h : s.pushAll xs = .ok s') : s'.Ok := by
  induction xs generalizing s with
  | nil =>
    cases h
    exact hs
  | cons x xs ih =>
    rw [pushAll_cons] at h
    cases hx : s.push x with
    | error e =>
      rw [hx] at h
      cases h
    | ok s₁ =>
      rw [hx] at h
      exact ih (.inl (closure_of_push hx)) h

theorem local_of_pushAll {xs : List Operand} (h : s.pushAll xs = .error e) : e.Local := by
  induction xs generalizing s with
  | nil => cases h
  | cons x xs ih =>
    rw [pushAll_cons] at h
    cases hx : s.push x with
    | error e' =>
      rw [hx] at h
      cases h
      exact local_of_push hx
    | ok s₁ =>
      rw [hx] at h
      exact ih h

theorem Ok.pop (hs : s.Ok) (h : s.pop = .ok (x, s')) : s'.Ok := by
  unfold Stage.pop at h
  split at h
  · rename_i hx
    cases h
    rcases hs with hc | hn
    · exact .inl hc
    · rw [hn] at hx
      cases hx
  · cases h

theorem local_of_pop (h : s.pop = .error e) : e.Local := by
  unfold pop at h
  split at h <;> cases h
  exact .missingOperand

theorem local_of_takeFirst (h : s.takeFirst = .error e) : e.Local := by
  unfold takeFirst at h
  split at h <;> cases h
  exact .missingOperand

end Stage

/-! ## Steps -/

namespace Parse

variable {context : Context} {α β : Type} {m : Parser α} {p q : Parse}

/-- The line with more stages below. -/
def above (p : Parse) (base : List Stage) : Parse := { p with stages := p.stages ++ base }

theorem above_nil (p : Parse) : p.above [] = p := by
  unfold above
  rw [List.append_nil]

/-- From `p` a step comes to an end of which `ok` holds, or to an error of which `bad` does. It goes
the same way with any stages below those of `p`, and leaves them alone: so it never asks for a stage
when there is none left. -/
inductive Goes (m : Parser α) (p : Parse) (ok : α → Parse → Prop) (bad : Error → Parse → Prop) :
    Prop
  | ok (a : α) (q : Parse) (hq : ok a q) (h : ∀ base, m (p.above base) = .ok a (q.above base))
  | error (e : Error) (q : Parse) (hq : bad e q)
    (h : ∀ base, m (p.above base) = .error e (q.above base))

namespace Goes

variable {ok : α → Parse → Prop} {bad : Error → Parse → Prop} {ok' : β → Parse → Prop}

theorem mono {ok₁ : α → Parse → Prop} {bad₁ : Error → Parse → Prop} (h : Goes m p ok₁ bad₁)
    (hok : ∀ a q, ok₁ a q → ok a q) (hbad : ∀ e q, bad₁ e q → bad e q) : Goes m p ok bad := by
  cases h with
  | ok a q hq h => exact .ok a q (hok a q hq) h
  | error e q hq h => exact .error e q (hbad e q hq) h

protected theorem bind {f : α → Parser β} (hm : Goes m p ok bad)
    (hf : ∀ a q, ok a q → Goes (f a) q ok' bad) : Goes (m >>= f) p ok' bad := by
  cases hm with
  | ok a q hq h =>
    cases hf a q hq with
    | ok b r hr k => exact .ok b r hr fun base => (bind_ok (h base)).trans (k base)
    | error e r hr k => exact .error e r hr fun base => (bind_ok (h base)).trans (k base)
  | error e q hq h => exact .error e q hq fun base => bind_error (h base)

/-- A step that is the same as another one from a line that is known. -/
theorem step {n : Parser α} (h : Goes n q ok bad)
    (e : ∀ base, m (p.above base) = n (q.above base)) : Goes m p ok bad := by
  cases h with
  | ok a r hr k => exact .ok a r hr fun base => (e base).trans (k base)
  | error e' r hr k => exact .error e' r hr fun base => (e base).trans (k base)

/-- A look at the line, of which what is below its stages is not seen. -/
protected theorem get {f : Parse → Parser α} (h : Goes (f p) p ok bad)
    (e : ∀ base, f (p.above base) (p.above base) = f p (p.above base)) :
    Goes (get >>= f) p ok bad :=
  h.step fun base => (bind_ok rfl).trans (e base)

protected theorem pure {a : α} (h : ok a p) : Goes (pure a) p ok bad := .ok a p h fun _ => rfl

protected theorem throw {e : Error} (h : bad e p) : Goes (throw e : Parser α) p ok bad :=
  .error e p h fun _ => rfl

protected theorem ite {c : Prop} [Decidable c] {m n : Parser α} (hm : c → Goes m p ok bad)
    (hn : ¬ c → Goes n p ok bad) : Goes (if c then m else n) p ok bad := by
  split
  · rename_i h
    exact hm h
  · rename_i h
    exact hn h

protected theorem lift {r : Except Error α} {f : α → Parser β}
    (h : ∀ a, r = .ok a → Goes (f a) p ok' bad) (hbad : ∀ e, r = .error e → bad e p) :
    Goes (Parse.lift r >>= f) p ok' bad := by
  cases hr : r with
  | ok a => exact (h a hr).step fun _ => rfl
  | error e => exact .error e p (hbad e hr) fun _ => rfl

protected theorem top {f : Stage → Parser β} {s : Stage} {rest : List Stage}
    (hs : p.stages = s :: rest) (h : Goes (f s) p ok' bad) : Goes (Parse.top >>= f) p ok' bad := by
  obtain ⟨tokens, stages, pending, taken, slots, env⟩ := p
  subst hs
  exact h.step fun _ => rfl

protected theorem popStage {f : Stage → Parser β} {s : Stage} {rest : List Stage}
    (hs : p.stages = s :: rest) (h : Goes (f s) { p with stages := rest } ok' bad) :
    Goes (Parse.popStage >>= f) p ok' bad := by
  obtain ⟨tokens, stages, pending, taken, slots, env⟩ := p
  subst hs
  exact h.step fun _ => rfl

protected theorem pushStage {s : Stage} {ok : Unit → Parse → Prop}
    (h : ok () { p with stages := s :: p.stages }) : Goes (Parse.pushStage s) p ok bad :=
  .ok () _ h fun _ => rfl

protected theorem enter {pending : Pending} {s : Stage} {ok : Unit → Parse → Prop}
    (h : ok () { p with pending := pending :: p.pending, stages := s :: p.stages }) :
    Goes (Parse.enter pending s) p ok bad :=
  .ok () _ h fun _ => rfl

protected theorem replace {s s' : Stage} {rest : List Stage} {ok : Unit → Parse → Prop}
    (hs : p.stages = s :: rest) (h : ok () { p with stages := s' :: rest }) :
    Goes (modify fun p => { p with stages := s' :: p.stages.drop 1 }) p ok bad := by
  obtain ⟨tokens, stages, pending, taken, slots, env⟩ := p
  subst hs
  exact .ok () _ h fun _ => rfl

/-- How the step ends when nothing lies below. -/
theorem outcome (h : Goes m p ok bad) :
    (∃ a q, m p = .ok a q ∧ ok a q) ∨ ∃ e q, m p = .error e q ∧ bad e q := by
  cases h with
  | ok a q hq h =>
    have k := h []
    rw [above_nil, above_nil] at k
    exact .inl ⟨a, q, k, hq⟩
  | error e q hq h =>
    have k := h []
    rw [above_nil, above_nil] at k
    exact .inr ⟨e, q, k, hq⟩

end Goes

/-! ## Folding -/

/-- The same slots. -/
structure Same (p q : Parse) : Prop where
  taken : q.taken = p.taken
  slots : q.slots = p.slots

theorem Same.refl (p : Parse) : Same p p := ⟨rfl, rfl⟩

theorem Same.trans {p q r : Parse} (h : Same p q) (k : Same q r) : Same p r :=
  ⟨k.taken.trans h.taken, k.slots.trans h.slots⟩

/-- A step gave up for a reason that has nothing to do with the stacks, and took no slot. -/
structure Fails (p : Parse) (e : Error) (q : Parse) : Prop where
  same : Same p q
  error : e.Local

theorem Fails.trans {p q r : Parse} {e : Error} (h : Same p q) (k : Fails q e r) : Fails p e r :=
  ⟨h.trans k.same, k.error⟩

/-- Some stages on top became one. -/
structure Merged (p : Parse) (rest : List Stage) (q : Parse) : Prop where
  stages : ∃ s : Stage, s.Ok ∧ q.stages = s :: rest
  pending : q.pending = p.pending
  same : Same p q

/-- The stacks are in good order. -/
structure Disciplined (p : Parse) : Prop where
  /-- There is one stage more than there are pending entries. -/
  length : p.stages.length = p.pending.length + 1
  /-- The `:` of a `?` stands on its `?`, and no operator on one that binds more tightly. -/
  stacked : Pending.Stacked p.pending
  /-- No operator waits that is done at once. -/
  waits : ∀ x ∈ p.pending, x.Waits
  /-- No stage is a closure and has operands. -/
  stages : ∀ s ∈ p.stages, s.Ok

variable {right left : Stage} {rest : List Stage}

theorem Merged.intro {s : Stage} (hs : s.Ok) : Merged p rest { p with stages := s :: rest } :=
  ⟨⟨s, hs, rfl⟩, rfl, rfl, rfl⟩

/-- Whatever has become of the stacks. -/
theorem Fails.intro {e : Error} (he : e.Local) {stages : List Stage} {pending : List Pending} :
    Fails p e { p with stages := stages, pending := pending } := ⟨⟨rfl, rfl⟩, he⟩

theorem goes_foldPrefix (op : Operator) (hs : p.stages = right :: left :: rest) :
    Goes (foldPrefix op) p (fun _ => Merged p rest) (Fails p) := by
  refine .popStage hs (.popStage rfl (.lift (fun (x, right') _ => ?_) fun e he => ?_))
  · refine .lift (fun left₁ h₁ => ?_) fun e he => .intro (Stage.local_of_push he)
    refine .lift (fun left₂ h₂ => .pushStage ?_) fun e he => .intro (Stage.local_of_pushAll he)
    exact .intro (Stage.Ok.mode (.pushAll (.inl (Stage.closure_of_push h₁)) h₂) _)
  · exact .intro (Stage.local_of_takeFirst he)

theorem goes_foldBinary (op : Operator) (hs : p.stages = right :: left :: rest) :
    Goes (foldBinary op) p (fun _ => Merged p rest) (Fails p) := by
  refine .popStage hs (.popStage rfl ?_)
  refine .lift (fun (x, left₁) _ => ?_) fun e he => .intro (Stage.local_of_pop he)
  refine .lift (fun (y, right₁) _ => ?_) fun e he => .intro (Stage.local_of_takeFirst he)
  refine .lift (fun left₂ h₂ => ?_) fun e he => .intro (Stage.local_of_push he)
  refine .lift (fun left₃ h₃ => .pushStage ?_) fun e he => .intro (Stage.local_of_pushAll he)
  exact .intro (Stage.Ok.mode (.pushAll (.inl (Stage.closure_of_push h₂)) h₃) _)

theorem goes_foldGreater (s : Stage) (hs : p.stages = right :: left :: rest) (hl : left.Ok) :
    Goes (foldGreater s) p (fun _ => Merged p rest) (Fails p) := by
  unfold foldGreater
  split
  · exact goes_foldBinary .gt hs
  · refine .popStage hs (.popStage rfl ?_)
    refine .lift (fun (_, right₁) _ => ?_) fun e he => .intro (Stage.local_of_takeFirst he)
    refine .lift (fun left₁ h₁ => .pushStage ?_) fun e he => .intro (Stage.local_of_pushAll he)
    exact .intro ((hl.pushAll h₁).mode _)

/-- What cannot be assigned to is named in a text that begins in its own way. -/
theorem local_cannotAssign (text : String) : (Error.parse ("cannot assign to " ++ text)).Local :=
  .parse (String.toList_append ..) (by decide)

theorem goes_foldAssign (hs : p.stages = right :: left :: rest) (hl : left.Ok) :
    Goes (foldAssign context) p (fun _ => Merged p rest) (Fails p) := by
  refine .popStage hs (.popStage rfl ?_)
  refine .lift (fun (target, left₁) h₁ => ?_) fun e he => .intro (Stage.local_of_pop he)
  have hleft : left₁.Ok := hl.pop h₁
  match target with
  | .streamRef name =>
    refine Goes.step (n := pushStage left₁)
      (q := ⟨p.tokens, rest, p.pending, p.taken, p.slots,
        p.env.set name (right.toFactory context)⟩) (.pushStage ?_) fun _ => rfl
    exact ⟨⟨left₁, hleft, rfl⟩, rfl, rfl, rfl⟩
  | .word name => exact .pushStage (.intro hleft)
  | .value v => exact .throw (.intro (local_cannotAssign _))
  | .stream f => exact .throw (.intro (local_cannotAssign _))
  | .deferred d => exact .throw (.intro (local_cannotAssign _))

theorem goes_foldPipe (hs : p.stages = right :: left :: rest) (hr : right.Ok) :
    Goes (foldPipe context) p (fun _ => Merged p rest) (Fails p) :=
  .popStage hs (.popStage rfl (.pushStage (.intro hr)))

theorem goes_foldSeq (hs : p.stages = right :: left :: rest) (hr : right.Ok) :
    Goes (foldSeq context) p (fun _ => Merged p rest) (Fails p) :=
  .popStage hs (.popStage rfl (.pushStage (.intro hr)))

theorem goes_foldWindow (hs : p.stages = right :: left :: rest) (hl : left.Ok) :
    Goes foldWindow p (fun _ => Merged p rest) (Fails p) :=
  .popStage hs (.popStage rfl (.pushStage (.intro hl)))

theorem goes_foldBind (slot : Handle) (hs : p.stages = right :: left :: rest) :
    Goes (foldBind context slot) p (fun _ => Merged p rest) (Fails p) := by
  refine .popStage hs (.popStage rfl (.ite (fun _ => .throw ?_) fun _ => .pushStage ?_))
  · exact .intro .closureNotFinal
  · exact .intro (.inr rfl)

/-- The `:` of a `?` is folded with it. -/
theorem goes_foldTernary {middle : Stage} {below : List Pending}
    (hs : p.stages = right :: middle :: left :: rest) (hp : p.pending = .ternary :: below)
    (hl : left.Ok) :
    Goes foldTernary p (fun _ => Merged { p with pending := below } rest) (Fails p) := by
  obtain ⟨tokens, stages, pending, taken, slots, env⟩ := p
  subst hs hp
  refine .popStage rfl (.popStage rfl ?_)
  refine Goes.step (q := ⟨tokens, left :: rest, below, taken, slots, env⟩) (n := do
      let left ← popStage
      let popped ← lift left.pop
      let left ← lift (popped.2.pushAll
        (Operand.ternary right.scope popped.1 middle.operands right.operands))
      pushStage left) ?_ fun _ => rfl
  refine .popStage rfl ?_
  refine .lift (fun popped h₁ => ?_) fun e he => .intro (Stage.local_of_pop he)
  refine .lift (fun left₂ h₂ => .pushStage ?_) fun e he => .intro (Stage.local_of_pushAll he)
  exact .intro ((hl.pop h₁).pushAll h₂)

/-- There are stages for the entry on top. -/
theorem Disciplined.stages_eq (hp : p.Disciplined) {top : Pending} {below : List Pending}
    (h : p.pending = top :: below) :
    ∃ right left rest, p.stages = right :: left :: rest ∧ rest.length = below.length := by
  have hlength := hp.length
  rw [h, List.length_cons] at hlength
  match hs : p.stages with
  | [] | [_] =>
    rw [hs] at hlength
    simp at hlength
  | right :: left :: rest =>
    rw [hs] at hlength
    exact ⟨right, left, rest, rfl, by simpa using hlength⟩

/-- The stacks are in good order when what was pending on top was folded. -/
theorem Disciplined.of_merged (hp : p.Disciplined) {below : List Pending} {rest : List Stage}
    (hb : below <:+ p.pending) (hr : rest <:+ p.stages) (hlength : rest.length = below.length)
    (h : Merged { p with pending := below } rest q) : q.Disciplined := by
  obtain ⟨⟨s, hs, e⟩, hpending, -⟩ := h
  refine ⟨?_, ?_, ?_, ?_⟩
  · rw [e, hpending, List.length_cons, hlength]
  · rw [hpending]
    exact hp.stacked.of_suffix hb
  · rw [hpending]
    exact fun x hx => hp.waits x (hb.subset hx)
  · rw [e]
    intro t ht
    rcases List.mem_cons.mp ht with rfl | ht
    · exact hs
    · exact hp.stages t (hr.subset ht)

/-- An operator that waits is folded, whichever it is. -/
theorem goes_foldOp (o : Operator) (hw : (Pending.op o).Waits)
    (hs : p.stages = right :: left :: rest) (hr : right.Ok) (hl : left.Ok) :
    Goes (fold context) { p with pending := .op o :: p.pending } (fun _ => Merged p rest)
      (Fails p) := by
  cases o with
  | gt =>
    exact Goes.step (n := do foldGreater (← top)) (.top hs (goes_foldGreater right hs hl))
      fun _ => rfl
  | assign => exact (goes_foldAssign hs hl).step fun _ => rfl
  | pipe => exact (goes_foldPipe hs hr).step fun _ => rfl
  | seq => exact (goes_foldSeq hs hr).step fun _ => rfl
  | window => exact (goes_foldWindow hs hl).step fun _ => rfl
  | rangeFrom | background => exact absurd rfl hw.1
  | bind => exact absurd rfl hw.2
  | neg | pos | not => exact (goes_foldPrefix _ hs).step fun _ => rfl
  | _ => exact (goes_foldBinary _ hs).step fun _ => rfl

/-- Folding what is pending on top, which is no bracket, leaves the stacks in good order. -/
theorem goes_fold (hp : p.Disciplined) {top : Pending} {below : List Pending}
    (h : p.pending = top :: below) (hb : top.isBracket = false) :
    Goes (fold context) p
      (fun _ q => q.Disciplined ∧ Same p q ∧ Pending.Drops p.pending q.pending) (Fails p) := by
  obtain ⟨right, left, rest, hs, hlength⟩ := hp.stages_eq h
  have hright : right.Ok := hp.stages right (by rw [hs]; exact List.mem_cons_self)
  have hleft : left.Ok := hp.stages left (by rw [hs]; exact .tail _ List.mem_cons_self)
  have hwaits : top.Waits := hp.waits top (by rw [h]; exact List.mem_cons_self)
  have hrest : rest <:+ p.stages := by
    rw [hs]
    exact (List.suffix_cons ..).trans (List.suffix_cons ..)
  have good {below' : List Pending} {rest' : List Stage} {q : Parse}
      (hd : Pending.Drops p.pending below') (hr : rest' <:+ p.stages)
      (hl : rest'.length = below'.length) (hq : Merged { p with pending := below' } rest' q) :
      q.Disciplined ∧ Same p q ∧ Pending.Drops p.pending q.pending :=
    ⟨hp.of_merged hd.suffix hr hl hq, ⟨hq.same.taken, hq.same.slots⟩,
      hq.pending ▸ hd⟩
  obtain ⟨tokens, stages, pending, taken, slots, env⟩ := p
  subst hs h
  have fails {e : Error} {q : Parse} {pending : List Pending}
      (hq : Fails ⟨tokens, right :: left :: rest, pending, taken, slots, env⟩ e q) :
      Fails ⟨tokens, right :: left :: rest, top :: below, taken, slots, env⟩ e q :=
    ⟨⟨hq.same.taken, hq.same.slots⟩, hq.error⟩
  cases top with
  | op o =>
    exact (goes_foldOp (p := ⟨tokens, _, below, taken, slots, env⟩) o hwaits rfl hright hleft).mono
      (fun _ _ hq => good (.op o below) hrest hlength hq) fun _ _ hq => fails hq
  | bind slot =>
    exact ((goes_foldBind (p := ⟨tokens, _, below, taken, slots, env⟩) slot rfl).mono
      (fun _ _ hq => good (.bind slot below) hrest hlength hq) fun _ _ hq => fails hq).step
      fun _ => rfl
  | ternary =>
    exact .error _ ⟨tokens, _, below, taken, slots, env⟩ ⟨⟨rfl, rfl⟩, .missingTernary⟩
      fun _ => rfl
  | ternaryElse =>
    -- the `?` is the next entry, so there is a third stage
    obtain ⟨under, below, rfl⟩ : ∃ under below', below = under :: below' := by
      cases below with
      | nil => exact absurd (hp.stacked.1.ternary rfl) nofun
      | cons under below => exact ⟨under, below, rfl⟩
    obtain rfl : under = .ternary := Option.some.inj (hp.stacked.1.ternary rfl)
    obtain ⟨last, rest, rfl⟩ : ∃ last rest', rest = last :: rest' :=
      List.exists_cons_of_length_eq_add_one hlength
    have hlast : last.Ok := hp.stages last (by simp)
    refine ((goes_foldTernary (p := ⟨tokens, _, .ternary :: below, taken, slots, env⟩) rfl rfl
      hlast).mono (fun _ _ hq => good (.ternary below) ?_ (by simpa using hlength) hq)
      fun _ _ hq => fails hq).step fun _ => rfl
    exact (List.suffix_cons ..).trans hrest
  | paren | brace _ => cases hb

/-! ## Folding as long as it can go on -/

/-- Folding some of what is pending, but no bracket, leaves the stacks in good order; if the count
suffices, nothing that was to be folded is left on top. -/
theorem goes_foldWhile (context : Context) {keep : Pending → Bool}
    (hk : ∀ x, keep x = true → x.isBracket = false)
    (count : Nat) (hp : p.Disciplined) :
    Goes (foldWhile context keep count) p
      (fun _ q => q.Disciplined ∧ Same p q ∧
        (p.pending.length ≤ count → Pending.Folded keep p.pending q.pending)) (Fails p) := by
  induction count generalizing p with
  | zero =>
    refine .pure ⟨hp, .refl p, fun h => .done ?_⟩
    rw [List.length_eq_zero_iff.mp (Nat.le_zero.mp h)]
    nofun
  | succ count ih =>
    obtain ⟨tokens, stages, pending, taken, slots, env⟩ := p
    cases pending with
    | nil => exact .ok () _ ⟨hp, .refl _, fun _ => .done nofun⟩ fun _ => rfl
    | cons top below =>
      refine Goes.step (n := if keep top then do fold context; foldWhile context keep count
        else return ()) (.ite (fun hkeep => ?_) fun hkeep => .pure ⟨hp, .refl _, fun _ => .done ?_⟩)
        fun _ => rfl
      · refine (goes_fold hp rfl (hk top hkeep)).bind fun _ q ⟨hq, hsame, hdrops⟩ => ?_
        refine (ih hq).mono (fun _ r ⟨hr, hr', hfolded⟩ => ⟨hr, hsame.trans hr', fun hc => ?_⟩)
          fun e r hr => .trans hsame hr
        exact .drop hdrops (hfolded (Nat.le_of_lt_succ (Nat.lt_of_lt_of_le hdrops.length_lt hc)))
      · rintro x hx
        obtain rfl : top = x := Option.some.inj hx
        simpa using hkeep

/-- All that was to be folded has been. -/
structure Cleared (keep : Pending → Bool) (p q : Parse) : Prop where
  disciplined : q.Disciplined
  same : Same p q
  folded : Pending.Folded keep p.pending q.pending

theorem goes_foldAll {keep : Pending → Bool} (hk : ∀ x, keep x = true → x.isBracket = false)
    (hp : p.Disciplined) :
    Goes (foldAll context keep) p (fun _ => Cleared keep p) (Fails p) := by
  refine Goes.step (n := foldWhile context keep p.pending.length) ?_ fun _ => rfl
  exact (goes_foldWhile context hk _ hp).mono
    (fun _ q ⟨hq, hsame, hf⟩ => ⟨hq, hsame, hf (Nat.le_refl _)⟩)
    fun _ _ h => h

end Parse

end Rill
