import Mathlib.Logic.Relation
import Rill.Proofs.Line.Tokens

/-!
# Moves of the two stacks

What a token does to the stacks of a line is a number of moves (`Parse.Move`): a stage on top gets
other operands, an operator or a bracket is entered, an operator is folded, or a bracket is closed.
No stage gets a feed unless a `|` or `;` is folded, and none becomes a closure unless a `->` is
folded or a brace is closed.

A step that can be done alone makes the same moves in a part of a line (`Parse.Leads`): it does not
look at what was read before the part (`Around`), and to it what follows the part is the end of the
line. That is so of every token if the part stands in brackets, and otherwise of the tokens that
bind more tightly than what is around the part (`Parse.Fits`). `Parse.leads_token` says both of
every token.
-/

namespace Rill

/-! ## Moves -/

/-- The stages are the same but for their operands, their scopes and what they say of printing. -/
structure Stage.Similar (s s' : Stage) : Prop where
  feed : s'.feed = s.feed
  closure : s'.closure = s.closure
  recordDepth : s'.recordDepth = s.recordDepth

/-- The stages are the same but for their operands and what they say of printing. -/
structure Stage.Twin (s s' : Stage) : Prop extends s.Similar s' where
  scope : s'.scope = s.scope

namespace Stage

variable {s s' s₁ : Stage} {x : Operand}

theorem Twin.refl (s : Stage) : s.Twin s := ⟨⟨rfl, rfl, rfl⟩, rfl⟩

theorem Twin.trans (h : s.Twin s') (k : s'.Twin s₁) : s.Twin s₁ :=
  ⟨⟨k.feed.trans h.feed, k.closure.trans h.closure, k.recordDepth.trans h.recordDepth⟩,
    k.scope.trans h.scope⟩

theorem Twin.mode (h : s.Twin s') (mode : Option Mode) : s.Twin { s' with mode := mode } :=
  ⟨⟨h.feed, h.closure, h.recordDepth⟩, h.scope⟩

theorem twin_push (h : s.push x = .ok s') : s.Twin s' := by
  unfold push at h
  split at h <;> cases h
  exact ⟨⟨rfl, rfl, rfl⟩, rfl⟩

theorem twin_pushAll {xs : List Operand} (h : s.pushAll xs = .ok s') : s.Twin s' := by
  induction xs generalizing s with
  | nil =>
    cases h
    exact .refl _
  | cons x xs ih =>
    rw [pushAll_cons] at h
    cases hx : s.push x with
    | error e =>
      rw [hx] at h
      cases h
    | ok s₁ =>
      rw [hx] at h
      exact (twin_push hx).trans (ih h)

theorem twin_pop (h : s.pop = .ok (x, s')) : s.Twin s' := by
  unfold pop at h
  split at h <;> cases h
  exact ⟨⟨rfl, rfl, rfl⟩, rfl⟩

end Stage

/-- Whether folding the entry feeds a stage or makes it a closure. -/
def Pending.feeds : Pending → Bool
  | .op .pipe | .op .seq | .bind _ => true
  | _ => false

/-- Whether the entry is an operator that binds no more tightly than `?`. -/
def Pending.loose (x : Pending) : Bool := x.binds fun t => t ≤ Operator.ternaryTier

/-- The stage that folding the entry makes of the one before it, if it does not feed a stage or make
it a closure: an assignment may change the scope, and any other operator does not. -/
def Pending.Joins (x : Pending) (left s : Stage) : Prop :=
  x.feeds = true ∨ left.Twin s ∨ x = .op .assign ∧ left.Similar s

/-- Whether a token stands for an entry that feeds a stage or makes it a closure. -/
def feeds (t : String) : Bool := t == "|" || t == ";" || t == "->"

/-- Whether a token stands for an operator that binds no more tightly than `?`. -/
def loose (t : String) : Bool := ["|", ";", ":", "?", "->", "="].contains t

/-- The entries that a token may stand for. -/
inductive Denotes (t : String) : Pending → Prop
  | between {o : Operator} (h : Operator.ofInfix? t = some o) : Denotes t (.op o)
  | before {o : Operator} (h : o.place = .before) : Denotes t (.op o)
  | bind (h : t = "->") (slot : Handle) : Denotes t (.bind slot)
  | ternary (h : t = "?") : Denotes t .ternary
  | ternaryElse (h : t = ":") : Denotes t .ternaryElse
  | bracket {x : Pending} (h : x.isBracket = true) : Denotes t x

theorem loose_of_ofInfix? {t : String} {o : Operator} (h : Operator.ofInfix? t = some o)
    (ho : o.tier ≤ Operator.ternaryTier) : loose t = true := by
  obtain ⟨-, rfl⟩ := Operator.symbol_of_ofInfix? h
  cases o
  case assign | pipe | seq | window | bind => rfl
  all_goals exact absurd ho (by decide)

namespace Denotes

variable {t : String} {x : Pending}

theorem feeds (h : Denotes t x) (hx : x.feeds = true) : Rill.feeds t = true := by
  cases h with
  | between h =>
    obtain ⟨-, rfl⟩ := Operator.symbol_of_ofInfix? h
    rename_i o
    cases o
    case pipe | seq => rfl
    all_goals cases hx
  | @before o h =>
    have hno : (Pending.op o).feeds = false := by cases o <;> first | rfl | cases h
    exact absurd (hno.symm.trans hx) nofun
  | bind h slot => rw [h]; rfl
  | ternary h | ternaryElse h => cases hx
  | bracket h =>
    have hno : x.feeds = false := by cases x <;> first | rfl | cases h
    exact absurd (hno.symm.trans hx) nofun

theorem loose (h : Denotes t x) (hx : x.loose = true) : Rill.loose t = true := by
  cases h with
  | between h => exact loose_of_ofInfix? h (of_decide_eq_true hx)
  | @before o h =>
    have hno : (Pending.op o).loose = false := by cases o <;> first | rfl | cases h
    exact absurd (hno.symm.trans hx) nofun
  | bind h slot => rw [h]; rfl
  | ternary h | ternaryElse h => rw [h]; rfl
  | bracket h =>
    have hno : x.loose = false := by cases x <;> first | rfl | cases h
    exact absurd (hno.symm.trans hx) nofun

end Denotes

namespace Parse

/-- The stage on top has other operands. -/
def Touched (p q : Parse) : Prop :=
  ∃ s s' rest, p.stages = s :: rest ∧ s.Twin s' ∧ q.stages = s' :: rest ∧ q.pending = p.pending

theorem Touched.intro {p : Parse} {s s' : Stage} {rest : List Stage} (hs : p.stages = s :: rest)
    (h : s.Twin s') : Touched p { p with stages := s' :: rest } := ⟨s, s', rest, hs, h, rfl, rfl⟩

theorem Touched.trans {p q r : Parse} (h : Touched p q) (k : Touched q r) : Touched p r := by
  obtain ⟨s, s₁, rest, hs, h₁, hq, hq'⟩ := h
  obtain ⟨s₂, s', rest', hs', h₂, hr, hr'⟩ := k
  obtain ⟨rfl, rfl⟩ := List.cons.inj (hq.symm.trans hs')
  exact ⟨s, s', rest, hs, h₁.trans h₂, hr, hr'.trans hq'⟩

/-- What a token can do to the stacks in one go. -/
inductive Move (t : String) (p q : Parse) : Prop
  /-- The stage on top has other operands. -/
  | touch (h : Touched p q)
  /-- An entry waits, and a stage was opened for what follows it. -/
  | enter {x : Pending} {s u : Stage} {rest : List Stage} (hx : Denotes t x)
    (hc : x = .brace .closure → p.pending ≠ []) (hs : p.stages = u :: rest)
    (hd : x.isBracket = false → s.recordDepth = u.recordDepth) (hq : q.stages = s :: p.stages)
    (hq' : q.pending = x :: p.pending)
  /-- An operator was folded. -/
  | fold {x : Pending} {below : List Pending} {right left s : Stage} {rest : List Stage}
    (hb : x.isBracket = false) (hp : p.pending = x :: below) (hs : p.stages = right :: left :: rest)
    (h : x.Joins left s) (hq : q.stages = s :: rest) (hq' : q.pending = below)
  /-- A `?` and its `:` were folded. -/
  | ternary {below : List Pending} {right middle left s : Stage} {rest : List Stage}
    (hp : p.pending = .ternaryElse :: .ternary :: below)
    (hs : p.stages = right :: middle :: left :: rest) (h : left.Twin s)
    (hq : q.stages = s :: rest) (hq' : q.pending = below)
  /-- A bracket was closed. -/
  | close {x : Pending} {below : List Pending} {body s s' : Stage} {rest : List Stage}
    (ht : t = ")" ∨ t = "\x7d") (hp : p.pending = x :: below) (hs : p.stages = body :: s :: rest)
    (hd : s'.recordDepth = s.recordDepth) (h : x = .brace .closure ∨ s.Twin s')
    (hq : q.stages = s' :: rest) (hq' : q.pending = below)

/-- What a token can do to the stacks. -/
abbrev Moves (t : String) : Parse → Parse → Prop := Relation.ReflTransGen (Move t)

end Parse

/-! ## Steps -/

theorem Pending.isBracket_cases {x : Pending} (h : x.isBracket = true) :
    x = .paren ∨ ∃ kind, x = .brace kind := by
  cases x with
  | paren => exact .inl rfl
  | brace kind => exact .inr ⟨kind, rfl⟩
  | op _ | bind _ | ternary | ternaryElse => cases h

/-- What was read before a part of a line. -/
structure Around where
  /-- The stages. -/
  base : List Stage
  /-- The entries. -/
  below : List Pending
  /-- The slots that were taken. -/
  taken : List Handle
  /-- The entry on top is a bracket, or binds no more tightly than `|`. -/
  floor : ∀ x ∈ below.head?, ∀ t, x.tier? = some t → t ≤ Operator.pipe.tier

namespace Around

/-- The part stands in brackets, or is a line. -/
def Closed (a : Around) : Prop := ∀ x ∈ a.below.head?, x.isBracket = true

/-- What was read before a part that stands in brackets. -/
def bracketed (base : List Stage) (bracket : Pending) (below : List Pending)
    (taken : List Handle) (h : bracket.isBracket = true) : Around where
  base := base
  below := bracket :: below
  taken := taken
  floor := by
    rintro _ ⟨⟩ t ht
    rw [Pending.isBracket, ht] at h
    cases h

theorem closed_bracketed {base : List Stage} {bracket : Pending} {below : List Pending}
    {taken : List Handle} {h : bracket.isBracket = true} :
    (bracketed base bracket below taken h).Closed := by
  rintro _ ⟨⟩
  exact h

end Around

namespace Parse

/-- The line, if it is a part of another one of which these tokens are to come. -/
def inside (p : Parse) (a : Around) (tokens : List String) : Parse :=
  { p with
    tokens := tokens
    stages := p.stages ++ a.base
    pending := p.pending ++ a.below
    taken := a.taken ++ p.taken }

variable {context : Context} {a : Around} {left : List String} {α β : Type} {m : Parser α}
  {p q : Parse} {t : String}

/-- A step that can be done from `p` comes to an end of which `ok` holds, and is done in the same
way in a part of a line. -/
def Leads (a : Around) (left : List String) (m : Parser α) (p : Parse) (ok : α → Parse → Prop) :
    Prop :=
  ∀ r q, m p = .ok r q → ok r q ∧ m (p.inside a left) = .ok r (q.inside a left)

namespace Leads

variable {ok : α → Parse → Prop} {ok' : β → Parse → Prop}

theorem mono {ok₁ : α → Parse → Prop} (h : Leads a left m p ok₁) (k : ∀ r q, ok₁ r q → ok r q) :
    Leads a left m p ok :=
  fun r q e => ⟨k r q (h r q e).1, (h r q e).2⟩

protected theorem bind {f : α → Parser β} (hm : Leads a left m p ok)
    (hf : ∀ r q, ok r q → Leads a left (f r) q ok') : Leads a left (m >>= f) p ok' := by
  intro r q h
  cases hp : m p with
  | ok s q₁ =>
    obtain ⟨hok, he⟩ := hm s q₁ hp
    rw [bind_ok hp] at h
    rw [bind_ok he]
    exact hf s q₁ hok r q h
  | error e q₁ =>
    rw [bind_error hp] at h
    cases h

/-- A step that is the same as another one from a line that is known. -/
protected theorem step {n : Parser α} (h : Leads a left n q ok) (e : m p = n q)
    (e' : m (p.inside a left) = n (q.inside a left)) : Leads a left m p ok := by
  intro r q' k
  rw [e']
  exact h r q' (e.symm.trans k)

/-- A look at the line that does not see what is around it. -/
protected theorem get {f : Parse → Parser α} (h : Leads a left (f p) p ok)
    (e : f (p.inside a left) = f p) : Leads a left (get >>= f) p ok :=
  h.step rfl (congrFun e _)

protected theorem pure {r : α} (h : ok r p) : Leads a left (pure r) p ok := by
  intro _ _ e
  cases e
  exact ⟨h, rfl⟩

protected theorem throw (e : Error) : Leads a left (throw e : Parser α) p ok := nofun

protected theorem ite {c : Prop} [Decidable c] {m n : Parser α} (hm : c → Leads a left m p ok)
    (hn : ¬ c → Leads a left n p ok) : Leads a left (if c then m else n) p ok := by
  split
  · rename_i h
    exact hm h
  · rename_i h
    exact hn h

protected theorem lift {r : Except Error α} {f : α → Parser β}
    (h : ∀ x, r = .ok x → Leads a left (f x) p ok') : Leads a left (Parse.lift r >>= f) p ok' := by
  cases r with
  | ok x => exact (h x rfl).step rfl rfl
  | error e => exact nofun

protected theorem top {f : Stage → Parser β}
    (h : ∀ s rest, p.stages = s :: rest → Leads a left (f s) p ok') :
    Leads a left (Parse.top >>= f) p ok' := by
  obtain ⟨tokens, _ | ⟨s, rest⟩, pending, taken, slots, env⟩ := p
  · exact nofun
  · exact (h s rest rfl).step rfl rfl

protected theorem popStage {f : Stage → Parser β}
    (h : ∀ s rest, p.stages = s :: rest → Leads a left (f s) { p with stages := rest } ok') :
    Leads a left (Parse.popStage >>= f) p ok' := by
  obtain ⟨tokens, _ | ⟨s, rest⟩, pending, taken, slots, env⟩ := p
  · exact nofun
  · exact (h s rest rfl).step rfl rfl

/-- The two stages on top are taken. -/
protected theorem popTwo {f : Stage → Stage → Parser β}
    (h : ∀ right left' rest, p.stages = right :: left' :: rest →
      Leads a left (f right left') { p with stages := rest } ok') :
    Leads a left (do let right ← Parse.popStage; let left ← Parse.popStage; f right left) p ok' :=
  .popStage fun right _ hs => .popStage fun left' rest hs' =>
    h right left' rest (hs.trans (congrArg (right :: ·) hs'))

/-- A change of the line that leaves alone what is around it. -/
protected theorem modify {f : Parse → Parse} {ok : Unit → Parse → Prop}
    (h : f (p.inside a left) = (f p).inside a left) (k : ok () (f p)) :
    Leads a left (modify f) p ok := by
  intro _ _ e
  cases e
  exact ⟨k, congrArg (EStateM.Result.ok ()) h⟩

protected theorem pushStage {s : Stage} {ok : Unit → Parse → Prop}
    (h : ok () { p with stages := s :: p.stages }) : Leads a left (Parse.pushStage s) p ok :=
  .modify rfl h

protected theorem enter {x : Pending} {s : Stage} {ok : Unit → Parse → Prop}
    (h : ok () { p with pending := x :: p.pending, stages := s :: p.stages }) :
    Leads a left (Parse.enter x s) p ok :=
  .modify rfl h

protected theorem replace {s s' : Stage} {rest : List Stage} {ok : Unit → Parse → Prop}
    (hs : p.stages = s :: rest) (h : ok () { p with stages := s' :: rest }) :
    Leads a left (modify fun p => { p with stages := s' :: p.stages.drop 1 }) p ok := by
  obtain ⟨tokens, stages, pending, taken, slots, env⟩ := p
  subst hs
  exact .modify rfl h

end Leads

/-! ## Folding -/

/-- Two stages became one, as they do when the entry is folded. -/
def Joined (x : Pending) (p : Parse) (_ : Unit) (q : Parse) : Prop :=
  ∃ right left s rest, p.stages = right :: left :: rest ∧ x.Joins left s ∧
    q.stages = s :: rest ∧ q.pending = p.pending

theorem Joined.intro {x : Pending} {right left s : Stage} {rest : List Stage}
    (hs : p.stages = right :: left :: rest) (h : x.Joins left s) :
    Joined x p () { p with stages := s :: rest } := ⟨right, left, s, rest, hs, h, rfl, rfl⟩

theorem leads_pushOperand (x : Operand) : Leads a left (pushOperand x) p fun _ => Touched p :=
  .popStage fun _ _ hs => .lift fun _ h => .pushStage (.intro hs (Stage.twin_push h))

variable {x : Pending}

theorem leads_foldPrefix (op : Operator) : Leads a left (foldPrefix op) p (Joined x p) := by
  refine .popTwo fun right left rest hs => .lift fun _ _ => .lift fun left₁ h₁ =>
    .lift fun left₂ h₂ => .pushStage (.intro hs (.inr (.inl ?_)))
  exact ((Stage.twin_push h₁).trans (Stage.twin_pushAll h₂)).mode _

theorem leads_foldBinary (op : Operator) : Leads a left (foldBinary op) p (Joined x p) := by
  refine .popTwo fun right left rest hs => .lift fun (_, left₀) h₀ => .lift fun _ _ =>
    .lift fun left₁ h₁ => .lift fun left₂ h₂ => .pushStage (.intro hs (.inr (.inl ?_)))
  exact ((Stage.twin_pop h₀).trans (Stage.twin_push h₁)).trans
    ((Stage.twin_pushAll h₂).mode _)

theorem leads_foldGreater (s : Stage) : Leads a left (foldGreater s) p (Joined x p) := by
  unfold foldGreater
  split
  · exact leads_foldBinary .gt
  · refine .popTwo fun right left rest hs => .lift fun _ _ => .lift fun left₁ h₁ =>
      .pushStage (.intro hs (.inr (.inl ?_)))
    exact (Stage.twin_pushAll h₁).mode _

theorem leads_foldAssign : Leads a left (foldAssign context) p (Joined (.op .assign) p) := by
  refine .popTwo fun right left rest hs => .lift fun (target, left₁) h₁ => ?_
  have htwin := Stage.twin_pop h₁
  match target with
  | .streamRef name =>
    refine (Leads.modify rfl rfl : Leads _ _ _ _ fun _ q => q = _).bind fun _ q hq => ?_
    exact .pushStage ⟨right, left, left₁, rest, hs, .inr (.inl htwin), by rw [hq], by rw [hq]⟩
  | .word name =>
    refine .pushStage (.intro hs (.inr (.inr ⟨rfl, ?_⟩)))
    exact ⟨htwin.feed, htwin.closure, htwin.recordDepth⟩
  | .value _ | .stream _ | .deferred _ => exact .throw _

theorem leads_foldPipe : Leads a left (foldPipe context) p (Joined (.op .pipe) p) :=
  .popTwo fun _ _ _ hs => .pushStage (.intro hs (.inl rfl))

theorem leads_foldSeq : Leads a left (foldSeq context) p (Joined (.op .seq) p) :=
  .popTwo fun _ _ _ hs => .pushStage (.intro hs (.inl rfl))

theorem leads_foldWindow : Leads a left foldWindow p (Joined x p) :=
  .popTwo fun _ _ _ hs => .pushStage (.intro hs (.inr (.inl ((Stage.Twin.refl _).mode _))))

theorem leads_foldBind (slot : Handle) :
    Leads a left (foldBind context slot) p (Joined (.bind slot) p) :=
  .popTwo fun _ _ _ hs => .ite (fun _ => .throw _) fun _ => .pushStage (.intro hs (.inl rfl))

theorem leads_foldTernary :
    Leads a left foldTernary p fun _ =>
      Move t { p with pending := .ternaryElse :: p.pending } := by
  refine .popTwo fun right middle upper hs => ?_
  obtain ⟨tokens, stages, _ | ⟨top, below⟩, taken, slots, env⟩ := p
  · exact nofun
  cases top with
  | ternary =>
    refine Leads.step (q := ⟨tokens, upper, below, taken, slots, env⟩) (n := do
      let left ← popStage
      let popped ← lift left.pop
      let left ← lift (popped.2.pushAll
        (Operand.ternary right.scope popped.1 middle.operands right.operands))
      pushStage left) ?_ rfl rfl
    refine .popStage fun left rest hs' => .lift fun _ h₁ => .lift fun left₂ h₂ => .pushStage ?_
    have hstages : stages = right :: middle :: left :: rest :=
      hs.trans (congrArg (fun rest => right :: middle :: rest) hs')
    exact .ternary rfl hstages ((Stage.twin_pop h₁).trans (Stage.twin_pushAll h₂)) rfl rfl
  | _ => exact nofun

theorem Leads.joined {n : Parser Unit} {x : Pending} {below : List Pending} {m : Parser Unit}
    (hp : p.pending = x :: below) (hb : x.isBracket = false)
    (hn : Leads a left n { p with pending := below } (Joined x { p with pending := below }))
    (e : m p = n { p with pending := below })
    (e' : m (p.inside a left) = n (inside { p with pending := below } a left)) :
    Leads a left m p fun _ => Move t p := by
  refine (hn.mono ?_).step e e'
  rintro _ q ⟨right, left, s, rest, hs, h, hq, hq'⟩
  exact .fold hb hp hs h hq hq'

/-- An operator that is folded joins two stages. -/
theorem leads_fold (t : String) : Leads a left (fold context) p fun _ => Move t p := by
  obtain ⟨tokens, stages, _ | ⟨top, below⟩, taken, slots, env⟩ := p
  · exact nofun
  cases top with
  | op o =>
    cases o with
    | gt =>
      refine .joined (n := do foldGreater (← Parse.top)) rfl rfl ?_ rfl rfl
      exact .top fun s _ _ => leads_foldGreater s
    | assign => exact .joined rfl rfl leads_foldAssign rfl rfl
    | pipe => exact .joined rfl rfl leads_foldPipe rfl rfl
    | seq => exact .joined rfl rfl leads_foldSeq rfl rfl
    | window => exact .joined rfl rfl leads_foldWindow rfl rfl
    | rangeFrom | background | bind => exact nofun
    | neg | pos | not => exact .joined rfl rfl (leads_foldPrefix _) rfl rfl
    | _ => exact .joined rfl rfl (leads_foldBinary _) rfl rfl
  | bind slot => exact .joined rfl rfl (leads_foldBind slot) rfl rfl
  | ternaryElse => exact leads_foldTernary.step rfl rfl
  | ternary | paren | brace _ => exact nofun

/-- Folding what is pending on top, which is no bracket, leaves the stacks in good order. -/
theorem leads_foldOn (t : String) (hp : p.Disciplined) {top : Pending} {below : List Pending}
    (h : p.pending = top :: below) (hb : top.isBracket = false) :
    Leads a left (fold context) p fun _ q =>
      Move t p q ∧ q.Disciplined ∧ q.brackets = p.brackets := by
  intro r q hq
  obtain ⟨hmove, hinside⟩ := leads_fold t r q hq
  obtain ⟨_, q', hq', hgood, -, hdrops⟩ | ⟨e, q', hq', -⟩ := (goes_fold hp h hb).outcome
  · cases hq.symm.trans hq'
    exact ⟨⟨hmove, hgood, hdrops.brackets⟩, hinside⟩
  · cases hq.symm.trans hq'

/-- Folding comes to an end in the part: at a bracket of its own, or before what is around it. -/
def Stops (a : Around) (keep : Pending → Bool) (p : Parse) : Prop :=
  (∀ x ∈ a.below.head?, keep x = false) ∨ p.brackets ≠ []

/-- When nothing of the part waits, nothing is folded. -/
theorem Stops.of_nil {keep : Pending → Bool} (h : Stops a keep p) (hp : p.pending = []) :
    ∀ x ∈ a.below.head?, keep x = false := by
  refine h.resolve_right fun hb => hb ?_
  rw [brackets, hp]
  rfl

theorem leads_foldWhile {keep : Pending → Bool} (hk : ∀ x, keep x = true → x.isBracket = false)
    (hp : p.Disciplined) (hstops : Stops a keep p) (count : Nat) :
    Leads a left (foldWhile context keep count) p fun _ => Moves t p := by
  induction count generalizing p with
  | zero => exact .pure .refl
  | succ count ih =>
    obtain ⟨tokens, stages, _ | ⟨top, rest⟩, taken, slots, env⟩ := p
    · rintro _ _ h
      cases h
      exact ⟨.refl, foldWhile_of_head (hstops.of_nil rfl) _⟩
    · refine Leads.step (q := ⟨tokens, stages, top :: rest, taken, slots, env⟩)
        (n := if keep top then do fold context; foldWhile context keep count else return ()) ?_
        rfl rfl
      refine .ite (fun hkeep => ?_) fun _ => .pure .refl
      refine (leads_foldOn t hp rfl (hk top hkeep)).bind fun _ q ⟨hmove, hgood, hbrackets⟩ => ?_
      exact (ih hgood (hstops.imp_right fun h => hbrackets ▸ h)).mono fun _ r hr => .head hmove hr

/-- What is around the part is not folded, though there would be a count for it. -/
theorem leads_foldAll (t : String) {keep : Pending → Bool}
    (hk : ∀ x, keep x = true → x.isBracket = false) (hp : p.Disciplined) (hstops : Stops a keep p) :
    Leads a left (foldAll context keep) p fun _ => Moves t p := by
  intro r q h
  have hleads : Leads a left (foldWhile context keep p.pending.length) p fun _ => Moves t p :=
    leads_foldWhile hk hp hstops _
  obtain ⟨hmoves, hfold⟩ := hleads r q h
  refine ⟨hmoves, ?_⟩
  obtain ⟨_, q', hq', hcleared⟩ | ⟨e, q', hq', -⟩ := (goes_foldAll hk hp).outcome
  · cases h.symm.trans hq'
    have hlength : (p.inside a left).pending.length = p.pending.length + a.below.length :=
      List.length_append
    show foldWhile context keep (p.inside a left).pending.length (p.inside a left) = _
    rw [hlength, foldWhile_add, bind_ok hfold]
    refine foldWhile_of_head (fun x hx => ?_) _
    cases hpending : q.pending with
    | nil =>
      have hbrackets : q.brackets = p.brackets := hcleared.folded.brackets
      have hstops' : Stops a keep q := hstops.imp_right fun h => hbrackets ▸ h
      rw [inside, hpending] at hx
      exact hstops'.of_nil hpending x hx
    | cons y rest =>
      rw [inside, hpending] at hx
      exact hcleared.folded.head x (hpending ▸ hx)
  · cases h.symm.trans hq'

/-- What stands in brackets, or has some of its own open, is all that is folded. -/
theorem stops_of_closed {keep : Pending → Bool} (hk : ∀ x, keep x = true → x.isBracket = false)
    (h : a.Closed ∨ p.brackets ≠ []) : Stops a keep p := by
  refine h.imp_left fun h x hx => Bool.eq_false_iff.mpr fun hkeep => ?_
  exact absurd ((h x hx).symm.trans (hk x hkeep)) nofun

/-- What binds more tightly than what is around the part folds only what does so too. -/
theorem stops_of_tight {keep : Nat → Bool} (h : ∀ t ≤ Operator.pipe.tier, keep t = false) :
    Stops a (Pending.binds keep) p := by
  refine .inl fun x hx => ?_
  unfold Pending.binds
  split
  next t ht => exact h t (a.floor x hx t ht)
  next => rfl

theorem leads_foldAll_brackets (t : String) (hp : p.Disciplined)
    (h : a.Closed ∨ p.brackets ≠ []) :
    Leads a left (foldAll context fun x => !x.isBracket) p fun _ => Moves t p := by
  have hk (x : Pending) (hx : (!x.isBracket) = true) : x.isBracket = false := by simpa using hx
  exact leads_foldAll t hk hp (stops_of_closed hk h)

/-! ## Operators -/

/-- An entry is entered that the token stands for, and a stage is opened for what follows it. -/
theorem Leads.entered {x : Pending} {s u : Stage} {rest : List Stage} (hm : Moves t p q)
    (hs : q.stages = u :: rest) (hx : Denotes t x) (hc : x ≠ .brace .closure)
    (hd : x.isBracket = false → s.recordDepth = u.recordDepth) :
    Leads a left (Parse.enter x s) q fun _ => Moves t p :=
  .enter (hm.tail (.enter hx (fun h => absurd h hc) hs hd rfl rfl))

theorem leads_infixOp (hp : p.Disciplined) {x : Pending} (hx : Denotes t x)
    (hc : x ≠ .brace .closure)
    (hstops : ∀ right : Bool, Stops a
      (Pending.binds fun t => if right then x.tier?.getD 0 < t else x.tier?.getD 0 ≤ t) p) :
    Leads a left (infixOp context x) p fun _ => Moves t p :=
  (leads_foldAll _ (fun _ => isBracket_of_binds) hp (hstops _)).bind fun _ _ hq =>
    .top fun _ _ hs => .entered hq hs hx hc fun _ => rfl

theorem leads_prefixOp {op : Operator} (ho : op.place = .before) :
    Leads a left (prefixOp op) p fun _ => Moves t p :=
  .top fun _ _ hs => .entered .refl hs (.before ho) nofun fun _ => rfl

theorem leads_postfixOp (hp : p.Disciplined) {op : Operator} (ho : op.place = .after) :
    Leads a left (postfixOp context op) p fun _ => Moves t p := by
  have hstops : Stops a (Pending.binds fun t => op.tier ≤ t) p := by
    refine stops_of_tight fun t ht => decide_eq_false (Nat.not_le_of_lt (Nat.lt_of_le_of_lt ht ?_))
    cases op <;> first | decide | cases ho
  refine (leads_foldAll _ (fun _ => isBracket_of_binds) hp hstops).bind fun _ q hq =>
    .top fun s rest hs => .lift fun _ h₁ => .lift fun s₂ h₂ => .replace hs (hq.tail ?_)
  exact .touch (.intro hs ((Stage.twin_pop h₁).trans (Stage.twin_push h₂)))

theorem leads_ternaryElse (hp : p.Disciplined) (ht : t = ":") (h : a.Closed ∨ p.brackets ≠ []) :
    Leads a left (ternaryElse context) p fun _ => Moves t p := by
  have hk (x : Pending) (hx : (x.binds (fun t => Operator.ternaryTier < t) || x == .ternaryElse)
      = true) : x.isBracket = false := by
    rcases Bool.or_eq_true_iff.mp hx with hx | hx
    · exact isBracket_of_binds hx
    · rw [beq_iff_eq.mp hx]
      rfl
  exact (leads_foldAll _ hk hp (stops_of_closed hk h)).bind fun _ _ hq => .top fun _ _ hs =>
    .entered hq hs (.ternaryElse ht) nofun fun _ => rfl

theorem leads_bindOp (hp : p.Disciplined) (h : a.Closed ∨ p.brackets ≠ []) :
    Leads a left (bindOp context) p fun _ => Moves "->" p := by
  refine (leads_foldAll "->" (fun _ => isBracket_of_binds) hp
    (stops_of_closed (fun _ => isBracket_of_binds) h)).bind fun _ q hq => ?_
  refine .top fun s _ hs => ?_
  split
  next name _ =>
    refine .ite (fun _ => .throw _) fun _ => ?_
    refine Leads.step (q := { q with
      slots := q.slots.alloc.2, taken := q.taken ++ [q.slots.alloc.1] })
      (n := enter (.bind q.slots.alloc.1)
        { s.child with scope := s.child.scope.declare name q.slots.alloc.1 }) (.enter ?_) rfl ?_
    · refine hq.tail (.enter (.bind rfl q.slots.alloc.1) nofun hs ?_ rfl rfl)
      exact fun _ => rfl
    · simp only [inside, ← List.append_assoc]
      rfl
  next => exact .throw _

/-! ## Looking ahead -/

theorem paramFollows_cons (name t : String) (rest : List String) :
    paramFollows (name :: t :: rest) = (t == "->" && (!isOperator name && !isBracket name)) := by
  by_cases h : t = "->"
  · rw [h]
    rfl
  · rw [beq_eq_false_iff_ne.mpr h, Bool.false_and]
    unfold paramFollows
    split
    next e => exact absurd (List.cons.inj (List.cons.inj e).2).1 h
    next => rfl

/-- To what looks ahead, `left` is as good as `tokens`. -/
structure Ahead (tokens left : List String) : Prop where
  range : endsRange left = endsRange tokens
  param : paramFollows left = paramFollows tokens

/-- Nothing follows, or what ends a part of a line: a bracket that closes, a `|` or a `;`. -/
def EndsPart (after : List String) : Prop :=
  ∀ t ∈ after.head?, t = ")" ∨ t = "\x7d" ∨ t = "|" ∨ t = ";"

/-- What ends a part of a line is as good as the end of the line. -/
theorem ahead_append {after : List String} (h : EndsPart after) (tokens : List String) :
    Ahead tokens (tokens ++ after) := by
  match tokens, after with
  | _, [] =>
    rw [List.append_nil]
    exact ⟨rfl, rfl⟩
  | name :: t :: rest, after =>
    refine ⟨rfl, ?_⟩
    rw [List.cons_append, List.cons_append, paramFollows_cons, paramFollows_cons]
  | [name], t :: rest =>
    refine ⟨rfl, ?_⟩
    rw [List.singleton_append, paramFollows_cons]
    rcases h t rfl with rfl | rfl | rfl | rfl <;> rfl
  | [], [t] => exact ⟨by rcases h t rfl with rfl | rfl | rfl | rfl <;> rfl, rfl⟩
  | [], t :: u :: rest =>
    rw [List.nil_append]
    refine ⟨by rcases h t rfl with rfl | rfl | rfl | rfl <;> rfl, ?_⟩
    rw [paramFollows_cons]
    have hname : (!isOperator t && !isBracket t) = false := by
      rcases h t rfl with rfl | rfl | rfl | rfl <;> decide
    rw [hname, Bool.and_false]
    rfl

/-- Something has been read: an operand, a closure, or an operator. -/
def Begun (p : Parse) : Prop :=
  p.pending = [] → ∀ s ∈ p.stages.head?, s.operands ≠ [] ∨ s.closure ≠ none

theorem opensClosure_inside {s : Stage} {rest : List Stage} (hs : p.stages = s :: rest)
    (h : a.Closed ∨ Begun p) (hl : Ahead p.tokens left) :
    opensClosure s (p.pending ++ a.below) left = opensClosure s p.pending p.tokens := by
  unfold opensClosure
  rw [hl.param]
  match hp : p.pending with
  | .op o :: _ => cases o <;> rfl
  | .bind _ :: _ | .ternary :: _ | .ternaryElse :: _ | .paren :: _ | .brace _ :: _ => rfl
  | [] =>
    rcases h with h | h
    · congr 1
      match hb : a.below with
      | [] => rfl
      | x :: below =>
        have hx : x.isBracket = true := h x (by rw [hb]; rfl)
        rcases Pending.isBracket_cases hx with rfl | ⟨kind, rfl⟩ <;> rfl
    · rcases h hp s (by rw [hs]; rfl) with hno | hno
      · simp [hno]
      · simp [hno]

theorem hasOpenTernary_inside (closed : Nat) {pending : List Pending}
    (h : a.Closed ∨ pending.filterMap Pending.bracket? ≠ []) :
    hasOpenTernary closed (pending ++ a.below) = hasOpenTernary closed pending := by
  induction pending generalizing closed with
  | nil =>
    have hclosed := h.resolve_right fun h => h rfl
    match hb : a.below with
    | [] => rfl
    | x :: below =>
      have hx : x.isBracket = true := hclosed x (by rw [hb]; rfl)
      rcases Pending.isBracket_cases hx with rfl | ⟨kind, rfl⟩ <;> rfl
  | cons top rest ih =>
    cases top with
    | ternary => rw [List.cons_append, hasOpenTernary, hasOpenTernary, ih _ h]
    | ternaryElse => exact ih (closed + 1) h
    | op _ | bind _ => exact ih closed h
    | paren | brace _ => rfl

/-! ## Brackets -/

theorem leads_openParen : Leads a left openParen p fun _ => Moves t p :=
  .top fun _ _ hs => .entered .refl hs (.bracket rfl) nofun nofun

theorem pending_ne_nil_of_opensClosure {s : Stage} {pending : List Pending} {tokens : List String}
    (h : opensClosure s pending tokens = true) : pending ≠ [] := by
  rintro rfl
  unfold opensClosure at h
  rw [Bool.and_false] at h
  cases h

theorem leads_openBrace (hl : Ahead p.tokens left) (h : a.Closed ∨ Begun p) :
    Leads a left openBrace p fun _ => Moves t p := by
  obtain ⟨tokens, _ | ⟨s, rest⟩, pending, taken, slots, env⟩ := p
  · exact nofun
  refine Leads.step (q := ⟨tokens, s :: rest, pending, taken, slots, env⟩)
    (n := if opensClosure s pending tokens then
        Parse.enter (.brace .closure) { s.child with recordDepth := 0 }
      else Parse.enter (.brace .record) { s.child with recordDepth := s.recordDepth + 1 }) ?_ rfl ?_
  · refine .ite (fun h => .enter ?_) fun _ => .entered .refl rfl (.bracket rfl) nofun nofun
    have hne := pending_ne_nil_of_opensClosure h
    exact .single (.enter (x := .brace .closure) (.bracket rfl) (fun _ => hne) rfl nofun rfl rfl)
  · rw [← opensClosure_inside rfl h hl]
    rfl

/-- A record that is closed becomes an operand. -/
theorem leads_closeRecord (body : Stage) :
    Leads a left (closeRecord body) p fun _ => Touched p := by
  refine .lift fun record _ => .top fun s rest hs => ?_
  split
  · refine .ite (fun _ => ?_) fun _ => leads_pushOperand _
    have hdrop :
        Touched p { p with stages := { s with operands := s.operands.dropLast } :: rest } :=
      .intro hs ⟨⟨rfl, rfl, rfl⟩, rfl⟩
    exact Leads.bind (Leads.replace hs hdrop : Leads _ _ _ _ fun _ => Touched p) fun _ q hq =>
      (leads_pushOperand _).mono fun _ _ hr => hq.trans hr
  · exact leads_pushOperand _

/-- A closure that is closed becomes the stage that it stands in. -/
theorem leads_closeClosure (body : Stage) :
    Leads a left (closeClosure context body) p fun _ q =>
      ∃ s s' rest, p.stages = s :: rest ∧ s'.recordDepth = s.recordDepth ∧
        q.stages = s' :: rest ∧ q.pending = p.pending := by
  refine .top fun s rest hs => .ite (fun _ => .throw _) fun _ => .replace hs ?_
  refine ⟨s, _, rest, hs, ?_, rfl, rfl⟩
  rfl

theorem leads_closeParen (hp : p.Disciplined) (h : a.Closed ∨ p.brackets ≠ []) :
    Leads a left (closeParen context) p fun _ => Moves ")" p := by
  refine (leads_foldAll_brackets ")" hp h).bind fun _ q hq => ?_
  obtain ⟨tokens, stages, _ | ⟨top, below⟩, taken, slots, env⟩ := q
  · exact nofun
  cases top with
  | paren =>
    refine Leads.step (q := ⟨tokens, stages, below, taken, slots, env⟩) (n := do
      let group ← popStage
      let s ← popStage
      let s ← lift (s.push (group.toOperand context))
      pushStage { s with mode := s.mode <|> group.mode }) ?_ rfl rfl
    refine .popTwo fun group s rest hs => .lift fun s' h => .pushStage (hq.tail ?_)
    have htwin := (Stage.twin_push h).mode (s'.mode <|> group.mode)
    exact .close (.inl rfl) rfl hs htwin.recordDepth (.inr htwin) rfl rfl
  | _ => exact nofun

theorem leads_closeBrace (hp : p.Disciplined) (h : a.Closed ∨ p.brackets ≠ []) :
    Leads a left (closeBrace context) p fun _ => Moves "\x7d" p := by
  refine (leads_foldAll_brackets "\x7d" hp h).bind fun _ q hq => ?_
  obtain ⟨tokens, stages, _ | ⟨top, below⟩, taken, slots, env⟩ := q
  · exact nofun
  cases top with
  | brace kind =>
    cases kind with
    | record =>
      refine Leads.step (q := ⟨tokens, stages, below, taken, slots, env⟩)
        (n := do closeRecord (← popStage)) ?_ rfl rfl
      refine .popStage fun body upper hs => (leads_closeRecord body).mono ?_
      rintro _ r ⟨s, s', rest, hs', htwin, hr, hr'⟩
      exact hq.tail (.close (.inr rfl) rfl (hs.trans (congrArg (body :: ·) hs')) htwin.recordDepth
        (.inr htwin) hr hr')
    | closure =>
      refine Leads.step (q := ⟨tokens, stages, below, taken, slots, env⟩)
        (n := do closeClosure context (← popStage)) ?_ rfl rfl
      refine .popStage fun body upper hs => (leads_closeClosure body).mono ?_
      rintro _ r ⟨s, s', rest, hs', hdepth, hr, hr'⟩
      exact hq.tail (.close (.inr rfl) rfl (hs.trans (congrArg (body :: ·) hs')) hdepth
        (.inl rfl) hr hr')
  | _ => exact nofun

/-! ## Tokens -/

theorem leads_leaf (t : String) : Leads a left (leaf t) p fun _ => Touched p :=
  .lift fun _ _ => leads_pushOperand _

/-- The token can be read in the part as it is read alone. What binds no more tightly than `?` and
what closes a bracket is to fold nothing of what is around the part, and a brace is not to open a
closure because of what is around it. -/
structure Fits (a : Around) (t : String) (p : Parse) : Prop where
  loose : loose t = true → a.Closed ∨ p.brackets ≠ []
  close : t = ")" ∨ t = "\x7d" → a.Closed ∨ p.brackets ≠ []
  brace : t = "\x7b" → a.Closed ∨ Begun p

theorem Fits.of_closed (h : a.Closed) : Fits a t p :=
  ⟨fun _ => .inl h, fun _ => .inl h, fun _ => .inl h⟩

/-- An operator that is loose reaches down to a bracket, and any other one to no `|`. -/
theorem leads_infixToken (hp : p.Disciplined) (hfits : Fits a t p) {o : Operator}
    (h : Operator.ofInfix? t = some o) :
    Leads a left (infixOp context (.op o)) p fun _ => Moves t p := by
  refine leads_infixOp hp (.between h) nofun fun right => ?_
  by_cases ho : o.tier ≤ Operator.ternaryTier
  · exact stops_of_closed (fun _ => isBracket_of_binds) (hfits.loose (loose_of_ofInfix? h ho))
  · refine stops_of_tight fun tier htier => ?_
    have hlt : tier < o.tier :=
      Nat.lt_of_le_of_lt (Nat.le_trans htier (by decide)) (Nat.lt_of_not_le ho)
    show (if right then decide (o.tier < tier) else decide (o.tier ≤ tier)) = false
    split
    · exact decide_eq_false (Nat.not_lt_of_lt hlt)
    · exact decide_eq_false (Nat.not_le_of_lt hlt)

theorem leads_recordToken (hp : p.Disciplined) (hfits : Fits a t p) :
    Leads a left (recordToken context t) p fun _ => Moves t p := by
  have push (x : Operand) : Leads a left (pushOperand x) p fun _ => Moves t p :=
    (leads_pushOperand x).mono fun _ _ h => .single (.touch h)
  refine .top fun s _ _ => ?_
  cases h : Operator.ofInfix? t with
  | some o => exact .ite (fun _ => leads_infixToken hp hfits h) fun _ => push _
  | none =>
    exact .ite (fun _ => push _) fun _ => (leads_leaf t).mono fun _ _ h => .single (.touch h)

theorem leads_plainToken (hp : p.Disciplined) (hl : Ahead p.tokens left) (hfits : Fits a t p) :
    Leads a left (plainToken context t) p fun _ => Moves t p := by
  refine .get (.top fun s _ _ => ?_) ?_
  · refine .ite (fun h => ?_) fun _ => ?_
    · obtain rfl := beq_iff_eq.mp h
      exact leads_bindOp hp (hfits.loose rfl)
    refine .ite (fun h => ?_) fun _ => ?_
    · obtain rfl := beq_iff_eq.mp h
      refine leads_infixOp hp (.ternary rfl) nofun fun _ => ?_
      exact stops_of_closed (fun _ => isBracket_of_binds) (hfits.loose rfl)
    refine .ite (fun h => ?_) fun _ => ?_
    · obtain rfl := beq_iff_eq.mp (Bool.and_eq_true_iff.mp h).1
      exact leads_ternaryElse hp rfl (hfits.loose rfl)
    refine .ite (fun _ => leads_postfixOp hp rfl) fun _ => ?_
    refine .ite (fun _ => leads_postfixOp hp rfl) fun _ => ?_
    refine .ite (fun _ => leads_prefixOp rfl) fun _ => ?_
    refine .ite (fun _ => leads_prefixOp rfl) fun _ => ?_
    refine .ite (fun _ => leads_prefixOp rfl) fun _ => ?_
    cases h : Operator.ofInfix? t with
    | some o => exact leads_infixToken hp hfits h
    | none => exact (leads_leaf t).mono fun _ _ h => .single (.touch h)
  · have hopen : (t == ":" && hasOpenTernary 0 (p.inside a left).pending) =
        (t == ":" && hasOpenTernary 0 p.pending) := by
      by_cases ht : t = ":"
      · rw [inside, hasOpenTernary_inside 0 (hfits.loose (ht ▸ rfl))]
      · rw [beq_eq_false_iff_ne.mpr ht, Bool.false_and, Bool.false_and]
    have hrange : endsRange (p.inside a left).tokens = endsRange p.tokens := hl.range
    simp only [hopen, hrange]

/-- A token that can be read makes moves, and makes the same moves in a part of a line that it
fits. -/
theorem leads_token (hp : p.Disciplined) (hl : Ahead p.tokens left) (hfits : Fits a t p) :
    Leads a left (token context t) p fun _ => Moves t p := by
  refine .ite (fun _ => leads_openParen) fun _ => .ite (fun h => ?_) fun _ =>
    .ite (fun h => leads_openBrace hl (hfits.brace (beq_iff_eq.mp h))) fun _ =>
    .ite (fun h => ?_) fun _ => ?_
  · obtain rfl := beq_iff_eq.mp h
    exact leads_closeParen hp (hfits.close (.inl rfl))
  · obtain rfl := beq_iff_eq.mp h
    exact leads_closeBrace hp (hfits.close (.inr rfl))
  · exact .top fun _ _ _ => .ite (fun _ => leads_recordToken hp hfits) fun _ =>
      leads_plainToken hp hl hfits

end Parse

end Rill
