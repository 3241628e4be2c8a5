import Rill.Proofs.Line.InTurn
import Rill.Proofs.Pipeline

/-!
# Lines of pipelines

A line in which segments stand between `|` and `;` is read segment by segment. Outside brackets a
segment has only operators that bind more tightly than `|` (`Segment`), so that it is read as it is
alone, and at the `|` or `;` after it, or at the end of the line, its own operators are folded first
(`Parse.foldAll_inside`). Then a `|` before the segment is folded, and at a `;` or at the end also a
`;` before its pipeline. So between two segments at most two stages wait (`Before`): one for the
pipeline up to there, and one for all pipelines before it.

`read_pipelines` says that such a line has the factory of its pipelines one after the other.
-/

namespace Rill

variable {context : Context}

/-! ## Folding in a part -/

namespace Parse

variable {a : Around} {left : List String} {p q : Parse}

/-- An operator that binds more tightly than `?` is folded alone. -/
theorem drops_tight {x : Pending} {entries rest : List Pending} (hx : x.loose = false)
    (h : Pending.Drops (x :: entries) rest) : rest = entries := by
  cases h with
  | op o rest => rfl
  | bind slot rest => cases hx
  | ternary rest => cases hx

/-- The operators of a part that bind more tightly than what is around it are folded as they are
alone. -/
theorem foldWhile_inside (a : Around) (left : List String) {keep : Pending → Bool}
    (hp : p.Disciplined)
    (htight : ∀ x ∈ p.pending, x.loose = false ∧ x.isBracket = false)
    (hkeep : ∀ x ∈ p.pending, keep x = true)
    (h : foldWhile context (fun x => !x.isBracket) p.pending.length p = .ok () q) :
    q.pending = [] ∧
      foldWhile context keep p.pending.length (p.inside a left) = .ok () (q.inside a left) := by
  generalize hn : p.pending.length = n at h ⊢
  induction n generalizing p with
  | zero =>
    cases h
    exact ⟨List.length_eq_zero_iff.mp hn, rfl⟩
  | succ n ih =>
    obtain ⟨x, rest, hpending⟩ := List.exists_cons_of_length_eq_add_one hn
    rw [hpending] at htight hkeep
    obtain ⟨⟨hloose, hbracket⟩, htight⟩ := List.forall_mem_cons.mp htight
    obtain ⟨hx, hkeep⟩ := List.forall_mem_cons.mp hkeep
    have hinside : (p.inside a left).pending = x :: (rest ++ a.below) := by
      rw [inside, hpending]
      rfl
    rw [foldWhile_step hpending (by rw [hbracket]; rfl)] at h
    rw [foldWhile_step hinside hx]
    obtain ⟨_, r, hr, hgood, -, hdrops⟩ | ⟨e, r, hr, -⟩ := (goes_fold hp hpending hbracket).outcome
    · rw [bind_ok hr] at h
      obtain ⟨-, hfold⟩ := (leads_fold "" : Leads a left (fold context) p _) () r hr
      rw [bind_ok hfold]
      rw [hpending] at hdrops
      have hrest : r.pending = rest := drops_tight hloose hdrops
      rw [← hrest] at htight hkeep
      refine ih hgood htight hkeep ?_ h
      rw [hrest]
      rw [hpending] at hn
      exact Nat.succ.inj hn
    · rw [bind_error hr] at h
      cases h

theorem foldAll_inside {keep : Pending → Bool} (hp : p.Disciplined)
    (htight : ∀ x ∈ p.pending, x.loose = false ∧ x.isBracket = false)
    (hkeep : ∀ x ∈ p.pending, keep x = true)
    (h : foldAll context (fun x => !x.isBracket) p = .ok () q) :
    foldAll context keep (p.inside a left) = foldAll context keep (q.inside a left) := by
  obtain ⟨hq, hfold⟩ := foldWhile_inside a left hp htight hkeep h
  have hlength : (p.inside a left).pending.length = p.pending.length + a.below.length :=
    List.length_append
  have hlength' : (q.inside a left).pending.length = a.below.length := by
    rw [inside, hq]
    rfl
  show foldWhile context keep (p.inside a left).pending.length _ =
    foldWhile context keep (q.inside a left).pending.length _
  rw [hlength, hlength', foldWhile_add, bind_ok hfold]

end Parse

/-! ## Segments -/

/-- Tokens that are a line of their own, in which none of `|`, `;`, `:`, `?`, `->` and `=` stands
outside brackets, and which do not begin with a brace. -/
structure Segment (context : Context) (tokens : List String) : Prop where
  readable : Readable context tokens
  tight : outside loose tokens [] = true
  brace : tokens.head? ≠ some "\x7b"

/-- A stage that nothing feeds, that is no closure, and in which no name is visible. -/
structure Stage.Single (s : Stage) : Prop where
  feed : s.feed = none
  closure : s.closure = none
  scope : s.scope = .empty
  recordDepth : s.recordDepth = 0

/-- What nothing feeds stays so, and its scope stays empty, without loose operators. -/
theorem lasting_single : Lasting Pending.loose loose Stage.Single where
  stands h := h.loose
  closes h := by rcases h with rfl | rfl <;> rfl
  feeds {x} h := by
    cases x with
    | op o => cases o <;> first | rfl | cases h
    | bind _ => rfl
    | ternary | ternaryElse | paren | brace _ => cases h
  assign h := nomatch h
  twin h hs := ⟨h.feed.trans hs.feed, h.closure.trans hs.closure, h.scope.trans hs.scope,
    h.recordDepth.trans hs.recordDepth⟩
  depth h := h.recordDepth

/-- A segment that was read alone, before its last operators are folded. -/
structure Segment.Read (context : Context) (tokens : List String) (w : World) (r : Parse)
    (root : Stage) (taken : List Handle) (w' : World) : Prop where
  read : Parse.all context tokens (.start w tokens) = .ok () r
  disciplined : r.Disciplined
  tight : ∀ x ∈ r.pending, x.loose = false ∧ x.isBracket = false
  depth : ∀ s ∈ r.stages.head?, s.recordDepth = 0
  fold : ∃ left, Parse.foldAll context (fun x => !x.isBracket) r =
    .ok () ⟨left, [root], [], taken, w'.slots, w'.env⟩
  single : root.Single

theorem Segment.exists_read {tokens : List String} {w w' : World} {f : Factory}
    (hs : Segment context tokens) (h : ReadAs context tokens w f w') :
    ∃ r root taken, Segment.Read context tokens w r root taken w' ∧
      f = root.toFactory context := by
  obtain ⟨mode, h⟩ := h
  obtain ⟨p, r, root, hends, rfl, -, rfl⟩ := Parse.exists_ends h
  have hsingle : root.Single :=
    Parse.Comes.lasting (p := .start w tokens) hends.comes lasting_single ⟨rfl, rfl, rfl, rfl⟩
      hs.tight
  have hcalm : Parse.Calm Pending.loose Stage.Single p.stages p.pending :=
    Parse.Calm.all (p := .start w tokens) ⟨_, rfl, rfl, rfl, rfl, rfl⟩ lasting_single
      (Parse.disciplined_start w tokens) hs.tight hends.read
  have hno := hends.not_bracket
  have htight := hcalm.wild_eq_false hno
  refine ⟨p, root, r.taken, ⟨hends.read, hends.disciplined, fun x hx => ⟨htight x hx, hno x hx⟩,
    hcalm.depth lasting_single hno, ⟨r.tokens, ?_⟩, hsingle⟩, rfl⟩
  rw [hends.folds.foldAll_eq, ← hends.stages, ← hends.pending]

/-! ## What stands before a segment -/

namespace Stage

/-- The stage, fed by the one before a `|`. -/
def fedBy (context : Context) (s l : Stage) : Stage :=
  { s with
    feed := some (match s.feed with
      | some f => .compose (l.toFactory context) f
      | none => l.toFactory context)
    mode := s.mode <|> l.mode }

/-- The stage, after the one before a `;`. -/
def following (context : Context) (s d : Stage) : Stage :=
  { s with
    feed := some (.andThen (d.toFactory context) (s.feed.getD (.items [])))
    mode := s.mode <|> d.mode }

end Stage

/-- What stands before a segment of a line. -/
structure Before where
  /-- The part of its pipeline before it. -/
  fed : Option Stage
  /-- The pipelines before its own. -/
  done : Option Stage

namespace Before

/-- The stages below the one of the segment. -/
def base (b : Before) : List Stage := b.fed.toList ++ b.done.toList

/-- The entries of the pipelines before the segment's own. -/
def doneEntries (b : Before) : List Pending := b.done.toList.map fun _ => .op .seq

/-- The entries. -/
def below (b : Before) : List Pending := (b.fed.toList.map fun _ => .op .pipe) ++ b.doneEntries

theorem mem_below {b : Before} {x : Pending} (h : x ∈ b.below) : x = .op .pipe ∨ x = .op .seq := by
  rcases List.mem_append.mp h with h | h
  · obtain ⟨_, -, rfl⟩ := List.mem_map.mp h
    exact .inl rfl
  · obtain ⟨_, -, rfl⟩ := List.mem_map.mp h
    exact .inr rfl

/-- What stands before a segment, as what is around a part of a line. -/
def around (b : Before) (taken : List Handle) : Around where
  base := b.base
  below := b.below
  taken := taken
  floor x hx t ht := by
    rcases mem_below (List.mem_of_head? hx) with rfl | rfl <;> cases ht <;> decide

/-- The line at the beginning of a segment. -/
def line (b : Before) (tokens : List String) (taken : List Handle) (w : World) : Parse :=
  ⟨tokens, { scope := .empty } :: b.base, b.below, taken, w.slots, w.env⟩

/-- The pipeline up to the segment. -/
def piped (context : Context) (b : Before) (root : Stage) : Stage :=
  match b.fed with
  | some l => root.fedBy context l
  | none => root

/-- All pipelines up to the segment. -/
def closed (context : Context) (b : Before) (root : Stage) : Stage :=
  match b.done with
  | some d => (b.piped context root).following context d
  | none => b.piped context root

variable {b : Before} {left : List String} {taken : List Handle} {w : World} {root : Stage}
  {keep : Pending → Bool}

open Parse in
/-- The `|` before a segment is folded. -/
theorem foldWhile_piped (hpipe : keep (.op .pipe) = true) (n : Nat) :
    foldWhile context keep (b.fed.toList.length + n)
        ⟨left, root :: b.base, b.below, taken, w.slots, w.env⟩ =
      foldWhile context keep n ⟨left, b.piped context root :: b.done.toList, b.doneEntries, taken,
        w.slots, w.env⟩ := by
  obtain ⟨_ | l, done⟩ := b
  · rw [Option.toList_none, List.length_nil, Nat.zero_add]
    rfl
  · rw [Option.toList_some, List.length_singleton, Nat.add_comm]
    exact (foldWhile_step rfl hpipe n).trans (bind_ok rfl)

open Parse in
/-- The `;` before the pipeline of a segment is folded. -/
theorem foldWhile_closed (hseq : keep (.op .seq) = true) :
    foldWhile context keep b.done.toList.length
        ⟨left, b.piped context root :: b.done.toList, b.doneEntries, taken, w.slots, w.env⟩ =
      .ok () ⟨left, [b.closed context root], [], taken, w.slots, w.env⟩ := by
  obtain ⟨fed, _ | d⟩ := b
  · rfl
  · exact (foldWhile_step rfl hseq 0).trans (bind_ok rfl)

theorem length_below (b : Before) :
    b.below.length = b.fed.toList.length + b.done.toList.length := by
  simp [below, doneEntries]

/-- At a `|` the one before the segment is folded. -/
theorem foldAll_piped (hpipe : keep (.op .pipe) = true) (hseq : keep (.op .seq) = false) :
    Parse.foldAll context keep ⟨left, root :: b.base, b.below, taken, w.slots, w.env⟩ =
      .ok () ⟨left, b.piped context root :: b.done.toList, b.doneEntries, taken, w.slots,
        w.env⟩ := by
  show Parse.foldWhile context keep b.below.length _ = _
  rw [length_below, foldWhile_piped hpipe]
  refine Parse.foldWhile_of_head (fun x hx => ?_) _
  obtain ⟨_, -, rfl⟩ := List.mem_map.mp (List.mem_of_head? hx)
  exact hseq

/-- At a `;` and at the end of the line the `;` before the pipeline is folded too. -/
theorem foldAll_closed (hpipe : keep (.op .pipe) = true) (hseq : keep (.op .seq) = true) :
    Parse.foldAll context keep ⟨left, root :: b.base, b.below, taken, w.slots, w.env⟩ =
      .ok () ⟨left, [b.closed context root], [], taken, w.slots, w.env⟩ := by
  show Parse.foldWhile context keep b.below.length _ = _
  rw [length_below, foldWhile_piped hpipe]
  exact foldWhile_closed hseq

theorem scope_piped (hr : root.Single) :
    (b.piped context root).scope = .empty ∧ (b.piped context root).recordDepth = 0 := by
  obtain ⟨_ | l, done⟩ := b <;> exact ⟨hr.scope, hr.recordDepth⟩

theorem scope_closed (hr : root.Single) :
    (b.closed context root).scope = .empty ∧ (b.closed context root).recordDepth = 0 := by
  obtain ⟨fed, _ | d⟩ := b <;> exact scope_piped (b := ⟨fed, _⟩) hr

end Before

/-! ## Reading a segment -/

namespace Parse

/-- An operator between a finished stage and a new one. -/
theorem infixOp_ok {o : Operator} {p : Parse} {left : List String} {s : Stage} {rest : List Stage}
    {pending : List Pending} {taken : List Handle} {slots : Slots} {env : Environment}
    (hfold : foldAll context (Pending.binds fun t =>
        if o.isRightAssociative then o.tier < t else o.tier ≤ t) p =
      .ok () ⟨left, s :: rest, pending, taken, slots, env⟩)
    (hs : s.scope = .empty ∧ s.recordDepth = 0) :
    infixOp context (.op o) p = .ok ()
      ⟨left, { scope := .empty } :: s :: rest, .op o :: pending, taken, slots, env⟩ := by
  refine (bind_ok hfold).trans ((bind_ok rfl).trans ?_)
  have hchild : s.child = { scope := .empty } := by
    rw [Stage.child, hs.1, hs.2]
  rw [hchild]
  rfl

/-- Outside records a `|` and a `;` are operators. -/
theorem token_pipe {p : Parse} {s : Stage} (hs : s ∈ p.stages.head?) (hd : s.recordDepth = 0) :
    token context "|" p = infixOp context (.op .pipe) p ∧
      token context ";" p = infixOp context (.op .seq) p := by
  obtain ⟨tokens, _ | ⟨_, rest⟩, pending, taken, slots, env⟩ := p <;> cases hs
  have hno : ¬ 0 < s.recordDepth := by
    rw [hd]
    exact Nat.lt_irrefl 0
  constructor
  · show (if 0 < s.recordDepth then recordToken context "|" else plainToken context "|") _ = _
    rw [if_neg hno]
    rfl
  · show (if 0 < s.recordDepth then recordToken context ";" else plainToken context ";") _ = _
    rw [if_neg hno]
    rfl

theorem binds_tight {x : Pending} (hx : x.loose = false ∧ x.isBracket = false) {keep : Nat → Bool}
    (hkeep : ∀ t, Operator.ternaryTier < t → keep t = true) : x.binds keep = true := by
  obtain ⟨hloose, hbracket⟩ := hx
  unfold Pending.loose Pending.binds at hloose
  unfold Pending.isBracket at hbracket
  unfold Pending.binds
  cases ht : x.tier? with
  | none =>
    rw [ht] at hbracket
    cases hbracket
  | some t =>
    rw [ht] at hloose
    exact hkeep t (Nat.lt_of_not_le (of_decide_eq_false hloose))

end Parse

namespace Segment.Read

variable {tokens after : List String} {w w' : World} {r : Parse} {root : Stage}
  {taken taken' : List Handle} {b : Before}

/-- A segment is read where it stands as it is alone. -/
theorem all_line (h : Segment.Read context tokens w r root taken' w') (hs : Segment context tokens)
    (hafter : Parse.EndsPart after) :
    Parse.all context (tokens ++ after) (b.line (tokens ++ after) taken w) =
      Parse.all context after (r.inside (b.around taken) after) := by
  have hline : b.line (tokens ++ after) taken w =
      (Parse.start w tokens).inside (b.around taken) (tokens ++ after) := by
    simp [Before.line, Parse.inside, Parse.start, Before.around]
  rw [hline]
  refine Parse.all_inside _ (Parse.disciplined_start w tokens) h.read (.inr ?_)
    (Parse.ahead_append hafter)
  exact ⟨hs.tight, fun hbrace => absurd hbrace hs.brace⟩

/-- The operators of a segment are folded before what stands before it. -/
theorem foldAll_line (h : Segment.Read context tokens w r root taken' w') {keep : Pending → Bool}
    (hkeep : ∀ x : Pending, x.loose = false ∧ x.isBracket = false → keep x = true) :
    Parse.foldAll context keep (r.inside (b.around taken) after) =
      Parse.foldAll context keep
        ⟨after, root :: b.base, b.below, taken ++ taken', w'.slots, w'.env⟩ := by
  obtain ⟨left, hfold⟩ := h.fold
  exact Parse.foldAll_inside h.disciplined h.tight (fun x hx => hkeep x (h.tight x hx)) hfold

/-- At the `|` or `;` after a segment its stage is finished, and another one begins. -/
theorem token_line (h : Segment.Read context tokens w r root taken' w') {o : Operator}
    (hright : o.isRightAssociative = false) (htier : o.tier ≤ Operator.ternaryTier) {s : Stage}
    {rest : List Stage} {pending : List Pending}
    (hfold : Parse.foldAll context (Pending.binds fun t =>
        if o.isRightAssociative then o.tier < t else o.tier ≤ t)
        ⟨after, root :: b.base, b.below, taken ++ taken', w'.slots, w'.env⟩ =
      .ok () ⟨after, s :: rest, pending, taken ++ taken', w'.slots, w'.env⟩)
    (hs : s.scope = .empty ∧ s.recordDepth = 0) :
    Parse.infixOp context (.op o) (r.inside (b.around taken) after) = .ok ()
      ⟨after, { scope := .empty } :: s :: rest, .op o :: pending, taken ++ taken', w'.slots,
        w'.env⟩ := by
  refine Parse.infixOp_ok ((h.foldAll_line fun x hx => Parse.binds_tight hx fun t ht => ?_).trans
    hfold) hs
  rw [hright]
  exact decide_eq_true (Nat.le_of_lt (Nat.lt_of_le_of_lt htier ht))

/-- A segment has a stage on top, and it is none of a record. -/
theorem top_line (h : Segment.Read context tokens w r root taken' w') (b : Before)
    (taken : List Handle) (after : List String) :
    ∃ s ∈ (r.inside (b.around taken) after).stages.head?, s.recordDepth = 0 := by
  obtain ⟨s, rest, hs, -⟩ := h.disciplined.top
  refine ⟨s, ?_, h.depth s (by rw [hs]; rfl)⟩
  rw [Parse.inside, hs]
  rfl

/-- A segment and the `|` after it. -/
theorem all_piped (h : Segment.Read context tokens w r root taken' w')
    (hs : Segment context tokens) :
    Parse.all context (tokens ++ "|" :: after) (b.line (tokens ++ "|" :: after) taken w) =
      Parse.all context after
        (Before.line ⟨some (b.piped context root), b.done⟩ after (taken ++ taken') w') := by
  rw [h.all_line hs (by rintro _ ⟨⟩; exact .inr (.inr (.inl rfl)))]
  obtain ⟨s, htop, hdepth⟩ := h.top_line b taken after
  refine Parse.all_ok (((Parse.token_pipe htop hdepth).1).trans ?_)
  exact h.token_line rfl (by decide) (Before.foldAll_piped rfl rfl) (Before.scope_piped h.single)

/-- A segment and the `;` after it. -/
theorem all_closed (h : Segment.Read context tokens w r root taken' w')
    (hs : Segment context tokens) :
    Parse.all context (tokens ++ ";" :: after) (b.line (tokens ++ ";" :: after) taken w) =
      Parse.all context after
        (Before.line ⟨none, some (b.closed context root)⟩ after (taken ++ taken') w') := by
  rw [h.all_line hs (by rintro _ ⟨⟩; exact .inr (.inr (.inr rfl)))]
  obtain ⟨s, htop, hdepth⟩ := h.top_line b taken after
  refine Parse.all_ok (((Parse.token_pipe htop hdepth).2).trans ?_)
  exact h.token_line rfl (by decide) (Before.foldAll_closed rfl rfl) (Before.scope_closed h.single)

/-- A segment at the end of a line. -/
theorem finish_line (h : Segment.Read context tokens w r root taken' w')
    (hs : Segment context tokens) :
    (do Parse.all context tokens; Parse.finish context : Parser (Factory × Mode))
        (b.line tokens taken w) =
      .ok ((b.closed context root).toFactory context,
          (b.closed context root).mode.getD .default)
        ⟨[], [], [], taken ++ taken', w'.slots, w'.env⟩ := by
  have hall : Parse.all context (tokens ++ []) (b.line (tokens ++ []) taken w) = _ :=
    h.all_line hs nofun
  rw [List.append_nil] at hall
  have hfold : Parse.foldAll context (fun x => !x.isBracket) (r.inside (b.around taken) []) = _ :=
    (h.foldAll_line fun x hx => by rw [hx.2]; rfl).trans (Before.foldAll_closed rfl rfl)
  exact (Parse.bind_ok hall).trans ((Parse.bind_ok hfold).trans rfl)

end Segment.Read

/-! ## What stands before a segment makes -/

theorem Stage.toFactory_feed {s : Stage} (hs : s.feed = none) (f : Factory) (mode : Option Mode) :
    Stage.toFactory context { s with feed := some f, mode := mode } =
      .compose f (s.toFactory context) := by
  simp only [Stage.toFactory, hs]

namespace Before

/-- What stands before a segment makes what the factories make: those before it in its pipeline, and
those of the pipelines before its own. -/
structure Means (context : Context) (b : Before) (fss : List (List Factory)) (fs : List Factory) :
    Prop where
  unfed : b.fed = none → fs = []
  fed : ∀ l, b.fed = some l → ∀ {input w s w'},
    Makes context (l.toFactory context) input w s w' ↔ Piped context fs input w s w'
  undone : b.done = none → fss = []
  done : ∀ d, b.done = some d → fss ≠ [] ∧ ∀ {w s w'},
    Makes context (d.toFactory context) .empty w s w' ↔ InSequence context fss w s w'

namespace Means

variable {b : Before} {fss : List (List Factory)} {fs : List Factory} {root : Stage}
  {input s : Stream} {w w' : World}

theorem makes_piped (hb : b.Means context fss fs) (hr : root.Single) :
    Makes context ((b.piped context root).toFactory context) input w s w' ↔
      Piped context (fs ++ [root.toFactory context]) input w s w' := by
  obtain ⟨_ | l, done⟩ := b
  · rw [hb.unfed rfl]
    exact piped_singleton.symm
  · have hpiped : Before.piped context ⟨some l, done⟩ root =
        { root with feed := some (l.toFactory context), mode := root.mode <|> l.mode } := by
      simp only [Before.piped, Stage.fedBy, hr.feed]
    rw [hpiped, Stage.toFactory_feed hr.feed, makes_compose, piped_append]
    simp only [hb.fed l rfl, piped_singleton]

/-- What feeds the segment makes what the pipeline before it makes. -/
theorem makes_feed (hb : b.Means context fss fs) (hr : root.Single) :
    Makes context ((b.piped context root).feed.getD (.items [])) .empty w s w' ↔
      Piped context fs .empty w s w' := by
  obtain ⟨_ | l, done⟩ := b
  · rw [hb.unfed rfl, Before.piped, hr.feed, Option.getD_none, makes_items, piped_nil]
    rfl
  · have hfeed : (Before.piped context ⟨some l, done⟩ root).feed = some (l.toFactory context) := by
      simp only [Before.piped, Stage.fedBy, hr.feed]
    rw [hfeed]
    exact hb.fed l rfl

theorem makes_closed (hb : b.Means context fss fs) (hr : root.Single) :
    Makes context ((b.closed context root).toFactory context) .empty w s w' ↔
      InSequence context (fss ++ [fs ++ [root.toFactory context]]) w s w' := by
  obtain ⟨fed, _ | d⟩ := b
  · rw [hb.undone rfl]
    exact (hb.makes_piped hr).trans inSequence_singleton.symm
  · have hclosed : ∃ mode, Before.closed context ⟨fed, some d⟩ root =
        { root with
          feed := some (.andThen (d.toFactory context)
            ((Before.piped context ⟨fed, some d⟩ root).feed.getD (.items [])))
          mode := mode } := by
      cases fed <;> exact ⟨_, rfl⟩
    obtain ⟨mode, hclosed⟩ := hclosed
    obtain ⟨hne, hdone⟩ := hb.done d rfl
    rw [hclosed, Stage.toFactory_feed hr.feed, makes_compose, inSequence_append hne]
    constructor
    · rintro ⟨u, w₃, h, k⟩
      obtain ⟨t, xs, w₁, w₂, h₁, hd, h₂⟩ := makes_andThen.mp h
      refine ⟨t, xs, w₁, w₂, hdone.mp h₁, hd, piped_append.mpr ⟨u, w₃, ?_, piped_singleton.mpr k⟩⟩
      exact (hb.makes_feed hr).mp h₂
    · rintro ⟨t, xs, w₁, w₂, h₁, hd, h₂⟩
      obtain ⟨u, w₃, h₂, k⟩ := piped_append.mp h₂
      refine ⟨u, w₃, makes_andThen.mpr ⟨t, xs, w₁, w₂, hdone.mpr h₁, hd, ?_⟩, piped_singleton.mp k⟩
      exact (hb.makes_feed hr).mpr h₂

/-- After a `|` the segment belongs to the pipeline. -/
theorem piped (hb : b.Means context fss fs) (hr : root.Single) :
    Before.Means context ⟨some (b.piped context root), b.done⟩ fss
      (fs ++ [root.toFactory context]) where
  unfed := nofun
  fed _ h := by
    cases h
    exact hb.makes_piped hr
  undone := hb.undone
  done := hb.done

/-- After a `;` the pipeline belongs to those before. -/
theorem closed (hb : b.Means context fss fs) (hr : root.Single) :
    Before.Means context ⟨none, some (b.closed context root)⟩
      (fss ++ [fs ++ [root.toFactory context]]) [] where
  unfed _ := rfl
  fed := nofun
  undone := nofun
  done _ h := by
    cases h
    exact ⟨List.append_ne_nil_of_right_ne_nil _ (List.cons_ne_nil _ _), hb.makes_closed hr⟩

end Means

end Before

/-! ## Lines -/

/-- Segments with a `|` between them. -/
def pipeline (segments : List (List String)) : List String := ["|"].intercalate segments

/-- Pipelines with a `;` between them. -/
def statements (rows : List (List (List String))) : List String :=
  [";"].intercalate (rows.map pipeline)

variable {b : Before} {fss : List (List Factory)} {fs gs : List Factory} {w w' : World}
  {segment : List String} {segments : List (List String)}

theorem pipeline_cons (segment next : List String) (segments : List (List String)) :
    pipeline (segment :: next :: segments) = segment ++ "|" :: pipeline (next :: segments) := by
  rw [pipeline, List.intercalate_cons_cons, List.append_assoc]
  rfl

/-- A pipeline and the `;` after it. -/
theorem all_pipeline (hs : ∀ t ∈ segment :: segments, Segment context t)
    (h : InTurn (ReadAs context) (segment :: segments) w gs w') (hb : b.Means context fss fs)
    (after : List String) (taken : List Handle) :
    ∃ d taken', Parse.all context (pipeline (segment :: segments) ++ ";" :: after)
        (b.line (pipeline (segment :: segments) ++ ";" :: after) taken w) =
          Parse.all context after (Before.line ⟨none, some d⟩ after taken' w') ∧
      Before.Means context ⟨none, some d⟩ (fss ++ [fs ++ gs]) [] := by
  induction segments generalizing segment b fs gs taken w with
  | nil =>
    obtain ⟨hsegment, -⟩ := List.forall_mem_cons.mp hs
    obtain _ | ⟨h, _ | _⟩ := h
    obtain ⟨r, root, taken', hread, rfl⟩ := hsegment.exists_read h
    rw [pipeline, List.intercalate_singleton]
    exact ⟨_, _, hread.all_closed hsegment, hb.closed hread.single⟩
  | cons next segments ih =>
    obtain ⟨hsegment, hs⟩ := List.forall_mem_cons.mp hs
    obtain _ | @⟨_, f, _, gs, _, w₁, _, h, k⟩ := h
    obtain ⟨r, root, taken', hread, rfl⟩ := hsegment.exists_read h
    obtain ⟨d, taken'', hall, hmeans⟩ := ih hs k (hb.piped hread.single) _
    rw [List.append_assoc] at hmeans
    refine ⟨d, taken'', ?_, hmeans⟩
    rw [pipeline_cons, List.append_assoc, List.cons_append, hread.all_piped hsegment]
    exact hall

/-- The last pipeline of a line. -/
theorem finish_pipeline (hs : ∀ t ∈ segment :: segments, Segment context t)
    (h : InTurn (ReadAs context) (segment :: segments) w gs w') (hb : b.Means context fss fs)
    (taken : List Handle) :
    ∃ f mode q, (do Parse.all context (pipeline (segment :: segments)); Parse.finish context :
        Parser (Factory × Mode)) (b.line (pipeline (segment :: segments)) taken w) =
          .ok (f, mode) q ∧ q.slots = w'.slots ∧ q.env = w'.env ∧
      ∀ {w s w'}, Makes context f .empty w s w' ↔
        InSequence context (fss ++ [fs ++ gs]) w s w' := by
  induction segments generalizing segment b fs gs taken w with
  | nil =>
    obtain ⟨hsegment, -⟩ := List.forall_mem_cons.mp hs
    obtain _ | ⟨h, _ | _⟩ := h
    obtain ⟨r, root, taken', hread, rfl⟩ := hsegment.exists_read h
    rw [pipeline, List.intercalate_singleton]
    exact ⟨_, _, _, hread.finish_line hsegment, rfl, rfl, hb.makes_closed hread.single⟩
  | cons next segments ih =>
    obtain ⟨hsegment, hs⟩ := List.forall_mem_cons.mp hs
    obtain _ | @⟨_, f, _, gs, _, w₁, _, h, k⟩ := h
    obtain ⟨r, root, taken', hread, rfl⟩ := hsegment.exists_read h
    obtain ⟨f, mode, q, hfinish, hslots, henv, hmakes⟩ := ih hs k (hb.piped hread.single) _
    rw [List.append_assoc] at hmakes
    refine ⟨f, mode, q, ?_, hslots, henv, hmakes⟩
    rw [pipeline_cons]
    exact (Parse.bind_eq (hread.all_piped hsegment)).trans hfinish

theorem statements_cons (row next : List (List String)) (rows : List (List (List String))) :
    statements (row :: next :: rows) = pipeline row ++ ";" :: statements (next :: rows) := by
  rw [statements, List.map_cons, List.map_cons, List.intercalate_cons_cons, List.append_assoc]
  rfl

theorem finish_statements {row : List (List String)} {rows : List (List (List String))}
    {gss : List (List Factory)} (hne : ∀ r ∈ row :: rows, r ≠ [])
    (hs : ∀ r ∈ row :: rows, ∀ t ∈ r, Segment context t)
    (h : InTurn (InTurn (ReadAs context)) (row :: rows) w gss w') (hb : b.Means context fss [])
    (taken : List Handle) :
    ∃ f mode q, (do Parse.all context (statements (row :: rows)); Parse.finish context :
        Parser (Factory × Mode)) (b.line (statements (row :: rows)) taken w) =
          .ok (f, mode) q ∧ q.slots = w'.slots ∧ q.env = w'.env ∧
      ∀ {w s w'}, Makes context f .empty w s w' ↔ InSequence context (fss ++ gss) w s w' := by
  induction rows generalizing row b fss gss taken w with
  | nil =>
    obtain ⟨hne, -⟩ := List.forall_mem_cons.mp hne
    obtain ⟨hs, -⟩ := List.forall_mem_cons.mp hs
    obtain ⟨segment, segments, rfl⟩ := List.exists_cons_of_ne_nil hne
    obtain _ | ⟨h, _ | _⟩ := h
    rw [statements, List.map_singleton, List.intercalate_singleton]
    exact finish_pipeline hs h hb taken
  | cons next rows ih =>
    obtain ⟨hrow, hrows⟩ := List.forall_mem_cons.mp hne
    obtain ⟨hsrow, hsrows⟩ := List.forall_mem_cons.mp hs
    obtain ⟨segment, segments, rfl⟩ := List.exists_cons_of_ne_nil hrow
    obtain _ | @⟨_, gs, _, gss, _, w₁, _, h, k⟩ := h
    obtain ⟨d, taken', hall, hd⟩ := all_pipeline hsrow h hb
      (statements (next :: rows)) taken
    obtain ⟨f, mode, q, hfinish, hslots, henv, hmakes⟩ := ih hrows hsrows k hd taken'
    rw [List.append_assoc] at hmakes
    refine ⟨f, mode, q, ?_, hslots, henv, hmakes⟩
    rw [statements_cons]
    exact (Parse.bind_eq hall).trans hfinish

/-- Segments between `|` and `;` are a line. It is read segment by segment, and used on nothing it
pulls the streams of its pipelines but the last to the end, in order, and gives that of the last,
each of them being made by the factories that its segments have as lines of their own. -/
theorem read_pipelines {rows : List (List (List String))} (hrows : rows ≠ [])
    (hne : ∀ row ∈ rows, row ≠ []) (hs : ∀ row ∈ rows, ∀ segment ∈ row, Segment context segment)
    (w : World) :
    ∃ fss f mode w', InTurn (InTurn (ReadAs context)) rows w fss w' ∧
      parse context (statements rows) w = (.ok (f, mode), w') ∧
      ∀ w s w', Makes context f .empty w s w' ↔ InSequence context fss w s w' := by
  have hread (row : List (List String)) (hrow : row ∈ rows) (w : World) :
      ∃ fs w', InTurn (ReadAs context) row w fs w' :=
    exists_inTurn (fun segment hsegment => (hs row hrow segment hsegment).readable.readAs) w
  obtain ⟨fss, w', hturn⟩ := exists_inTurn hread w
  have hworld : w' = { w with slots := w'.slots, env := w'.env } :=
    hturn.world fun h => h.world fun h => h.world
  obtain ⟨row, rows, rfl⟩ := List.exists_cons_of_ne_nil hrows
  have hnothing : Before.Means context ⟨none, none⟩ [] [] :=
    ⟨fun _ => rfl, nofun, fun _ => rfl, nofun⟩
  obtain ⟨f, mode, q, hfinish, hslots, henv, hmakes⟩ :=
    finish_statements hne hs hturn hnothing []
  refine ⟨fss, f, mode, w', hturn, ?_, fun _ _ _ => hmakes⟩
  rw [parse_of_ok hfinish, hslots, henv, ← hworld]

/-- `true | prepend null ; false | prepend null` gives what its second pipeline gives. -/
theorem read_pipelines_prepend :
    let w : World := .ofEnvironment .empty
    ∃ f mode, parse {} ["true", "|", "prepend", "null", ";", "false", "|", "prepend", "null"] w =
        (.ok (f, mode), w) ∧
      ∃ s, Makes {} f .empty w s w ∧ Delivers {} s [.ok .null, .ok (.bool false)] := by
  intro w
  let value (b : Bool) := Factory.sequence .empty [.value (.bool b)]
  let prepend := Factory.builtin .prepend .empty [.value .null]
  have htrue : ReadAs {} ["true"] w (value true) w := ⟨.default, rfl⟩
  have hfalse : ReadAs {} ["false"] w (value false) w := ⟨.default, rfl⟩
  have hprepend : ReadAs {} ["prepend", "null"] w prepend w := ⟨.default, rfl⟩
  let rows := [[["true"], ["prepend", "null"]], [["false"], ["prepend", "null"]]]
  have hsegment : ∀ row ∈ rows, ∀ segment ∈ row, Segment {} segment := by
    simp only [rows, List.forall_mem_cons, List.not_mem_nil, false_imp_iff, implies_true, and_true]
    exact ⟨⟨⟨⟨_, _, _, htrue⟩, rfl, nofun⟩, ⟨⟨_, _, _, hprepend⟩, rfl, nofun⟩⟩,
      ⟨⟨_, _, _, hfalse⟩, rfl, nofun⟩, ⟨⟨_, _, _, hprepend⟩, rfl, nofun⟩⟩
  obtain ⟨fss, f, mode, w', hturn, hparse, hmakes⟩ :=
    read_pipelines (by decide) (by decide) hsegment w
  obtain ⟨rfl, rfl⟩ := hturn.det (fun h k => h.det (fun h k => h.det k) k)
    (.cons (.cons htrue (.cons hprepend (.nil w)))
      (.cons (.cons hfalse (.cons hprepend (.nil w))) (.nil w)))
  have hconcat (v : Value) (hv : .ofValue v = Stream.once v) :
      Delivers {} (.concat .empty [.value v] .empty) [.ok v] := by
    have hopens : Operand.Delivers {} .empty (.value v) [.ok v] :=
      ⟨_, fun _ => opens_value.mpr ⟨hv.symm, rfl⟩, .items _⟩
    exact .concat (.cons hopens .nil) (.items [])
  have hpiped (b : Bool) : ∃ s, Piped {} [value b, prepend] .empty w s w ∧
      Delivers {} s [.ok .null, .ok (.bool b)] := by
    refine ⟨_, .cons (makes_sequence.mpr ⟨rfl, rfl⟩)
      (.cons (makes_prepend.mpr ⟨rfl, rfl⟩) (.nil _ _)), ?_⟩
    exact (hconcat .null rfl).chain (hconcat (.bool b) rfl)
  obtain ⟨s₁, h₁, hd₁⟩ := hpiped true
  obtain ⟨s₂, h₂, hd₂⟩ := hpiped false
  exact ⟨f, mode, hparse, s₂, (hmakes w s₂ w).mpr (.cons h₁ (hd₁.drains w) (.last h₂)), hd₂⟩

end Rill
