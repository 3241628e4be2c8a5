import Rill.Proofs.Line.Printing
import Rill.Proofs.Line.Term

/-!
# Redirects

A `>` and a word at the end of a line send its output to a file. The `>` is folded where it stands,
on the last operands of the line, and the mode that it sets is handed on by everything that is
folded after it, but for a choice, which keeps only the mode of the stage before its `?`.

So the redirect takes effect unless the line ends in a choice (`endsInChoice`), and is lost if it
does (`parse_redirect`). A line ends in a choice exactly if a `?` waits at its end, unless a `:` waits
that sets a mode of its own (`Parse.Asking`): outside brackets a `?` is entered, a `|`, `;` or `->`
folds all choices, and no other token touches them (`Parse.Asking.token`).
-/

namespace Rill

/-! ## Lines that end in a choice -/

/-- Whether a choice is not finished after a token outside brackets, if one was not before it: a `?`
begins a choice, and a `|`, `;` or `->` finishes it. -/
def asksAfter (t : String) (asked : Bool) : Bool := t == "?" || asked && !feeds t

/-- Whether a choice outside brackets is not finished after some tokens, before which these brackets
are open. -/
def choosing : List String → List Bracket → Bool → Bool
  | [], _, asked => asked
  | t :: rest, opened, asked =>
    choosing rest ((Bracket.next t opened).getD opened)
      (if opened.isEmpty then asksAfter t asked else asked)

/-- Whether a line ends in a choice. -/
def endsInChoice (tokens : List String) : Bool := choosing tokens [] false

example : endsInChoice ["a", "|", "b", "?", "c", ":", "d", "+", "1"] = true := by decide

example : endsInChoice ["a", "?", "b", ":", "c", "|", "(", "d", "?", "e", ":", "f", ")"] = false :=
  by decide

theorem asksAfter_of_feeds {t : String} (h : feeds t = true) (asked : Bool) :
    asksAfter t asked = false := by
  have hne : t ≠ "?" := by
    rintro rfl
    cases h
  simp [asksAfter, h, hne]

theorem asksAfter_of_tight {t : String} (h : loose t = false) (asked : Bool) :
    asksAfter t asked = asked := by
  simp only [loose, List.contains_cons, List.contains_nil, Bool.or_eq_false_iff] at h
  simp [asksAfter, feeds, h]

/-- A loose operator between operands is a `:` or a `=`, or finishes a choice. -/
theorem feeds_of_ofInfix? {t : String} {o : Operator} (h : Operator.ofInfix? t = some o)
    (ho : o.tier ≤ Operator.ternaryTier) : o = .window ∨ t = "=" ∨ feeds t = true := by
  obtain ⟨-, rfl⟩ := Operator.symbol_of_ofInfix? h
  cases o
  case assign => exact .inr (.inl rfl)
  case pipe | seq | bind => exact .inr (.inr rfl)
  case window => exact .inl rfl
  all_goals exact absurd ho (by decide)

theorem loose_of_tier {t : String} {o : Operator} (h : Operator.ofInfix? t = some o)
    (ho : ¬ o.tier ≤ Operator.ternaryTier) : loose t = false := by
  obtain ⟨-, rfl⟩ := Operator.symbol_of_ofInfix? h
  cases o
  case assign | pipe | seq | window | bind => exact absurd (by decide) ho
  all_goals rfl

namespace Pending

open Parse (Bracketed)

/-- The entries that lie under all brackets. -/
def ground : List Pending → List Pending
  | [] => []
  | x :: rest => if (x :: rest).any isBracket then ground rest else x :: rest

variable {x : Pending} {entries left rest : List Pending} {keep : Pending → Bool} {asked : Bool}

theorem ground_of_bracketed (h : Bracketed (x :: rest)) : ground (x :: rest) = ground rest :=
  if_pos (List.any_eq_true.mpr h)

theorem ground_eq_self (h : ∀ y ∈ entries, y.isBracket = false) : ground entries = entries := by
  cases entries with
  | nil => rfl
  | cons x rest =>
    refine if_neg fun hany => ?_
    obtain ⟨y, hy, hbracket⟩ := List.any_eq_true.mp hany
    exact absurd ((h y hy).symm.trans hbracket) nofun

/-- Folding in brackets leaves what lies under them. -/
theorem Drops.ground (h : Drops entries rest) (hb : Bracketed entries) :
    ground rest = ground entries ∧ Bracketed rest := by
  cases h with
  | op o rest | bind slot rest => exact ⟨(ground_of_bracketed hb).symm, hb.below rfl⟩
  | ternary rest =>
    have hb' := hb.below rfl
    exact ⟨((ground_of_bracketed hb).trans (ground_of_bracketed hb')).symm, hb'.below rfl⟩

theorem Folded.ground (h : Folded keep entries left) (hb : Bracketed entries) :
    ground left = ground entries ∧ Bracketed left := by
  induction h with
  | done => exact ⟨rfl, hb⟩
  | drop h _ ih =>
    obtain ⟨e, hb⟩ := h.ground hb
    obtain ⟨e', hb⟩ := ih hb
    exact ⟨e'.trans e, hb⟩

theorem exists_tier (h : x.isBracket = false) : ∃ t, x.tier? = some t :=
  Option.isSome_iff_exists.mp (Option.isNone_eq_false_iff.mp h)

/-- Outside brackets no entry binds more tightly than those above it. -/
theorem Stacked.tier_le {t : Nat} (h : Stacked (x :: rest))
    (hno : ∀ y ∈ rest, y.isBracket = false) (ht : x.tier? = some t) :
    ∀ y ∈ rest, ∀ u, y.tier? = some u → u ≤ t := by
  induction rest generalizing x t with
  | nil => exact nofun
  | cons z rest ih =>
    obtain ⟨hz, hno⟩ := List.forall_mem_cons.mp hno
    obtain ⟨v, hv⟩ := exists_tier hz
    have hle : v ≤ t := h.1.tier z rfl t v ht hv
    intro y hy u hu
    rcases List.mem_cons.mp hy with rfl | hy
    · cases hv.symm.trans hu
      exact hle
    · exact Nat.le_trans (ih h.2 hno hv y hy u hu) hle

/-- No `?` waits outside brackets if the entry on top binds less tightly. -/
theorem Stacked.ternary_not_mem (h : Stacked entries) (hno : ∀ y ∈ entries, y.isBracket = false)
    (hhead : ∀ x ∈ entries.head?, x.binds (fun u => Operator.ternaryTier ≤ u) = false) :
    .ternary ∉ entries := by
  cases entries with
  | nil => exact nofun
  | cons x rest =>
    have hx := hhead x rfl
    intro hmem
    rcases List.mem_cons.mp hmem with rfl | hmem
    · cases hx
    · obtain ⟨hx', hno⟩ := List.forall_mem_cons.mp hno
      obtain ⟨t, ht⟩ := exists_tier hx'
      have hle : Operator.ternaryTier ≤ t := h.tier_le hno ht .ternary hmem _ rfl
      rw [binds, ht] at hx
      exact of_decide_eq_false hx hle

/-- A `:` that sets a print mode waits, or a `?` does exactly if a choice is not finished. -/
def Asks (asked : Bool) (entries : List Pending) : Prop :=
  .op .window ∈ entries ∨ (asked = true ↔ .ternary ∈ entries)

theorem Asks.cons (h : Asks asked entries) (hx : x ≠ .ternary) : Asks asked (x :: entries) := by
  refine h.imp (List.mem_cons_of_mem x) fun h => h.trans ?_
  rw [List.mem_cons, or_iff_right hx.symm]

end Pending

namespace Parse

open Pending (Asks ground)

variable {context : Context} {tokens : List String} {p q r : Parse} {t : String} {x : Pending}
  {keep : Pending → Bool} {entries : List Pending} {asked : Bool}

/-- What is folded before a token that is not loose is no choice, and no `:` either. -/
theorem asks_folds (h : Asks asked p.pending) (k : Folds context keep p r)
    (hk : ∀ x, keep x = true → x.loose = false) : Asks asked r.pending := by
  have stays (y : Pending) (hy : y.loose = true) : keep y = false := by
    refine Bool.eq_false_iff.mpr fun hkeep => ?_
    exact absurd ((hk y hkeep).symm.trans hy) nofun
  refine h.imp (fun hw => k.mem hw (stays _ rfl) nofun) fun h => h.trans ?_
  exact ⟨fun ht => k.mem ht (stays _ rfl) fun _ => stays _ rfl, fun ht => k.subset ht⟩

/-- Before a `|`, `;` or `->` all choices are folded. -/
theorem ternary_not_mem {bound : Nat → Bool} (k : Folds context (Pending.binds bound) p r)
    (hp : Pending.Stacked p.pending) (hno : ∀ y ∈ p.pending, y.isBracket = false)
    (hb : ∀ u, Operator.ternaryTier ≤ u → bound u = true) : .ternary ∉ r.pending := by
  refine (hp.of_suffix k.folded.suffix).ternary_not_mem (k.not_bracket hno) fun x hx => ?_
  have hstop := k.folded.head x hx
  cases hu : x.tier? with
  | none => rw [Pending.binds, hu]
  | some u =>
    rw [Pending.binds, hu] at hstop ⊢
    exact decide_eq_false fun hle => Bool.false_ne_true (hstop.symm.trans (hb u hle))

theorem ternary_mem_of_hasOpenTernary {n : Nat} (h : hasOpenTernary n entries = true) :
    .ternary ∈ entries := by
  induction entries generalizing n with
  | nil => cases h
  | cons x rest ih =>
    cases x with
    | ternary => exact .head _
    | ternaryElse | op _ | bind _ => exact .tail _ (ih h)
    | paren | brace _ => cases h

/-! ## Tokens outside brackets -/

theorem asks_of_feeds (hx : x ≠ .ternary) (hno : .ternary ∉ entries) (ht : feeds t = true) :
    Asks (asksAfter t asked) (x :: entries) := by
  rw [asksAfter_of_feeds ht]
  exact Asks.cons (.inr (iff_of_false nofun hno)) hx

theorem asks_between {o : Operator} (h : Asks asked p.pending) (ho : Operator.ofInfix? t = some o)
    (k : Folds context (Pending.binds o.folds) p r)
    (hp : Pending.Stacked p.pending) (hno : ∀ y ∈ p.pending, y.isBracket = false) (ht : t ≠ "=") :
    Asks (asksAfter t asked) (.op o :: r.pending) := by
  by_cases htier : o.tier ≤ Operator.ternaryTier
  · obtain rfl | he | hfeeds := feeds_of_ofInfix? ho htier
    · exact .inl (.head _)
    · exact absurd he ht
    · have hlt : o.tier < Operator.ternaryTier := by
        cases o <;> first | decide | exact absurd htier (by decide)
      refine asks_of_feeds nofun (ternary_not_mem k hp hno fun u hu => ?_) hfeeds
      exact Operator.folds_of_lt (Nat.lt_of_lt_of_le hlt hu)
  · rw [asksAfter_of_tight (loose_of_tier ho htier)]
    refine (asks_folds h k fun x hx => loose_eq_false_of_binds hx fun u hu => ?_).cons nofun
    exact Operator.folds_eq_false (Nat.lt_of_le_of_lt hu (Nat.lt_of_not_le htier))

/-- The `:` of a choice does not finish it. -/
theorem asks_ternaryElse (h : Asks asked p.pending)
    (k : Folds context (fun x => x.binds (fun u => Operator.ternaryTier < u) || x == .ternaryElse)
      p r) (hopen : hasOpenTernary 0 p.pending = true) :
    Asks asked (.ternaryElse :: r.pending) := by
  refine Asks.cons (h.imp (fun hw => k.mem hw rfl nofun) fun h => iff_of_true ?_ ?_) nofun
  · exact h.mpr (ternary_mem_of_hasOpenTernary hopen)
  · exact ternary_mem_of_hasOpenTernary (k.folded.hasOpenTernary.trans hopen)

/-- What entering an entry outside brackets does to the choices that are not finished. -/
theorem asks_enter (h : Asks asked p.pending) (hx : Enters t p keep x)
    (k : Folds context keep p r) (hp : Pending.Stacked p.pending)
    (hno : ∀ y ∈ p.pending, y.isBracket = false) (ht : t ≠ "=") :
    Asks (asksAfter t asked) (ground (x :: r.pending)) := by
  have hno' := k.not_bracket hno
  have hground (y : Pending) (hy : y.isBracket = false) :
      ground (y :: r.pending) = y :: r.pending :=
    Pending.ground_eq_self (List.forall_mem_cons.mpr ⟨hy, hno'⟩)
  cases hx with
  | between ho =>
    rw [hground _ rfl]
    exact asks_between h ho k hp hno ht
  | before ho ht =>
    rw [hground _ rfl, asksAfter_of_tight ht]
    exact (asks_folds h k (by nofun)).cons nofun
  | bind ht slot =>
    rw [hground _ rfl]
    refine asks_of_feeds nofun (ternary_not_mem k hp hno fun u hu => ?_) (ht ▸ rfl)
    exact decide_eq_true (Nat.lt_of_lt_of_le (by decide) hu)
  | ternary ht =>
    rw [hground _ rfl, ht]
    exact .inr (iff_of_true rfl (.head _))
  | ternaryElse ht hopen =>
    have hasks : asksAfter t asked = asked := by
      rw [ht]
      cases asked <;> rfl
    rw [hground _ rfl, hasks]
    exact asks_ternaryElse h k hopen
  | bracket hx ht =>
    have htight : loose t = false := by rcases ht with rfl | rfl <;> rfl
    rw [Pending.ground_of_bracketed ⟨x, .head _, hx⟩, Pending.ground_eq_self hno',
      asksAfter_of_tight htight]
    exact asks_folds h k (by nofun)

/-- In brackets nothing changes under them. -/
theorem Turn.ground (h : Turn context t p q) (hb : Bracketed p.pending) :
    ground q.pending = ground p.pending := by
  cases h with
  | touch xs _ hfolds _ _ _ hq =>
    rw [hq]
    exact (hfolds.folded.ground hb).1
  | enter _ hfolds _ _ hq =>
    obtain ⟨e, hb⟩ := hfolds.folded.ground hb
    rw [hq]
    exact (Pending.ground_of_bracketed (hb.cons _)).trans e
  | close hx hfolds hp _ _ hq =>
    obtain ⟨e, hb⟩ := hfolds.folded.ground hb
    rw [hp] at e hb
    rw [hq]
    exact (Pending.ground_of_bracketed hb).symm.trans e

/-! ## Choices that are not finished -/

/-- What is known of the stacks between two tokens, if a choice outside brackets is not finished or
is. -/
structure Asking (asked : Bool) (p : Parse) : Prop where
  disciplined : p.Disciplined
  outline : Outline p
  assign : .op .assign ∉ p.pending
  asks : Asks asked (ground p.pending)

theorem Turn.assign (h : Turn context t p q) (hp : .op .assign ∉ p.pending) (ht : t ≠ "=") :
    .op .assign ∉ q.pending := by
  cases h with
  | touch xs _ hfolds _ _ _ hq =>
    rw [hq]
    exact fun hmem => hp (hfolds.subset hmem)
  | @enter keep x r s u rest hx hfolds _ _ hq =>
    rw [hq]
    intro hmem
    rcases List.mem_cons.mp hmem with e | hmem
    · cases hx with
      | between ho =>
        cases e
        obtain ⟨-, rfl⟩ := Operator.symbol_of_ofInfix? ho
        exact ht rfl
      | before ho =>
        cases e
        cases ho
      | bracket hx =>
        rw [← e] at hx
        cases hx
      | bind | ternary | ternaryElse => cases e
    · exact hp (hfolds.subset hmem)
  | close hx hfolds hpending _ _ hq =>
    rw [hq]
    intro hmem
    exact hp (hfolds.subset (hpending ▸ List.mem_cons_of_mem _ hmem))

namespace Asking

theorem start (w : World) (tokens : List String) : Asking false (.start w tokens) :=
  ⟨disciplined_start w tokens, .start w tokens, nofun, .inr ⟨nofun, nofun⟩⟩

/-- What a token does, outside brackets and in them. -/
theorem token (h : Asking asked p) (k : Parse.token context t p = .ok () q) (ht : t ≠ "=") :
    Asking (if p.brackets.isEmpty then asksAfter t asked else asked) q := by
  obtain ⟨hp, houtline, hassign, hasks⟩ := h
  have hturn := turn_token k
  refine ⟨(hp.reads k).disciplined, houtline.turn hturn, hturn.assign hassign ht, ?_⟩
  cases hb : p.brackets with
  | cons b rest =>
    rw [hturn.ground (bracketed_of_brackets (hb ▸ List.cons_ne_nil b rest))]
    exact hasks
  | nil =>
    have hno := isBracket_of_brackets hb
    rw [Pending.ground_eq_self hno] at hasks
    show Asks (asksAfter t asked) _
    cases hturn with
    | @touch keep r s rest xs hloose hfolds hk _ _ hq =>
      have htight : loose t = false := by
        refine Bool.eq_false_iff.mpr fun hl => ?_
        obtain ⟨s, rest, hs, -⟩ := hp.top
        have hdepth := houtline.depth hno s (by rw [hs]; rfl)
        exact absurd (hloose hl s (by rw [hs]; rfl)) (by omega)
      rw [asksAfter_of_tight htight, hq, Pending.ground_eq_self (hfolds.not_bracket hno)]
      exact asks_folds hasks hfolds hk
    | enter hx hfolds _ _ hq =>
      rw [hq]
      exact asks_enter hasks hx hfolds hp.stacked hno ht
    | close hx hfolds hpending =>
      have hopen := hfolds.not_bracket hno _ (hpending ▸ List.mem_cons_self)
      exact absurd (hopen.symm.trans hx) nofun

/-- What some tokens do. -/
theorem all (h : Asking asked p) (k : Parse.all context tokens p = .ok () q) (ht : "=" ∉ tokens) :
    Asking (choosing tokens p.brackets asked) q := by
  induction tokens generalizing p asked with
  | nil =>
    cases k
    exact h
  | cons t rest ih =>
    obtain ⟨ht, hrest⟩ := not_or.mp (mt List.mem_cons.mpr ht)
    obtain ⟨r, hr, k⟩ := all_inv k
    have hp : Asking asked { p with tokens := rest } :=
      ⟨h.disciplined.with_tokens rest, ⟨h.outline.level, h.outline.modes⟩, h.assign, h.asks⟩
    have hnext : Bracket.next t p.brackets = some r.brackets := (hp.disciplined.reads hr).brackets
    rw [choosing, hnext]
    exact ih (hp.token hr (Ne.symm ht)) k hrest

end Asking

/-! ## Redirects -/

/-- A closure parameter of a line is visible at its end, in one of the stages that are there. -/
def VisibleAtEnd (context : Context) (tokens : List String) (w : World) (name : String) : Prop :=
  ∃ p, Parse.all context tokens (.start w tokens) = .ok () p ∧
    ∃ s ∈ p.stages, s.scope.isVar name = true

variable {w : World} {root s : Stage} {rest : List Stage} {name : String}

/-- Folding `>` and the name of a file sets the print mode. -/
theorem fold_redirect (hs : q.stages = s :: rest) (hn : s.scope.isVarPath name = false) :
    fold context (q.entered .gt s [] [.word name]) = .ok () (q.recast [] (some (.write name))) := by
  obtain ⟨left, stages, pending, taken, slots, env⟩ := q
  subst hs
  have hfile : fileName? { s.child with operands := [.word name] } = some name :=
    if_neg (Bool.eq_false_iff.mp hn)
  show foldGreater { s.child with operands := [.word name] } _ = _
  rw [foldGreater, hfile]
  rfl

namespace Ends

/-- The default is no print mode that was asked for. -/
theorem mode_eq_none (h : Ends context tokens w p r root)
    (hmode : root.mode.getD .default = .default) : root.mode = none := by
  have hasked := (h.outline.folds h.folds).modes root (by rw [h.stages]; exact .head _)
  cases hroot : root.mode with
  | none => rfl
  | some m =>
    rw [hroot] at hmode hasked
    exact absurd (congrArg some hmode) hasked

/-- A `>` at the end of a line folds what binds as tightly, and the word after it names a file. -/
theorem all_redirect (h : Ends context tokens w p r root) (hw : IsWord name)
    (k : Folds context (Pending.binds Operator.gt.folds) p q)
    (hs : q.stages = s :: rest) :
    Parse.all context (tokens ++ [">", name]) (.start w (tokens ++ [">", name])) =
      .ok () (q.entered .gt s [] [.word name]) := by
  refine (h.all_infix (t := ">") (o := .gt) (by decide) (by decide) ?_ k hs).trans
    (all_operand hw.read_eq hw.not_mark ?_)
  · refine (h.token_eq_plainToken (by decide) _).trans ?_
    obtain ⟨s, rest, hs, -⟩ := h.disciplined.top
    obtain ⟨_, stages, pending, taken, slots, env⟩ := p
    subst hs
    rfl
  · exact (h.outline.folds k).depth (k.not_bracket h.not_bracket) s (by rw [hs]; rfl)

/-- A redirect does not change what the line gives. What is folded after it makes the print mode of
the line of that of the redirect, as it does of the one that is there without it. -/
theorem redirect (h : Ends context tokens w p r root) (hw : IsWord name)
    (hn : ¬ VisibleAtEnd context tokens w (Scope.head name)) :
    ∃ q s g, Folds context (Pending.binds Operator.gt.folds) p q ∧ Carries q g ∧
      q.stages.head? = some s ∧ root.mode = g s.mode ∧
      parse context (tokens ++ [">", name]) w =
        (.ok (root.toFactory context, (g (some (.write name))).getD .default),
          { w with slots := r.slots, env := r.env }) := by
  have hbracket (x : Pending) (hx : x.binds Operator.gt.folds = true) :
      (!x.isBracket) = true := by rw [isBracket_of_binds hx]; rfl
  obtain ⟨q, hpq, hqr⟩ := h.folds.split hbracket
  obtain ⟨s, rest, hs⟩ := (h.outline.folds hpq).level.top
  obtain ⟨g, hcarries, hmode, run⟩ := hqr.carries h.pending
  have hhidden : s.scope.isVarPath name = false := by
    refine Bool.eq_false_iff.mpr fun hvar => hn ⟨p, h.read, ?_⟩
    obtain ⟨u, hu, e⟩ := hpq.vars s (by rw [hs]; exact List.mem_cons_self)
    exact ⟨u, hu, by rwa [Scope.isVar, ← e]⟩
  have hends : Ends context (tokens ++ [">", name]) w (q.entered .gt s [] [.word name])
      (r.recast [] (g (some (.write name)))) { root with mode := g (some (.write name)) } := by
    refine ⟨h.all_redirect hw hpq hs, .step rfl rfl (fold_redirect hs hhidden) (run [] _),
      h.pending, ?_⟩
    rw [recast, h.stages]
    rfl
  refine ⟨q, s, g, hpq, hcarries, by rw [hs]; rfl, ?_, hends.parse_eq⟩
  exact hmode s (by rw [hs]; rfl) root (by rw [h.stages]; rfl)

end Ends

/-- If there is no print mode in the end then no `:` waits. -/
theorem Carries.window_not_mem {g : Option Mode → Option Mode} (h : Carries q g)
    (hp : Pending.Stacked q.pending) (hno : ∀ y ∈ q.pending, y.isBracket = false)
    (ha : .op .assign ∉ q.pending) {m : Option Mode} (hm : g m = none) :
    .op .window ∉ q.pending := by
  intro hmem
  obtain ⟨above, below, e⟩ := List.mem_iff_append.mp hmem
  have hsuffix : .op .window :: below <:+ q.pending := ⟨above, e.symm⟩
  have hchoice : .ternary ∉ .op .window :: below :=
    (hp.of_suffix hsuffix).ternary_not_mem (fun y hy => hno y (hsuffix.subset hy))
      (by rintro _ ⟨⟩; rfl)
  exact h.window below hsuffix (fun hb => hchoice (.tail _ hb))
    (fun hb => ha (hsuffix.subset (.tail _ hb))) m hm

end Parse

open Parse (Ends VisibleAtEnd)

variable {context : Context} {tokens : List String} {w w' : World} {f : Factory} {name : String}

/-- A `>` and the name of a file after a line with the default print mode write to the file what the
line gives, unless the line ends in a choice: then the print mode stays what it is. -/
theorem parse_redirect (h : parse context tokens w = (.ok (f, .default), w')) (ht : "=" ∉ tokens)
    (hw : IsWord name) (hn : ¬ VisibleAtEnd context tokens w (Scope.head name)) :
    parse context (tokens ++ [">", name]) w =
      (.ok (f, if endsInChoice tokens then .default else .write name), w') := by
  obtain ⟨p, r, root, hends, rfl, hmode, rfl⟩ := Parse.exists_ends h
  obtain ⟨q, s, g, hfolds, hcarries, hs, hg, hparse⟩ := hends.redirect hw hn
  rw [hparse]
  have hnone : g s.mode = none := hg.symm.trans (hends.mode_eq_none hmode.symm)
  obtain ⟨hp, -, hassign, hasks⟩ : Parse.Asking (endsInChoice tokens) p :=
    (Parse.Asking.start w tokens).all hends.read ht
  rw [Pending.ground_eq_self hends.not_bracket] at hasks
  have hwindow : .op .window ∉ q.pending :=
    hcarries.window_not_mem (hp.stacked.of_suffix hfolds.folded.suffix)
      (hfolds.not_bracket hends.not_bracket) (fun hmem => hassign (hfolds.subset hmem)) hnone
  -- a `?` waits, for the redirect or at the end of the line, exactly if the line ends in a choice
  have hchoice : endsInChoice tokens = true ↔ .ternary ∈ q.pending := by
    refine (hasks.resolve_left fun hmem => hwindow (hfolds.mem hmem rfl nofun)).trans
      ⟨fun hmem => hfolds.mem hmem rfl fun _ => rfl, fun hmem => hfolds.subset hmem⟩
  by_cases htail : endsInChoice tokens = true
  · have hlost : g (some (.write name)) = none :=
      (hcarries.lost (hchoice.mp htail) _ _).trans hnone
    rw [if_pos htail, hlost]
    rfl
  · have hkept : g (some (.write name)) = some (.write name) :=
      (hcarries.kept (mt hchoice.mpr htail) (fun hmem => hassign (hfolds.subset hmem)) _ hnone).2 _
    rw [if_neg htail, hkept]
    rfl

/-- After `true ? 1 : 2` a redirect is lost, and after `true ? 1 : 2 | prepend 3` it is not. -/
theorem parse_redirect_choice :
    let w : World := .ofEnvironment .empty
    let f : Factory := .sequence .empty [.value (.int 1)]
    let g : Factory := .compose f (.builtin .prepend .empty [.value (.int 3)])
    (parse {} ["true", "?", "1", ":", "2"] w = (.ok (f, .default), w) ∧
      parse {} ["true", "?", "1", ":", "2", ">", "out.txt"] w = (.ok (f, .default), w)) ∧
    parse {} ["true", "?", "1", ":", "2", "|", "prepend", "3"] w = (.ok (g, .default), w) ∧
      parse {} ["true", "?", "1", ":", "2", "|", "prepend", "3", ">", "out.txt"] w =
        (.ok (g, .write "out.txt"), w) := by
  intro w f g
  let known (xs : List Operand) : Stage := { scope := .empty, operands := xs }
  let line (left : List String) (stages : List Stage) (pending : List Pending) : Parse :=
    ⟨left, stages, pending, [], .empty, .empty⟩
  let branches := [known [.value (.int 2)], known [.value (.int 1)], known [.value (.bool true)]]
  have hword : IsWord "out.txt" := ⟨rfl, rfl, rfl⟩
  -- no stage of either line has a parameter
  have hidden {tokens : List String} {p : Parse} (hread : Parse.all {} tokens (.start w tokens) =
      .ok () p) (hp : ∀ s ∈ p.stages, s.scope = .empty) :
      ¬ VisibleAtEnd {} tokens w (Scope.head "out.txt") := by
    rintro ⟨q, hq, s, hs, hvar⟩
    cases hread.symm.trans hq
    rw [hp s hs] at hvar
    cases hvar
  have hchoice : Ends {} ["true", "?", "1", ":", "2"] w
      (line [] branches [.ternaryElse, .ternary]) (line [] [known [.value (.int 1)]] [])
      (known [.value (.int 1)]) :=
    ⟨(Parse.all_ok rfl).trans ((Parse.all_ok rfl).trans ((Parse.all_ok rfl).trans
      ((Parse.all_ok rfl).trans (Parse.all_ok rfl)))), .step rfl rfl rfl (.done nofun), rfl, rfl⟩
  have hpipe : Parse.token {} "|" (line ["prepend", "3"] branches [.ternaryElse, .ternary]) =
      .ok () (line ["prepend", "3"] [known [], known [.value (.int 1)]] [.op .pipe]) := rfl
  have hpiped : Ends {} ["true", "?", "1", ":", "2", "|", "prepend", "3"] w
      (line [] [known [.word "prepend", .value (.int 3)], known [.value (.int 1)]] [.op .pipe])
      (line [] [{ known [.word "prepend", .value (.int 3)] with feed := some f }] [])
      { known [.word "prepend", .value (.int 3)] with feed := some f } := by
    refine ⟨?_, .step rfl rfl rfl (.done nofun), rfl, rfl⟩
    exact (hchoice.all_append (t := "|") rfl (by decide) _).trans
      ((Parse.all_ok hpipe).trans ((Parse.all_ok rfl).trans (Parse.all_ok rfl)))
  have hlost := parse_redirect hchoice.parse_eq (by decide) hword
    (hidden hchoice.read (by simp [line, branches, known]))
  have hparse : parse {} ["true", "?", "1", ":", "2", "|", "prepend", "3"] w =
      (.ok (g, .default), w) := hpiped.parse_eq
  have hkept := parse_redirect hparse (by decide) hword
    (hidden hpiped.read (by simp [line, known]))
  exact ⟨⟨hchoice.parse_eq, hlost⟩, hparse, hkept⟩

end Rill
