import Rill.Proofs.Line.Tokens

/-!
# The stacks are always in good order

`Parse.Reaches` has the lines that are met between two tokens while a line is read. In all of them
the stacks are in good order, and what the next token does stays within them (`Parse.Within`): no
stage is asked for when there is none left, and the `:` of a `?` is folded on its `?`. So no line is
refused for want of an operator, nor for an operator that should not have waited
(`parse_disciplined`).
-/

namespace Rill

namespace Parse

variable {context : Context} {α : Type} {m : Parser α} {p q : Parse} {tokens left : List String}

/-- A step goes the same way with any stages below those of the line, and leaves them alone. -/
def Within (m : Parser α) (p : Parse) : Prop :=
  ∀ base, m (p.above base) =
    match m p with
    | .ok a q => .ok a (q.above base)
    | .error e q => .error e (q.above base)

/-- Looking at the stage on top stays within the stages exactly if there is one. -/
theorem within_top : Within top p ↔ p.stages ≠ [] := by
  obtain ⟨tokens, stages, pending, taken, slots, env⟩ := p
  cases stages with
  | nil => exact ⟨fun h => (nomatch h [{ scope := .empty }]), fun h => absurd rfl h⟩
  | cons s rest => exact ⟨fun _ => nofun, fun _ _ => rfl⟩

/-- Taking the stage on top stays within the stages exactly if there is one. -/
theorem within_popStage : Within popStage p ↔ p.stages ≠ [] := by
  obtain ⟨tokens, stages, pending, taken, slots, env⟩ := p
  cases stages with
  | nil => exact ⟨fun h => (nomatch h [{ scope := .empty }]), fun h => absurd rfl h⟩
  | cons s rest => exact ⟨fun _ => nofun, fun _ _ => rfl⟩

theorem Goes.within {ok : α → Parse → Prop} {bad : Error → Parse → Prop} (h : Goes m p ok bad) :
    Within m p := by
  intro base
  obtain ⟨tokens, stages, pending, taken, slots, env⟩ := p
  cases h with
  | ok a q _ h =>
    have h₀ := h []
    rw [above_nil, above_nil] at h₀
    rw [h₀, h base]
  | error e q _ h =>
    have h₀ := h []
    rw [above_nil, above_nil] at h₀
    rw [h₀, h base]

/-- Reading tokens leads from a line to another one, with these tokens to come. -/
inductive Reaches (context : Context) : Parse → List String → Parse → List String → Prop
  | here (p : Parse) (tokens : List String) : Reaches context p tokens p tokens
  | read {p r q : Parse} {t : String} {rest left : List String}
    (h : token context t { p with tokens := rest } = .ok () r) (k : Reaches context r rest q left) :
    Reaches context p (t :: rest) q left

/-- The next token keeps the stacks in good order. -/
theorem Disciplined.token (hp : p.Disciplined) {t : String}
    (h : Parse.token context t p = .ok () q) : q.Disciplined :=
  (hp.reads h).disciplined

/-- So do any tokens. -/
theorem Reaches.disciplined (h : Reaches context p tokens q left) (hp : p.Disciplined) :
    q.Disciplined := by
  induction h with
  | here => exact hp
  | read h _ ih => exact ih ((hp.with_tokens _).token h)

/-- What is left of the line is read from there. -/
theorem Reaches.all_eq (h : Reaches context p tokens q left) :
    all context tokens p = all context left q := by
  induction h with
  | here => rfl
  | read h _ ih => exact (all_ok h).trans ih

end Parse

open Parse (Reaches Within)

/-- While a line is read its stacks are always in good order: between two tokens, and while what is
pending is folded. No step asks for a stage that is not there: neither a token nor the folding at
the end of the line, after which a bracket is left open or exactly one stage. So a line is never
refused for a missing operator or an unexpected one. -/
theorem parse_disciplined (context : Context) (tokens : List String) (w : World) :
    (∀ p left, Reaches context (Parse.start w tokens) tokens p left →
      Parse.all context tokens (.start w tokens) = Parse.all context left p ∧
      p.Disciplined ∧
      (∀ keep count q, (∀ x, keep x = true → x.isBracket = false) →
        Parse.foldWhile context keep count p = .ok () q → q.Disciplined) ∧
      (∀ t rest, left = t :: rest → Within (Parse.token context t) { p with tokens := rest }) ∧
      (left = [] → Within (Parse.foldAll context fun x => !x.isBracket) p ∧
        ∀ q, Parse.foldAll context (fun x => !x.isBracket) p = .ok () q →
          (∃ x ∈ q.pending.head?, x.isBracket = true) ∨ ∃ s, q.stages = [s])) ∧
    ∀ e w', parse context tokens w = (.error e, w') →
      e ≠ .missingOperator ∧ ∀ text, e ≠ .parse ("unexpected operator" ++ text) := by
  have hstart := Parse.disciplined_start w tokens
  refine ⟨fun p left hreach => ?_, fun e w' h => ?_⟩
  · have hp := hreach.disciplined hstart
    refine ⟨hreach.all_eq, hp, fun keep count q hk h => ?_, fun t rest _ => ?_, fun _ => ?_⟩
    · obtain ⟨_, r, hr, hq, -⟩ | ⟨e, r, hr, -⟩ :=
        (Parse.goes_foldWhile context hk count hp).outcome
      · cases h.symm.trans hr
        exact hq
      · cases h.symm.trans hr
    · exact (Parse.goes_token context (hp.with_tokens rest) t).within
    · have hgoes := Parse.goes_foldAll_brackets context hp
      refine ⟨hgoes.within, fun q h => ?_⟩
      obtain ⟨_, r, hr, hplain, hin⟩ | ⟨e, r, hr, -⟩ := hgoes.outcome
      · cases h.symm.trans hr
        cases hin with
        | none hpending _ =>
          have hlength := hplain.disciplined.length
          rw [hpending] at hlength
          exact .inr (List.length_eq_one_iff.mp hlength)
        | paren below hpending _ | brace kind below hpending _ =>
          exact .inl ⟨_, by rw [hpending]; rfl, rfl⟩
      · cases h.symm.trans hr
  · obtain ⟨r, w₁, hr, -⟩ | ⟨e', w₁, hr, he⟩ := parse_brackets context tokens w
    · cases h.symm.trans hr
    · cases h.symm.trans hr
      obtain he | ⟨⟨c, rfl⟩, -⟩ := he
      · exact ⟨he.operator, he.unexpected⟩
      · exact ⟨nofun, nofun⟩

end Rill
