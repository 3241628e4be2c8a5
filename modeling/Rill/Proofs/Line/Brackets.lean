import Rill.Proofs.Line.Tokens

/-!
# Brackets match

Tokens are balanced if each bracket among them has its partner (`Balanced`). That is so exactly if
no bracket is open after them and none of them closes one that is not the innermost
(`balanced_iff`), which is what reading a line finds out. So a line that is read is balanced, and
one that is refused for a bracket without a partner is not (`parse_balanced`).
-/

namespace Rill

/-! ## Balanced tokens -/

namespace Bracket

/-- The token that opens a bracket. -/
def opening : Bracket → String
  | paren => "("
  | brace => "\x7b"

/-- The token that closes a bracket. -/
def closing : Bracket → String
  | paren => ")"
  | brace => "\x7d"

/-- Whether a token opens or closes no bracket. -/
def Other (t : String) : Prop := ∀ b : Bracket, t ≠ b.opening ∧ t ≠ b.closing

theorem next_opening (b : Bracket) (opened : List Bracket) :
    next b.opening opened = some (b :: opened) := by
  cases b <;> rfl

theorem next_closing (b : Bracket) (opened : List Bracket) :
    next b.closing (b :: opened) = some opened := by
  cases b <;> rfl

theorem next_other {t : String} (h : Other t) (opened : List Bracket) :
    next t opened = some opened := by
  have hparen : t ≠ "(" ∧ t ≠ ")" := h .paren
  have hbrace : t ≠ "\x7b" ∧ t ≠ "\x7d" := h .brace
  simp only [next, hparen.1, hparen.2, hbrace.1, hbrace.2, if_false]

/-- A token opens a bracket, closes the innermost one, or does neither. -/
theorem next_cases {t : String} {opened opened' : List Bracket}
    (h : next t opened = some opened') :
    (∃ b : Bracket, t = b.opening ∧ opened' = b :: opened) ∨
    (∃ b : Bracket, t = b.closing ∧ opened = b :: opened') ∨ Other t ∧ opened' = opened := by
  unfold next at h
  split at h
  next ht => exact .inl ⟨.paren, ht, (Option.some.inj h).symm⟩
  split at h
  next ht => exact .inl ⟨.brace, ht, (Option.some.inj h).symm⟩
  split at h
  next ht =>
    split at h <;> cases h
    exact .inr (.inl ⟨.paren, ht, rfl⟩)
  split at h
  next ht =>
    split at h <;> cases h
    exact .inr (.inl ⟨.brace, ht, rfl⟩)
  next h₁ h₂ h₃ h₄ =>
    refine .inr (.inr ⟨fun b => ?_, (Option.some.inj h).symm⟩)
    cases b with
    | paren => exact ⟨h₁, h₃⟩
    | brace => exact ⟨h₂, h₄⟩

end Bracket

/-- Every bracket has its partner, of its own kind, and what is between two partners is balanced. -/
inductive Balanced : List String → Prop
  | nil : Balanced []
  | other {t : String} {ts : List String} (ht : Bracket.Other t) (h : Balanced ts) :
    Balanced (t :: ts)
  | group (b : Bracket) {inside after : List String} (h : Balanced inside) (k : Balanced after) :
    Balanced (b.opening :: inside ++ b.closing :: after)

/-- Balanced tokens leave open what was open. -/
theorem Balanced.scan_append {ts : List String} (h : Balanced ts) (rest : List String)
    (opened : List Bracket) : Bracket.scan (ts ++ rest) opened = Bracket.scan rest opened := by
  induction h generalizing rest opened with
  | nil => rfl
  | other ht _ ih =>
    rw [List.cons_append, Bracket.scan, Bracket.next_other ht]
    exact ih rest opened
  | @group b inside after _ _ ih ih' =>
    rw [List.append_assoc, List.cons_append, Bracket.scan, Bracket.next_opening]
    show Bracket.scan (inside ++ (b.closing :: after ++ rest)) (b :: opened) = _
    rw [ih, List.cons_append, Bracket.scan, Bracket.next_closing]
    exact ih' rest opened

/-- The tokens close these brackets, the first one first, and are balanced otherwise. -/
def Closes : List Bracket → List String → Prop
  | [], ts => Balanced ts
  | b :: opened, ts => ∃ inside after, ts = inside ++ b.closing :: after ∧ Balanced inside ∧
    Closes opened after

/-- What may stand before balanced tokens may stand before those that close brackets. -/
theorem Closes.append (before : List String) (hb : ∀ ts, Balanced ts → Balanced (before ++ ts))
    {opened : List Bracket} {ts : List String} (h : Closes opened ts) :
    Closes opened (before ++ ts) := by
  cases opened with
  | nil => exact hb ts h
  | cons b opened =>
    obtain ⟨inside, after, rfl, hin, hafter⟩ := h
    exact ⟨before ++ inside, after, (List.append_assoc ..).symm, hb inside hin, hafter⟩

theorem closes_of_scan {ts : List String} {opened : List Bracket}
    (h : Bracket.scan ts opened = some []) : Closes opened ts := by
  -- on the tokens: what a token opens is closed by those after it
  induction ts generalizing opened with
  | nil =>
    obtain rfl : opened = [] := Option.some.inj h
    exact .nil
  | cons t rest ih =>
    obtain ⟨opened', hnext, hrest⟩ := Option.bind_eq_some_iff.mp h
    have hcloses := ih hrest
    obtain ⟨b, rfl, rfl⟩ | ⟨b, rfl, rfl⟩ | ⟨ht, rfl⟩ := Bracket.next_cases hnext
    · obtain ⟨inside, after, rfl, hin, hafter⟩ := hcloses
      have hbefore (ts : List String) (hts : Balanced ts) :
          Balanced ((b.opening :: inside ++ [b.closing]) ++ ts) := by
        simpa using Balanced.group b hin hts
      simpa using hafter.append _ hbefore
    · exact ⟨[], rest, rfl, .nil, hcloses⟩
    · exact hcloses.append [t] fun ts hts => Balanced.other ht hts

theorem balanced_iff {ts : List String} : Balanced ts ↔ Bracket.scan ts [] = some [] := by
  refine ⟨fun h => ?_, closes_of_scan⟩
  have := h.scan_append [] []
  rwa [List.append_nil] at this

instance (ts : List String) : Decidable (Balanced ts) := decidable_of_iff _ balanced_iff.symm

example : Balanced ["(", "\x7b", "a", ":", "(", ")", "\x7d", ")"] := by decide

example : ¬ Balanced ["(", "\x7b", ")", "\x7d"] := by decide

/-! ## Lines -/

/-- The brackets of a line that is read match, and those of a line that is refused for a bracket
without its partner do not. -/
theorem parse_balanced (context : Context) (tokens : List String) (w : World) :
    (∀ r w', parse context tokens w = (.ok r, w') → Balanced tokens) ∧
    ∀ c w', parse context tokens w = (.error (.mismatchedBracket c), w') → ¬ Balanced tokens := by
  rw [balanced_iff]
  obtain ⟨r₁, w₁, h₁, hscan⟩ | ⟨e₁, w₁, h₁, he⟩ := parse_brackets context tokens w
  · refine ⟨fun _ _ _ => hscan, fun c w' h => ?_⟩
    cases h₁.symm.trans h
  · refine ⟨fun r w' h => ?_, fun c w' h => ?_⟩
    · cases h₁.symm.trans h
    · cases h₁.symm.trans h
      obtain he | ⟨-, hscan⟩ := he
      · exact absurd rfl (he.bracket c)
      · exact hscan

end Rill
