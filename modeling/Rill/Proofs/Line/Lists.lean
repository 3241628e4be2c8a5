import Rill.Proofs.Line.Invariant
import Rill.Proofs.Scalars
import Rill.Proofs.Token.Shapes

/-!
# No value of a text line is a list

A token that is not quoted has no `[` in it, unless it is one (`Token.unlisted_of_mem_texts`). So no
token of a text is read as a list, and as no operator makes one and a record is an object, no value
among the operands of a line is one (`unlisted`).
-/

namespace Rill

/-! ## Tokens -/

namespace Token

/-- The characters are quoted, or are a `[`, or have none among them. -/
def Unlisted (cs : List Char) : Prop :=
  '[' ∉ cs ∨ cs = ['['] ∨ ∃ c ∈ cs.head?, isQuote c = true

theorem State.Shapes.unlisted {s : State} {chunk : List Char} (h : s.Shapes chunk) :
    Unlisted chunk := by
  match s with
  | .idle =>
    obtain ⟨c, rfl, -⟩ := h
    by_cases hc : c = '['
    · exact .inr (.inl (hc ▸ rfl))
    · exact .inl fun hmem => hc (List.mem_singleton.mp hmem).symm
  | .word => exact .inl fun hmem => Bool.eq_false_iff.mp (h _ hmem) rfl
  | .number _ => exact .inl fun hmem => Bool.eq_false_iff.mp (h _ hmem) rfl
  | .operator (some first) =>
    obtain ⟨rfl, hoperator⟩ := h
    refine .inl fun hmem => ?_
    obtain rfl := List.mem_singleton.mp hmem
    cases hoperator
  | .operator none =>
    obtain ⟨first, second, rfl, hpair⟩ := h
    refine .inl fun hmem => ?_
    obtain hpairs | hpairs | hpairs := (pair_class hpair).2 ⟨_, hmem, rfl⟩
    all_goals
      rw [hpairs] at hmem
      exact absurd hmem (by decide)
  | .quoted (some q) =>
    obtain ⟨body, rfl, hquote, -⟩ := h
    exact .inr (.inr ⟨q, rfl, hquote⟩)
  | .quoted none =>
    obtain ⟨q, body, rfl, hquote, -⟩ := h
    exact .inr (.inr ⟨q, rfl, hquote⟩)

theorem unlisted_ofChunk {start : Nat} {chunk : List Char} {t : Token} (h : Unlisted chunk)
    (ht : t ∈ ofChunk start chunk) : Unlisted t.text.toList := by
  obtain ⟨before, text, after, hchunk, hne, hslice⟩ := (laid_ofChunk start chunk).slice ht
  have htext : t.text.toList = text := by
    rw [hslice]
    exact String.toList_ofList
  rcases h with h | rfl | ⟨c, hc, hquote⟩
  · refine .inl fun hmem => h ?_
    rw [htext] at hmem
    rw [hchunk]
    exact List.mem_append_right _ (List.mem_append_left _ hmem)
  · -- a slice of `[` that is not empty is all of it
    obtain ⟨c, cs, rfl⟩ := List.exists_cons_of_ne_nil hne
    cases before with
    | nil =>
      obtain ⟨rfl, hnil⟩ := List.cons.inj hchunk
      rw [(List.append_eq_nil_iff.mp hnil.symm).1] at htext
      exact .inr (.inl htext)
    | cons b before =>
      obtain ⟨-, hnil⟩ := List.cons.inj hchunk
      cases (List.append_eq_nil_iff.mp hnil.symm).2
  · obtain ⟨cs, rfl⟩ := List.head?_eq_some_iff.mp hc
    rw [ofChunk, if_pos hquote] at ht
    refine .inr (.inr ⟨c, ?_, hquote⟩)
    rw [List.mem_singleton.mp ht]
    show c ∈ (String.ofList (c :: cs)).toList.head?
    rw [String.toList_ofList]
    rfl

/-- A token of a text is quoted, or is a `[`, or has none in it. -/
theorem unlisted_of_mem_texts {line t : String} (h : t ∈ texts line) : Unlisted t.toList := by
  obtain ⟨token, htoken, rfl⟩ := List.mem_map.mp h
  have hne : line ≠ "" := by
    rintro rfl
    cases htoken
  obtain ⟨front, last, hscan, -, hfront, hlast⟩ := scan_eq hne
  rw [hscan] at htoken
  rcases List.mem_append.mp htoken with ht | ht
  · obtain ⟨chunk, hchunk, pos, ht⟩ := mem_ofChunks ht
    obtain ⟨s, hshapes, -⟩ := hfront chunk hchunk
    exact unlisted_ofChunk hshapes.unlisted ht
  · exact unlisted_ofChunk hlast.unlisted ht

end Token

/-! ## Values -/

/-- The value is no list. -/
def Value.Unlisted (v : Value) : Prop := v.kind ≠ .list

instance (v : Value) : Decidable v.Unlisted := inferInstanceAs (Decidable (v.kind ≠ .list))

namespace Json

/-- Only a text that begins with a `[` is read as a list. -/
theorem skipSpace_of_read {text : String} {items : List Json}
    (h : read text = .ok (.list items)) : ∃ cs, skipSpace text.toList = '[' :: cs := by
  cases readFrom_of_read h with
  | list hcs _ => exact ⟨_, hcs⟩

end Json

namespace Value

/-- Only a text that begins with a `[` is read as a list. -/
theorem skipSpace_of_read {text : String} {v : Value} (h : Value.read text = .ok v)
    (hv : v.kind = .list) : ∃ cs, Json.skipSpace text.toList = '[' :: cs := by
  unfold Value.read at h
  split at h
  next j hj =>
    cases h
    cases j with
    | list items => exact Json.skipSpace_of_read hj
    | null | bool _ | number _ | string _ | object _ => cases hv
  next => cases h

/-- A text that is quoted, or is a `[`, or has none in it, is read as no list. -/
theorem unlisted_of_read {text : String} {v : Value} (ht : Token.Unlisted text.toList)
    (h : Value.read text = .ok v) : v.Unlisted := by
  intro hv
  obtain ⟨cs, hcs⟩ := skipSpace_of_read h hv
  rcases ht with hno | hone | ⟨c, hc, hquote⟩
  · have hmem : '[' ∈ Json.skipSpace text.toList := by
      rw [hcs]
      exact List.mem_cons_self
    exact hno ((List.dropWhile_sublist Json.isSpace).subset hmem)
  · obtain rfl : text = "[" := String.toList_inj.mp hone
    cases h
  · obtain ⟨rest, hrest⟩ := List.head?_eq_some_iff.mp hc
    have hspace : Json.isSpace c = false := by
      simp only [Token.isQuote, Bool.or_eq_true, beq_iff_eq] at hquote
      rcases hquote with (rfl | rfl) | rfl <;> rfl
    rw [hrest, Json.skipSpace,
      List.dropWhile_cons_of_neg (by rw [hspace]; exact Bool.false_ne_true)] at hcs
    cases hcs
    cases hquote

/-- A record is an object. -/
theorem unlisted_of_ofText {contents : List String} {v : Value}
    (h : Record.ofText none (Record.text contents) = .ok v) : v.Unlisted := by
  intro hv
  unfold Record.ofText at h
  cases hread : Value.read (Record.text contents) with
  | error e =>
    rw [hread] at h
    cases h
  | ok u =>
    rw [hread] at h
    cases h
    obtain ⟨cs, hcs⟩ := skipSpace_of_read hread hv
    simp [Record.text, Json.skipSpace, Json.isSpace] at hcs

end Value

/-! ## Operators -/

/-- What an operator left is no list. -/
def Outcome.Unlisted (r : Except Error Outcome) : Prop := ∀ v, r = .ok (.value v) → v.Unlisted

namespace Outcome.Unlisted

theorem unary (op : Operator) {v : Value} (hv : v.Unlisted) : Outcome.Unlisted (op.unary v) := by
  intro u h
  by_cases hop : op = .background
  · subst hop
    cases h
    exact hv
  · have hscalar : Outcome.Scalar (op.unary v) := .unary hop v
    rw [h] at hscalar
    exact hscalar.kind_ne_list

theorem binary (op : Operator) (v w : Value) : Outcome.Unlisted (op.binary v w) := by
  intro u h
  have hscalar : Outcome.Scalar (op.binary v w) := .binary op v w
  rw [h] at hscalar
  exact hscalar.kind_ne_list

end Outcome.Unlisted

namespace Operand

/-- The operand is no value that is a list. -/
def Unlisted (x : Operand) : Prop := ∀ v, x = .value v → v.Unlisted

theorem unlisted_ofOutcome {r : Except Error Outcome} (h : Outcome.Unlisted r) :
    (ofOutcome r).Unlisted := by
  intro v hv
  match r with
  | .ok (.value u) =>
    cases hv
    exact h v rfl
  | .ok (.range _ _) | .error _ => cases hv

theorem Unlisted.ready {x : Operand} {scope : Scope} {v : Value} (h : x.Unlisted)
    (k : x.ready? scope = some (.known v)) : v.Unlisted := by
  cases x with
  | value u =>
    cases k
    exact h v rfl
  | word w =>
    by_cases hw : scope.isVarPath w = true
    · simp only [ready?, if_pos hw] at k
      cases k
    · simp only [ready?, if_neg hw] at k
      cases k
      exact nofun
  | stream _ | streamRef _ | deferred _ => cases k

theorem Unlisted.applyUnary {x : Operand} (h : x.Unlisted) (scope : Scope) (op : Operator) :
    (Operand.applyUnary scope op x).Unlisted := by
  unfold Operand.applyUnary
  split
  next v hv => exact unlisted_ofOutcome (.unary op (h.ready hv))
  all_goals exact nofun

theorem unlisted_applyBinary (scope : Scope) (op : Operator) (x y : Operand) :
    (Operand.applyBinary scope op x y).Unlisted := by
  unfold Operand.applyBinary
  split
  · exact unlisted_ofOutcome (.binary op _ _)
  all_goals exact nofun

theorem unlisted_leaf {t : String} {x : Operand} (ht : Token.Unlisted t.toList)
    (h : Leaf.read t = .ok x) : x.Unlisted := by
  unfold Leaf.read at h
  split at h
  · cases h
    exact nofun
  · cases h
    unfold template
    split
    · exact nofun
    · rintro _ ⟨⟩
      exact nofun
  · cases h
    rintro _ ⟨⟩
    exact nofun
  · cases hv : Value.read t with
    | error e =>
      rw [hv] at h
      cases h
    | ok v =>
      rw [hv] at h
      cases h
      rintro _ ⟨⟩
      exact Value.unlisted_of_read ht hv
  · split at h
    · split at h <;> cases h
      rintro _ ⟨⟩
      exact (Value.scalar_number _).kind_ne_list
    · split at h <;> cases h
      next hv =>
        rintro _ ⟨⟩
        exact Value.unlisted_of_read ht hv
      next => exact nofun

end Operand

/-! ## Lines -/

/-- The operands of a line are no lists, if none of its tokens is read as one. -/
def unlisted (context : Context) {tokens : List String}
    (htokens : ∀ t ∈ tokens, Token.Unlisted t.toList) : Parse.Invariant context tokens where
  operand := Operand.Unlisted
  factory _ := True
  scope _ := True
  leaf ht h := Operand.unlisted_leaf (htokens _ ht) h
  word _ := nofun
  unary _ hx op := hx.applyUnary _ op
  binary _ _ _ op := Operand.unlisted_applyBinary _ op _ _
  ternary _ hx ht hf y hy := by
    unfold Operand.ternary at hy
    split at hy
    next v hv =>
      split at hy
      · split at hy
        · obtain rfl := List.mem_singleton.mp hy
          rintro _ ⟨⟩
          exact hx.ready hv
        · exact ht y hy
      · exact hf y hy
    next => exact List.mem_singleton.mp hy ▸ nofun
  record {s xs x} _ h := by
    unfold Record.build at h
    split at h
    · cases hv : Record.ofText none (Record.text ((Record.parts xs).map Record.fixedContent)) with
      | error e =>
        rw [hv] at h
        cases h
      | ok v =>
        rw [hv] at h
        cases h
        rintro _ ⟨⟩
        exact Value.unlisted_of_ofText hv
    · cases h
      exact nofun
  typed {x} hx type := by
    unfold Record.typed
    split
    · rintro _ ⟨⟩
      exact nofun
    · exact nofun
    · exact hx
  constant _ := nofun
  stream _ := nofun
  expression _ _ := trivial
  compose _ _ := trivial
  nothing := trivial
  andThen _ _ := trivial
  bind _ _ := trivial
  each _ := trivial
  empty := trivial
  declare _ _ _ := trivial
  override _ _ _ := trivial

end Rill
