import Rill.Proofs.Closure.Keeping
import Rill.Proofs.Line.Nesting

/-!
# Nested parameters are nested iteration

What terms and phrases mean depends on the values of the parameters that they read
(`Term.meaning`, `Phrase.items`); of two parameters of one name the inner one counts. A line
`s | x -> t | y -> e` gives, for each value of `s`, for each value of `t` with that value for `x`,
what `e` means with both, in this order; an error of `s` or of `t` stays where it is
(`nestedItems`).

The streams of all levels are pulled in turns and share the slots, but each of them stores its own
value before every pull. So whatever is read inside finds the values of all levels around it
(`Keeping`), and `parse_nested` follows by induction on the levels.
-/

namespace Rill

/-! ## What terms and phrases mean -/

/-- What a term stands for if the parameters have values, the innermost first. -/
def Term.meaning (values : List (String × Value)) : Term → Meaning
  | literal l => .known l.value
  | param word =>
    .known (((values.lookup (Scope.head word)).getD .null).project ((segments word).drop 1))
  | before op _ x => (x.meaning values).unary op
  | after op _ x => (x.meaning values).unary op
  | between op _ x y => (x.meaning values).binary op (y.meaning values)

/-- Whether a term reads a parameter. -/
def Term.reads : Term → Bool
  | literal _ => false
  | param _ => true
  | before _ _ x => x.reads
  | after _ _ x => x.reads
  | between _ _ x y => x.reads || y.reads

/-- What decides a choice by a term. -/
def Term.decision (values : List (String × Value)) (t : Term) : Item :=
  (t.meaning values).decision t.reads

/-- The elements of terms one after the other. -/
def termItems (values : List (String × Value)) (terms : List Term) : List Item :=
  (terms.map fun t => (t.meaning values).items).flatten

/-- The elements of a phrase. -/
def Phrase.items (values : List (String × Value)) : Phrase → List Item
  | plain terms => termItems values terms
  | choice terms c onTrue onFalse =>
    termItems values terms ++
      choiceItems (c.decision values) (some (onTrue.items values)) (onFalse.items values)
  | fallback terms c onFalse =>
    termItems values terms ++ choiceItems (c.decision values) none (onFalse.items values)

/-- What is done inside some levels, for each value of the first, for each value of the second, and
so on. -/
def nestedItems (values : List (String × Value)) : List Level → Phrase → List Item
  | [], e => e.items values
  | l :: levels, e =>
    (l.source.items values).flatMap (onValue fun v => nestedItems ((l.name, v) :: values) levels e)

/-- An operator that leaves every value as it is leaves an operand as it is. -/
theorem Meaning.unary_background (m : Meaning) : m.unary .background = m := by
  cases m with
  | known v => rfl
  | elements xs =>
    have h : ∀ x : Item, onValue (fun v => outcomeItems (Operator.unary .background v)) x = [x]
      | .ok _ | .error _ => rfl
    show Meaning.elements (xs.flatMap _) = _
    rw [funext h, List.flatMap_singleton']

/-! ## Where parameters are found -/

/-- The parameters are visible, and their slots are among those that hold the values. -/
def Visible (names : List String) (scope : Scope) (held : List (Handle × Value))
    (values : List (String × Value)) : Prop :=
  ∀ name ∈ names, ∃ slot v, Sorted.find? name scope.vars = some slot ∧ (slot, v) ∈ held ∧
    values.lookup name = some v

variable {context : Context} {names : List String} {scope : Scope} {live : List Handle}
  {held : List (Handle × Value)} {values : List (String × Value)}

/-- A parameter hides one of the same name. -/
theorem Visible.declare (h : Visible names scope held values) (name : String) (slot : Handle)
    (v : Value) :
    Visible (name :: names) (scope.declare name slot) ((slot, v) :: held)
      ((name, v) :: values) := by
  intro n hn
  by_cases e : n = name
  · subst e
    exact ⟨slot, v, Sorted.find?_insert_self .., List.mem_cons_self, List.lookup_cons_self⟩
  · obtain ⟨slot', v', hfind, hheld, hvalue⟩ := h n ((List.mem_cons.mp hn).resolve_left e)
    refine ⟨slot', v', ?_, List.mem_cons_of_mem _ hheld, ?_⟩
    · exact (Sorted.find?_insert_of_ne e ..).trans hfind
    · rw [List.lookup_cons, beq_false_of_ne e]
      exact hvalue

/-- A term stands for what it means. -/
theorem Spelled.stands (hv : Visible names scope held values) {tier : Nat} {rest : List String}
    {t : Term} {ts : List String} (h : Spelled names tier rest t ts) :
    Stands context (Keeping live held) scope t.reads (t.operand scope) (t.meaning values) := by
  induction h with
  | literal l => exact .means (.known l.value)
  | @param _ _ word _ hn =>
    obtain ⟨slot, v, hfind, hheld, hvalue⟩ := hv _ hn
    have hvar : scope.isVarPath word = true := Option.isSome_iff_exists.mpr ⟨slot, hfind⟩
    rw [Term.meaning, hvalue]
    exact .word hvar fun w hw => resolve?_of_holds hfind (hw.holds _ hheld)
  | before _ ih => exact ih.applyUnary _
  | @after _ _ op _ _ _ _ _ _ ih =>
    by_cases hop : op = .background
    · subst hop
      rw [Term.meaning, Meaning.unary_background]
      exact ih
    · rw [Term.operand, Operand.applyAfter, if_neg hop]
      exact ih.applyUnary op
  | between _ _ _ _ ihx ihy => exact ihx.applyBinary ihy _

theorem Juxtaposed.stands (hv : Visible names scope held values) {rest : List String}
    {terms : List Term} {ts : List String} (h : Juxtaposed names rest terms ts) :
    ∀ t ∈ terms, Stands context (Keeping live held) scope t.reads (t.operand scope)
      (t.meaning values) := by
  induction h with
  | one h => exact fun t ht => List.mem_singleton.mp ht ▸ h.stands hv
  | cons h _ _ ih => exact List.forall_mem_cons.mpr ⟨h.stands hv, ih⟩

theorem allDeliver_terms {worlds : World → Prop} {terms : List Term}
    (h : ∀ t ∈ terms, Stands context worlds scope t.reads (t.operand scope) (t.meaning values)) :
    AllDeliver context worlds scope (terms.map (Term.operand scope)) (termItems values terms) := by
  refine ⟨_, ?_, rfl⟩
  rw [List.forall₂_map_left_iff, List.forall₂_map_right_iff]
  exact List.forall₂_same.mpr fun t ht => (h t ht).deliversIn

theorem Juxtaposed.terms_ne_nil {rest : List String} {terms : List Term} {ts : List String}
    (h : Juxtaposed names rest terms ts) : terms ≠ [] := by
  cases h <;> simp

theorem Operand.ternary_ne_nil {c : Operand} {onTrue onFalse : List Operand} (h : onFalse ≠ []) :
    Operand.ternary scope c onTrue onFalse ≠ [] := by
  unfold Operand.ternary
  split
  · split_ifs with _ hempty
    · exact List.cons_ne_nil _ _
    · simpa using hempty
    · exact h
  · exact List.cons_ne_nil _ _

theorem Phrased.operands_ne_nil {rest : List String} {phrase : Phrase} {ts : List String}
    (h : Phrased names rest phrase ts) : phrase.operands scope ≠ [] := by
  induction h with
  | plain h => simpa [Phrase.operands] using h.terms_ne_nil
  | choice _ _ _ _ ihb | fallback _ _ ihb =>
    exact List.append_ne_nil_of_right_ne_nil _ (Operand.ternary_ne_nil ihb)

/-- The operands of a phrase deliver its elements. -/
theorem Phrased.allDeliver (hv : Visible names scope held values) {rest : List String}
    {phrase : Phrase} {ts : List String} (h : Phrased names rest phrase ts) :
    AllDeliver context (Keeping live held) scope (phrase.operands scope)
      (phrase.items values) := by
  induction h with
  | plain h => exact allDeliver_terms (h.stands hv)
  | choice h ha _ iha ihb =>
    obtain ⟨hterms, hc⟩ := List.forall_mem_append.mp (h.stands hv)
    refine (allDeliver_terms hterms).append ((hc _ List.mem_cons_self).ternary ?_ ihb)
    exact ⟨ha.operands_ne_nil, iha⟩
  | fallback h _ ihb =>
    obtain ⟨hterms, hc⟩ := List.forall_mem_append.mp (h.stands hv)
    exact (allDeliver_terms hterms).append ((hc _ List.mem_cons_self).ternary rfl ihb)

/-! ## Levels -/

/-- Levels inside one another give what is done in the innermost for all values of each of them. -/
theorem NestedLine.deliversIn {levels : List Level} {e : Phrase} {ts : List String}
    (h : NestedLine names levels e ts) :
    ∀ {slots : Slots} {hs : List Handle} {scope : Scope} {held : List (Handle × Value)}
      {values : List (String × Value)}, slots.Holding hs → (∀ p ∈ held, p.1 ∈ hs) →
      (slots.allocMany levels.length).1 ⊆ live → Visible names scope held values →
      (nestedFactory scope slots levels e).DeliversIn context (Keeping live held)
        (nestedItems values levels e) := by
  -- on the levels: inside one, its slot holds its value, and all slots around it hold theirs
  induction h with
  | body h => exact fun _ _ _ hv => (h.allDeliver hv).sequence
  | @level names source e name levels ts us hsource _ _ ih =>
    intro slots hs scope held values hold hheld hlive hv
    obtain ⟨hslot, hlive⟩ := List.cons_subset.mp hlive
    have hnew : ∀ p ∈ held, slots.alloc.1 ≠ p.1 := by
      intro p hp e
      exact (List.nodup_cons.mp hold.alloc.nodup).1 (e ▸ hheld p hp)
    refine (hsource.allDeliver hv).sequence.bind (fun v w hw => hw.store hslot hnew v)
      (fun v w hw => hw.of_cons) fun v => ?_
    refine ih hold.alloc (List.forall_mem_cons.mpr ⟨List.mem_cons_self, fun p hp => ?_⟩) hlive
      (hv.declare name _ v)
    exact List.mem_cons_of_mem _ (hheld p hp)

/-- A line of levels inside one another is read, and gives, for each value of the first source, for
each value of the second with that value for the first parameter, and so on, what is done in the
innermost level. -/
theorem parse_nested (context : Context) {levels : List Level} {e : Phrase} {tokens : List String}
    (h : NestedLine [] levels e tokens) {w : World} {hs : List Handle}
    (hold : w.slots.Holding hs) :
    ∃ (f : Factory) (slots : Slots) (s : Stream) (w₁ w₂ : World),
      parse context tokens w = (.ok (f, .default), { w with slots := slots }) ∧
      Makes context f .empty { w with slots := slots } s w₁ ∧
      Drains context s w₁ (nestedItems [] levels e) w₂ := by
  have hall := hold.allocMany levels.length
  have hkeep : Keeping (w.slots.allocMany levels.length).1 []
      { w with slots := (w.slots.allocMany levels.length).2 } := by
    refine ⟨fun slot hslot => (hall.mem slot).mp ?_, nofun⟩
    exact List.mem_append_left _ (List.mem_reverse.mpr hslot)
  have hvisible : Visible [] .empty [] [] := nofun
  obtain ⟨s, w₁, hm, hw₁, hs⟩ :=
    h.deliversIn hold (List.forall_mem_nil _) (List.Subset.refl _) hvisible _ hkeep
  obtain ⟨w₂, hd⟩ := hs.drains hw₁
  exact ⟨_, _, s, w₁, w₂, h.parse_eq context w, hm, hd⟩

/-- `'a' 'a' * 'b' true | x -> x !x | y -> y ? x : 'n' | x -> x y`: texts cannot be multiplied, and
the last parameter hides the first. -/
theorem parse_nested_hidden : ∃ (f : Factory) (slots : Slots) (s : Stream) (w₁ w₂ : World),
    parse {} ["'a'", "'a'", "*", "'b'", "true", "|", "x", "->", "x", "!", "x", "|", "y", "->", "y",
        "?", "x", ":", "'n'", "|", "x", "->", "x", "y"] (.ofEnvironment .empty) =
      (.ok (f, .default), { World.ofEnvironment .empty with slots := slots }) ∧
    Makes {} f .empty { World.ofEnvironment .empty with slots := slots } s w₁ ∧
    Drains {} s w₁
      [.ok (.string "a"), .ok (.string "a"), .ok (.string "n"), .ok (.bool false),
        .error .invalidStringOp, .ok (.bool true), .ok (.bool true), .ok (.string "n"),
        .ok (.bool false)] w₂ := by
  let a : Literal := ⟨"'a'", .string "a", rfl⟩
  let b : Literal := ⟨"'b'", .string "b", rfl⟩
  let n : Literal := ⟨"'n'", .string "n", rfl⟩
  let t : Literal := ⟨"true", .bool true, rfl⟩
  have hx : IsName "x" := ⟨⟨rfl, rfl, rfl⟩, rfl⟩
  have hy : IsName "y" := ⟨⟨rfl, rfl, rfl⟩, rfl⟩
  have hproduct (rest : List String) : Spelled [] 0 rest
      (.between .mul rfl (.literal a) (.literal b)) ["'a'", "*", "'b'"] :=
    .between (by decide) (.literal a) (.literal b) nofun
  have hparam (names : List String) {tier : Nat} {rest : List String} {x : String}
      (hx : IsName x) (hn : Scope.head x ∈ names) : Spelled names tier rest (.param x) [x] :=
    .param hx.toIsWord hn
  have hfirst (rest : List String) : Phrased [] rest
      (.plain [.literal a, .between .mul rfl (.literal a) (.literal b), .literal t])
      ["'a'", "'a'", "*", "'b'", "true"] :=
    .plain (.cons (.literal a) (by decide) (.cons (hproduct _) (by decide) (.one (.literal t))))
  have hsecond (rest : List String) : Phrased ["x"] rest
      (.plain [.param "x", .before .not rfl (.param "x")]) ["x", "!", "x"] :=
    .plain (.cons (hparam _ hx (by decide)) (by decide) (.one (.before (hparam _ hx (by decide)))))
  have hasked (rest : List String) : Juxtaposed ["y", "x"] rest ([] ++ [.param "y"]) ["y"] :=
    .one (hparam _ hy (by decide))
  have hthird (rest : List String) : Phrased ["y", "x"] rest
      (.choice [] (.param "y") (.plain [.param "x"]) (.plain [.literal n]))
      (["y"] ++ "?" :: (["x"] ++ ":" :: ["'n'"])) :=
    .choice (hasked _) (.plain (.one (hparam _ hx (by decide)))) (.plain (.one (.literal n)))
  have hbody : Phrased ["x", "y", "x"] [] (.plain [.param "x", .param "y"]) ["x", "y"] :=
    .plain (.cons (hparam _ hx (by decide)) (by decide) (.one (hparam _ hy (by decide))))
  have hline := NestedLine.level (hfirst _) hx (.level (hsecond _) hy
    (.level (hthird _) hx (.body hbody)))
  exact parse_nested {} hline (w := .ofEnvironment .empty) .empty

end Rill
