import Rill.Proofs.Record.Spelling

/-!
# The grammar of a record

A record of operands whose values are known is the object that its symbols spell, and an error if
they spell none (`build_cases`). The operands are written with nothing between them: the symbols are
those of the operands, except that numbers that stand side by side are one number
(`build_iff_spells`).
-/

namespace Rill.Record

open Rill.Record.Symbol (braced join)

variable {scope : Scope} {xs : List Operand} {fields : List (String × Json)}

/-- A known operand of a record as a symbol; a word that is no punctuation is a text. -/
def symbol : Operand → Symbol
  | .word w => if punctuation.contains w then .mark w else .datum (.string w)
  | .value v => .ofJson v.toJson
  | _ => .mark ""

/-- The symbols of a record with these operands: its braces, and between them the numbers that stand
side by side joined. -/
def symbols (xs : List Operand) : List Symbol := braced (join (xs.map symbol))

theorem ok_symbol {x : Operand} (h : isFixed scope x = true) : (symbol x).Ok := by
  cases x with
  | word w =>
    rw [symbol]
    split
    · rename_i hw
      exact .mark (List.contains_iff_mem.mp hw)
    · refine .datum fun h => ?_
      cases h
  | value v => exact Symbol.ok_ofJson v.toJson
  | stream => cases h
  | streamRef => cases h
  | deferred => cases h

/-- Each operand contributes the text of its symbol. -/
theorem toList_contents (xs : List Operand) :
    (String.join ((parts xs).map fixedContent)).toList = chars (xs.map symbol) := by
  induction xs with
  | nil => rfl
  | cons x xs ih =>
    rw [String.toList_join] at ih ⊢
    cases x with
    | word w =>
      by_cases hw : punctuation.contains w = true
      · simp only [parts, hw, if_true, List.map_cons, List.flatMap_cons, ih, chars_cons, symbol]
        rfl
      · -- a key and a text are written alike
        have hrender : (Json.string w).render.toList = (Json.string w).chars := by
          rw [Json.render, String.toList_ofList]
        by_cases hcolon : colonFollows xs = true
        · simp only [parts, hw, hcolon, if_true, if_false, List.map_cons, List.flatMap_cons, ih,
            chars_cons, symbol, fixedContent, hrender, Symbol.chars, Bool.false_eq_true]
        · simp only [parts, hw, hcolon, if_false, List.map_cons, List.flatMap_cons, ih,
            chars_cons, symbol, fixedContent, hrender, Symbol.chars, Bool.false_eq_true]
    | value v =>
      have hrender : v.toJsonText.toList = v.toJson.chars := by
        rw [Value.toJsonText, Json.render, String.toList_ofList]
      simp only [parts, List.map_cons, List.flatMap_cons, ih, chars_cons, symbol, fixedContent,
        hrender, Symbol.chars_ofJson]
    | stream f => exact ih
    | streamRef name => exact ih
    | deferred d => exact ih

/-- The text of a record is that of its symbols. -/
theorem toList_text (xs : List Operand) :
    (text ((parts xs).map fixedContent)).toList = chars (symbols xs) := by
  rw [text, String.toList_append, String.toList_append, toList_contents, symbols, braced,
    chars_cons, chars_append, chars_join]
  rfl

theorem separate_symbols (h : ∀ x ∈ xs, isFixed scope x = true) :
    Separate (symbols xs) := by
  have hok : ∀ s ∈ xs.map symbol, s.Ok := by
    intro s hs
    obtain ⟨x, hx, rfl⟩ := List.mem_map.mp hs
    exact ok_symbol (h x hx)
  have hjoin := separate_join hok
  refine ⟨fun s hs => ?_, ?_⟩
  · rcases List.mem_cons.mp hs with rfl | hs
    · exact .mark (by decide)
    · rcases List.mem_append.mp hs with hs | hs
      · exact hjoin.ok s hs
      · obtain rfl := List.mem_singleton.mp hs
        exact .mark (by decide)
  · have hlast : Joined (join (xs.map symbol) ++ [.mark "\x7d"]) := by
      refine List.isChain_append.mpr ⟨hjoin.joined, .singleton _, fun _ _ t ht k => ?_⟩
      obtain rfl := Option.some.inj ht
      exact nomatch k.2
    exact List.isChain_cons.mpr ⟨fun _ _ k => absurd k.1 nofun, hlast⟩

/-- A record of known operands is the object that its symbols spell, or an error if they spell
none. -/
theorem build_cases (h : ∀ x ∈ xs, isFixed scope x = true) :
    (∃ fields, Spells Json.maxDepth (symbols xs) (.object fields) ∧
      build scope xs = .ok (.value (.json (.object fields)))) ∨
    (∃ m, build scope xs = .error (.json m)) ∧ ∀ j, ¬ Spells Json.maxDepth (symbols xs) j := by
  have hbuild : build scope xs =
      (Value.read (text ((parts xs).map fixedContent))).map fun v => .value v := by
    rw [build, if_pos (List.all_eq_true.mpr h), ofText]
    cases Value.read (text ((parts xs).map fixedContent)) <;> rfl
  rw [Value.read, Json.read, toList_text] at hbuild
  have hspells (j : Json) : Json.readAll (chars (symbols xs)) = .ok j ↔
      Spells Json.maxDepth (symbols xs) j := readAll_chars (separate_symbols h)
  cases hall : Json.readAll (chars (symbols xs)) with
  | ok j =>
    have hj := (hspells j).mp hall
    obtain ⟨fields, rfl⟩ := hj.object_of_brace rfl
    rw [hall] at hbuild
    exact .inl ⟨fields, hj, hbuild⟩
  | error f =>
    rw [hall] at hbuild
    refine .inr ⟨⟨_, hbuild⟩, fun j hj => ?_⟩
    rw [(hspells j).mpr hj] at hall
    cases hall

/-- Operands whose symbols spell an object are a record of that object. -/
theorem build_of_spells (h : ∀ x ∈ xs, isFixed scope x = true)
    (hs : Spells Json.maxDepth (symbols xs) (.object fields)) :
    build scope xs = .ok (.value (.json (.object fields))) := by
  rcases build_cases h with ⟨fields', hs', hbuild⟩ | ⟨-, hnone⟩
  · have hread := (readAll_chars (separate_symbols h)).mpr hs
    rw [(readAll_chars (separate_symbols h)).mpr hs'] at hread
    cases hread
    exact hbuild
  · exact absurd hs (hnone _)

/-- Operands side by side of which neither is punctuation are an error, unless both are numbers. -/
theorem build_side_by_side {before after : List Operand} {x y : Operand}
    (h : ∀ z ∈ before ++ x :: y :: after, isFixed scope z = true) (hx : (symbol x).isMark = false)
    (hy : (symbol y).isMark = false)
    (hn : ¬ ((symbol x).isNumeral = true ∧ (symbol y).isNumeral = true)) :
    ∃ m, build scope (before ++ x :: y :: after) = .error (.json m) := by
  rcases build_cases h with ⟨fields, hs, -⟩ | ⟨hbuild, -⟩
  · -- one of two neighbours that spell an object is punctuation
    have hjoin : Punctuated (join ((before ++ x :: y :: after).map symbol)) :=
      (List.isChain_append.mp (List.isChain_cons.mp hs.punctuated).2).1
    have hchain := hjoin.of_join
    rw [List.map_append, List.map_cons, List.map_cons] at hchain
    rcases (List.isChain_append_cons_cons.mp hchain).2.1 with (hmark | hmark) | hnumerals
    · rw [hx] at hmark
      cases hmark
    · rw [hy] at hmark
      cases hmark
    · exact absurd hnumerals hn
  · exact hbuild

/-- A record of known operands is an object exactly if its symbols spell that object. The symbols
are those of its operands, each as it is where no two numbers stand side by side; anything else side
by side without punctuation is no record. -/
theorem build_iff_spells (h : ∀ x ∈ xs, isFixed scope x = true) :
    (∀ y, build scope xs = .ok y ↔
      ∃ fields, Spells Json.maxDepth (symbols xs) (.object fields) ∧
        y = .value (.json (.object fields))) ∧
    (Joined (xs.map symbol) → symbols xs = braced (xs.map symbol)) ∧
    ∀ before x y after, xs = before ++ x :: y :: after → (symbol x).isMark = false →
      (symbol y).isMark = false → ¬ ((symbol x).isNumeral = true ∧ (symbol y).isNumeral = true) →
      ∃ m, build scope xs = .error (.json m) := by
  refine ⟨fun y => ⟨fun hy => ?_, ?_⟩, fun hjoined => ?_, ?_⟩
  · rcases build_cases h with ⟨fields, hs, hbuild⟩ | ⟨⟨m, hbuild⟩, -⟩
    · rw [hbuild] at hy
      exact ⟨fields, hs, (Except.ok.inj hy).symm⟩
    · rw [hbuild] at hy
      cases hy
  · rintro ⟨fields, hs, rfl⟩
    exact build_of_spells h hs
  · rw [symbols, join_of_joined hjoined]
  · rintro before x y after rfl hx hy hn
    exact build_side_by_side h hx hy hn

/-- The record `a : 1 2` is read as one field of twelve. -/
theorem build_iff_spells_twelve :
    build .empty [.word "a", .word ":", .value (.int 1), .value (.int 2)] =
      .ok (.value (.json (.object [("a", .number (.int 12))]))) := by
  have hfixed : ∀ x ∈ [.word "a", .word ":", .value (.int 1), .value (.int 2)],
      isFixed .empty x = true := by
    simp only [List.forall_mem_cons, List.not_mem_nil, false_imp_iff, implies_true, and_true]
    exact ⟨rfl, rfl, rfl, rfl⟩
  have hspells : ∀ p ∈ [("a", [Symbol.numeral ['1', '2']], Json.number (.int 12))],
      Spells 126 p.2.1 p.2.2 := by
    simp only [List.forall_mem_cons, List.not_mem_nil, false_imp_iff, implies_true, and_true]
    exact .numeral rfl
  exact ((build_iff_spells hfixed).1 _).mpr ⟨_, .object hspells, rfl⟩

end Rill.Record
