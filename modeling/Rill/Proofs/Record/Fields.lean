import Rill.Proofs.Line.Term
import Rill.Proofs.Record.Contents
import Rill.Proofs.Record.Expression
import Rill.Proofs.Scalars

/-!
# Records whose fields are expressions

A line `{ k : e , .. }` of bare keys and expressions is read as a record of these fields, whatever
operators the expressions have (`reads_line`). What it delivers is made of what the expressions
deliver on lines of their own (`Field.parse_tokens`): each is written into the text of the record,
up to the first that has an error (`recordOf`), and the text is read as an object. Both together are
`parse_line_fields`.
-/

namespace Rill

/-! ## What expressions stand for is scalar -/

/-- The value that is known, or each of the elements, is a scalar. -/
def Meaning.Scalar : Meaning → Prop
  | .known v => v.Scalar
  | .elements xs => ∀ v, .ok v ∈ xs → v.Scalar

theorem scalar_countUp {first : Int} {n : Nat} (hf : Numeral.minInt ≤ first)
    (hl : first + n ≤ Numeral.maxInt + 1) : (Meaning.elements (countUp first n)).Scalar := by
  induction n generalizing first with
  | zero => nofun
  | succ n ih =>
    intro v hv
    rcases List.mem_cons.mp hv with hv | hv
    · obtain rfl := Except.ok.inj hv
      exact ⟨hf, by omega⟩
    · exact ih (by omega) (by omega) v hv

theorem scalar_outcomeItems {r : Except Error Outcome} (h : Outcome.Scalar r) :
    (Meaning.elements (outcomeItems r)).Scalar := by
  match r with
  | .ok (.value u) =>
    intro v hv
    obtain rfl := Except.ok.inj (List.mem_singleton.mp hv)
    exact h
  | .ok (.range first last) =>
    obtain ⟨hf, hl⟩ := h
    by_cases hle : first ≤ last
    · exact scalar_countUp hf (by omega)
    · have hnone : (last + 1 - first).toNat = 0 := by omega
      rw [outcomeItems, rangeItems, hnone]
      exact nofun
  | .error e =>
    intro v hv
    cases List.mem_singleton.mp hv

theorem Meaning.scalar_ofOutcome {r : Except Error Outcome} (h : Outcome.Scalar r) :
    (Meaning.ofOutcome r).Scalar := by
  match r with
  | .ok (.value _) => exact h
  | .ok (.range _ _) => exact scalar_outcomeItems h
  | .error _ => exact scalar_outcomeItems h

/-- What is made of elements is scalar if what is made of each value is. -/
theorem scalar_onValue {g : Value → List Item} (h : ∀ v, (Meaning.elements (g v)).Scalar)
    (xs : List Item) : (Meaning.elements (xs.flatMap (onValue g))).Scalar := by
  intro v hv
  obtain ⟨x, -, hx⟩ := List.mem_flatMap.mp hv
  match x with
  | .ok u => exact h u v hx
  | .error e => cases List.mem_singleton.mp hx

theorem scalar_pairItems (op : Operator) : ∀ x y : Item,
    (Meaning.elements (pairItems op x y)).Scalar
  | .ok _, .ok _ => scalar_outcomeItems (.binary op _ _)
  | .error _, _ => fun _ hv => nomatch List.mem_singleton.mp hv
  | .ok _, .error _ => fun _ hv => nomatch List.mem_singleton.mp hv

theorem Meaning.scalar_unary {op : Operator} (hop : op ≠ .background) :
    ∀ m : Meaning, (m.unary op).Scalar
  | .known v => scalar_ofOutcome (.unary hop v)
  | .elements xs => scalar_onValue (fun v => scalar_outcomeItems (.unary hop v)) xs

theorem Meaning.scalar_binary (op : Operator) : ∀ m n : Meaning, (m.binary op n).Scalar
  | .known v, .known w => scalar_ofOutcome (.binary op v w)
  | .elements xs, .known w => scalar_onValue (fun v => scalar_outcomeItems (.binary op v w)) xs
  | .known v, .elements ys => scalar_onValue (fun w => scalar_outcomeItems (.binary op v w)) ys
  | .elements xs, .elements ys => by
    intro v hv
    obtain ⟨p, -, hp⟩ := List.mem_flatMap.mp hv
    exact scalar_pairItems op p.1 p.2 v hp

/-- An expression stands for scalars, unless it is a literal that is a list or an object. -/
theorem Tree.scalar_meaning {e : Tree}
    (h : ∀ l, e = .leaf l → l.value.kind ≠ .list ∧ l.value.kind ≠ .struct) :
    e.meaning.Scalar := by
  cases e with
  | leaf l => exact scalar_leaf l.read_eq (h l rfl).1 (h l rfl).2
  | before op hop x =>
    have hne : op ≠ .background := by
      rintro rfl
      cases hop
    exact Meaning.scalar_unary hne _
  | between op hop x y => exact Meaning.scalar_binary op _ _

namespace Record

open Parse (bind_ok all_ok)
open Yard (Folds)

/-! ## Lines -/

/-- A field: a bare key, and an expression as it is written. A literal that is the whole expression
is no list and no object; no token is read as one. -/
structure Field where
  key : String
  tree : Tree
  tokens : List String
  isWord : IsWord key
  unmarked : punctuation.contains key = false
  inner : Inner 0 tree tokens
  scalar : ∀ l, tree = .leaf l → l.value.kind ≠ .list ∧ l.value.kind ≠ .struct

/-- The elements that the expression delivers. -/
def Field.items (f : Field) : List Item := f.tree.meaning.items

/-- The tokens of a field. -/
def Field.line (f : Field) : List String := f.key :: ":" :: f.tokens

/-- The tokens of a record of fields. -/
def line (fs : List Field) : List String :=
  "\x7b" :: ([","].intercalate (fs.map Field.line) ++ ["\x7d"])

/-- The operands of a record with these keys and values. -/
def operands (ps : List (String × Operand)) : List Operand :=
  [.word ","].intercalate (ps.map fun p => [.word p.1, .word ":", p.2])

/-- The operand is what the expression of the field stands for, under its key. -/
def Stands (context : Context) (f : Field) (p : String × Operand) : Prop :=
  p.1 = f.key ∧ Means context p.2 f.tree.meaning

variable {context : Context} {w : World} {fs : List Field} {ps : List (String × Operand)}

/-- On a line of its own, the expression of a field is a sequence that delivers its elements. -/
theorem Field.parse_tokens (context : Context) (f : Field) (w : World) :
    ∃ r, parse context f.tokens w = (.ok (r, .default), w) ∧ r.Delivers context f.items := by
  obtain ⟨xs, hparse, hxs⟩ := f.inner.written.parse_eq context w .nil nofun
  rw [List.flatten_nil, List.append_nil] at hparse
  have hd : Factory.Delivers context (.sequence .empty xs)
      ([f.tree].map Tree.meaning |>.map Meaning.items).flatten := by
    refine .sequence _ ?_
    rw [List.forall₂_map_right_iff]
    exact hxs.imp fun _ _ h => h.delivers
  rw [List.map_singleton, List.map_singleton, List.flatten_singleton] at hd
  exact ⟨_, hparse, hd⟩

section

variable {depth : Nat} {g : Ground} {xs : List Operand} {y : Yard}

/-- A field is three operands more: its key, the colon, and what its expression stands for. -/
theorem Field.reads (f : Field) (hg : g.Low) (hscope : g.scope = .empty)
    (hin : (Yard.stageIn depth g.scope []).InRecord) (h : Folds g.scope xs y)
    (rest : List String) :
    ∃ (y' : Yard) (x : Operand),
      (∀ tokens, Parse.all context (f.line ++ rest) (y.parseIn depth tokens g) =
        Parse.all context rest (y'.parseIn depth rest g)) ∧
      Folds g.scope (xs ++ [.word f.key, .word ":", x]) y' ∧ y'.top ≠ [] ∧
      Means context x f.tree.meaning := by
  have hkey := (h.word (.word f.key)).word (.word ":")
  obtain ⟨y', x, run, hy', ht', hx⟩ :=
    hkey.expression hg hscope hin (by simp [Yard.append]) f.inner rest
  refine ⟨y', x, fun tokens => ?_, ?_, ht', hx⟩
  · rw [Field.line, List.cons_append, List.cons_append,
      all_ok (Yard.token_leafIn hin f.isWord.read_eq f.isWord.not_mark y),
      all_ok (Yard.token_markIn hin (.inl rfl) _)]
    exact run _
  · rw [List.append_assoc, List.append_assoc] at hy'
    exact hy'

/-- Each field after the first has a comma before it. -/
theorem reads_commas (hg : g.Low) (hscope : g.scope = .empty)
    (hin : (Yard.stageIn depth g.scope []).InRecord) (fs : List Field) {xs : List Operand}
    {y : Yard} (h : Folds g.scope xs y) (ht : y.top ≠ []) (rest : List String) :
    ∃ (y' : Yard) (ps : List (String × Operand)),
      Parse.all context ((fs.flatMap fun f => "," :: f.line) ++ rest)
          (y.parseIn depth ((fs.flatMap fun f => "," :: f.line) ++ rest) g) =
        Parse.all context rest (y'.parseIn depth rest g) ∧
      Folds g.scope (xs ++ ps.flatMap fun p => [.word ",", .word p.1, .word ":", p.2]) y' ∧
      List.Forall₂ (Stands context) fs ps := by
  induction fs generalizing xs y with
  | nil => exact ⟨y, [], rfl, by simpa using h, .nil⟩
  | cons f fs ih =>
    obtain ⟨y₁, x, run₁, h₁, ht₁, hx⟩ := f.reads hg hscope hin (h.word (.word ","))
      ((fs.flatMap fun f => "," :: f.line) ++ rest)
    obtain ⟨y', ps, run, h', hps⟩ := ih h₁ ht₁
    refine ⟨y', (f.key, x) :: ps, ?_, ?_, .cons ⟨rfl, hx⟩ hps⟩
    · rw [List.flatMap_cons, List.append_assoc, List.cons_append,
        all_ok (Yard.token_markIn hin (.inr rfl) y), run₁, run]
    · simpa using h'

/-- The fields of a record are its operands. -/
theorem reads_fields (hg : g.Low) (hscope : g.scope = .empty)
    (hin : (Yard.stageIn depth g.scope []).InRecord) (fs : List Field) (rest : List String) :
    ∃ (y' : Yard) (ps : List (String × Operand)),
      Parse.all context ([","].intercalate (fs.map Field.line) ++ rest)
          ((⟨[], []⟩ : Yard).parseIn depth ([","].intercalate (fs.map Field.line) ++ rest) g) =
        Parse.all context rest (y'.parseIn depth rest g) ∧
      Folds g.scope (operands ps) y' ∧ List.Forall₂ (Stands context) fs ps := by
  have hstart : Folds g.scope [] ⟨[], []⟩ := ⟨trivial, fun _ => rfl, rfl⟩
  cases fs with
  | nil => exact ⟨⟨[], []⟩, [], rfl, hstart, .nil⟩
  | cons f fs =>
    obtain ⟨y₁, x, run₁, h₁, ht₁, hx⟩ := f.reads hg hscope hin hstart
      ((fs.flatMap fun f => "," :: f.line) ++ rest)
    obtain ⟨y', ps, run, h', hps⟩ := reads_commas hg hscope hin fs h₁ ht₁ rest
    refine ⟨y', (f.key, x) :: ps, ?_, ?_, .cons ⟨rfl, hx⟩ hps⟩
    · rw [List.map_cons, Json.intercalate_cons, List.flatMap_map, List.append_assoc, run₁, run]
    · rw [operands, List.map_cons, Json.intercalate_cons, List.flatMap_map]
      exact h'

end

/-- Inside the outermost braces. -/
def ground (w : World) : Ground :=
  ⟨.empty, [{ scope := .empty }], [.brace .record], [], w.slots, w.env⟩

/-- The line after the outermost braces. -/
def closed (w : World) (x : Operand) : Parse :=
  ⟨[], [{ scope := .empty, operands := [x] }], [], [], w.slots, w.env⟩

/-- The brace that closes the record folds all that waits. -/
theorem token_closeFields {xs : List Operand} {y : Yard} (h : Folds .empty xs y) {x : Operand}
    (hb : build .empty xs = .ok x) :
    Parse.token context "\x7d" (y.parseIn 1 [] (ground w)) = .ok () (closed w x) := by
  have k : Parse.foldAll context (fun p => !p.isBracket) (y.parseIn 1 [] (ground w)) =
      .ok () ((⟨xs, []⟩ : Yard).parseIn 1 [] (ground w)) := by
    have hfold : Parse.foldAll context (fun p => !p.isBracket) (y.parseIn 1 [] (ground w)) =
        Parse.foldWhile context (fun p => !p.isBracket) 1
          ((y.collapse .empty 0).parseIn 1 [] (ground w)) :=
      Yard.foldAll_parseIn Yard.keeps_not_bracket h.foldable h.begun
    rw [h.eq] at hfold
    refine hfold.trans (Parse.foldWhile_of_head ?_ _)
    rintro _ ⟨⟩
    rfl
  have hclose : Parse.closeRecord (Yard.stageIn 1 .empty xs)
      (Parse.on ⟨[], [], [], [], w.slots, w.env⟩ { scope := .empty } [] []) =
        .ok () (closed w x) :=
    closeRecord_on rfl awaits_nil hb
  exact (bind_ok k).trans ((bind_ok rfl).trans ((bind_ok rfl).trans hclose))

/-- A line of fields is one operand: the record of the operands that its expressions stand for. -/
theorem reads_line (context : Context) (fs : List Field) (w : World) :
    ∃ ps, List.Forall₂ (Stands context) fs ps ∧
      ∀ x, build .empty (operands ps) = .ok x → x.Settled .empty →
        parse context (line fs) w = (.ok (.sequence .empty [x], .default), w) := by
  have hlow : (ground w).Low := by
    rintro p hp t ht
    obtain rfl : .brace .record = p := Option.some.inj hp
    cases ht
  have hin : (Yard.stageIn 1 (ground w).scope []).InRecord := ⟨Nat.one_pos, rfl, fun _ _ => rfl⟩
  obtain ⟨y, ps, run, hy, hps⟩ := @reads_fields context 1 (ground w) hlow rfl hin fs ["\x7d"]
  refine ⟨ps, hps, fun x hb hx => ?_⟩
  have hopen : Parse.all context (line fs) (.start w (line fs)) =
      Parse.all context ["\x7d"] (y.parseIn 1 ["\x7d"] (ground w)) :=
    (all_ok rfl).trans run
  have hall : Parse.all context (line fs) (.start w (line fs)) = .ok () (closed w x) :=
    hopen.trans (all_ok (token_closeFields hy hb))
  have hfinish : Parse.finish context (closed w x) =
      .ok ((Yard.stage .empty [x]).toFactory context, .default) ⟨[], [], [], [], w.slots, w.env⟩ :=
    rfl
  rw [Yard.toFactory_stage (by simpa using hx)] at hfinish
  exact parse_of_ok ((bind_ok hall).trans hfinish)

/-! ## What is written -/

/-- What an operand contributes that is no word. -/
def part : Operand → RecordPart
  | .value v => .value v
  | x => .values x

/-- What is written of a value or of the elements of a stream, or the first error among them. -/
def written : Meaning → Except Error String
  | .known v => .ok v.toJsonText
  | .elements xs => (collected xs).map fun vs => (joined vs).render

/-- The keys of fields and what is written of their values, or the first error. -/
def writtenFields (fs : List Field) : Except Error (List (String × String)) :=
  fs.mapM fun f => (written f.tree.meaning).map fun t => (f.key, t)

/-- The record of fields. -/
def recordOf (fs : List Field) : Except Error Value :=
  (writtenFields fs).bind fun ts => ofText none (text (contents ts))

theorem parts_field {k : String} (hk : punctuation.contains k = false) {x : Operand}
    (hx : ∀ word, x ≠ .word word) (rest : List Operand) :
    parts (.word k :: .word ":" :: x :: rest) = .key k :: .mark ":" :: part x :: parts rest := by
  rw [parts_key hk]
  cases x with
  | word word => exact absurd rfl (hx word)
  | _ => rfl

/-- An operand contributes what is written of what it stands for. -/
theorem contributes_part {scope : Scope} {x : Operand} {m : Meaning} (h : Means context x m)
    (w : World) : Contributes context scope (part x) w (written m) w := by
  cases h with
  | known v => exact .value v w
  | @elements f xs h =>
    obtain ⟨s, hs, hd⟩ := h
    have hcollects : Collects context scope (.stream f) w (collected xs) w :=
      collects_of_opens (opens_stream.mpr (hs w)) hd
    rw [written]
    cases hxs : collected xs with
    | ok vs => exact .values (hxs ▸ hcollects)
    | error e => exact .failing (hxs ▸ hcollects)

/-- A field is gathered before those after it, unless there is an error in it. -/
theorem gathers_field {f : Field} {p : String × Operand} (h : Stands context f p)
    {rest : List Operand} {r : Except Error (List String)}
    (k : Gathers context .empty (parts rest) w r w) :
    Gathers context .empty (parts (.word p.1 :: .word ":" :: p.2 :: rest)) w
      ((written f.tree.meaning).bind fun t =>
        r.map fun ts => (Json.string f.key).render :: ":" :: t :: ts) w := by
  obtain ⟨hkey, hx⟩ := h
  have hword (word : String) : p.2 ≠ .word word := by
    rintro he
    rw [he] at hx
    cases hx
  have hpart : Contributes context .empty (part p.2) w (written f.tree.meaning) w :=
    contributes_part hx w
  rw [hkey, parts_field f.unmarked hword]
  cases hw : written f.tree.meaning with
  | error e =>
    rw [hw] at hpart
    exact gathers_cons (.key _ w) (gathers_cons (.mark _ w) (gathers_error hpart))
  | ok t =>
    rw [hw] at hpart
    have hall := gathers_cons (.key f.key w) (gathers_cons (.mark ":" w) (gathers_cons hpart k))
    cases r <;> exact hall

theorem writtenFields_cons (f : Field) (fs : List Field) :
    writtenFields (f :: fs) = (written f.tree.meaning).bind fun t =>
      (writtenFields fs).map fun ts => (f.key, t) :: ts := by
  rw [writtenFields, List.mapM_cons, ← writtenFields]
  generalize written f.tree.meaning = r, writtenFields fs = rs
  cases r with
  | error e => rfl
  | ok t => cases rs <;> rfl

theorem contents_cons (t : String × String) (ts : List (String × String)) :
    contents (t :: ts) = (Json.string t.1).render :: ":" :: t.2 ::
      ts.flatMap fun t => [",", (Json.string t.1).render, ":", t.2] := by
  rw [contents, List.map_cons, Json.intercalate_cons, List.flatMap_map]
  rfl

theorem gathers_commas (h : List.Forall₂ (Stands context) fs ps) :
    Gathers context .empty
      (parts (ps.flatMap fun p => [.word ",", .word p.1, .word ":", p.2])) w
      ((writtenFields fs).map fun ts =>
        ts.flatMap fun t => [",", (Json.string t.1).render, ":", t.2]) w := by
  induction h with
  | nil => exact gathers_nil
  | @cons f p fs ps hp _ ih =>
    have hfield := gathers_cons (.mark "," w) (gathers_field hp ih)
    rw [List.flatMap_cons, writtenFields_cons]
    generalize written f.tree.meaning = r, writtenFields fs = rs at hfield ⊢
    cases r with
    | error e => exact hfield
    | ok t => cases rs <;> exact hfield

/-- What is written of the fields is gathered, up to the first error. -/
theorem gathers_operands (h : List.Forall₂ (Stands context) fs ps) :
    Gathers context .empty (parts (operands ps)) w ((writtenFields fs).map contents) w := by
  cases h with
  | nil => exact gathers_nil
  | @cons f p fs ps hp hps =>
    have hfield := gathers_field hp (gathers_commas (w := w) hps)
    rw [operands, List.map_cons, Json.intercalate_cons, List.flatMap_map, writtenFields_cons]
    generalize written f.tree.meaning = r, writtenFields fs = rs at hfield ⊢
    cases r with
    | error e => exact hfield
    | ok t =>
      cases rs with
      | error e => exact hfield
      | ok ts =>
        show Gathers _ _ _ _ (.ok (contents ((f.key, t) :: ts))) _
        rw [contents_cons]
        exact hfield

/-- A record that is made at once has the text that it would have if it waited. -/
theorem gathers_fixed {scope : Scope} {xs : List Operand} (h : ∀ x ∈ xs, isFixed scope x = true) :
    Gathers context scope (parts xs) w (.ok ((parts xs).map fixedContent)) w := by
  induction xs with
  | nil => exact gathers_nil
  | cons x xs ih =>
    obtain ⟨hx, hxs⟩ := List.forall_mem_cons.mp h
    refine gathers_cons ?_ (ih hxs)
    cases x with
    | value v => exact .value v w
    | word word =>
      have htext : scope.isVarPath word = false := by simpa [isFixed] using hx
      have hcollects : Collects context scope (.word word) w (.ok [.string word]) w :=
        collects_of_opens (opens_text htext) (.items [.ok (.string word)])
      dsimp only
      split
      · exact .mark word w
      · split
        · exact .key word w
        · exact .values hcollects
    | stream f => cases hx
    | streamRef name => cases hx
    | deferred d => cases hx

/-! ## Records of known values -/

theorem rereadFields_map {α : Type} {depth : Nat} {key : α → String} {j j' : α → Json}
    {parts : List α} (h : ∀ a ∈ parts, Json.reread depth (j a) = some (j' a)) :
    Json.rereadFields depth (parts.map fun a => (key a, j a)) =
      some (parts.map fun a => (key a, j' a)) := by
  induction parts with
  | nil => rfl
  | cons a parts ih =>
    obtain ⟨ha, hrest⟩ := List.forall_mem_cons.mp h
    rw [List.map_cons, Json.rereadFields, ha, ih hrest]
    rfl

/-- A record of values is an object of what their texts are read as. -/
theorem recordOf_eq {j j' : Field → Json} (h : ∀ f ∈ fs, written f.tree.meaning = .ok (j f).render)
    (hr : ∀ f ∈ fs, Json.reread 126 (j f) = some (j' f)) :
    recordOf fs = .ok (.json (.object (Sorted.ofList (fs.map fun f => (f.key, j' f))))) := by
  have htexts : writtenFields fs = .ok (fs.map fun f => (f.key, (j f).render)) := by
    clear hr
    induction fs with
    | nil => rfl
    | cons f fs ih =>
      obtain ⟨hf, hrest⟩ := List.forall_mem_cons.mp h
      rw [writtenFields_cons, hf, ih hrest]
      rfl
  have htext : text (contents (fs.map fun f => (f.key, (j f).render))) =
      (Json.object (fs.map fun f => (f.key, j f))).render := by
    rw [← text_contents, List.map_map]
    rfl
  have hread := Json.read_render_toOption (.object (fs.map fun f => (f.key, j f)))
  rw [Json.maxDepth, Json.reread, rereadFields_map hr] at hread
  rw [recordOf, htexts, Except.bind, htext, ofText, Value.read]
  cases hj : Json.read (Json.object (fs.map fun f => (f.key, j f))).render with
  | ok k =>
    rw [hj] at hread
    obtain rfl := Option.some.inj hread
    rfl
  | error e =>
    rw [hj] at hread
    cases hread

/-- A scalar that is the only element is written as it is. -/
theorem written_of_single {m : Meaning} (hm : m.Scalar) {v : Value} (h : m.items = [.ok v]) :
    written m = .ok v.toJson.render ∧ v.Scalar := by
  match m with
  | .known u =>
    have hu : valueItems u = [.ok u] := by
      match u, hm with
      | .json .null, _ | .json (.bool _), _ | .json (.number _), _ | .json (.string _), _ => rfl
    obtain rfl : u = v := by
      have hitems := hu.symm.trans h
      exact Except.ok.inj (List.cons.inj hitems).1
    exact ⟨rfl, hm⟩
  | .elements xs =>
    obtain rfl : xs = [.ok v] := h
    exact ⟨rfl, hm v List.mem_cons_self⟩

/-- What the elements have for their first error is the error of what is written. -/
theorem written_eq (m : Meaning) : (∀ vs, collected m.items = .ok vs → ∃ t, written m = .ok t) ∧
    ∀ e, collected m.items = .error e → written m = .error e := by
  match m with
  | .known v =>
    refine ⟨fun _ _ => ⟨_, rfl⟩, fun e he => ?_⟩
    have hok : ∃ vs, collected (valueItems v) = .ok vs := by
      match v with
      | .json j =>
        obtain ⟨vs, hvs, -⟩ := joined_collected j
        exact ⟨vs, hvs⟩
      | .bytes _ => exact ⟨_, rfl⟩
      | .typed _ _ => exact ⟨_, rfl⟩
    obtain ⟨vs, hvs⟩ := hok
    cases hvs.symm.trans he
  | .elements xs =>
    refine ⟨fun vs hvs => ⟨(joined vs).render, ?_⟩, fun e he => ?_⟩
    · rw [written, show collected xs = .ok vs from hvs]
      rfl
    · rw [written, show collected xs = .error e from he]
      rfl

/-- The first field with an error is the error of the record. -/
theorem recordOf_error {before after : List Field} {f : Field} {e : Error}
    (h : ∀ g ∈ before, ∃ vs, collected g.items = .ok vs) (he : collected f.items = .error e) :
    recordOf (before ++ f :: after) = .error e := by
  have htexts : writtenFields (before ++ f :: after) = .error e := by
    induction before with
    | nil =>
      rw [List.nil_append, writtenFields_cons, (written_eq f.tree.meaning).2 e he]
      rfl
    | cons g before ih =>
      obtain ⟨⟨vs, hvs⟩, hrest⟩ := List.forall_mem_cons.mp h
      obtain ⟨t, ht⟩ := (written_eq g.tree.meaning).1 vs hvs
      rw [List.cons_append, writtenFields_cons, ht, ih hrest]
      rfl
  rw [recordOf, htexts]
  rfl

/-- Of entries in any order the last one for a key is found. -/
theorem find?_ofList (key : String) (entries : List (String × Json)) :
    Sorted.find? key (Sorted.ofList entries) =
      (entries.reverse.find? fun e => e.1 == key).map Prod.snd := by
  induction entries using List.reverseRecOn with
  | nil => rfl
  | append_singleton entries e ih =>
    have hinsert : Sorted.ofList (entries ++ [e]) = Sorted.insert e.1 e.2 (Sorted.ofList entries) :=
      List.foldl_append
    rw [hinsert, List.reverse_append, List.reverse_singleton, List.singleton_append,
      List.find?_cons]
    by_cases he : e.1 = key
    · subst he
      rw [Sorted.find?_insert_self, beq_self_eq_true]
      rfl
    · rw [Sorted.find?_insert_of_ne (Ne.symm he), ih, beq_false_of_ne he]

/-- A scalar whose text is read as itself is read as itself in a record too. -/
theorem reread_of_read {v : Value} (hv : v.Scalar) (h : Value.read v.toJsonText = .ok v) :
    Json.reread 126 v.toJson = some v.toJson := by
  match v, hv with
  | .json j, hv =>
    have hread : Json.read j.render = .ok j := by
      unfold Value.read at h
      split at h
      next k hk =>
        cases h
        exact hk
      next => cases h
    show Json.reread 126 j = some j
    rw [Json.Scalar.reread_eq hv 126 Json.maxDepth, ← Json.read_render_toOption, hread]
    rfl

/-- Fields that are all known are a record. -/
theorem exists_recordOf (hknown : ∀ f ∈ fs, ∃ v, f.tree.meaning = .known v) :
    ∃ v, recordOf fs = .ok v := by
  have hfield (f : Field) : ∃ j j', f ∈ fs →
      written f.tree.meaning = .ok (Json.render j) ∧ Json.reread 126 j = some j' := by
    by_cases hf : f ∈ fs
    · obtain ⟨v, hv⟩ := hknown f hf
      have hs : f.tree.meaning.Scalar := Tree.scalar_meaning f.scalar
      rw [hv] at hs ⊢
      match v, hs with
      | .json j, hs =>
        obtain ⟨j', hj'⟩ := Json.Scalar.exists_reread hs 126
        exact ⟨j, j', fun _ => ⟨rfl, hj'⟩⟩
    · exact ⟨.null, .null, fun h => absurd h hf⟩
  choose j j' hj using hfield
  exact ⟨_, recordOf_eq (fun f hf => (hj f hf).1) fun f hf => (hj f hf).2⟩

/-! ## What a record delivers -/

/-- The elements of a record that was made, or its error. -/
def madeItems : Except Error Value → List Item
  | .ok v => valueItems v
  | .error e => [.error e]

/-- If nothing of a record waits, all of its expressions are known. -/
theorem known_of_fixed (h : List.Forall₂ (Stands context) fs ps)
    (hfixed : ∀ p ∈ ps, isFixed .empty p.2 = true) : ∀ f ∈ fs, ∃ v, f.tree.meaning = .known v := by
  induction h with
  | nil => nofun
  | @cons f p fs ps hp _ ih =>
    obtain ⟨hx, hrest⟩ := List.forall_mem_cons.mp hfixed
    refine List.forall_mem_cons.mpr ⟨?_, ih hrest⟩
    obtain ⟨-, hmeans⟩ := hp
    generalize p.2 = x, f.tree.meaning = m at hx hmeans ⊢
    cases hmeans with
    | known v => exact ⟨v, rfl⟩
    | elements _ => cases hx

/-- A record of fields that is made at once is the record that it would be if it waited. -/
theorem build_fixed (h : List.Forall₂ (Stands context) fs ps)
    (hfixed : (operands ps).all (isFixed .empty) = true) {v : Value} (hv : recordOf fs = .ok v) :
    build .empty (operands ps) = .ok (.value v) := by
  have w : World := .ofEnvironment .empty
  have hgathers : Gathers context .empty (parts (operands ps)) w
      ((writtenFields fs).map contents) w := gathers_operands h
  obtain ⟨htexts, -⟩ := (gathers_fixed (List.all_eq_true.mp hfixed)).det hgathers
  rw [build, if_pos hfixed]
  rw [recordOf] at hv
  generalize writtenFields fs = rs at hv htexts
  cases rs with
  | error e => cases htexts
  | ok ts =>
    rw [Except.ok.inj htexts]
    exact congrArg (fun r : Except Error Value => r.map Operand.value) hv

/-- A record of fields that waits is evaluated to the record of the fields. -/
theorem evaluates_fields (h : List.Forall₂ (Stands context) fs ps) (w : World) :
    Evaluates context .empty (.record none (operands ps)) w ((recordOf fs).map .value) w := by
  have hrecord := evaluates_record none (gathers_operands (w := w) h)
  rw [recordOf]
  generalize writtenFields fs = rs at hrecord ⊢
  cases rs with
  | error e => exact hrecord
  | ok ts => exact hrecord

/-- The record of operands that stand for the expressions of fields delivers the record of the
fields, at once or when it is evaluated. -/
theorem build_operands (h : List.Forall₂ (Stands context) fs ps) :
    ∃ x, build .empty (operands ps) = .ok x ∧ x.Settled .empty ∧
      x.Delivers context .empty (madeItems (recordOf fs)) := by
  by_cases hfixed : (operands ps).all (isFixed .empty) = true
  · have hknown : ∀ f ∈ fs, ∃ v, f.tree.meaning = .known v := by
      refine known_of_fixed h fun p hp => List.all_eq_true.mp hfixed _ ?_
      exact mem_intercalate (List.mem_map_of_mem hp) (by simp)
    obtain ⟨v, hv⟩ := exists_recordOf hknown
    rw [hv]
    exact ⟨_, build_fixed h hfixed hv, .value v, _, fun _ => opens_value.mpr ⟨rfl, rfl⟩,
      .ofValue v⟩
  · have hbuild : build .empty (operands ps) = .ok (.deferred (.record none (operands ps))) := by
      rw [build, if_neg hfixed]
    have heval := evaluates_fields h
    refine ⟨_, hbuild, .deferred _, ?_⟩
    cases hr : recordOf fs with
    | ok v =>
      rw [hr] at heval
      exact ⟨_, fun w => opens_deferred (heval w) (opens_value.mpr ⟨rfl, rfl⟩), .ofValue v⟩
    | error e =>
      rw [hr] at heval
      exact ⟨_, fun w => opens_deferred_error (heval w), .items [.error e]⟩

/-- A line of fields is read as a record of them. Where the expression of each field delivers one
value on a line of its own, and the text of the value is read as the value, it delivers the object
of these values, of which the last for a key counts. Where an expression has an error, it delivers
the error of the first such field and nothing else. -/
theorem parse_line_fields (context : Context) (fs : List Field) (w : World) :
    (∀ f ∈ fs, ∃ r, parse context f.tokens w = (.ok (r, .default), w) ∧
      r.Delivers context f.items) ∧
    (∃ r, parse context (line fs) w = (.ok (r, .default), w)) ∧
    (∀ value : Field → Value, (∀ f ∈ fs, f.items = [.ok (value f)] ∧
        Value.read (value f).toJsonText = .ok (value f)) →
      ∃ r, parse context (line fs) w = (.ok (r, .default), w) ∧
        r.Delivers context [.ok (.json (.object
          (Sorted.ofList (fs.map fun f => (f.key, (value f).toJson)))))] ∧
        ∀ key, Sorted.find? key (Sorted.ofList (fs.map fun f => (f.key, (value f).toJson))) =
          (fs.reverse.find? fun f => f.key == key).map fun f => (value f).toJson) ∧
    ∀ before f after e, fs = before ++ f :: after →
      (∀ g ∈ before, ∃ vs, collected g.items = .ok vs) → collected f.items = .error e →
      ∃ r, parse context (line fs) w = (.ok (r, .default), w) ∧ r.Delivers context [.error e] := by
  obtain ⟨ps, hps, hparse⟩ := reads_line context fs w
  obtain ⟨x, hbuild, hsettled, hx⟩ := build_operands hps
  have hd := Factory.Delivers.sequence .empty (.cons hx .nil)
  rw [List.flatten_singleton] at hd
  have hread := hparse x hbuild hsettled
  have hscalar (f : Field) : f.tree.meaning.Scalar := Tree.scalar_meaning f.scalar
  -- what is left to say is what the record is
  refine ⟨fun f _ => f.parse_tokens context w, ⟨_, hread⟩, fun value hvalue => ?_, ?_⟩
  · have hrecord : recordOf fs = .ok (.json (.object
        (Sorted.ofList (fs.map fun f => (f.key, (value f).toJson))))) := by
      have hwritten (f : Field) (hf : f ∈ fs) := written_of_single (hscalar f) (hvalue f hf).1
      exact recordOf_eq (fun f hf => (hwritten f hf).1)
        fun f hf => reread_of_read (hwritten f hf).2 (hvalue f hf).2
    rw [hrecord] at hd
    refine ⟨_, hread, hd, fun key => ?_⟩
    rw [find?_ofList, ← List.map_reverse, List.find?_map, Option.map_map]
    rfl
  · rintro before f after e rfl hbefore he
    have hrecord : recordOf (before ++ f :: after) = .error e := recordOf_error hbefore he
    rw [hrecord] at hd
    exact ⟨_, hread, hd⟩

/-- Of the fields `k : null` and `k : true && (false)` the last counts, `m : true - false` after a
field is an error, and the number `k : 0.5` makes a record. -/
theorem parse_line_fields_truths :
    (∃ r, parse {}
        ["\x7b", "k", ":", "null", ",", "k", ":", "true", "&&", "(", "false", ")", "\x7d"]
        (.ofEnvironment .empty) = (.ok (r, .default), .ofEnvironment .empty) ∧
      r.Delivers {} [.ok (.json (.object [("k", .bool false)]))]) ∧
    (∃ r, parse {} ["\x7b", "k", ":", "null", ",", "m", ":", "true", "-", "false", "\x7d"]
        (.ofEnvironment .empty) = (.ok (r, .default), .ofEnvironment .empty) ∧
      r.Delivers {} [.error .invalidBoolOp]) ∧
    ∃ r, parse {} ["\x7b", "k", ":", "0.5", "\x7d"] (.ofEnvironment .empty) =
      (.ok (r, .default), .ofEnvironment .empty) := by
  let t : Literal := ⟨"true", .bool true, rfl⟩
  let f : Literal := ⟨"false", .bool false, rfl⟩
  have hk : IsWord "k" := ⟨rfl, rfl, rfl⟩
  have hm : IsWord "m" := ⟨rfl, rfl, rfl⟩
  let nothing : Field := ⟨"k", .leaf ⟨"null", .null, rfl⟩, ["null"], hk, rfl, .leaf _, by
    rintro _ ⟨⟩
    decide⟩
  let both : Field := ⟨"k", .between .and rfl (.leaf t) (.leaf f),
    ["true", "&&", "(", "false", ")"], hk, rfl,
    .between rfl (by decide) (.leaf t) (.group (.leaf f)), by rintro _ ⟨⟩⟩
  let difference : Field := ⟨"m", .between .sub rfl (.leaf t) (.leaf f), ["true", "-", "false"], hm,
    rfl, .between rfl (by decide) (.leaf t) (.leaf f), by rintro _ ⟨⟩⟩
  refine ⟨?_, ?_, ?_⟩
  · let value (f : Field) : Value := if f.tokens.length = 1 then .null else .bool false
    have hnull : Json.Exact (fun _ => True) Json.maxDepth .null := .null
    have hfalse : Json.Exact (fun _ => True) Json.maxDepth (.bool false) := .bool false
    have hvalue : ∀ f ∈ [nothing, both], f.items = [.ok (value f)] ∧
        Value.read (value f).toJsonText = .ok (value f) :=
      List.forall_mem_cons.mpr ⟨⟨rfl, hnull.value_read⟩,
        List.forall_mem_cons.mpr ⟨⟨rfl, hfalse.value_read⟩, List.forall_mem_nil _⟩⟩
    obtain ⟨r, hr, hd, -⟩ :=
      (parse_line_fields {} [nothing, both] (.ofEnvironment .empty)).2.2.1 value hvalue
    have hfields : Sorted.ofList [("k", Json.null), ("k", .bool false)] = [("k", .bool false)] := by
      simp [Sorted.ofList, Sorted.merge, Sorted.insert]
    exact ⟨r, hr, hfields ▸ hd⟩
  · have hbefore : ∀ g ∈ [nothing], ∃ vs, collected g.items = .ok vs :=
      List.forall_mem_cons.mpr ⟨⟨_, rfl⟩, List.forall_mem_nil _⟩
    exact (parse_line_fields {} [nothing, difference] (.ofEnvironment .empty)).2.2.2
      [nothing] difference [] _ rfl hbefore rfl
  · let half : Float := (Number.ofDecimal? false 5 (-1)).getD 0
    let fraction : Field := ⟨"k", .leaf ⟨"0.5", .json (.number (.float half)), rfl⟩, ["0.5"], hk,
      rfl, .leaf _, by
        rintro _ ⟨⟩
        decide⟩
    exact (parse_line_fields {} [fraction] (.ofEnvironment .empty)).2.1

end Record

end Rill
