import Rill.Proofs.Choice
import Rill.Proofs.Line.Record
import Rill.Proofs.Record.Grammar

/-!
# Records that wait

A record with a parameter or a stream in it is made when it is evaluated: the values of its operands
are collected one operand after the other (`gathers_cons`), and the first error ends it
(`gathers_error`). The values of an operand are written as a list unless there is exactly one, so a
parameter that holds a list of one item is written as that item (`build_parameter`).
-/

namespace Rill

open Run (Ends ends_bind ends_pure)
open Eval (calls calls_le)

variable {context : Context} {scope : Scope} {w w₁ w' : World}

/-! ## Collecting -/

/-- The values of some elements, up to the first error. -/
def collected : List Item → Except Error (List Value)
  | [] => .ok []
  | .error e :: _ => .error e
  | .ok v :: rest => (collected rest).map (v :: ·)

/-- The values of `x` are collected, or there is an error among them. -/
def Collects (context : Context) (scope : Scope) (x : Operand) (w : World)
    (r : Except Error (List Value)) (w' : World) : Prop :=
  Ends (fun n => (calls context n).values n scope x) w r w'

/-- One round of the loop more than the calls have fuel changes nothing. -/
theorem ends_collectFrom {vs : List Value} {s : Stream} {r : Except Error (List Value)} :
    Ends (fun n => (calls context n).collectFrom n vs s) w r w' ↔
      Ends (fun n => (calls context n).collectFrom (n + 1) vs s) w r w' :=
  Run.ends_between
    (fun n => Calls.collectFrom_le (calls_le context (Nat.le_refl n)) n.le_succ vs s)
    fun n => Calls.collectFrom_le (calls_le context n.le_succ) (Nat.le_refl _) vs s

/-- The values that are left of a stream are collected, or there is an error among them. -/
def CollectsFrom (context : Context) (s : Stream) (w : World) (r : Except Error (List Value))
    (w' : World) : Prop :=
  ∀ vs, Ends (fun n => (calls context n).collectFrom n vs s) w (r.map (vs.reverse ++ ·)) w'

section

variable {s s' : Stream}

theorem collectsFrom_end (h : Pulls context s w none s' w') :
    CollectsFrom context s w (.ok []) w' := by
  intro vs
  refine ends_collectFrom.mpr (ends_pull.mpr ⟨_, _, _, h, ends_pure.mpr ⟨?_, rfl⟩⟩)
  rw [Except.map, List.append_nil]

theorem collectsFrom_error {e : Error} (h : Pulls context s w (some (.error e)) s' w') :
    CollectsFrom context s w (.error e) w' :=
  fun _ => ends_collectFrom.mpr (ends_pull.mpr ⟨_, _, _, h, ends_pure.mpr ⟨rfl, rfl⟩⟩)

theorem collectsFrom_value {v : Value} {r : Except Error (List Value)}
    (h : Pulls context s w (some (.ok v)) s' w₁) (k : CollectsFrom context s' w₁ r w') :
    CollectsFrom context s w (r.map (v :: ·)) w' := by
  intro vs
  have hmap : (r.map (v :: ·)).map (vs.reverse ++ ·) = r.map ((v :: vs).reverse ++ ·) := by
    cases r with
    | error e => rfl
    | ok us => simp [Except.map]
  rw [hmap]
  exact ends_collectFrom.mpr (ends_pull.mpr ⟨_, _, _, h, k (v :: vs)⟩)

theorem collects_of_from {x : Operand} {r : Except Error (List Value)}
    (h : Opens context scope x w s w₁) (k : CollectsFrom context s w₁ r w') :
    Collects context scope x w r w' := by
  refine ends_toStream.mpr ⟨s, w₁, h, ?_⟩
  have hfrom := k []
  cases r <;> exact hfrom

end

theorem Delivers.collects {s : Stream} {xs : List Item} (h : Delivers context s xs) :
    CollectsFrom context s w (collected xs) w := by
  induction h with
  | nil h => exact collectsFrom_end (h w)
  | @cons _ _ x _ h _ ih =>
    match x with
    | .error e => exact collectsFrom_error (h w)
    | .ok v => exact collectsFrom_value (h w) ih

theorem collects_of_opens {x : Operand} {s : Stream} {xs : List Item}
    (h : Opens context scope x w s w') (k : Delivers context s xs) :
    Collects context scope x w (collected xs) w' := collects_of_from h k.collects

namespace Record

/-- What a part contributes to the text. -/
inductive Contributes (context : Context) (scope : Scope) :
    RecordPart → World → Except Error String → World → Prop
  | mark (m : String) (w : World) : Contributes context scope (.mark m) w (.ok m) w
  | key (k : String) (w : World) :
    Contributes context scope (.key k) w (.ok (Json.string k).render) w
  | value (v : Value) (w : World) : Contributes context scope (.value v) w (.ok v.toJsonText) w
  | values {x : Operand} {vs : List Value} {w w' : World}
    (h : Collects context scope x w (.ok vs) w') :
    Contributes context scope (.values x) w (.ok (joined vs).render) w'
  | failing {x : Operand} {e : Error} {w w' : World}
    (h : Collects context scope x w (.error e) w') :
    Contributes context scope (.values x) w (.error e) w'

/-- What the parts contribute, one after the other. -/
def Gathers (context : Context) (scope : Scope) (ps : List RecordPart) (w : World)
    (r : Except Error (List String)) (w' : World) : Prop :=
  Ends (fun n => (calls context n).recordContents n scope ps) w r w'

variable {part : RecordPart} {ps : List RecordPart}

theorem gathers_nil : Gathers context scope [] w (.ok []) w := ends_pure.mpr ⟨rfl, rfl⟩

theorem ends_values {α : Type} {x : Operand} {f : Nat → Except Error (List Value) → Run α} {a : α} :
    Ends (fun n => (calls context n).values n scope x >>= f n) w a w' ↔
      ∃ vs w₁, Collects context scope x w vs w₁ ∧ Ends (fun n => f n vs) w₁ a w' :=
  ends_bind fun _ _ h => Calls.values_le (calls_le context h) h scope x

theorem ends_recordContents {α : Type} {f : Nat → Except Error (List String) → Run α} {a : α} :
    Ends (fun n => (calls context n).recordContents n scope ps >>= f n) w a w' ↔
      ∃ r w₁, Gathers context scope ps w r w₁ ∧ Ends (fun n => f n r) w₁ a w' :=
  ends_bind fun _ _ h => Calls.recordContents_le (calls_le context h) h scope ps

/-- A part without an error is followed by the others. -/
theorem gathers_cons {t : String} {r : Except Error (List String)}
    (h : Contributes context scope part w (.ok t) w₁) (k : Gathers context scope ps w₁ r w') :
    Gathers context scope (part :: ps) w (r.map (t :: ·)) w' := by
  cases h with
  | values h =>
    refine ends_values.mpr ⟨_, _, h, ends_recordContents.mpr ⟨_, _, k, ?_⟩⟩
    cases r <;> exact ends_pure.mpr ⟨rfl, rfl⟩
  | _ =>
    refine ends_recordContents.mpr ⟨_, _, k, ?_⟩
    cases r <;> exact ends_pure.mpr ⟨rfl, rfl⟩

/-- An error in a part ends the record. -/
theorem gathers_error {e : Error} (h : Contributes context scope part w (.error e) w') :
    Gathers context scope (part :: ps) w (.error e) w' := by
  cases h with
  | failing h => exact ends_values.mpr ⟨_, _, h, ends_pure.mpr ⟨rfl, rfl⟩⟩

/-- What is gathered is read as the record. -/
theorem evaluates_record (type : Option String) {operands : List Operand}
    {r : Except Error (List String)} (h : Gathers context scope (parts operands) w r w') :
    Evaluates context scope (.record type operands) w
      (r.bind fun contents => (ofText type (text contents)).map .value) w' := by
  refine ends_recordContents.mpr ⟨_, _, h, ?_⟩
  cases r <;> exact ends_pure.mpr ⟨rfl, rfl⟩

/-- A text is a key if a colon comes after it. -/
theorem parts_key {k : String} (hk : punctuation.contains k = false) (rest : List Operand) :
    parts (.word k :: .word ":" :: rest) = .key k :: .mark ":" :: parts rest := by
  have hcolon : punctuation.contains ":" = true := rfl
  have hfollows : colonFollows (.word ":" :: rest) = true := rfl
  simp only [parts, hk, hcolon, hfollows, Bool.false_eq_true, if_true, if_false]

/-- What fields with these texts contribute. -/
def contents (fields : List (String × String)) : List String :=
  [","].intercalate (fields.map fun f => [(Json.string f.1).render, ":", f.2])

/-- The text of fields is that of an object with these fields, in whatever order they are. -/
theorem text_contents (fields : List (String × Json)) :
    text (contents (fields.map fun f => (f.1, f.2.render))) = (Json.object fields).render := by
  have hfield (f : String × Json) :
      [(Json.string f.1).render, ":", f.2.render].flatMap String.toList =
        Json.keyed f.1 f.2.chars := by
    simp [Json.render, Json.keyed, Json.chars]
  have hnext (f : String × Json) :
      ([","] ++ [(Json.string f.1).render, ":", f.2.render]).flatMap String.toList =
        ',' :: Json.keyed f.1 f.2.chars := by
    rw [List.flatMap_append, hfield f]
    rfl
  have hjoin : (String.join (contents (fields.map fun f => (f.1, f.2.render)))).toList =
      Json.fieldChars fields := by
    rw [Json.fieldChars_eq, String.toList_join, contents, List.map_map]
    cases fields with
    | nil => rfl
    | cons f fields =>
      rw [List.map_cons, List.map_cons, Json.intercalate_cons, Json.intercalate_cons,
        List.flatMap_append]
      refine congrArg₂ (· ++ ·) (hfield f) ?_
      rw [List.flatMap_map, List.flatMap_map, List.flatMap_assoc]
      exact congrArg (fun k => fields.flatMap k) (funext hnext)
  exact text_of_fieldChars hjoin

end Record

/-! ## Parameters -/

namespace Json

/-- What a value that is collected is written as: the item of a list of one, and else itself. -/
def collapsed : Json → Json
  | .list [j] => j
  | j => j

/-- Only a list of one item is written as something else. -/
theorem collapsed_eq_self (j : Json) : j.collapsed = j ↔ ∀ item, j ≠ .list [item] := by
  constructor
  · rintro h item rfl
    have hsize := congrArg sizeOf h
    simp only [collapsed, Json.list.sizeOf_spec, List.cons.sizeOf_spec] at hsize
    omega
  · intro h
    unfold collapsed
    split
    · exact absurd rfl (h _)
    · rfl

variable {ok : String → Prop} {depth : Nat} {j : Json}

theorem Exact.find? {fields : List (String × Json)} (h : ∀ f ∈ fields, Exact ok depth f.2)
    {key : String} {k : Json} (hk : Sorted.find? key fields = some k) : Exact ok depth k := by
  induction fields with
  | nil => cases hk
  | cons f fields ih =>
    rw [Sorted.find?] at hk
    split at hk
    · obtain rfl := Option.some.inj hk
      exact h f List.mem_cons_self
    · exact ih (fun g hg => h g (List.mem_cons_of_mem _ hg)) hk

theorem Exact.child? {k : Json} {segment : String} (h : Exact ok depth j)
    (hk : j.child? segment = some k) : Exact ok depth k := by
  cases h with
  | list h =>
    obtain ⟨i, -, hi⟩ := Option.bind_eq_some_iff.mp hk
    exact (h k (List.mem_of_getElem? hi)).mono (Nat.le_succ _)
  | object _ _ h => exact (Exact.find? h hk).mono (Nat.le_succ _)
  | null => cases hk
  | bool => cases hk
  | int => cases hk
  | string => cases hk

/-- What a path leads to is as exact as the whole. -/
theorem Exact.project (h : Exact ok depth j) (path : List String) :
    Exact ok depth (j.project path) := by
  induction path generalizing j with
  | nil => exact h
  | cons segment path ih =>
    rw [Json.project]
    split
    · rename_i next hnext
      exact ih (h.child? hnext)
    · exact h

theorem Exact.collapsed (h : Exact ok depth j) : Exact ok depth j.collapsed := by
  unfold Json.collapsed
  split
  · cases h with
    | list h => exact (h _ List.mem_cons_self).mono (Nat.le_succ _)
  · exact h

end Json

namespace Record

/-- A parameter that holds JSON is written as the collapsed value. -/
theorem joined_collected (j : Json) :
    ∃ vs, collected (valueItems (.json j)) = .ok vs ∧ joined vs = j.collapsed := by
  have hone (v : Value) (h : valueItems v = [.ok v]) :
      ∃ vs, collected (valueItems v) = .ok vs ∧ joined vs = v.toJson := by
    rw [h]
    exact ⟨[v], rfl, rfl⟩
  cases j with
  | list items =>
    have hitems : collected (items.map fun j => .ok (.json j)) = .ok (items.map Value.json) := by
      induction items with
      | nil => rfl
      | cons item items ih =>
        rw [List.map_cons, collected, ih]
        rfl
    refine ⟨_, hitems, ?_⟩
    match items with
    | [] => rfl
    | [item] => rfl
    | item :: item' :: items =>
      simp only [List.map_cons, joined, Json.collapsed, Value.toJson, List.map_map]
      exact congrArg _ (congrArg _ (congrArg _ (List.map_id' items)))
  | null => exact hone _ rfl
  | bool b => exact hone _ rfl
  | number n => exact hone _ rfl
  | string s => exact hone _ rfl
  | object fields => exact hone _ rfl

/-- A record with a parameter for its field, or a path into one, waits, and then has for its field
what the path leads to, except that a list of one item is its item. -/
theorem build_parameter {k x : String} {j : Json} (hk : punctuation.contains k = false)
    (hx : punctuation.contains x = false)
    (hj : scope.get? w.slots (Scope.head x) = some (.json j))
    (he : Json.Exact (fun _ => True) 126 j) :
    ∃ d, build scope [.word k, .word ":", .word x] = .ok (.deferred d) ∧
      Evaluates context scope d w
        (.ok (.value (.json (.object
          [(k, (j.project ((segments x).drop 1)).collapsed)])))) w ∧
      ((j.project ((segments x).drop 1)).collapsed = j.project ((segments x).drop 1) ↔
        ∀ item, j.project ((segments x).drop 1) ≠ .list [item]) := by
  generalize hr : j.project ((segments x).drop 1) = r
  have hexact : Json.Exact (fun _ => True) 126 r := hr ▸ he.project _
  have hresolve : scope.resolve? w.slots x = some (.json r) := by
    rw [Scope.resolve?, hj, ← hr]
    rfl
  have hwaits : scope.isVarPath x = true := by
    rw [Scope.isVarPath_eq_isSome w.slots, hresolve]
    rfl
  have hbuild : build scope [.word k, .word ":", .word x] =
      .ok (.deferred (.record none [.word k, .word ":", .word x])) := by
    rw [build, if_neg]
    simp only [List.all_cons, isFixed, hwaits, Bool.not_true, Bool.false_and, Bool.and_false]
    decide
  have hparts : parts [.word k, .word ":", .word x] = [.key k, .mark ":", .values (.word x)] := by
    rw [parts_key hk, parts, hx]
    rfl
  -- the text is that of the object
  obtain ⟨vs, hvs, hjoined⟩ := joined_collected r
  have hcollects : Collects context scope (.word x) w (.ok vs) w :=
    hvs ▸ collects_of_opens ((opens_word hresolve).mpr ⟨rfl, rfl⟩) (.ofValue _)
  have hgathers : Gathers context scope (parts [.word k, .word ":", .word x]) w
      (.ok [(Json.string k).render, ":", r.collapsed.render]) w := by
    rw [hparts, ← hjoined]
    exact gathers_cons (.key k w) (gathers_cons (.mark ":" w)
      (gathers_cons (.values hcollects) gathers_nil))
  have htext : text [(Json.string k).render, ":", r.collapsed.render] =
      (Json.object [(k, r.collapsed)]).render := text_contents [(k, r.collapsed)]
  have hobject : Json.Exact (fun _ => True) Json.maxDepth (.object [(k, r.collapsed)]) :=
    .object (List.pairwise_singleton _ _) (fun _ _ => trivial) fun f hf => by
      obtain rfl := List.mem_singleton.mp hf
      exact hexact.collapsed
  have heval := evaluates_record none hgathers
  rw [Except.bind, htext, ofText_render hobject] at heval
  exact ⟨_, hbuild, heval, Json.collapsed_eq_self r⟩

/-- A list of one number is written as the number. -/
theorem build_parameter_one_item :
    (punctuation.contains "k" = false ∧ punctuation.contains "n" = false) ∧
    ∃ d, build .ofParameter [.word "k", .word ":", .word "n"] = .ok (.deferred d) ∧
      Evaluates {} .ofParameter d (.ofParameter (.json (.list [.number (.int 7)])))
        (.ok (.value (.json (.object [("k", .number (.int 7))]))))
        (.ofParameter (.json (.list [.number (.int 7)]))) := by
  have hexact : Json.Exact (fun _ => True) 126 (.list [.number (.int 7)]) :=
    .list fun j hj => by
      obtain rfl := List.mem_singleton.mp hj
      exact .int (by decide)
  obtain ⟨d, hbuild, heval, -⟩ := @build_parameter {} .ofParameter
    (.ofParameter (.json (.list [.number (.int 7)]))) "k" "n" _ rfl rfl rfl hexact
  exact ⟨⟨rfl, rfl⟩, d, hbuild, heval⟩

end Record

end Rill
