import Rill.Line.Stage
import Rill.Proofs.Alike
import Rill.Proofs.Closure.Parameter

/-!
# Choices that are made at once and choices that wait

A choice whose condition is known is made while the line is read, by the value of the condition
(`Operand.ternary_of_known`). One whose condition is a closure parameter is made when its stream is,
by the first value of the parameter's stream (`evaluates_ternary_word`), which for a list is not the
list (`Value.first`). The two take the same side unless the list starts with a value that counts as
false (`Value.isTruthy_first_iff`), and then the stages that consist of the choice cannot be told
apart (`ternary_known_waiting`), as long as the side taken is no command and takes no input.
-/

namespace Rill

/-! ## What decides -/

/-- The first value of a value's stream; nothing counts as `null`. -/
def Value.first : Value → Value
  | .json (.list []) => .null
  | .json (.list (j :: _)) => .json j
  | v => v

theorem Value.first_of_kind_ne_list {v : Value} (h : v.kind ≠ .list) : v.first = v := by
  unfold first
  split
  · cases h rfl
  · cases h rfl
  · rfl

/-- A value and its first value count the same unless it is a list and the first of its items counts
as false. -/
theorem Value.isTruthy_first_iff (v : Value) :
    v.first.isTruthy = v.isTruthy ↔
      ∀ j js, v = .json (.list (j :: js)) → (Value.json j).isTruthy = true := by
  unfold first
  split
  · exact ⟨nofun, fun _ => rfl⟩
  · rename_i j js
    constructor
    · intro h _ _ e
      cases e
      exact h
    · exact fun h => h j js rfl
  · rename_i h
    exact ⟨fun _ j js e => absurd e (h j js), fun _ => rfl⟩

variable {context : Context} {scope : Scope} {w w' : World} {word : String} {v : Value}
  {condition : Operand} {onTrue onFalse : List Operand}

theorem Operand.ternary_of_known (h : condition.ready? scope = some (.known v)) :
    ternary scope condition onTrue onFalse =
      if v.isTruthy then if onTrue.isEmpty then [.value v] else onTrue else onFalse := by
  simp only [ternary, h]

theorem Scope.isVarPath_of_resolve? {slots : Slots} (h : scope.resolve? slots word = some v) :
    scope.isVarPath word = true := by
  rw [isVarPath_eq_isSome slots, h]
  rfl

theorem Operand.ternary_of_parameter (h : scope.isVarPath word = true) :
    ternary scope (.word word) onTrue onFalse =
      [.deferred (.ternary (.word word) onTrue onFalse)] := by
  simp only [ternary, ready?, h, if_true]

theorem pulls_ofValue_first (context : Context) (v : Value) (w : World) :
    ∃ item s, Pulls context (.ofValue v) w item s w ∧ item.getD (.ok .null) = .ok v.first := by
  obtain ⟨s, h⟩ := (Delivers.ofValue v).head w
  refine ⟨_, s, h, ?_⟩
  unfold valueItems Value.first
  split
  · rename_i js
    cases js with
    | nil => rfl
    | cons j js => rfl
  · rename_i h
    split
    · cases h [] rfl
    · cases h _ rfl
    · rfl

/-- A parameter decides by its first value. -/
theorem evaluates_ternary_word (context : Context) (onTrue onFalse : List Operand)
    (hv : scope.resolve? w.slots word = some v) :
    Evaluates context scope (.ternary (.word word) onTrue onFalse) w
      (chosen scope onTrue onFalse (.ok v.first)) w := by
  obtain ⟨item, s, h, e⟩ := pulls_ofValue_first context v w
  rw [← e]
  exact evaluates_ternary ((opens_word hv).mpr ⟨rfl, rfl⟩) h

theorem evaluates_ternary_false (hv : scope.resolve? w.slots word = some v)
    (h : v.first.isTruthy = false) :
    Evaluates context scope (.ternary (.word word) onTrue onFalse) w
      (.ok (.stream (.sequence scope onFalse))) w := by
  have hlate := evaluates_ternary_word context onTrue onFalse hv
  rwa [chosen, if_neg (Bool.eq_false_iff.mp h)] at hlate

theorem evaluates_ternary_true (hv : scope.resolve? w.slots word = some v)
    (h : v.first.isTruthy = true) (ht : onTrue ≠ []) :
    Evaluates context scope (.ternary (.word word) onTrue onFalse) w
      (.ok (.stream (.sequence scope onTrue))) w := by
  have hlate := evaluates_ternary_word context onTrue onFalse hv
  rwa [chosen, if_pos h, if_neg (by simpa using ht)] at hlate

/-- Without operands for the true case a value that is no list is what the choice comes to. -/
theorem evaluates_ternary_whole (hv : scope.resolve? w.slots word = some v)
    (h : v.isTruthy = true) (ht : onTrue = []) (hk : v.kind ≠ .list) :
    Evaluates context scope (.ternary (.word word) onTrue onFalse) w (.ok (.value v)) w := by
  have hlate := evaluates_ternary_word context onTrue onFalse hv
  rw [Value.first_of_kind_ne_list hk] at hlate
  rwa [chosen, if_pos h, if_pos (by simpa using ht)] at hlate

/-! ## Stages that consist of a choice -/

/-- The operands run a command or a program. -/
def Stage.Commands (context : Context) (scope : Scope) : List Operand → Prop
  | .word word :: _ =>
    scope.isVarPath word = false ∧
      (context.builtins = true ∧ (Builtin.ofName? word).isSome = true ∨
        (Files.resolve? word context.searchPath).isSome = true)
  | _ => False

/-- The operands of a stage are a sequence unless they are a reference alone, which takes the
input, or a command. -/
theorem Stage.expression_of_not_commands {xs : List Operand} (h : ¬ Commands context scope xs) :
    (∃ name, xs = [.streamRef name] ∧ expression context scope xs = .reference scope name) ∨
      expression context scope xs = .sequence scope xs := by
  match xs with
  | [] | .value _ :: _ | .stream _ :: _ | .deferred _ :: _ | .streamRef _ :: _ :: _ =>
    exact .inr rfl
  | [.streamRef name] => exact .inl ⟨name, rfl, rfl⟩
  | .word word :: args =>
    refine .inr ?_
    unfold expression
    simp only
    split
    · rfl
    · rename_i hword
      have hno : ¬ _ := fun hor => h ⟨Bool.eq_false_iff.mpr hword, hor⟩
      split
      · rename_i hname
        split at hname
        · rename_i hb
          exact absurd (.inl ⟨hb, Option.isSome_of_eq_some hname⟩) hno
        · cases hname
      · split
        · rename_i hpath
          exact absurd (.inr (Option.isSome_of_eq_some hpath)) hno
        · rfl

/-- A stage that is no command gives its operands one after the other, if a reference alone has
nothing to take. -/
theorem matches_expression {xs : List Operand} {input : Stream}
    (h : ¬ Stage.Commands context scope xs)
    (hi : input = .empty ∨ ∀ name, xs ≠ [.streamRef name]) :
    Matches (Alike context) (FirstPulls context (Stage.expression context scope xs) input w)
      (Pulls context (.concat scope xs .empty) w) := by
  obtain ⟨name, rfl, e⟩ | e := Stage.expression_of_not_commands h
  · have hinput : input = .empty := hi.resolve_right fun hx => hx name rfl
    rw [e, hinput]
    refine ⟨fun item s w' ⟨s₀, w₀, m, p⟩ => ?_, fun item t w' p => ?_⟩
    · obtain ⟨t, p, ht⟩ := (((Alike.refl s₀).concat_nil scope).pulls w₀).1 item s w' p
      exact ⟨t, pulls_concat_cons.mpr ⟨s₀, w₀, opens_streamRef.mpr m, p⟩, ht⟩
    · obtain ⟨s₀, w₀, o, p⟩ := pulls_concat_cons.mp p
      obtain ⟨s, p, ht⟩ := (((Alike.refl s₀).concat_nil scope).pulls w₀).2 item t w' p
      exact ⟨s, ⟨s₀, w₀, opens_streamRef.mp o, p⟩, ht⟩
  · rw [e, firstPulls_sequence]
    exact .refl .refl _

/-- A stage that waits gives what it would have given at once. -/
theorem alikeFrom_waiting {xs : List Operand} {d : Deferred} {input : Stream}
    (h : Evaluates context scope d w (.ok (.stream (.sequence scope xs))) w)
    (hx : ¬ Stage.Commands context scope xs)
    (hi : input = .empty ∨ ∀ name, xs ≠ [.streamRef name]) :
    AlikeFrom context (Stage.expression context scope xs) (.sequence scope [.deferred d]) input
      w := by
  have hopens : Opens context scope (.stream (.sequence scope xs)) w (.concat scope xs .empty) w :=
    opens_stream.mpr (makes_sequence.mpr ⟨rfl, rfl⟩)
  have hconcat : Alike context (.concat scope xs .empty)
      (.concat scope [] (.concat scope xs .empty)) := (Alike.refl _).concat_nil scope
  unfold AlikeFrom
  rw [firstPulls_operand (opens_deferred h hopens)]
  exact matches_trans (matches_expression hx hi) (hconcat.pulls w)

/-- A condition that is its own first value is what the choice comes to, at once and later. -/
theorem alikeFrom_coalesced {d : Deferred} {input : Stream}
    (h : Evaluates context scope d w (.ok (.value v)) w) :
    AlikeFrom context (Stage.expression context scope [.value v]) (.sequence scope [.deferred d])
      input w := by
  have hopens : Opens context scope (.value v) w (.ofValue v) w := opens_value.mpr ⟨rfl, rfl⟩
  show Matches _ (FirstPulls context (.sequence scope [.value v]) input w) _
  rw [firstPulls_operand hopens, firstPulls_operand (opens_deferred h hopens)]
  exact .refl .refl _

/-- A stage that consists of a choice. -/
def Stage.choice (scope : Scope) (condition : Operand) (onTrue onFalse : List Operand) : Stage :=
  { scope, operands := Operand.ternary scope condition onTrue onFalse }

/-- A choice is made at once by the value of its condition, and later by the first value of it: the
same side is taken unless that is a list whose first item counts as false. A stage that consists of
the choice then gives the same stream, unless the side that is taken is a command or takes the
input, or a list is what the choice comes to. -/
theorem ternary_known_waiting (hc : condition.ready? scope = some (.known v))
    (hv : scope.resolve? w.slots word = some v) (onTrue onFalse : List Operand) :
    Operand.ternary scope condition onTrue onFalse =
      (if v.isTruthy then if onTrue.isEmpty then [.value v] else onTrue else onFalse) ∧
    (∃ d, Operand.ternary scope (.word word) onTrue onFalse = [.deferred d] ∧
      (v.first.isTruthy = false →
        Evaluates context scope d w (.ok (.stream (.sequence scope onFalse))) w) ∧
      (v.first.isTruthy = true → onTrue ≠ [] →
        Evaluates context scope d w (.ok (.stream (.sequence scope onTrue))) w) ∧
      (v.isTruthy = true → onTrue = [] → v.kind ≠ .list →
        Evaluates context scope d w (.ok (.value v)) w)) ∧
    (v.first.isTruthy = v.isTruthy ↔
      ∀ j js, v = .json (.list (j :: js)) → (Value.json j).isTruthy = true) ∧
    (v.first.isTruthy = v.isTruthy → (v.isTruthy = true → onTrue = [] → v.kind ≠ .list) →
      ¬ Stage.Commands context scope (Operand.ternary scope condition onTrue onFalse) →
      ∀ input, (input = .empty ∨
          ∀ name, Operand.ternary scope condition onTrue onFalse ≠ [.streamRef name]) →
        AlikeFrom context ((Stage.choice scope condition onTrue onFalse).toFactory context)
          ((Stage.choice scope (.word word) onTrue onFalse).toFactory context) input w) := by
  have hword : Operand.ternary scope (.word word) onTrue onFalse =
      [.deferred (.ternary (.word word) onTrue onFalse)] :=
    Operand.ternary_of_parameter (Scope.isVarPath_of_resolve? hv)
  have hlate : (Stage.choice scope (.word word) onTrue onFalse).toFactory context =
      .sequence scope [.deferred (.ternary (.word word) onTrue onFalse)] := by
    rw [Stage.choice, hword]
    rfl
  refine ⟨Operand.ternary_of_known hc, ⟨_, hword, evaluates_ternary_false hv,
    evaluates_ternary_true hv, evaluates_ternary_whole hv⟩, Value.isTruthy_first_iff v, ?_⟩
  intro hfirst hlist hcommand input hinput
  rw [hlate]
  show AlikeFrom context
    (Stage.expression context scope (Operand.ternary scope condition onTrue onFalse)) _ input w
  rw [Operand.ternary_of_known hc] at hcommand hinput ⊢
  by_cases h : v.isTruthy = true
  · simp only [if_pos h] at hcommand hinput ⊢
    by_cases ht : onTrue = []
    · simp only [ht, List.isEmpty_nil, if_true]
      exact alikeFrom_coalesced (evaluates_ternary_whole hv h rfl (hlist h ht))
    · simp only [if_neg (mt List.isEmpty_iff.mp ht)] at hcommand hinput ⊢
      exact alikeFrom_waiting (evaluates_ternary_true hv (hfirst.trans h) ht) hcommand hinput
  · simp only [if_neg h] at hcommand hinput ⊢
    have hf : v.first.isTruthy = false := hfirst.trans (Bool.eq_false_iff.mpr h)
    exact alikeFrom_waiting (evaluates_ternary_false hv hf) hcommand hinput

/-! ## Where the two can be told apart -/

/-- A stage of one operand starts with what the stream of the operand starts with. -/
theorem exists_firstPulls_operand {x : Operand} {s s' : Stream} {item : Option Item} {w₁ : World}
    (input : Stream) (o : Opens context scope x w s w₁) (p : Pulls context s w₁ item s' w') :
    ∃ u w', FirstPulls context (.sequence scope [x]) input w item u w' := by
  rw [firstPulls_operand o]
  exact ⟨_, w', pulls_concat_nil.mpr ⟨s', p, rfl⟩⟩

/-- A choice that comes to one operand later starts with what its stream starts with. -/
theorem exists_firstPulls_choice {x : Operand} {s s' : Stream} {item : Option Item} (input : Stream)
    (hv : scope.resolve? w.slots word = some v)
    (e : chosen scope onTrue onFalse (.ok v.first) = .ok (.stream (.sequence scope [x])))
    (o : Opens context scope x w s w) (p : Pulls context s w item s' w') :
    ∃ u w', FirstPulls context ((Stage.choice scope (.word word) onTrue onFalse).toFactory context)
      input w item u w' := by
  have hd := evaluates_ternary_word context onTrue onFalse hv
  rw [e] at hd
  have ho := opens_deferred hd (opens_stream.mpr (makes_sequence.mpr ⟨rfl, rfl⟩))
  have hx := pulls_concat_cons.mpr ⟨s, w, o, pulls_concat_nil.mpr ⟨s', p, rfl⟩⟩
  rw [Stage.choice, Operand.ternary_of_parameter (Scope.isVarPath_of_resolve? hv)]
  exact exists_firstPulls_operand input ho hx

/-- The scope of a closure with the parameter `n`, and a local stream `each` that says `seen` for
every input. -/
def Scope.ofParameter : Scope :=
  (Scope.empty.declare "n" ⟨0, 0⟩).override "each" (.each (.items [.ok (.string "seen")]))

/-- The parameter `n` holds `v`. -/
def World.ofParameter (v : Value) : World :=
  World.store { World.ofEnvironment .empty with slots := Slots.empty.alloc.2 } ⟨0, 0⟩ v

/-- A list that starts with `true` decides for a greeting in both ways. -/
theorem ternary_known_waiting_greeting :
    Scope.ofParameter.resolve? (World.ofParameter (.json (.list [.bool true, .bool false]))).slots
        "n" = some (.json (.list [.bool true, .bool false])) ∧
    AlikeFrom {}
      (.sequence .ofParameter [.value (.string "hello"), .word "n"])
      (.sequence .ofParameter
        [.deferred (.ternary (.word "n") [.value (.string "hello"), .word "n"] [])])
      (.once .null) (.ofParameter (.json (.list [.bool true, .bool false]))) := by
  obtain ⟨-, -, -, h⟩ := @ternary_known_waiting {} .ofParameter
    (.ofParameter (.json (.list [.bool true, .bool false]))) "n" _
    (.value (.json (.list [.bool true, .bool false]))) rfl rfl
    [.value (.string "hello"), .word "n"] []
  exact ⟨rfl, h rfl nofun nofun _ (.inr nofun)⟩

/-- A list of `false` decides otherwise at once than later; and where both take the same side, a
command is run only at once, and only at once does a reference alone take the input. -/
theorem ternary_known_waiting_differ :
    (Operand.ternary .ofParameter (.value (.json (.list [.bool false])))
        [.value (.string "yes")] [.value (.string "no")] = [.value (.string "yes")] ∧
      Evaluates {} .ofParameter
        (.ternary (.word "n") [.value (.string "yes")] [.value (.string "no")])
        (.ofParameter (.json (.list [.bool false])))
        (.ok (.stream (.sequence .ofParameter [.value (.string "no")])))
        (.ofParameter (.json (.list [.bool false]))) ∧
      ¬ AlikeFrom {}
        ((Stage.choice .ofParameter (.value (.json (.list [.bool false])))
          [.value (.string "yes")] [.value (.string "no")]).toFactory {})
        ((Stage.choice .ofParameter (.word "n")
          [.value (.string "yes")] [.value (.string "no")]).toFactory {})
        .empty (.ofParameter (.json (.list [.bool false])))) ∧
    ¬ AlikeFrom {}
      ((Stage.choice .ofParameter (.value (.bool true)) [.word "echo"] []).toFactory {})
      ((Stage.choice .ofParameter (.word "n") [.word "echo"] []).toFactory {})
      .empty (.ofParameter (.bool true)) ∧
    ¬ AlikeFrom {}
      ((Stage.choice .ofParameter (.value (.bool true)) [.streamRef "each"] []).toFactory {})
      ((Stage.choice .ofParameter (.word "n") [.streamRef "each"] []).toFactory {})
      (.once .null) (.ofParameter (.bool true)) := by
  have hpull (v : Value) (w : World) : Pulls {} (.once v) w (some (.ok v)) .empty w :=
    pulls_items_cons.mpr ⟨⟨rfl, rfl⟩, rfl⟩
  refine ⟨⟨rfl, evaluates_ternary_false rfl rfl, ?_⟩, ?_, ?_⟩
  · refine not_alikeFrom (x := some (.ok (.string "yes"))) (y := some (.ok (.string "no"))) ?_ ?_
      (by simp [Value.string])
    · exact exists_firstPulls_operand .empty (opens_value.mpr ⟨rfl, rfl⟩) (hpull _ _)
    · exact exists_firstPulls_choice .empty rfl rfl (opens_value.mpr ⟨rfl, rfl⟩) (hpull _ _)
  · refine not_alikeFrom (x := some (.ok (.json (.object []))))
      (y := some (.ok (.string "echo"))) ?_ ?_ nofun
    · exact ⟨_, _, _, _, makes_iff.mpr ⟨0, fun _ _ => rfl⟩, hpull _ _⟩
    · exact exists_firstPulls_choice .empty rfl rfl (opens_iff.mpr ⟨0, fun _ _ => rfl⟩) (hpull _ _)
  · have hseen (input : Stream) (w : World) : Makes {} (.reference .ofParameter "each") input w
        (.flatMap (.each (.items [.ok (.string "seen")])) input .empty) w :=
      makes_iff.mpr (makes_each.mpr ⟨rfl, rfl⟩)
    refine not_alikeFrom (x := some (.ok (.string "seen"))) (y := none) ?_ ?_ nofun
    · refine ⟨_, .ofParameter (.bool true), _, _, hseen _ _, pulls_flatMap.mpr (.value pulls_empty
        (hpull _ _) ?_ (pulls_flatMap.mpr (.front (hpull _ _))))⟩
      exact transforms_each.mpr (makes_items.mpr ⟨rfl, rfl⟩)
    · exact exists_firstPulls_choice _ rfl rfl (opens_streamRef.mpr (hseen _ _))
        (pulls_flatMap.mpr (.done pulls_empty pulls_empty))

end Rill
