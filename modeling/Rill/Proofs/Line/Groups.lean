import Rill.Proofs.Delivers
import Rill.Proofs.Line.InTurn
import Rill.Proofs.Line.Lists

/-!
# Groups

Lines in parentheses, one after the other, are a line whose operands are the groups
(`parse_groups`). A group that is one value is that value as an operand, one that is several values
is a stream of them, and any other one is a stream that its factory makes (`Stage.toOperand`). As no
value of a text line is a list, the operand cannot be told apart from the stream of the line in any
of the three cases (`Stage.alike_toOperand`).

`read_groups` says that such a line has the streams of the lines one after the other.
-/

namespace Rill

variable {context : Context}

/-! ## What a group stands for -/

theorem valueItems_of_unlisted {v : Value} (h : v.Unlisted) : valueItems v = [.ok v] := by
  unfold valueItems
  split
  next js => exact absurd rfl h
  next => rfl

theorem Operand.delivers_value {scope : Scope} {v : Value} (h : v.Unlisted) :
    (Operand.value v).Delivers context scope [.ok v] :=
  ⟨_, fun _ => opens_value.mpr ⟨rfl, rfl⟩, valueItems_of_unlisted h ▸ .ofValue v⟩

/-- Values one after the other that are no lists deliver themselves. -/
theorem Factory.delivers_values {scope : Scope} (vs : List Value) (h : ∀ v ∈ vs, v.Unlisted) :
    Factory.Delivers context (.sequence scope (vs.map .value)) (vs.map .ok) := by
  have hall : List.Forall₂ (Operand.Delivers context scope) (vs.map .value)
      (vs.map fun v => [.ok v]) := by
    refine List.forall₂_map_left_iff.mpr (List.forall₂_map_right_iff.mpr ?_)
    exact List.forall₂_same.mpr fun v hv => Operand.delivers_value (h v hv)
  have hflat : vs.map .ok = (vs.map fun v => [(.ok v : Item)]).flatten := by
    rw [← List.flatMap_def, List.map_eq_flatMap]
  rw [hflat]
  exact .sequence scope hall

namespace Stage

/-- Operands of which the first is no word and no reference are an expression. -/
theorem expression_eq {scope : Scope} {xs : List Operand}
    (h : ∀ x ∈ xs.head?, (∃ v, x = .value v) ∨ ∃ f, x = .stream f) :
    expression context scope xs = .sequence scope xs := by
  match xs with
  | [] => rfl
  | x :: xs => obtain ⟨v, rfl⟩ | ⟨f, rfl⟩ := h x rfl <;> rfl

variable {s : Stage}

theorem toFactory_of_constants? {vs : List Value} (h : s.constants? = some vs) :
    s.toFactory context = .sequence s.scope (vs.map .value) := by
  obtain ⟨hfeed, hclosure, hoperands⟩ := of_constants? h
  have hvalues : expression context s.scope (vs.map .value) = .sequence s.scope (vs.map .value) :=
    expression_eq fun x hx => by
      obtain ⟨v, -, rfl⟩ := List.mem_map.mp (List.mem_of_head? hx)
      exact .inl ⟨v, rfl⟩
  simp only [toFactory, hfeed, hclosure, hoperands, hvalues, Option.getD_none]

/-- A group as an operand cannot be told apart from the stream of its stage. -/
theorem alike_toOperand (h : ∀ x ∈ s.operands, x.Unlisted) (scope : Scope) :
    Operand.Alike context scope (s.toOperand context) (.stream (s.toFactory context)) := by
  have hvalues {vs : List Value} (hvs : s.constants? = some vs) :
      (∀ v ∈ vs, v.Unlisted) ∧
        (Operand.stream (s.toFactory context)).Delivers context scope (vs.map .ok) := by
    obtain ⟨-, -, hoperands⟩ := of_constants? hvs
    have hunlisted (v : Value) (hv : v ∈ vs) : v.Unlisted := by
      refine h (.value v) ?_ v rfl
      rw [hoperands]
      exact List.mem_map_of_mem hv
    rw [toFactory_of_constants? hvs]
    obtain ⟨t, ht, hd⟩ := Factory.delivers_values vs hunlisted
    exact ⟨hunlisted, t, fun w => opens_stream.mpr (ht w), hd⟩
  unfold toOperand
  split
  next v hv =>
    obtain ⟨hunlisted, hd⟩ := hvalues hv
    exact (Operand.delivers_value (hunlisted v List.mem_cons_self)).alike hd
  next vs _ hvs =>
    obtain ⟨-, hd⟩ := hvalues hvs
    refine Operand.Delivers.alike ⟨.items (vs.map .ok), fun w => ?_, .items _⟩ hd
    exact opens_stream.mpr (makes_items.mpr ⟨rfl, rfl⟩)
  next => exact .refl _

theorem toOperand_cases (context : Context) (s : Stage) :
    (∃ v, s.toOperand context = .value v) ∨ ∃ f, s.toOperand context = .stream f := by
  unfold toOperand
  split
  · exact .inl ⟨_, rfl⟩
  · exact .inr ⟨_, rfl⟩
  · exact .inr ⟨_, rfl⟩

end Stage

/-- The operands of the stage that a text line comes to are no lists. -/
theorem Parse.Comes.unlisted {tokens : List String} {w : World} {body : Stage} {q : Parse}
    (h : Parse.Comes context tokens (.start w tokens) body q)
    (htokens : ∀ t ∈ tokens, Token.Unlisted t.toList) : ∀ x ∈ body.operands, x.Unlisted := by
  let I := Rill.unlisted context htokens
  have hall : Parse.KeepsAt I (fun _ => True) (Parse.all context tokens) (fun _ => True)
      (.start w tokens) :=
    Parse.keeps_all (fun _ ht => ht) _ fun _ _ _ _ _ _ => trivial
  have hline := hall.bind (fun _ q _ _ => Parse.keeps_foldAll (fun x => !x.isBracket) q)
    (.start (fun _ _ _ => trivial) tokens)
  rw [h.read] at hline
  refine (hline.1.stages body ?_).operands
  rw [h.stages]
  exact List.mem_singleton_self body

/-! ## Reading groups -/

/-- Parts of a line in parentheses. -/
def groups (parts : List (List String)) : List String :=
  parts.flatMap fun tokens => "(" :: (tokens ++ [")"])

theorem groups_cons (tokens : List String) (parts : List (List String)) :
    groups (tokens :: parts) = "(" :: (tokens ++ ")" :: groups parts) := by
  simp [groups]

/-- Groups are read one after the other, each as a line of its own, and become operands. -/
theorem all_groups {parts : List (List String)} {w w' : World} {fs : List Factory}
    (h : InTurn (ReadAs context) parts w fs w')
    (hparts : ∀ tokens ∈ parts, ∀ t ∈ tokens, Token.Unlisted t.toList) {s : Stage}
    (hscope : s.scope = .empty) (hc : s.closure = none) (taken : List Handle) :
    ∃ (bodies : List Stage) (mode : Option Mode) (taken' : List Handle),
      fs = bodies.map (Stage.toFactory context) ∧
      (∀ body ∈ bodies, ∀ x ∈ body.operands, x.Unlisted) ∧
      Parse.all context (groups parts) ⟨groups parts, [s], [], taken, w.slots, w.env⟩ =
        .ok () ⟨[],
          [{ s with
            operands := s.operands ++ bodies.map (Stage.toOperand context), mode := mode }],
          [], taken', w'.slots, w'.env⟩ := by
  induction h generalizing s taken with
  | nil w =>
    refine ⟨[], s.mode, taken, rfl, nofun, ?_⟩
    rw [List.map_nil, List.append_nil]
    rfl
  | @cons tokens f parts fs w w₁ w' h _ ih =>
    obtain ⟨htokens, hparts⟩ := List.forall_mem_cons.mp hparts
    obtain ⟨body, q, hcomes, rfl, rfl⟩ := h.comes
    obtain ⟨bodies, mode, taken', rfl, hunlisted, hall⟩ := ih hparts (s := { s with
      operands := s.operands ++ [body.toOperand context]
      mode := s.mode <|> body.mode }) hscope hc (taken ++ q.taken)
    refine ⟨body :: bodies, mode, taken', rfl,
      List.forall_mem_cons.mpr ⟨hcomes.unlisted htokens, hunlisted⟩, ?_⟩
    have hoperands : s.operands ++ (body :: bodies).map (Stage.toOperand context) =
        s.operands ++ [body.toOperand context] ++ bodies.map (Stage.toOperand context) :=
      List.append_cons ..
    rw [groups_cons, Parse.all_group hscope hc hcomes, hoperands]
    exact hall

/-- Groups are a line, and its operands are the groups. -/
theorem parse_groups {parts : List (List String)} {w w' : World} {fs : List Factory}
    (h : InTurn (ReadAs context) parts w fs w')
    (hparts : ∀ tokens ∈ parts, ∀ t ∈ tokens, Token.Unlisted t.toList) :
    ∃ (xs : List Operand) (mode : Mode),
      parse context (groups parts) w = (.ok (.sequence .empty xs, mode), w') ∧
      List.Forall₂ (Operand.Alike context .empty) xs (fs.map .stream) := by
  have hworld : w' = { w with slots := w'.slots, env := w'.env } := h.world fun h => h.world
  obtain ⟨bodies, mode, taken, rfl, hunlisted, hall⟩ :=
    all_groups h hparts (s := { scope := .empty }) rfl rfl []
  let xs := bodies.map (Stage.toOperand context)
  have hxs : Stage.expression context .empty xs = .sequence .empty xs :=
    Stage.expression_eq fun x hx => by
      obtain ⟨body, -, rfl⟩ := List.mem_map.mp (List.mem_of_head? hx)
      exact body.toOperand_cases context
  refine ⟨xs, mode.getD .default, ?_, ?_⟩
  · have hfinish : (do Parse.all context (groups parts); Parse.finish context :
        Parser (Factory × Mode)) (.start w (groups parts)) = _ := Parse.bind_ok hall
    rw [parse_of_ok (hfinish.trans rfl), ← hxs]
    exact congrArg _ hworld.symm
  · refine List.forall₂_map_left_iff.mpr (List.forall₂_map_right_iff.mpr ?_)
    refine List.forall₂_map_right_iff.mpr (List.forall₂_same.mpr fun body hbody => ?_)
    exact Stage.alike_toOperand (hunlisted body hbody) .empty

/-! ## Streams one after the other -/

/-- Used on nothing, `f` makes a stream, which is pulled before `rest`. -/
def StartPulls (context : Context) (f : Factory) (rest : Stream) (w : World) : PullEnding :=
  fun item s w' => ∃ s₀ w₁, Makes context f .empty w s₀ w₁ ∧
    Pulls context (.chain s₀ rest) w₁ item s w'

/-- What `run` makes of factories is what they make of nothing, one after the other. -/
structure InOrder (context : Context) (run : List Factory → Stream) : Prop where
  /-- Nothing is made of no factories. -/
  nil : ∀ w, ∃ s, Pulls context (run []) w none s w
  /-- The first factory is used first, and the others when its stream has ended. -/
  cons : ∀ f fs w, Matches (Alike context) (Pulls context (run (f :: fs)) w)
    (StartPulls context f (run fs) w)

theorem inOrder_concat (context : Context) :
    InOrder context fun fs => .concat .empty (fs.map .stream) .empty where
  nil _ := ⟨_, pulls_concat_nil.mpr ⟨_, pulls_empty, rfl⟩⟩
  cons f fs w := by
    have hcons : Pulls context (.concat .empty ((f :: fs).map .stream) .empty) w =
        fun item s w' => ∃ s₀ w₀, Makes context f .empty w s₀ w₀ ∧
          Pulls context (.concat .empty (fs.map .stream) s₀) w₀ item s w' := by
      funext item s w'
      simp only [List.map_cons, pulls_concat_cons, opens_stream]
    rw [hcons]
    exact matches_made (Fronts.alike (fronts_concat .empty (fs.map .stream)))

namespace InOrder

variable {run : List Factory → Stream}

/-- One factory makes what it makes alone. -/
theorem singleton (h : InOrder context run) (f : Factory) (w : World) :
    Matches (Alike context) (Pulls context (run [f]) w) (FirstPulls context f .empty w) := by
  have halone : Matches (Alike context) (StartPulls context f (run []) w)
      (FirstPulls context f .empty w) := matches_made fun s => (Alike.chain_ended h.nil s).symm
  exact matches_trans (h.cons f [] w) halone

/-- Factories that deliver lists deliver them one after the other. -/
theorem alike_items (h : InOrder context run) {fs : List Factory} {xss : List (List Item)}
    (hfs : List.Forall₂ (Factory.Delivers context) fs xss) :
    Alike context (run fs) (.items xss.flatten) := by
  induction hfs with
  | nil => exact (Alike.chain_empty _).trans (Alike.chain_ended h.nil _).symm
  | @cons f xs fs xss hf _ ih =>
    obtain ⟨s, hmakes, hs⟩ := hf
    have hstart (w : World) : StartPulls context f (run fs) w =
        Pulls context (.chain s (run fs)) w := by
      funext item u w'
      refine propext ⟨?_, fun k => ⟨s, w, hmakes w, k⟩⟩
      rintro ⟨s₀, w₁, m, k⟩
      obtain ⟨rfl, rfl⟩ := Run.Ends.det m (hmakes w)
      exact k
    have hfirst : Alike context (run (f :: fs)) (.chain s (run fs)) :=
      .of_pulls fun w => hstart w ▸ h.cons f fs w
    have hboth : Delivers context (.chain (.items xs) (.items xss.flatten)) (xs ++ xss.flatten) :=
      .chain (.items xs) (.items _)
    exact hfirst.trans ((Alike.chain (hs.alike (.items xs)) ih).trans (hboth.alike (.items _)))

end InOrder

/-! ## Lines -/

/-- Text lines in parentheses are a line. It is read group by group, and its stream is that of the
lines one after the other, as they are by themselves. One line in parentheses gives what it gives
without them. -/
theorem read_groups {lines : List String}
    (hlines : ∀ line ∈ lines, Readable context (Token.texts line)) (w : World) :
    ∃ fs f mode w', InTurn (ReadAs context) (lines.map Token.texts) w fs w' ∧
      parse context (groups (lines.map Token.texts)) w = (.ok (f, mode), w') ∧
      (∃ run s, InOrder context run ∧ (∀ input w, Makes context f input w s w) ∧
        Alike context s (run fs)) ∧
      ∀ g, fs = [g] → ∀ w, AlikeFrom context f g .empty w := by
  have hread (tokens : List String) (h : tokens ∈ lines.map Token.texts) (w : World) :
      ∃ f w', ReadAs context tokens w f w' := by
    obtain ⟨line, hline, rfl⟩ := List.mem_map.mp h
    exact (hlines line hline).readAs w
  have htokens (tokens : List String) (h : tokens ∈ lines.map Token.texts) (t : String)
      (ht : t ∈ tokens) : Token.Unlisted t.toList := by
    obtain ⟨line, -, rfl⟩ := List.mem_map.mp h
    exact Token.unlisted_of_mem_texts ht
  obtain ⟨fs, w', hturn⟩ := exists_inTurn hread w
  obtain ⟨xs, mode, hparse, hxs⟩ := parse_groups hturn htokens
  have horder := inOrder_concat context
  have halike : Alike context (.concat .empty xs .empty)
      (.concat .empty (fs.map .stream) .empty) := .concat hxs (.refl _)
  refine ⟨fs, .sequence .empty xs, mode, w', hturn, hparse,
    ⟨_, _, horder, fun _ _ => makes_sequence.mpr ⟨rfl, rfl⟩, halike⟩, ?_⟩
  rintro g rfl w
  unfold AlikeFrom
  rw [firstPulls_sequence]
  exact matches_trans (halike.pulls w) (horder.singleton g w)

/-- `(true) (null false)` gives three values. -/
theorem read_groups_values :
    let w : World := .ofEnvironment .empty
    ∃ f mode, parse {} ["(", "true", ")", "(", "null", "false", ")"] w = (.ok (f, mode), w) ∧
      ∃ s, Makes {} f .empty w s w ∧
        Alike {} s (.items [.ok (.bool true), .ok .null, .ok (.bool false)]) := by
  intro w
  let first := Factory.sequence .empty [.value (.bool true)]
  let second := Factory.sequence .empty [.value .null, .value (.bool false)]
  have htexts : Token.texts "true" = ["true"] ∧ Token.texts "null false" = ["null", "false"] := by
    decide
  have hfirst : ReadAs {} (Token.texts "true") w first w := by
    rw [htexts.1]
    exact ⟨.default, rfl⟩
  have hsecond : ReadAs {} (Token.texts "null false") w second w := by
    rw [htexts.2]
    exact ⟨.default, rfl⟩
  have hlines : ∀ line ∈ ["true", "null false"], Readable {} (Token.texts line) := by
    simp only [List.forall_mem_cons, List.not_mem_nil, false_imp_iff, implies_true, and_true]
    exact ⟨⟨_, _, _, hfirst⟩, _, _, _, hsecond⟩
  obtain ⟨fs, f, mode, w', hturn, hparse, ⟨run, s, horder, hmakes, halike⟩, -⟩ :=
    read_groups hlines w
  obtain ⟨rfl, rfl⟩ := hturn.det (fun h k => h.det k) (.cons hfirst (.cons hsecond (.nil w)))
  have hdelivers : List.Forall₂ (Factory.Delivers {}) [first, second]
      [[.ok (.bool true)], [.ok .null, .ok (.bool false)]] :=
    .cons (Factory.delivers_values [.bool true] (by decide))
      (.cons (Factory.delivers_values [.null, .bool false] (by decide)) .nil)
  rw [List.map_cons, List.map_singleton, htexts.1, htexts.2] at hparse
  exact ⟨f, mode, hparse, s, hmakes _ _, halike.trans (horder.alike_items hdelivers)⟩

end Rill
