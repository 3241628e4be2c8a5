import Rill.Proofs.Ends

/-!
# What one step can do

One equivalence for each stream that is pulled (`pulls_items_cons`, `pulls_concat`, `pulls_flatMap`,
`pulls_bound`, `pulls_zip`), each factory that is used (`makes_compose`, `makes_unary`, …) and each
operand whose stream is made (`opens_value`, `opens_stream`, …). Where a step has several outcomes
they are the cases of an inductive predicate (`ConcatPull`, `FlatMapPull`, `ZipPull`). Of the
computations that wait for a parameter it says how they end when their parts do
(`evaluates_unary`, `evaluates_binary`, `evaluates_ternary`).
-/

namespace Rill

open Run (Ends Mono ends_bind ends_pure ends_const)
open Eval (pull_mono invoke_mono toStream_mono force_mono calls calls_le)

/-- The world with a value stored in a slot. -/
def World.store (w : World) (slot : Handle) (v : Value) : World :=
  { w with slots := (w.slots.set slot v).2 }

variable {context : Context} {w w' : World}

theorem ends_store {α : Type} {slot : Handle} {v : Value} {x : Nat → Run α} {a : α} :
    Ends (fun n => Run.store slot v >>= fun _ => x n) w a w' ↔ Ends x (w.store slot v) a w' :=
  Iff.rfl

theorem ends_get {α : Type} {x : Nat → World → Run α} {a : α} :
    Ends (fun n => get >>= x n) w a w' ↔ Ends (fun n => x n w) w a w' :=
  Iff.rfl

/-! ## Pulling what is already there -/

theorem pulls_items_nil {item : Option Item} {s : Stream} :
    Pulls context (.items []) w item s w' ↔ (item = none ∧ s = .items []) ∧ w' = w := by
  rw [pulls_iff]
  exact ends_pure.trans (and_congr_left fun _ => Prod.mk.injEq .. ▸ Iff.rfl)

theorem pulls_empty : Pulls context .empty w none .empty w :=
  pulls_items_nil.mpr ⟨⟨rfl, rfl⟩, rfl⟩

theorem pulls_items_cons {x : Item} {xs : List Item} {item : Option Item} {s : Stream} :
    Pulls context (.items (x :: xs)) w item s w' ↔ (item = some x ∧ s = .items xs) ∧ w' = w := by
  rw [pulls_iff]
  exact ends_pure.trans (and_congr_left fun _ => Prod.mk.injEq .. ▸ Iff.rfl)

theorem pulls_range_next {next last : Int} (h : next ≤ last) :
    Pulls context (.range next last) w (some (.ok (.int next))) (.range (next + 1) last) w := by
  refine pulls_iff.mpr ⟨0, fun _ _ => ?_⟩
  simp only [Calls.pullStep, if_pos h]
  rfl

theorem pulls_range_end {next last : Int} (h : ¬ next ≤ last) :
    Pulls context (.range next last) w none (.range next last) w := by
  refine pulls_iff.mpr ⟨0, fun _ _ => ?_⟩
  simp only [Calls.pullStep, if_neg h]
  rfl

/-- A closure's value is stored before each pull. -/
theorem pulls_bound {slot : Handle} {v : Value} {inner s : Stream} {item : Option Item} :
    Pulls context (.bound slot v inner) w item s w' ↔
      ∃ inner', s = .bound slot v inner' ∧ Pulls context inner (w.store slot v) item inner' w' := by
  refine pulls_iff.trans (ends_store.trans (ends_pull.trans ?_))
  simp only [ends_pure, Prod.mk.injEq]
  constructor
  · rintro ⟨item', inner', w₁, h, ⟨rfl, rfl⟩, rfl⟩
    exact ⟨inner', rfl, h⟩
  · rintro ⟨inner', rfl, h⟩
    exact ⟨item, inner', w', h, ⟨rfl, rfl⟩, rfl⟩

/-- The second stream is pulled when the first has ended. -/
theorem pulls_chain {first second s : Stream} {item : Option Item} :
    Pulls context (.chain first second) w item s w' ↔
      (∃ x first', item = some x ∧ s = .chain first' second ∧
        Pulls context first w (some x) first' w') ∨
      ∃ first' second' w₁, s = .chain .empty second' ∧ Pulls context first w none first' w₁ ∧
        Pulls context second w₁ item second' w' := by
  refine pulls_iff.trans (ends_pull.trans ⟨?_, ?_⟩)
  · rintro ⟨_ | x, first', w₁, h, k⟩
    · obtain ⟨item', second', w₂, h', k⟩ := ends_pull.mp k
      obtain ⟨e, rfl⟩ := ends_pure.mp k
      obtain ⟨rfl, rfl⟩ := Prod.mk.inj e
      exact .inr ⟨first', second', w₁, rfl, h, h'⟩
    · obtain ⟨e, rfl⟩ := ends_pure.mp k
      obtain ⟨rfl, rfl⟩ := Prod.mk.inj e
      exact .inl ⟨x, first', rfl, rfl, h⟩
  · rintro (⟨x, first', rfl, rfl, h⟩ | ⟨first', second', w₁, rfl, h, h'⟩)
    · exact ⟨_, _, _, h, ends_pure.mpr ⟨rfl, rfl⟩⟩
    · exact ⟨_, _, _, h, ends_pull.mpr ⟨_, _, _, h', ends_pure.mpr ⟨rfl, rfl⟩⟩⟩

/-- A value is added to each element. -/
theorem pulls_add {amount : Value} {input s : Stream} {item : Option Item} :
    Pulls context (.add amount input) w item s w' ↔
      ∃ x input', item = x.map (Calls.added amount) ∧ s = .add amount input' ∧
        Pulls context input w x input' w' := by
  refine pulls_iff.trans (ends_pull.trans ⟨?_, ?_⟩)
  · rintro ⟨x, input', w₁, h, k⟩
    obtain ⟨e, rfl⟩ := ends_pure.mp k
    cases e
    exact ⟨x, input', rfl, rfl, h⟩
  · rintro ⟨x, input', rfl, rfl, h⟩
    exact ⟨x, input', w', h, ends_pure.mpr ⟨rfl, rfl⟩⟩

/-! ## Pulling operands one after the other -/

/-- How pulling the streams of operands one after the other ends. -/
inductive ConcatPull (context : Context) (scope : Scope) (operands : List Operand) (front : Stream)
    (w : World) : Option Item → Stream → World → Prop
  /-- The stream in front has an element. -/
  | front {x : Item} {front' : Stream} {w' : World} (h : Pulls context front w (some x) front' w') :
    ConcatPull context scope operands front w (some x) (.concat scope operands front') w'
  /-- The stream in front has ended, and there is no operand. -/
  | done {front' : Stream} {w' : World} (h : Pulls context front w none front' w')
    (e : operands = []) :
    ConcatPull context scope operands front w none (.concat scope [] .empty) w'
  /-- The stream in front has ended, and the next operand takes its place. -/
  | next {x : Operand} {rest : List Operand} {front' next s : Stream} {item : Option Item}
    {w₁ w₂ w' : World} (h : Pulls context front w none front' w₁) (e : operands = x :: rest)
    (o : Opens context scope x w₁ next w₂)
    (k : Pulls context (.concat scope rest next) w₂ item s w') :
    ConcatPull context scope operands front w item s w'

theorem pulls_concat {scope : Scope} {operands : List Operand} {front s : Stream}
    {item : Option Item} :
    Pulls context (.concat scope operands front) w item s w' ↔
      ConcatPull context scope operands front w item s w' := by
  refine pulls_iff.trans ?_
  match operands with
  | [] =>
    refine Iff.trans ends_pull ⟨?_, ?_⟩
    · rintro ⟨_ | x, front', w₁, h, k⟩ <;> obtain ⟨e, rfl⟩ := ends_pure.mp k <;> cases e
      · exact .done h rfl
      · exact .front h
    · rintro (h | ⟨h, _⟩ | ⟨_, e, _, _⟩)
      · exact ⟨_, _, _, h, ends_pure.mpr ⟨rfl, rfl⟩⟩
      · exact ⟨_, _, _, h, ends_pure.mpr ⟨rfl, rfl⟩⟩
      · cases e
  | x :: rest =>
    refine Iff.trans ends_pull ⟨?_, ?_⟩
    · rintro ⟨_ | y, front', w₁, h, k⟩
      · obtain ⟨next, w₂, o, k⟩ := ends_toStream.mp k
        exact .next h rfl o (pulls_iff.mpr k)
      · obtain ⟨e, rfl⟩ := ends_pure.mp k
        cases e
        exact .front h
    · rintro (h | ⟨_, e⟩ | ⟨h, e, o, k⟩)
      · exact ⟨_, _, _, h, ends_pure.mpr ⟨rfl, rfl⟩⟩
      · cases e
      · cases e
        exact ⟨_, _, _, h, ends_toStream.mpr ⟨_, _, o, pulls_iff.mp k⟩⟩

/-! ## Pulling through a transform -/

/-- A transform makes `s` of the value `v`. -/
def Transforms (context : Context) (t : Transform) (v : Value) (w : World) (s : Stream)
    (w' : World) : Prop :=
  Ends (fun n => (calls context n).transform t v) w s w'

/-- How pulling through a transform ends. -/
inductive FlatMapPull (context : Context) (t : Transform) (input front : Stream) (w : World) :
    Option Item → Stream → World → Prop
  /-- The stream in front has an element. -/
  | front {x : Item} {front' : Stream} {w' : World} (h : Pulls context front w (some x) front' w') :
    FlatMapPull context t input front w (some x) (.flatMap t input front') w'
  /-- The stream in front and the input have ended. -/
  | done {front' input' : Stream} {w₁ w' : World} (h : Pulls context front w none front' w₁)
    (i : Pulls context input w₁ none input' w') :
    FlatMapPull context t input front w none (.flatMap t .empty .empty) w'
  /-- The stream in front has ended, and an error of the input takes its place. -/
  | error {e : Error} {front' input' s : Stream} {item : Option Item} {w₁ w₂ w' : World}
    (h : Pulls context front w none front' w₁)
    (i : Pulls context input w₁ (some (.error e)) input' w₂)
    (k : Pulls context (.flatMap t input' (.fail e)) w₂ item s w') :
    FlatMapPull context t input front w item s w'
  /-- The stream in front has ended, and what is made of a value of the input takes its place. -/
  | value {v : Value} {front' input' next s : Stream} {item : Option Item} {w₁ w₂ w₃ w' : World}
    (h : Pulls context front w none front' w₁)
    (i : Pulls context input w₁ (some (.ok v)) input' w₂)
    (o : Transforms context t v w₂ next w₃)
    (k : Pulls context (.flatMap t input' next) w₃ item s w') :
    FlatMapPull context t input front w item s w'

theorem transform_mono (t : Transform) (v : Value) :
    Mono fun n => (calls context n).transform t v :=
  fun _ _ h => Calls.transform_le (calls_le context h) t v

/-- One round of the loop more than the calls have fuel changes nothing. -/
theorem ends_pullFlatMap {t : Transform} {input front : Stream} {r : Option Item × Stream} :
    Ends (fun n => (calls context n).pullFlatMap t n input front) w r w' ↔
      Ends (fun n => (calls context n).pullFlatMap t (n + 1) input front) w r w' :=
  Run.ends_between
    (fun n => Calls.pullFlatMap_le (calls_le context (Nat.le_refl n)) t n.le_succ input front)
    fun n => Calls.pullFlatMap_le (calls_le context n.le_succ) t (Nat.le_refl _) input front

theorem pulls_flatMap {t : Transform} {input front s : Stream} {item : Option Item} :
    Pulls context (.flatMap t input front) w item s w' ↔
      FlatMapPull context t input front w item s w' := by
  refine pulls_iff.trans (ends_pullFlatMap.trans (ends_pull.trans ⟨?_, ?_⟩))
  · rintro ⟨_ | x, front', w₁, h, k⟩
    · obtain ⟨next, input', w₂, i, k⟩ := ends_pull.mp k
      match next with
      | none =>
        obtain ⟨e, rfl⟩ := ends_pure.mp k
        cases e
        exact .done h i
      | some (.error e) => exact .error h i (pulls_iff.mpr k)
      | some (.ok v) =>
        obtain ⟨front, w₃, o, k⟩ := (ends_bind (transform_mono t v)).mp k
        exact .value h i o (pulls_iff.mpr k)
    · obtain ⟨e, rfl⟩ := ends_pure.mp k
      cases e
      exact .front h
  · rintro (h | ⟨h, i⟩ | ⟨h, i, k⟩ | ⟨h, i, o, k⟩)
    · exact ⟨_, _, _, h, ends_pure.mpr ⟨rfl, rfl⟩⟩
    · exact ⟨_, _, _, h, ends_pull.mpr ⟨_, _, _, i, ends_pure.mpr ⟨rfl, rfl⟩⟩⟩
    · exact ⟨_, _, _, h, ends_pull.mpr ⟨_, _, _, i, pulls_iff.mp k⟩⟩
    · exact ⟨_, _, _, h, ends_pull.mpr ⟨_, _, _, i,
        (ends_bind (transform_mono t _)).mpr ⟨_, _, o, pulls_iff.mp k⟩⟩⟩

/-- A stream in front that has ended is as good as none. -/
theorem pulls_flatMap_of_ended {t : Transform} {input front front' s : Stream} {item : Option Item}
    {w w₁ w' : World} (h : Pulls context front w none front' w₁)
    (k : Pulls context (.flatMap t input .empty) w₁ item s w') :
    Pulls context (.flatMap t input front) w item s w' := by
  refine pulls_flatMap.mpr ?_
  cases pulls_flatMap.mp k with
  | front f => cases (pulls_items_nil.mp f).1.1
  | done f i =>
    obtain ⟨-, rfl⟩ := pulls_items_nil.mp f
    exact .done h i
  | error f i q =>
    obtain ⟨-, rfl⟩ := pulls_items_nil.mp f
    exact .error h i q
  | value f i o q =>
    obtain ⟨-, rfl⟩ := pulls_items_nil.mp f
    exact .value h i o q

theorem transforms_unary {op : Operator} {v : Value} {s : Stream} :
    Transforms context (.unary op) v w s w' ↔ s = Calls.ofOutcome (op.unary v) ∧ w' = w :=
  ends_pure

theorem transforms_left {op : Operator} {x v : Value} {s : Stream} :
    Transforms context (.left op x) v w s w' ↔ s = Calls.ofOutcome (op.binary v x) ∧ w' = w :=
  ends_pure

theorem transforms_right {op : Operator} {x v : Value} {s : Stream} :
    Transforms context (.right op x) v w s w' ↔ s = Calls.ofOutcome (op.binary x v) ∧ w' = w :=
  ends_pure

/-- A closure stores the value before it starts its body. -/
theorem transforms_bind {slot : Handle} {body : Factory} {v : Value} {s : Stream} :
    Transforms context (.bind slot body) v w s w' ↔
      ∃ inner, s = .bound slot v inner ∧ Makes context body .empty (w.store slot v) inner w' := by
  refine ends_store.trans (ends_invoke.trans ⟨?_, ?_⟩)
  · rintro ⟨inner, w₁, h, k⟩
    obtain ⟨rfl, rfl⟩ := ends_pure.mp k
    exact ⟨inner, rfl, h⟩
  · rintro ⟨inner, rfl, h⟩
    exact ⟨inner, w', h, ends_pure.mpr ⟨rfl, rfl⟩⟩

theorem transforms_each {body : Factory} {v : Value} {s : Stream} :
    Transforms context (.each body) v w s w' ↔ Makes context body (.once v) w s w' :=
  Iff.rfl

/-! ## Pulling two streams in pairs -/

/-- What an operator makes of a pair, of which the first error counts. -/
def pairStream (op : Operator) : Item → Item → Stream
  | .ok v, .ok w => Calls.ofOutcome (op.binary v w)
  | .error e, _ => .fail e
  | _, .error e => .fail e

/-- How pulling two streams in pairs ends. -/
inductive ZipPull (context : Context) (op : Operator) (left right front : Stream) (w : World) :
    Option Item → Stream → World → Prop
  /-- The stream in front has an element. -/
  | front {x : Item} {front' : Stream} {w' : World} (h : Pulls context front w (some x) front' w') :
    ZipPull context op left right front w (some x) (.zip op left right front') w'
  /-- The stream in front and the left one have ended. -/
  | leftDone {front' left' : Stream} {w₁ w' : World} (h : Pulls context front w none front' w₁)
    (l : Pulls context left w₁ none left' w') :
    ZipPull context op left right front w none (.zip op .empty .empty .empty) w'
  /-- The stream in front and the right one have ended. -/
  | rightDone {x : Item} {front' left' right' : Stream} {w₁ w₂ w' : World}
    (h : Pulls context front w none front' w₁) (l : Pulls context left w₁ (some x) left' w₂)
    (r : Pulls context right w₂ none right' w') :
    ZipPull context op left right front w none (.zip op .empty .empty .empty) w'
  /-- The stream in front has ended, and what is made of a pair takes its place. -/
  | pair {x y : Item} {front' left' right' s : Stream} {item : Option Item} {w₁ w₂ w₃ w' : World}
    (h : Pulls context front w none front' w₁) (l : Pulls context left w₁ (some x) left' w₂)
    (r : Pulls context right w₂ (some y) right' w₃)
    (k : Pulls context (.zip op left' right' (pairStream op x y)) w₃ item s w') :
    ZipPull context op left right front w item s w'

theorem ends_pullZip {op : Operator} {left right front : Stream} {r : Option Item × Stream} :
    Ends (fun n => (calls context n).pullZip op n left right front) w r w' ↔
      Ends (fun n => (calls context n).pullZip op (n + 1) left right front) w r w' :=
  Run.ends_between
    (fun n => Calls.pullZip_le (calls_le context (Nat.le_refl n)) op n.le_succ left right front)
    fun n => Calls.pullZip_le (calls_le context n.le_succ) op (Nat.le_refl _) left right front

theorem pulls_zip {op : Operator} {left right front s : Stream} {item : Option Item} :
    Pulls context (.zip op left right front) w item s w' ↔
      ZipPull context op left right front w item s w' := by
  refine pulls_iff.trans (ends_pullZip.trans (ends_pull.trans ⟨?_, ?_⟩))
  · rintro ⟨_ | x, front', w₁, h, k⟩
    · obtain ⟨_ | x, left', w₂, l, k⟩ := ends_pull.mp k
      · obtain ⟨e, rfl⟩ := ends_pure.mp k
        cases e
        exact .leftDone h l
      · obtain ⟨_ | y, right', w₃, r, k⟩ := ends_pull.mp k
        · obtain ⟨e, rfl⟩ := ends_pure.mp k
          cases e
          exact .rightDone h l r
        · refine .pair h l r (pulls_iff.mpr ?_)
          match x, y with
          | .ok _, .ok _ | .error _, .ok _ | .error _, .error _ | .ok _, .error _ => exact k
    · obtain ⟨e, rfl⟩ := ends_pure.mp k
      cases e
      exact .front h
  · rintro (h | ⟨h, l⟩ | ⟨h, l, r⟩ | @⟨x, y, _, _, _, _, _, _, _, _, _, h, l, r, k⟩)
    · exact ⟨_, _, _, h, ends_pure.mpr ⟨rfl, rfl⟩⟩
    · exact ⟨_, _, _, h, ends_pull.mpr ⟨_, _, _, l, ends_pure.mpr ⟨rfl, rfl⟩⟩⟩
    · exact ⟨_, _, _, h, ends_pull.mpr ⟨_, _, _, l, ends_pull.mpr ⟨_, _, _, r,
        ends_pure.mpr ⟨rfl, rfl⟩⟩⟩⟩
    · refine ⟨_, _, _, h, ends_pull.mpr ⟨_, _, _, l, ends_pull.mpr ⟨_, _, _, r, ?_⟩⟩⟩
      have k := pulls_iff.mp k
      match x, y with
      | .ok _, .ok _ | .error _, .ok _ | .error _, .error _ | .ok _, .error _ => exact k

/-! ## Using factories -/

section

variable {input s : Stream}

theorem makes_items {xs : List Item} :
    Makes context (.items xs) input w s w' ↔ s = .items xs ∧ w' = w :=
  makes_iff.trans ends_pure

theorem makes_range {first last : Int} :
    Makes context (.range first last) input w s w' ↔ s = .range first last ∧ w' = w :=
  makes_iff.trans ends_pure

theorem makes_sequence {scope : Scope} {operands : List Operand} :
    Makes context (.sequence scope operands) input w s w' ↔
      s = .concat scope operands .empty ∧ w' = w :=
  makes_iff.trans ends_pure

theorem makes_bind {slot : Handle} {body : Factory} :
    Makes context (.bind slot body) input w s w' ↔
      s = .flatMap (.bind slot body) input .empty ∧ w' = w :=
  makes_iff.trans ends_pure

theorem makes_each {body : Factory} :
    Makes context (.each body) input w s w' ↔
      s = .flatMap (.each body) input .empty ∧ w' = w :=
  makes_iff.trans ends_pure

theorem makes_prepend {scope : Scope} {args : List Operand} :
    Makes context (.builtin .prepend scope args) input w s w' ↔
      s = .chain (.concat scope args .empty) input ∧ w' = w :=
  makes_iff.trans ends_pure

theorem makes_compose {first second : Factory} :
    Makes context (.compose first second) input w s w' ↔
      ∃ t w₁, Makes context first input w t w₁ ∧ Makes context second t w₁ s w' :=
  makes_iff.trans ends_invoke

/-- A factory that does something to each element of a source. -/
theorem makes_mapped {f source : Factory} {t : Transform}
    (e : ∀ n, (calls context n).invokeStep context n f input =
      (Eval.invoke context n source .empty >>= fun s => pure (.flatMap t s .empty))) :
    Makes context f input w s w' ↔
      ∃ t', s = .flatMap t t' .empty ∧ Makes context source .empty w t' w' := by
  refine makes_iff.trans ?_
  simp only [e]
  refine ends_invoke.trans ⟨?_, ?_⟩
  · rintro ⟨t', w₁, h, k⟩
    obtain ⟨rfl, rfl⟩ := ends_pure.mp k
    exact ⟨t', rfl, h⟩
  · rintro ⟨t', rfl, h⟩
    exact ⟨t', w', h, ends_pure.mpr ⟨rfl, rfl⟩⟩

theorem makes_unary {op : Operator} {source : Factory} :
    Makes context (.unary op source) input w s w' ↔
      ∃ t, s = .flatMap (.unary op) t .empty ∧ Makes context source .empty w t w' :=
  makes_mapped fun _ => rfl

theorem makes_left {op : Operator} {source : Factory} {v : Value} :
    Makes context (.left op source v) input w s w' ↔
      ∃ t, s = .flatMap (.left op v) t .empty ∧ Makes context source .empty w t w' :=
  makes_mapped fun _ => rfl

theorem makes_right {op : Operator} {source : Factory} {v : Value} :
    Makes context (.right op v source) input w s w' ↔
      ∃ t, s = .flatMap (.right op v) t .empty ∧ Makes context source .empty w t w' :=
  makes_mapped fun _ => rfl

theorem makes_zip {op : Operator} {left right : Factory} :
    Makes context (.zip op left right) input w s w' ↔
      ∃ l r w₁, s = .zip op l r .empty ∧ Makes context left .empty w l w₁ ∧
        Makes context right .empty w₁ r w' := by
  refine makes_iff.trans (ends_invoke.trans ⟨?_, ?_⟩)
  · rintro ⟨l, w₁, h, k⟩
    obtain ⟨r, w₂, h', k⟩ := ends_invoke.mp k
    obtain ⟨rfl, rfl⟩ := ends_pure.mp k
    exact ⟨l, r, w₁, rfl, h, h'⟩
  · rintro ⟨l, r, w₁, rfl, h, h'⟩
    exact ⟨l, w₁, h, ends_invoke.mpr ⟨r, w', h', ends_pure.mpr ⟨rfl, rfl⟩⟩⟩

end

/-! ## Streams of operands -/

section

variable {scope : Scope} {s : Stream}

theorem opens_value {v : Value} :
    Opens context scope (.value v) w s w' ↔ s = .ofValue v ∧ w' = w :=
  opens_iff.trans ends_pure

theorem opens_stream {f : Factory} :
    Opens context scope (.stream f) w s w' ↔ Makes context f .empty w s w' :=
  opens_iff.trans Iff.rfl

theorem opens_streamRef {name : String} :
    Opens context scope (.streamRef name) w s w' ↔
      Makes context (.reference scope name) .empty w s w' := by
  rw [opens_iff, makes_iff]
  rfl

/-- A word is a parameter if it has a value, whatever the slots hold. -/
theorem Scope.isVarPath_eq_isSome (slots : Slots) (word : String) :
    scope.isVarPath word = (scope.resolve? slots word).isSome := by
  simp only [isVarPath, isVar, Sorted.has, resolve?, get?, Option.isSome_map]

theorem Scope.resolve?_eq_none {word : String} (h : scope.isVarPath word = false) (slots : Slots) :
    scope.resolve? slots word = none := by
  rw [isVarPath_eq_isSome slots, Option.isSome_eq_false_iff] at h
  exact Option.isNone_iff_eq_none.mp h

/-- A parameter is read when its stream is made. -/
theorem opens_word {word : String} {v : Value} (h : scope.resolve? w.slots word = some v) :
    Opens context scope (.word word) w s w' ↔ s = .ofValue v ∧ w' = w := by
  refine opens_iff.trans (ends_get.trans ?_)
  simp only [h]
  exact ends_pure

theorem opens_text {word : String} (h : scope.isVarPath word = false) :
    Opens context scope (.word word) w (.once (.string word)) w := by
  refine opens_iff.mpr (ends_get.mpr ?_)
  simp only [Scope.resolve?_eq_none h]
  exact ends_pure.mpr ⟨rfl, rfl⟩

/-! ## Computations that wait -/

/-- A computation that waited gives `r`. -/
def Evaluates (context : Context) (scope : Scope) (d : Deferred) (w : World)
    (r : Except Error Operand) (w' : World) : Prop :=
  Ends (fun n => (calls context n).evaluate n scope d) w r w'

theorem evaluate_mono (d : Deferred) : Mono fun n => (calls context n).evaluate n scope d :=
  fun _ _ h => Calls.evaluate_le (calls_le context h) h scope d

theorem opens_deferred {d : Deferred} {x : Operand} {w₁ : World}
    (h : Evaluates context scope d w (.ok x) w₁) (k : Opens context scope x w₁ s w') :
    Opens context scope (.deferred d) w s w' :=
  opens_iff.mpr ((ends_bind (evaluate_mono d)).mpr ⟨_, _, h, k⟩)

theorem opens_deferred_error {d : Deferred} {e : Error}
    (h : Evaluates context scope d w (.error e) w') :
    Opens context scope (.deferred d) w (.fail e) w' :=
  opens_iff.mpr ((ends_bind (evaluate_mono d)).mpr ⟨_, _, h, ends_pure.mpr ⟨rfl, rfl⟩⟩)

theorem forces_value {v : Value} : Forces context scope (.value v) w (.ok (.value v)) w :=
  forces_iff.mpr (ends_pure.mpr ⟨rfl, rfl⟩)

theorem forces_stream {f : Factory} : Forces context scope (.stream f) w (.ok (.stream f)) w :=
  forces_iff.mpr (ends_pure.mpr ⟨rfl, rfl⟩)

theorem forces_word {word : String} {v : Value} (h : scope.resolve? w.slots word = some v) :
    Forces context scope (.word word) w (.ok (.value v)) w := by
  refine forces_iff.mpr (ends_get.mpr ?_)
  simp only [h]
  exact ends_pure.mpr ⟨rfl, rfl⟩

theorem forces_text {word : String} (h : scope.isVarPath word = false) :
    Forces context scope (.word word) w (.ok (.word word)) w := by
  refine forces_iff.mpr (ends_get.mpr ?_)
  simp only [Scope.resolve?_eq_none h]
  exact ends_pure.mpr ⟨rfl, rfl⟩

theorem forces_deferred {d : Deferred} {x : Operand} {r : Except Error Operand} {w₁ : World}
    (h : Evaluates context scope d w (.ok x) w₁) (k : Forces context scope x w₁ r w') :
    Forces context scope (.deferred d) w r w' :=
  forces_iff.mpr ((ends_bind (evaluate_mono d)).mpr ⟨_, _, h, k⟩)

theorem evaluates_unary {op : Operator} {x y : Operand}
    (h : Forces context scope x w (.ok y) w') :
    Evaluates context scope (.unary op x) w (.ok (.applyUnary scope op y)) w' :=
  ends_force.mpr ⟨_, _, h, ends_pure.mpr ⟨rfl, rfl⟩⟩

theorem evaluates_binary {op : Operator} {x y x' y' : Operand} {w₁ : World}
    (h : Forces context scope x w (.ok x') w₁) (k : Forces context scope y w₁ (.ok y') w') :
    Evaluates context scope (.binary op x y) w (.ok (.applyBinary scope op x' y')) w' :=
  ends_force.mpr ⟨_, _, h, ends_force.mpr ⟨_, _, k, ends_pure.mpr ⟨rfl, rfl⟩⟩⟩

/-- What a choice comes to if the first value of its condition is known. -/
def chosen (scope : Scope) (onTrue onFalse : List Operand) : Item → Except Error Operand
  | .ok v =>
    if v.isTruthy then .ok (if onTrue.isEmpty then .value v else .stream (.sequence scope onTrue))
    else .ok (.stream (.sequence scope onFalse))
  | .error e => if onTrue.isEmpty then .ok (.stream (.sequence scope onFalse)) else .error e

theorem evaluates_ternary {condition : Operand} {onTrue onFalse : List Operand} {t t' : Stream}
    {item : Option Item} {w₁ : World} (h : Opens context scope condition w t w₁)
    (k : Pulls context t w₁ item t' w') :
    Evaluates context scope (.ternary condition onTrue onFalse) w
      (chosen scope onTrue onFalse (item.getD (.ok .null))) w' := by
  have hfirst : Mono fun n => (calls context n).firstValue scope condition :=
    fun _ _ hmn => Calls.firstValue_le (calls_le context hmn) scope condition
  refine (ends_bind hfirst).mpr ⟨item.getD (.ok .null), w', ?_, ?_⟩
  · exact ends_toStream.mpr ⟨_, _, h, ends_pull.mpr ⟨_, _, _, k, ends_pure.mpr ⟨rfl, rfl⟩⟩⟩
  · cases item.getD (.ok .null) with
    | ok v =>
      simp only [chosen]
      split <;> exact ends_pure.mpr ⟨rfl, rfl⟩
    | error e => exact ends_pure.mpr ⟨rfl, rfl⟩

end

/-- A local name stands for its stream. -/
theorem makes_reference_local {scope : Scope} {name : String} {f : Factory} {input s : Stream}
    (ho : Sorted.find? name scope.overrides = some f) (h : Makes context f input w s w') :
    Makes context (.reference scope name) input w s w' := by
  refine makes_iff.mpr ?_
  show Ends (fun n => (calls context n).resolveReference scope name input) w s w'
  simp only [Calls.resolveReference, ho]
  exact h

/-- A name that is neither local nor a parameter stands for the stream that is bound to it. -/
theorem makes_reference {scope : Scope} {name : String} {f : Factory} {input s : Stream}
    (ho : Sorted.find? name scope.overrides = none) (hv : scope.isVarPath name = false)
    (hf : Sorted.find? name w.env.bindings = some f) (h : Makes context f input w s w') :
    Makes context (.reference scope name) input w s w' := by
  refine makes_iff.mpr ?_
  show Ends (fun n => (calls context n).resolveReference scope name input) w s w'
  simp only [Calls.resolveReference, ho]
  refine ends_get.mpr ?_
  simp only [Scope.resolve?_eq_none hv]
  have hb : (Run.binding? name) w = some (some f, w) := by
    show some ((w.env.get? name).1, { w with env := (w.env.get? name).2 }) = _
    rw [Environment.get?, hf]
  exact (ends_bind fun _ _ _ => .refl _).mpr ⟨some f, w, ends_const.mpr hb, h⟩

end Rill
