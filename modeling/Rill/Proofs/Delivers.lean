import Rill.Proofs.Alike

/-!
# Streams that depend on nothing

A stream delivers a list if pulling it gives the elements of the list one after the other and then
nothing, in every world, and leaves the world alone (`Delivers`). Any stream may give a list in one
world (`Drains`). An operand that depends on nothing
is a known value or a stream that delivers a list (`Means`); operators on such operands do to the
values and the lists what they do to the operands (`Means.applyUnary`, `Means.applyBinary`).
-/

namespace Rill

/-- Pulling `s` gives the elements of a list, and then nothing. -/
inductive Delivers (context : Context) : Stream → List Item → Prop
  | nil {s s' : Stream} (h : ∀ w, Pulls context s w none s' w) : Delivers context s []
  | cons {s s' : Stream} {x : Item} {xs : List Item} (h : ∀ w, Pulls context s w (some x) s' w)
    (k : Delivers context s' xs) : Delivers context s (x :: xs)

variable {context : Context} {scope : Scope}

namespace Delivers

theorem head {s : Stream} {xs : List Item} (h : Delivers context s xs) (w : World) :
    ∃ s', Pulls context s w xs.head? s' w := by
  cases h with
  | nil h => exact ⟨_, h w⟩
  | cons h _ => exact ⟨_, h w⟩

/-- A stream that is pulled like another delivers what it delivers. -/
theorem of_pulls {s t : Stream} {xs : List Item} (h : Delivers context s xs)
    (k : ∀ w item s', Pulls context s w item s' w → Pulls context t w item s' w) :
    Delivers context t xs := by
  cases h with
  | nil h => exact .nil fun w => k w _ _ (h w)
  | cons h h' => exact .cons (fun w => k w _ _ (h w)) h'

/-- Streams that deliver the same list cannot be told apart. -/
theorem alike {s t : Stream} {xs : List Item} (h : Delivers context s xs)
    (k : Delivers context t xs) : Alike context s t := by
  refine .of_simulation (R := fun s t => ∃ xs, Delivers context s xs ∧ Delivers context t xs)
    ?_ ?_ ⟨xs, h, k⟩
  · rintro _ _ ⟨xs, h, k⟩
    exact ⟨xs, k, h⟩
  · rintro s t ⟨_, ⟨hs⟩ | ⟨hs, h⟩, k⟩ w item s' w' p
    · obtain ⟨rfl, -, rfl⟩ := p.det (hs w)
      obtain ⟨t', q⟩ := k.head w'
      exact ⟨t', q, nofun⟩
    · obtain ⟨rfl, rfl, rfl⟩ := p.det (hs w)
      obtain _ | ⟨ht, k⟩ := k
      exact ⟨_, ht w', fun _ => ⟨_, h, k⟩⟩

/-! ## What is already there -/

theorem items : ∀ xs : List Item, Delivers context (.items xs) xs
  | [] => .nil fun _ => pulls_items_nil.mpr ⟨⟨rfl, rfl⟩, rfl⟩
  | _ :: xs => .cons (fun _ => pulls_items_cons.mpr ⟨⟨rfl, rfl⟩, rfl⟩) (items xs)

/-- One stream after another delivers both lists. -/
theorem chain {first second : Stream} {xs ys : List Item} (h : Delivers context first xs)
    (k : Delivers context second ys) : Delivers context (.chain first second) (xs ++ ys) := by
  induction h with
  | @nil s s' h =>
    -- when the first has ended, nothing is left of it
    induction k generalizing s s' with
    | nil k => exact .nil fun w => pulls_chain.mpr (.inr ⟨_, _, w, rfl, h w, k w⟩)
    | cons k _ ih =>
      exact .cons (fun w => pulls_chain.mpr (.inr ⟨_, _, w, rfl, h w, k w⟩))
        (ih fun _ => pulls_empty)
  | cons h _ ih => exact .cons (fun w => pulls_chain.mpr (.inl ⟨_, _, rfl, rfl, h w⟩)) ih

end Delivers

/-! ## Pulling to the end -/

/-- Pulling `s` again and again gives the elements of a list, and then nothing. -/
inductive Drains (context : Context) : Stream → World → List Item → World → Prop
  | nil {s s' : Stream} {w w' : World} (h : Pulls context s w none s' w') :
    Drains context s w [] w'
  | cons {s s' : Stream} {w w₁ w' : World} {x : Item} {xs : List Item}
    (h : Pulls context s w (some x) s' w₁) (k : Drains context s' w₁ xs w') :
    Drains context s w (x :: xs) w'

namespace Drains

variable {s : Stream} {xs ys : List Item} {w w₁ w₂ : World}

theorem det (h : Drains context s w xs w₁) (k : Drains context s w ys w₂) : xs = ys := by
  induction h generalizing ys with
  | nil h =>
    cases k with
    | nil _ => rfl
    | cons k _ => cases (h.det k).1
  | cons h _ ih =>
    cases k with
    | nil k => cases (h.det k).1
    | cons k k' =>
      obtain ⟨e, rfl, rfl⟩ := h.det k
      rw [Option.some.inj e, ih k']

theorem of_pulls {t : Stream} {w' : World} (h : Drains context s w xs w₁)
    (k : ∀ item s' w₁, Pulls context s w item s' w₁ → Pulls context t w' item s' w₁) :
    Drains context t w' xs w₁ := by
  cases h with
  | nil h => exact .nil (k _ _ _ h)
  | cons h h' => exact .cons (k _ _ _ h) h'

end Drains

/-- What depends on nothing is pulled to its end in every world. -/
theorem Delivers.drains {s : Stream} {xs : List Item} (h : Delivers context s xs) (w : World) :
    Drains context s w xs w := by
  induction h with
  | nil h => exact .nil (h w)
  | cons h _ ih => exact .cons (h w) ih

/-! ## Ranges, outcomes and values -/

/-- So many integers from `first` on. -/
def countUp (first : Int) : Nat → List Item
  | 0 => []
  | n + 1 => .ok (.int first) :: countUp (first + 1) n

/-- The integers from `first` to `last`. -/
def rangeItems (first last : Int) : List Item := countUp first (last + 1 - first).toNat

theorem Delivers.range (first last : Int) :
    Delivers context (.range first last) (rangeItems first last) := by
  unfold rangeItems
  generalize hn : (last + 1 - first).toNat = n
  induction n generalizing first with
  | zero => exact .nil fun _ => pulls_range_end (by omega)
  | succ n ih => exact .cons (fun _ => pulls_range_next (by omega)) (ih (first + 1) (by omega))

/-- The elements that an operator left. -/
def outcomeItems : Except Error Outcome → List Item
  | .ok (.value v) => [.ok v]
  | .ok (.range first last) => rangeItems first last
  | .error e => [.error e]

theorem Delivers.ofOutcome : ∀ r : Except Error Outcome,
    Delivers context (Calls.ofOutcome r) (outcomeItems r)
  | .ok (.value _) => .items _
  | .ok (.range first last) => .range first last
  | .error _ => .items _

/-- The elements of a value: a list has its items. -/
def valueItems : Value → List Item
  | .json (.list js) => js.map fun j => .ok (.json j)
  | v => [.ok v]

theorem Delivers.ofValue : ∀ v : Value, Delivers context (.ofValue v) (valueItems v)
  | .json (.list _) => .items _
  | .json .null | .json (.bool _) | .json (.number _) | .json (.string _) | .json (.object _)
  | .bytes _ | .typed _ _ => .items _

/-! ## Operands one after the other -/

/-- The stream of `x` delivers a list. -/
def Operand.Delivers (context : Context) (scope : Scope) (x : Operand) (xs : List Item) : Prop :=
  ∃ s, (∀ w, Opens context scope x w s w) ∧ Rill.Delivers context s xs

/-- Operands whose streams deliver the same list cannot be told apart. -/
theorem Operand.Delivers.alike {x y : Operand} {xs : List Item} (h : x.Delivers context scope xs)
    (k : y.Delivers context scope xs) : Operand.Alike context scope x y := by
  obtain ⟨s, hs, h⟩ := h
  obtain ⟨t, ht, k⟩ := k
  refine fun w => ⟨fun s' w' o => ?_, fun t' w' o => ?_⟩
  · obtain ⟨rfl, rfl⟩ := Run.Ends.det o (hs w)
    exact ⟨t, ht w', h.alike k⟩
  · obtain ⟨rfl, rfl⟩ := Run.Ends.det o (ht w)
    exact ⟨s, hs w', h.alike k⟩

/-- The stream that `f` makes of nothing delivers a list. -/
def Factory.Delivers (context : Context) (f : Factory) (xs : List Item) : Prop :=
  ∃ s, (∀ w, Makes context f .empty w s w) ∧ Rill.Delivers context s xs

theorem Delivers.concat {operands : List Operand} {xss : List (List Item)}
    (h : List.Forall₂ (Operand.Delivers context scope) operands xss) {front : Stream}
    {ys : List Item} (k : Delivers context front ys) :
    Delivers context (.concat scope operands front) (ys ++ xss.flatten) := by
  induction h generalizing front ys with
  | nil =>
    simp only [List.flatten_nil, List.append_nil]
    induction k with
    | nil k => exact .nil fun w => pulls_concat.mpr (.done (k w) rfl)
    | cons k _ ih => exact .cons (fun w => pulls_concat.mpr (.front (k w))) ih
  | @cons x xs operands xss h _ ih =>
    obtain ⟨s, o, hs⟩ := h
    induction k with
    | nil k =>
      exact (ih hs).of_pulls fun w _ _ p => pulls_concat.mpr (.next (k w) rfl (o w) p)
    | cons k _ ih' => exact .cons (fun w => pulls_concat.mpr (.front (k w))) ih'

/-- A sequence of operands delivers what they deliver, one after the other. -/
theorem Factory.Delivers.sequence (scope : Scope) {operands : List Operand} {xss : List (List Item)}
    (h : List.Forall₂ (Operand.Delivers context scope) operands xss) :
    Factory.Delivers context (.sequence scope operands) xss.flatten :=
  ⟨_, fun _ => makes_sequence.mpr ⟨rfl, rfl⟩, .concat h (.items [])⟩

/-! ## Operators on elements -/

/-- What is made of an element, if errors stay as they are. -/
def onValue (g : Value → List Item) : Item → List Item
  | .ok v => g v
  | .error e => [.error e]

theorem Delivers.flatMap {t : Transform} {g : Value → List Item}
    (ht : ∀ v, ∃ s, (∀ w, Transforms context t v w s w) ∧ Delivers context s (g v))
    {input front : Stream} {xs ys : List Item} (h : Delivers context input xs)
    (k : Delivers context front ys) :
    Delivers context (.flatMap t input front) (ys ++ xs.flatMap (onValue g)) := by
  induction h generalizing front ys with
  | @nil _ _ h =>
    induction k with
    | nil k => exact .nil fun w => pulls_flatMap.mpr (.done (k w) (h w))
    | cons k _ ih => exact .cons (fun w => pulls_flatMap.mpr (.front (k w))) ih
  | @cons _ _ x xs h _ ih =>
    induction k with
    | nil k =>
      match x with
      | .error e =>
        refine Delivers.of_pulls (ih (.items [.error e])) fun w _ _ p => ?_
        exact pulls_flatMap.mpr (.error (k w) (h w) p)
      | .ok v =>
        obtain ⟨s, o, hs⟩ := ht v
        refine Delivers.of_pulls (ih hs) fun w _ _ p => ?_
        exact pulls_flatMap.mpr (.value (k w) (h w) (o w) p)
    | cons k _ ih' => exact .cons (fun w => pulls_flatMap.mpr (.front (k w))) ih'

/-- What an operator makes of a pair of elements. -/
def pairItems (op : Operator) : Item → Item → List Item
  | .ok v, .ok w => outcomeItems (op.binary v w)
  | .error e, _ => [.error e]
  | _, .error e => [.error e]

theorem Delivers.pairStream (op : Operator) : ∀ x y : Item,
    Delivers context (pairStream op x y) (pairItems op x y)
  | .ok _, .ok _ => .ofOutcome _
  | .error _, .ok _ | .error _, .error _ | .ok _, .error _ => .items _

theorem Delivers.zip {op : Operator} {left right front : Stream} {xs ys zs : List Item}
    (h : Delivers context left xs) (h' : Delivers context right ys)
    (k : Delivers context front zs) :
    Delivers context (.zip op left right front)
      (zs ++ (xs.zip ys).flatMap fun p => pairItems op p.1 p.2) := by
  induction h generalizing right ys front zs with
  | nil h =>
    induction k with
    | nil k => exact .nil fun w => pulls_zip.mpr (.leftDone (k w) (h w))
    | cons k _ ih => exact .cons (fun w => pulls_zip.mpr (.front (k w))) ih
  | @cons _ _ x xs h _ ih =>
    induction k with
    | nil k =>
      cases h' with
      | nil h' => exact .nil fun w => pulls_zip.mpr (.rightDone (k w) (h w) (h' w))
      | cons h' h'' =>
        refine Delivers.of_pulls (ih h'' (.pairStream op _ _)) fun w _ _ p => ?_
        exact pulls_zip.mpr (.pair (k w) (h w) (h' w) p)
    | cons k _ ih' => exact .cons (fun w => pulls_zip.mpr (.front (k w))) ih'

/-! ## What operands stand for -/

/-- What an operand stands for that depends on nothing. -/
inductive Meaning where
  /-- A value that is known. -/
  | known (v : Value)
  /-- The elements of a stream. -/
  | elements (xs : List Item)

namespace Meaning

/-- What an operator left. -/
def ofOutcome : Except Error Outcome → Meaning
  | .ok (.value v) => known v
  | .ok (.range first last) => elements (rangeItems first last)
  | .error e => elements [.error e]

/-- An operator with one operand. -/
def unary (op : Operator) : Meaning → Meaning
  | known v => ofOutcome (op.unary v)
  | elements xs => elements (xs.flatMap (onValue fun v => outcomeItems (op.unary v)))

/-- An operator with two operands. -/
def binary (op : Operator) : Meaning → Meaning → Meaning
  | known v, known w => ofOutcome (op.binary v w)
  | elements xs, known w => elements (xs.flatMap (onValue fun v => outcomeItems (op.binary v w)))
  | known v, elements ys => elements (ys.flatMap (onValue fun w => outcomeItems (op.binary v w)))
  | elements xs, elements ys => elements ((xs.zip ys).flatMap fun p => pairItems op p.1 p.2)

/-- The elements that are pulled. -/
def items : Meaning → List Item
  | known v => valueItems v
  | elements xs => xs

end Meaning

/-- What an operand stands for: itself if it is a value, and what its stream delivers. -/
inductive Means (context : Context) : Operand → Meaning → Prop
  | known (v : Value) : Means context (.value v) (.known v)
  | elements {f : Factory} {xs : List Item} (h : f.Delivers context xs) :
    Means context (.stream f) (.elements xs)

namespace Means

theorem delivers {x : Operand} {m : Meaning} (h : Means context x m) :
    x.Delivers context scope m.items := by
  cases h with
  | known v => exact ⟨_, fun _ => opens_value.mpr ⟨rfl, rfl⟩, .ofValue v⟩
  | elements h =>
    obtain ⟨s, hs, hd⟩ := h
    exact ⟨s, fun w => opens_stream.mpr (hs w), hd⟩

theorem ofOutcome : ∀ r : Except Error Outcome,
    Means context (Operand.ofOutcome r) (Meaning.ofOutcome r)
  | .ok (.value v) => .known v
  | .ok (.range first last) => .elements ⟨_, fun _ => makes_range.mpr ⟨rfl, rfl⟩, .range first last⟩
  | .error _ => .elements ⟨_, fun _ => makes_items.mpr ⟨rfl, rfl⟩, .items _⟩

theorem applyUnary {x : Operand} {m : Meaning} (h : Means context x m) (op : Operator) :
    Means context (.applyUnary scope op x) (m.unary op) := by
  cases h with
  | known v => exact ofOutcome (op.unary v)
  | elements h =>
    obtain ⟨s, hs, hd⟩ := h
    refine .elements ⟨_, fun w => makes_unary.mpr ⟨s, rfl, hs w⟩, ?_⟩
    exact Delivers.flatMap (fun v => ⟨_, fun _ => transforms_unary.mpr ⟨rfl, rfl⟩, .ofOutcome _⟩) hd
      (.items [])

theorem applyBinary {x y : Operand} {m n : Meaning} (h : Means context x m)
    (k : Means context y n) (op : Operator) :
    Means context (.applyBinary scope op x y) (m.binary op n) := by
  cases h with
  | known v =>
    cases k with
    | known w => exact ofOutcome (op.binary v w)
    | elements k =>
      obtain ⟨s, hs, hd⟩ := k
      refine .elements ⟨_, fun w => makes_right.mpr ⟨s, rfl, hs w⟩, ?_⟩
      exact Delivers.flatMap (fun v => ⟨_, fun _ => transforms_right.mpr ⟨rfl, rfl⟩, .ofOutcome _⟩)
        hd (.items [])
  | elements h =>
    obtain ⟨s, hs, hd⟩ := h
    cases k with
    | known w =>
      refine .elements ⟨_, fun w => makes_left.mpr ⟨s, rfl, hs w⟩, ?_⟩
      exact Delivers.flatMap (fun v => ⟨_, fun _ => transforms_left.mpr ⟨rfl, rfl⟩, .ofOutcome _⟩)
        hd (.items [])
    | elements k =>
      obtain ⟨t, ht, hd'⟩ := k
      refine .elements ⟨_, fun w => makes_zip.mpr ⟨s, t, w, rfl, hs w, ht w⟩, ?_⟩
      exact Delivers.zip hd hd' (.items [])

end Means

end Rill
