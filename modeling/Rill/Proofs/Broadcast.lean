import Rill.Proofs.Forcing
import Rill.Proofs.Scalars

/-!
# First elements of operators

An operator broadcasts a value over a stream, and pairs the elements of two streams. This module
says how an operator starts if one of its sides is one value, and what is left after the first
element:

* `matches_rest`: beside a stream, the first element is the operator on the value and the first
  element of the stream, both for a value that is known and for a stream with one element, and
  `Ready.Rest` says what is left;
* `exists_firstPulls_once`: beside a known value there is one element, and nothing is left.

From these `matches_of_ready` compares two operands that are the same value, one of which may be
known and the other a stream.
-/

namespace Rill

variable {context : Context} {scope : Scope} {op : Operator} {w w' : World} {v c : Value}
  {item : Option Item} {s t : Stream}

/-! ## One element of two -/

namespace Operator

/-- The element that a value operator makes of two values. -/
def element (op : Operator) (v c : Value) : Item :=
  match op.binary v c with
  | .ok (.value r) => .ok r
  | .ok (.range _ _) => .error .invalidOp
  | .error e => .error e

/-- What a value operator makes of two elements, of which the first error counts. -/
def pair (op : Operator) (x y : Item) : Item := x >>= fun v => y >>= op.element v

theorem binary_ne_range (h : op.isValueOp = true) (v c : Value) (first last : Int) :
    op.binary v c ≠ .ok (.range first last) := by
  have hne : op ≠ .range := by rintro rfl; cases h
  have htruth (b : Bool) : truth b ≠ .ok (.range first last) := nofun
  unfold binary
  split
  · unfold onNumbers
    split <;> first | exact htruth _ | exact absurd rfl hne | (unfold finite; split <;> exact nofun)
                    | exact nofun
  · unfold onTruths
    split <;> first | exact htruth _ | exact nofun
  · unfold onTexts
    split <;> first | exact htruth _ | exact nofun
  · split <;> first | exact htruth _ | exact nofun

/-- What a value operator leaves is one element. -/
theorem ofOutcome_binary (h : op.isValueOp = true) (v c : Value) :
    Calls.ofOutcome (op.binary v c) = .items [op.element v c] := by
  unfold element
  cases e : op.binary v c with
  | error _ => rfl
  | ok r =>
    cases r with
    | value _ => rfl
    | range first last => exact absurd e (binary_ne_range h v c first last)

theorem pairStream_eq (h : op.isValueOp = true) : ∀ x y : Item,
    pairStream op x y = .items [op.pair x y]
  | .ok v, .ok c => ofOutcome_binary h v c
  | .error _, .ok _ | .error _, .error _ | .ok _, .error _ => rfl

end Operator

/-! ## First elements -/

/-- What is made of a stream that has ended has ended. -/
theorem Delivers.flatMap_nil {r : Stream} (h : Delivers context r []) (t : Transform) :
    Delivers context (.flatMap t r .empty) [] := by
  cases h with
  | nil h => exact .nil fun w => pulls_flatMap.mpr (.done pulls_empty (h w))

/-- A function on the elements that are pulled. -/
def PullEnding.map (g : Item → Item) (p : PullEnding) : PullEnding :=
  fun item s w' => ∃ i, p i s w' ∧ item = i.map g

/-- Two endings that match a third match each other. -/
theorem Matches.of_common {R S T : Stream → Stream → Prop} {p q r : PullEnding}
    (h : Matches R p q) (k : Matches S p r)
    (hT : ∀ item s t u w, p (some item) s w → R s t → S s u → T t u) : Matches T q r := by
  refine ⟨fun item t w hq => ?_, fun item u w hr => ?_⟩
  · obtain ⟨s, hp, hst⟩ := h.2 item t w hq
    obtain ⟨u, hr, hsu⟩ := k.1 item s w hp
    refine ⟨u, hr, fun hi => ?_⟩
    obtain ⟨x, rfl⟩ := Option.isSome_iff_exists.mp hi
    exact hT x s t u w hp (hst hi) (hsu hi)
  · obtain ⟨s, hp, hsu⟩ := k.2 item u w hr
    obtain ⟨t, hq, hst⟩ := h.1 item s w hp
    refine ⟨t, hq, fun hi => ?_⟩
    obtain ⟨x, rfl⟩ := Option.isSome_iff_exists.mp hi
    exact hT x s t u w hp (hst hi) (hsu hi)

/-- A transform that makes one element of each. -/
theorem matches_flatMap {f : Transform} {g : Item → Item}
    (hf : ∀ v w s w', Transforms context f v w s w' ↔ s = .items [g (.ok v)] ∧ w' = w)
    (he : ∀ e, g (.error e) = .error e) (input : Stream) :
    Matches (fun r s => s = .flatMap f r .empty) (PullEnding.map g (Pulls context input w))
      (Pulls context (.flatMap f input .empty) w) := by
  have hone (x : Item) (u : World) (r : Stream) : Pulls context (.flatMap f r (.items [x])) u
      (some x) (.flatMap f r .empty) u :=
    pulls_flatMap.mpr (.front (pulls_items_cons.mpr ⟨⟨rfl, rfl⟩, rfl⟩))
  refine ⟨fun item r w' => ?_, fun item s w' p => ?_⟩
  · rintro ⟨_ | _ | v, i, rfl⟩
    · exact ⟨_, pulls_flatMap.mpr (.done pulls_empty i), nofun⟩
    · rename_i e
      refine ⟨_, pulls_flatMap.mpr (.error pulls_empty i ?_), fun _ => rfl⟩
      rw [Option.map_some, he]
      exact hone _ _ _
    · exact ⟨_, pulls_flatMap.mpr (.value pulls_empty i ((hf ..).mpr ⟨rfl, rfl⟩) (hone _ _ _)),
        fun _ => rfl⟩
  · cases pulls_flatMap.mp p with
    | front h => cases (h.det pulls_empty).1
    | done h i =>
      obtain ⟨-, -, rfl⟩ := h.det pulls_empty
      exact ⟨_, ⟨none, i, rfl⟩, nofun⟩
    | error h i k =>
      obtain ⟨-, -, rfl⟩ := h.det pulls_empty
      obtain ⟨rfl, rfl, rfl⟩ := k.det (hone _ _ _)
      exact ⟨_, ⟨_, i, by rw [Option.map_some, he]⟩, fun _ => rfl⟩
    | value h i o k =>
      obtain ⟨-, -, rfl⟩ := h.det pulls_empty
      obtain ⟨rfl, rfl⟩ := (hf ..).mp o
      obtain ⟨rfl, rfl, rfl⟩ := k.det (hone _ _ _)
      exact ⟨_, ⟨_, i, rfl⟩, fun _ => rfl⟩

/-- Two streams are pulled from the left, and a value operator makes one element of each pair. -/
theorem pulls_zip_empty (hop : op.isValueOp = true) {l r : Stream} :
    Pulls context (.zip op l r .empty) w item s w' ↔
      (∃ l', Pulls context l w none l' w' ∧ item = none ∧ s = .zip op .empty .empty .empty) ∨
      ∃ x l' u, Pulls context l w (some x) l' u ∧
        ((∃ r', Pulls context r u none r' w' ∧ item = none ∧ s = .zip op .empty .empty .empty) ∨
          ∃ y r', Pulls context r u (some y) r' w' ∧ item = some (op.pair x y) ∧
            s = .zip op l' r' .empty) := by
  have hone (x y : Item) (l' r' : Stream) (u : World) :
      Pulls context (.zip op l' r' (pairStream op x y)) u (some (op.pair x y))
        (.zip op l' r' .empty) u := by
    rw [Operator.pairStream_eq hop]
    exact pulls_zip.mpr (.front (pulls_items_cons.mpr ⟨⟨rfl, rfl⟩, rfl⟩))
  refine pulls_zip.trans ⟨fun p => ?_, ?_⟩
  · cases p with
    | front h => cases (h.det pulls_empty).1
    | leftDone h hl =>
      obtain ⟨-, -, rfl⟩ := h.det pulls_empty
      exact .inl ⟨_, hl, rfl, rfl⟩
    | rightDone h hl hr =>
      obtain ⟨-, -, rfl⟩ := h.det pulls_empty
      exact .inr ⟨_, _, _, hl, .inl ⟨_, hr, rfl, rfl⟩⟩
    | pair h hl hr k =>
      obtain ⟨-, -, rfl⟩ := h.det pulls_empty
      obtain ⟨rfl, rfl, rfl⟩ := k.det (hone ..)
      exact .inr ⟨_, _, _, hl, .inr ⟨_, _, hr, rfl, rfl⟩⟩
  · rintro (⟨l', hl, rfl, rfl⟩ | ⟨x, l', u, hl, ⟨r', hr, rfl, rfl⟩ | ⟨y, r', hr, rfl, rfl⟩⟩)
    · exact .leftDone pulls_empty hl
    · exact .rightDone pulls_empty hl hr
    · exact .pair pulls_empty hl hr (hone ..)

/-- What has one element, on the left of a stream. -/
theorem matches_zip_left (hop : op.isValueOp = true) {x : Item} {l l' : Stream}
    (hl : Pulls context l w (some x) l' w) (r : Stream) :
    Matches (fun r' s => s = .zip op l' r' .empty) (PullEnding.map (op.pair x) (Pulls context r w))
      (Pulls context (.zip op l r .empty) w) := by
  refine ⟨fun item r' w' => ?_, fun item s w' p => ?_⟩
  · rintro ⟨_ | y, hr, rfl⟩
    · exact ⟨_, (pulls_zip_empty hop).mpr (.inr ⟨_, _, _, hl, .inl ⟨_, hr, rfl, rfl⟩⟩), nofun⟩
    · exact ⟨_, (pulls_zip_empty hop).mpr (.inr ⟨_, _, _, hl, .inr ⟨_, _, hr, rfl, rfl⟩⟩),
        fun _ => rfl⟩
  · obtain ⟨_, h, -⟩ | ⟨_, _, _, h, k⟩ := (pulls_zip_empty hop).mp p
    · cases (h.det hl).1
    · obtain ⟨⟨⟩, rfl, rfl⟩ := h.det hl
      obtain ⟨r', hr, rfl, rfl⟩ | ⟨y, r', hr, rfl, rfl⟩ := k
      · exact ⟨_, ⟨none, hr, rfl⟩, nofun⟩
      · exact ⟨_, ⟨some y, hr, rfl⟩, fun _ => rfl⟩

/-- What has one element, on the right of a stream. -/
theorem matches_zip_right (hop : op.isValueOp = true) {y : Item} {l r : Stream}
    (hr : ∀ {x l' u}, Pulls context l w (some x) l' u →
      ∃ r', Pulls context r u (some y) r' u ∧ Delivers context r' []) :
    Matches (fun l' s => ∃ r', Delivers context r' [] ∧ s = .zip op l' r' .empty)
      (PullEnding.map (op.pair · y) (Pulls context l w))
      (Pulls context (.zip op l r .empty) w) := by
  refine ⟨fun item l' w' => ?_, fun item s w' p => ?_⟩
  · rintro ⟨_ | x, hl, rfl⟩
    · exact ⟨_, (pulls_zip_empty hop).mpr (.inl ⟨_, hl, rfl, rfl⟩), nofun⟩
    · obtain ⟨r', h, hended⟩ := hr hl
      exact ⟨_, (pulls_zip_empty hop).mpr (.inr ⟨_, _, _, hl, .inr ⟨_, _, h, rfl, rfl⟩⟩),
        fun _ => ⟨r', hended, rfl⟩⟩
  · obtain ⟨l', hl, rfl, -⟩ | ⟨x, l', u, hl, k⟩ := (pulls_zip_empty hop).mp p
    · exact ⟨_, ⟨none, hl, rfl⟩, nofun⟩
    · obtain ⟨r', h, hended⟩ := hr hl
      obtain ⟨_, h', -, -⟩ | ⟨_, _, h', rfl, rfl⟩ := k
      · cases (h'.det h).1
      · obtain ⟨⟨⟩, rfl, rfl⟩ := h'.det h
        exact ⟨_, ⟨some x, hl, rfl⟩, fun _ => ⟨_, hended, rfl⟩⟩

/-! ## Factories -/

/-- In whichever of the worlds it is made and pulled, the stream is one value. -/
def Factory.Yields (context : Context) (worlds : World → Prop) (v : Value) (f : Factory) : Prop :=
  ∀ w, worlds w → ∃ s, Makes context f .empty w s w ∧
    ∀ w', worlds w' →
      ∃ s', Pulls context s w' (some (.ok v)) s' w' ∧ Rill.Delivers context s' []

/-- All that using `f` leads to is among the worlds, up to the first element. -/
def Factory.Within (context : Context) (worlds : World → Prop) (w : World) (f : Factory) : Prop :=
  ∀ s u, Makes context f .empty w s u →
    worlds u ∧ ∀ item s' u', Pulls context s u item s' u' → worlds u'

section

variable {worlds : World → Prop} {f g : Factory}

theorem Factory.Yields.firstPulls (h : f.Yields context worlds v) (hw : worlds w) :
    ∃ r, FirstPulls context f .empty w (some (.ok v)) r w ∧ Rill.Delivers context r [] := by
  obtain ⟨s, hs, hpulls⟩ := h w hw
  obtain ⟨r, hr, hended⟩ := hpulls w hw
  exact ⟨r, ⟨s, w, hs, hr⟩, hended⟩

/-- A factory that works on each element of a source. -/
theorem matches_mapped {t : Transform} {h : Item → Item}
    (hf : ∀ s u, Makes context f .empty w s u ↔
      ∃ r, s = .flatMap t r .empty ∧ Makes context g .empty w r u)
    (ht : ∀ v w s w', Transforms context t v w s w' ↔ s = .items [h (.ok v)] ∧ w' = w)
    (he : ∀ e, h (.error e) = .error e) :
    Matches (fun r s => s = .flatMap t r .empty)
      (PullEnding.map h (FirstPulls context g .empty w)) (FirstPulls context f .empty w) := by
  refine ⟨fun item r w' => ?_, fun item s w' => ?_⟩
  · rintro ⟨i, ⟨r₀, u, m, p⟩, rfl⟩
    obtain ⟨s, q, hs⟩ := (matches_flatMap ht he r₀).1 _ r w' ⟨i, p, rfl⟩
    exact ⟨s, ⟨_, u, (hf ..).mpr ⟨r₀, rfl, m⟩, q⟩, hs⟩
  · rintro ⟨s₀, u, m, q⟩
    obtain ⟨r₀, rfl, hr⟩ := (hf ..).mp m
    obtain ⟨r, ⟨i, p, e⟩, hs⟩ := (matches_flatMap ht he r₀).2 item s w' q
    exact ⟨r, ⟨i, ⟨r₀, u, hr, p⟩, e⟩, hs⟩

/-- A known value on the left of a stream. -/
theorem matches_right (hop : op.isValueOp = true) (v : Value) (g : Factory) :
    Matches (fun r s => s = .flatMap (.right op v) r .empty)
      (PullEnding.map (op.pair (.ok v)) (FirstPulls context g .empty w))
      (FirstPulls context (.right op v g) .empty w) := by
  refine matches_mapped (fun _ _ => makes_right) (fun c u s u' => ?_) fun _ => rfl
  rw [transforms_right, Operator.ofOutcome_binary hop]
  rfl

/-- A known value on the right of a stream. -/
theorem matches_left (hop : op.isValueOp = true) (c : Value) (g : Factory) :
    Matches (fun r s => s = .flatMap (.left op c) r .empty)
      (PullEnding.map (op.pair · (.ok c)) (FirstPulls context g .empty w))
      (FirstPulls context (.left op g c) .empty w) := by
  refine matches_mapped (fun _ _ => makes_left) (fun v u s u' => ?_) fun _ => rfl
  rw [transforms_left, Operator.ofOutcome_binary hop]
  rfl

/-- A stream that is one value, on the left of a stream. -/
theorem matches_zip_yields (hop : op.isValueOp = true) (hf : f.Yields context worlds v)
    (hw : worlds w) (hg : g.Within context worlds w) :
    Matches (fun r s => ∃ l, Delivers context l [] ∧ s = .zip op l r .empty)
      (PullEnding.map (op.pair (.ok v)) (FirstPulls context g .empty w))
      (FirstPulls context (.zip op f g) .empty w) := by
  obtain ⟨l, hl, hpulls⟩ := hf w hw
  refine ⟨fun item r w' => ?_, fun item s w' => ?_⟩
  · rintro ⟨i, ⟨r₀, u, m, p⟩, rfl⟩
    obtain ⟨l', hl', hended⟩ := hpulls u (hg r₀ u m).1
    obtain ⟨s, q, hs⟩ := (matches_zip_left hop hl' r₀).1 _ r w' ⟨i, p, rfl⟩
    exact ⟨s, ⟨_, u, makes_zip.mpr ⟨l, r₀, w, rfl, hl, m⟩, q⟩, fun hi => ⟨l', hended, hs hi⟩⟩
  · rintro ⟨s₀, u, m, q⟩
    obtain ⟨l₀, r₀, w₀, rfl, hl₀, hr⟩ := makes_zip.mp m
    obtain ⟨rfl, rfl⟩ := hl₀.det hl
    obtain ⟨l', hl', hended⟩ := hpulls u (hg r₀ u hr).1
    obtain ⟨r, ⟨i, p, e⟩, hs⟩ := (matches_zip_left hop hl' r₀).2 item s w' q
    exact ⟨r, ⟨i, ⟨r₀, u, hr, p⟩, e⟩, fun hi => ⟨l', hended, hs hi⟩⟩

/-- A stream that is one value, on the right of a stream. -/
theorem matches_yields_zip (hop : op.isValueOp = true) (hf : f.Yields context worlds v)
    (hg : g.Within context worlds w) :
    Matches (fun r s => ∃ l, Delivers context l [] ∧ s = .zip op r l .empty)
      (PullEnding.map (op.pair · (.ok v)) (FirstPulls context g .empty w))
      (FirstPulls context (.zip op g f) .empty w) := by
  refine ⟨fun item r w' => ?_, fun item s w' => ?_⟩
  · rintro ⟨i, ⟨r₀, u, m, p⟩, rfl⟩
    obtain ⟨hu, hpulled⟩ := hg r₀ u m
    obtain ⟨l, hl, hpulls⟩ := hf u hu
    obtain ⟨s, q, hs⟩ := (matches_zip_right hop fun p => hpulls _ (hpulled _ _ _ p)).1 _ r w'
      ⟨i, p, rfl⟩
    exact ⟨s, ⟨_, u, makes_zip.mpr ⟨r₀, l, u, rfl, m, hl⟩, q⟩, hs⟩
  · rintro ⟨s₀, u, m, q⟩
    obtain ⟨r₀, l₀, w₀, rfl, hr, hl₀⟩ := makes_zip.mp m
    obtain ⟨hu, hpulled⟩ := hg r₀ w₀ hr
    obtain ⟨l, hl, hpulls⟩ := hf w₀ hu
    obtain ⟨rfl, rfl⟩ := hl₀.det hl
    obtain ⟨r, ⟨i, p, e⟩, hs⟩ :=
      (matches_zip_right hop fun p => hpulls _ (hpulled _ _ _ p)).2 item s w' q
    exact ⟨r, ⟨i, ⟨r₀, u, hr, p⟩, e⟩, hs⟩

end

/-! ## Beside another operand -/

/-- The sides of an operator. -/
inductive Side where
  | left
  | right

/-- An operator on `x`, which stands on a side of it, and `y`. -/
def Side.apply (side : Side) (scope : Scope) (op : Operator) (x y : Operand) : Operand :=
  match side with
  | left => .applyBinary scope op x y
  | right => .applyBinary scope op y x

/-- What a value operator makes of two elements, the first of which stands on a side of it. -/
def Side.pair (side : Side) (op : Operator) (x y : Item) : Item :=
  match side with
  | left => op.pair x y
  | right => op.pair y x

namespace Ready

/-- What does not wait for a parameter is one value: it is known, or all that a stream has. -/
def Yields (context : Context) (worlds : World → Prop) (v : Value) : Ready → Prop
  | known c => c = v
  | lazy f => f.Yields context worlds v

/-- All that it leads to is among the worlds, up to the first element. -/
def Within (context : Context) (worlds : World → Prop) (w : World) : Ready → Prop
  | known _ => True
  | lazy f => f.Within context worlds w

/-- What is left after the first element of an operator between one value and a stream, of which
`r` is left. -/
def Rest (context : Context) (side : Side) (op : Operator) (r s : Stream) : Ready → Prop
  | known v =>
    match side with
    | .left => s = .flatMap (.right op v) r .empty
    | .right => s = .flatMap (.left op v) r .empty
  | lazy _ =>
    match side with
    | .left => ∃ l, Delivers context l [] ∧ s = .zip op l r .empty
    | .right => ∃ l, Delivers context l [] ∧ s = .zip op r l .empty

end Ready

section

variable {side : Side} {worlds : World → Prop} {x y z : Operand} {g : Factory} {a b r : Ready}

/-- A value operator between one value and a stream. -/
theorem matches_rest (side : Side) (hop : op.isValueOp = true) (hx : x.ready? scope = some a)
    (ha : a.Yields context worlds v) (hz : z.ready? scope = some (.lazy g)) (hw : worlds w)
    (hg : g.Within context worlds w) :
    Matches (fun r s => a.Rest context side op r s)
      (PullEnding.map (side.pair op (.ok v)) (FirstPulls context g .empty w))
      (Operand.FirstPulls context scope (side.apply scope op x z) w) := by
  cases side with
  | left =>
    rw [Side.apply, Operand.applyBinary, hx, hz]
    cases a with
    | known c =>
      obtain rfl : c = v := ha
      rw [firstPulls_stream]
      exact matches_right hop c g
    | lazy f =>
      rw [firstPulls_stream]
      exact matches_zip_yields hop ha hw hg
  | right =>
    rw [Side.apply, Operand.applyBinary, hx, hz]
    cases a with
    | known c =>
      obtain rfl : c = v := ha
      rw [firstPulls_stream]
      exact matches_left hop c g
    | lazy f =>
      rw [firstPulls_stream]
      exact matches_yields_zip hop ha hg

/-- A value that is no list is a stream by itself. -/
theorem ofValue_of_kind_ne_list (h : v.kind ≠ .list) : Stream.ofValue v = .once v := by
  unfold Stream.ofValue
  split
  · cases h rfl
  · rfl

/-- What an operator made of two known values has one element. -/
theorem exists_firstPulls_ofOutcome (hop : op.isValueOp = true) (v c : Value) :
    ∃ s, Operand.FirstPulls context scope (.ofOutcome (op.binary v c)) w
      (some (op.element v c)) s w ∧ Delivers context s [] := by
  have hscalar : Outcome.Scalar (op.binary v c) := .binary op v c
  have hone (x : Item) : Pulls context (.items [x]) w (some x) .empty w :=
    pulls_items_cons.mpr ⟨⟨rfl, rfl⟩, rfl⟩
  unfold Operator.element
  cases e : op.binary v c with
  | error _ => exact ⟨_, ⟨_, w, opens_stream.mpr (makes_items.mpr ⟨rfl, rfl⟩), hone _⟩,
    .items []⟩
  | ok r =>
    cases r with
    | range first last => exact absurd e (Operator.binary_ne_range hop v c first last)
    | value r =>
      rw [e] at hscalar
      refine ⟨_, ⟨_, w, opens_value.mpr ⟨rfl, rfl⟩, ?_⟩, Delivers.items []⟩
      rw [ofValue_of_kind_ne_list (Value.Scalar.kind_ne_list hscalar)]
      exact hone _

/-- A value operator between one value and a known value. -/
theorem exists_firstPulls_once (side : Side) (hop : op.isValueOp = true)
    (hx : x.ready? scope = some a) (ha : a.Yields context worlds v)
    (hz : z.ready? scope = some (.known c)) (hw : worlds w) :
    ∃ s, Operand.FirstPulls context scope (side.apply scope op x z) w
      (some (side.pair op (.ok v) (.ok c))) s w ∧ Delivers context s [] := by
  cases a with
  | known u =>
    obtain rfl : u = v := ha
    cases side <;> rw [Side.apply, Operand.applyBinary, hx, hz] <;>
      exact exists_firstPulls_ofOutcome hop _ _
  | lazy f =>
    obtain ⟨r, hr, hended⟩ := Factory.Yields.firstPulls ha hw
    cases side with
    | left =>
      obtain ⟨s, hs, e⟩ := (matches_left hop c f).1 _ r w ⟨_, hr, rfl⟩
      rw [Side.apply, Operand.applyBinary, hx, hz, firstPulls_stream]
      exact ⟨s, hs, e rfl ▸ hended.flatMap_nil _⟩
    | right =>
      obtain ⟨s, hs, e⟩ := (matches_right hop c f).1 _ r w ⟨_, hr, rfl⟩
      rw [Side.apply, Operand.applyBinary, hx, hz, firstPulls_stream]
      exact ⟨s, hs, e rfl ▸ hended.flatMap_nil _⟩

/-- How making the stream of an operand and taking the first element of it ends is a function of the
world. -/
theorem matches_of_firstPulls {R : Stream → Stream → Prop} {w₁ : World}
    (h : Operand.FirstPulls context scope x w item s w₁)
    (k : Operand.FirstPulls context scope y w item t w₁) (hR : R s t) :
    Matches R (Operand.FirstPulls context scope x w) (Operand.FirstPulls context scope y w) := by
  have hdet {z : Operand} {item' : Option Item} {r r' : Stream} {w₂ : World}
      (h : Operand.FirstPulls context scope z w item r w₁)
      (k : Operand.FirstPulls context scope z w item' r' w₂) :
      item' = item ∧ r' = r ∧ w₂ = w₁ := by
    obtain ⟨s₀, w₀, o, p⟩ := h
    obtain ⟨s₀', w₀', o', p'⟩ := k
    obtain ⟨rfl, rfl⟩ := o'.det o
    exact p'.det p
  refine ⟨fun item' r w₂ h' => ?_, fun item' r w₂ k' => ?_⟩
  · obtain ⟨rfl, rfl, rfl⟩ := hdet h h'
    exact ⟨t, k, fun _ => hR⟩
  · obtain ⟨rfl, rfl, rfl⟩ := hdet k k'
    exact ⟨s, h, fun _ => hR⟩

/-- Two operands that are the same value, beside one that is ready: the first elements are the same,
and what is left is related if it is beside what is left of the same stream. -/
theorem matches_of_ready {R : Stream → Stream → Prop} (hop : op.isValueOp = true)
    (hx : x.ready? scope = some a) (ha : a.Yields context worlds v)
    (hy : y.ready? scope = some b) (hb : b.Yields context worlds v)
    (hz : z.ready? scope = some r) (hr : r.Within context worlds w) (hw : worlds w)
    (hended : ∀ s t, Delivers context s [] → Delivers context t [] → R s t)
    (hrest : ∀ g i r' s t u, r = .lazy g → FirstPulls context g .empty w (some i) r' u →
      a.Rest context side op r' s → b.Rest context side op r' t → R s t) :
    Matches R (Operand.FirstPulls context scope (side.apply scope op x z) w)
      (Operand.FirstPulls context scope (side.apply scope op y z) w) := by
  cases r with
  | known c =>
    obtain ⟨s, hs, hs'⟩ := exists_firstPulls_once side hop hx ha hz hw
    obtain ⟨t, ht, ht'⟩ := exists_firstPulls_once side hop hy hb hz hw
    exact matches_of_firstPulls hs ht (hended s t hs' ht')
  | lazy g =>
    have hstarts := matches_rest side hop hx ha hz hw hr
    refine hstarts.of_common (matches_rest side hop hy hb hz hw hr) ?_
    rintro _ r' s t u ⟨_ | i, p, ⟨⟩⟩
    exact hrest g i r' s t u rfl p

end

end Rill
