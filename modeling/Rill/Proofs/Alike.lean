import Mathlib.Data.List.Forall2
import Mathlib.Logic.Relation
import Rill.Proofs.Step

/-!
# Streams that cannot be told apart

Two streams are alike if pulling them gives the same elements and does the same to the world, in
whatever worlds they are pulled (`Alike`). Two factories are alike from a world if the streams that
they make there of an input and of which the first element is taken at once are (`AlikeFrom`). The
stream that stands for operands is alike to the stream of the only one of them
(`Alike.concat_nil`), which is what tells a stage from an operand of a stage.

One stream after another is alike to whatever gives a stream that is in front of it first
(`Fronts.alike`), and operands one after the other are alike if they are one by one
(`Alike.concat`).
-/

namespace Rill

/-- How a pull can end. -/
abbrev PullEnding := Option Item → Stream → World → Prop

/-- Two activities end with the same elements in the same worlds, and what is left is related unless
there was no element. -/
def Matches (R : Stream → Stream → Prop) (p q : PullEnding) : Prop :=
  (∀ item s w, p item s w → ∃ t, q item t w ∧ (item.isSome → R s t)) ∧
  (∀ item t w, q item t w → ∃ s, p item s w ∧ (item.isSome → R s t))

namespace Matches

variable {R S : Stream → Stream → Prop} {p q r : PullEnding}

theorem mono (hRS : ∀ s t, R s t → S s t) (h : Matches R p q) : Matches S p q := by
  refine ⟨fun item s w hp => ?_, fun item t w hq => ?_⟩
  · obtain ⟨t, hq, hR⟩ := h.1 item s w hp
    exact ⟨t, hq, fun hi => hRS s t (hR hi)⟩
  · obtain ⟨s, hp, hR⟩ := h.2 item t w hq
    exact ⟨s, hp, fun hi => hRS s t (hR hi)⟩

theorem refl (hR : ∀ s, R s s) (p : PullEnding) : Matches R p p :=
  ⟨fun _ s _ h => ⟨s, h, fun _ => hR s⟩, fun _ s _ h => ⟨s, h, fun _ => hR s⟩⟩

theorem trans (h : Matches R p q) (k : Matches S q r) : Matches (Relation.Comp R S) p r := by
  refine ⟨fun item s w hp => ?_, fun item u w hr => ?_⟩
  · obtain ⟨t, hq, hR⟩ := h.1 item s w hp
    obtain ⟨u, hr, hS⟩ := k.1 item t w hq
    exact ⟨u, hr, fun hi => ⟨t, hR hi, hS hi⟩⟩
  · obtain ⟨t, hq, hS⟩ := k.2 item u w hr
    obtain ⟨s, hp, hR⟩ := h.2 item t w hq
    exact ⟨s, hp, fun hi => ⟨t, hR hi, hS hi⟩⟩

end Matches

variable {context : Context} {scope : Scope} {s t : Stream} {w w' : World} {item : Option Item}

/-! ## Streams -/

/-- Whatever happens between two pulls, the streams give the same elements and do the same. -/
def Alike (context : Context) (s t : Stream) : Prop :=
  ∃ R : Stream → Stream → Prop,
    R s t ∧ ∀ s t, R s t → ∀ w, Matches R (Pulls context s w) (Pulls context t w)

namespace Alike

theorem pulls (h : Alike context s t) (w : World) :
    Matches (Alike context) (Pulls context s w) (Pulls context t w) := by
  obtain ⟨R, hst, hR⟩ := h
  exact (hR s t hst w).mono fun s t h => ⟨R, h, hR⟩

theorem refl (s : Stream) : Alike context s s :=
  ⟨Eq, rfl, fun _ _ h _ => h ▸ .refl (fun _ => rfl) _⟩

theorem symm (h : Alike context s t) : Alike context t s := by
  obtain ⟨R, hst, hR⟩ := h
  exact ⟨fun t s => R s t, hst, fun t s h w => ⟨(hR s t h w).2, (hR s t h w).1⟩⟩

/-- A relation between streams that goes both ways is followed one way only. -/
theorem of_simulation {R : Stream → Stream → Prop} (hsymm : ∀ {s t}, R s t → R t s)
    (hstep : ∀ {s t}, R s t → ∀ {w item s' w'}, Pulls context s w item s' w' →
      ∃ t', Pulls context t w item t' w' ∧ (item.isSome → R s' t'))
    (h : R s t) : Alike context s t := by
  refine ⟨R, h, fun s t h w => ⟨fun item s' w' k => hstep h k, fun item t' w' k => ?_⟩⟩
  obtain ⟨s', k, hR⟩ := hstep (hsymm h) k
  exact ⟨s', k, fun hi => hsymm (hR hi)⟩

theorem trans {u : Stream} (h : Alike context s t) (k : Alike context t u) : Alike context s u := by
  refine ⟨Relation.Comp (Alike context) (Alike context), ⟨t, h, k⟩, ?_⟩
  rintro s u ⟨t, h, k⟩ w
  exact (h.pulls w).trans (k.pulls w)

/-- Streams that cannot be told apart by one pull cannot be told apart. -/
theorem of_pulls (h : ∀ w, Matches (Alike context) (Pulls context s w) (Pulls context t w)) :
    Alike context s t := by
  refine ⟨fun u v => (u = s ∧ v = t) ∨ Alike context u v, .inl ⟨rfl, rfl⟩, ?_⟩
  rintro u v (⟨rfl, rfl⟩ | k) w
  · exact (h w).mono fun _ _ h => .inr h
  · exact (k.pulls w).mono fun _ _ h => .inr h

end Alike

theorem matches_trans {p q r : PullEnding} (h : Matches (Alike context) p q)
    (k : Matches (Alike context) q r) : Matches (Alike context) p r := by
  refine (h.trans k).mono ?_
  rintro s u ⟨t, hst, htu⟩
  exact hst.trans htu

/-- Streams that are made in the same way, and of which something is made that cannot be told
apart. -/
theorem matches_made {made : Stream → World → Prop} {a b : Stream → Stream}
    (h : ∀ s, Alike context (a s) (b s)) :
    Matches (Alike context)
      (fun item s w' => ∃ s₀ w₀, made s₀ w₀ ∧ Pulls context (a s₀) w₀ item s w')
      (fun item s w' => ∃ s₀ w₀, made s₀ w₀ ∧ Pulls context (b s₀) w₀ item s w') := by
  refine ⟨fun item s w' => ?_, fun item t w' => ?_⟩
  · rintro ⟨s₀, w₀, m, k⟩
    obtain ⟨t, k, hst⟩ := ((h s₀).pulls w₀).1 item s w' k
    exact ⟨t, ⟨s₀, w₀, m, k⟩, hst⟩
  · rintro ⟨s₀, w₀, m, k⟩
    obtain ⟨s, k, hst⟩ := ((h s₀).pulls w₀).2 item t w' k
    exact ⟨s, ⟨s₀, w₀, m, k⟩, hst⟩

/-! ## One stream after another -/

/-- Nothing before a stream makes no difference. -/
theorem Alike.chain_empty (s : Stream) : Alike context s (.chain .empty s) := by
  refine ⟨fun s u => u = .chain .empty s, rfl, ?_⟩
  rintro s _ rfl w
  refine ⟨fun item s' w' h => ?_, fun item u w' h => ?_⟩
  · exact ⟨_, pulls_chain.mpr (.inr ⟨_, s', w, rfl, pulls_empty, h⟩), fun _ => rfl⟩
  · obtain ⟨x, first', -, -, h⟩ | ⟨first', s', w₁, rfl, h, k⟩ := pulls_chain.mp h
    · cases (h.det pulls_empty).1
    · obtain ⟨-, -, rfl⟩ := h.det pulls_empty
      exact ⟨s', k, fun _ => rfl⟩

/-- After a stream, one that has ended makes no difference. -/
theorem Alike.chain_ended (ht : ∀ w, ∃ t', Pulls context t w none t' w) (s : Stream) :
    Alike context s (.chain s t) := by
  refine ⟨fun s u => u = .chain s t, rfl, ?_⟩
  rintro s _ rfl w
  refine ⟨fun item s' w' h => ?_, fun item u w' h => ?_⟩
  · match item with
    | some x => exact ⟨_, pulls_chain.mpr (.inl ⟨x, s', rfl, rfl, h⟩), fun _ => rfl⟩
    | none =>
      obtain ⟨t', k⟩ := ht w'
      exact ⟨_, pulls_chain.mpr (.inr ⟨s', t', w', rfl, h, k⟩), nofun⟩
  · obtain ⟨x, s', rfl, rfl, hs⟩ | ⟨s', t', w₁, rfl, hs, k⟩ := pulls_chain.mp h
    · exact ⟨s', hs, fun _ => rfl⟩
    · obtain ⟨t'', k'⟩ := ht w₁
      obtain ⟨rfl, -, rfl⟩ := k.det k'
      exact ⟨s', hs, nofun⟩

/-- One stream after another can be told apart only by one of them. -/
theorem Alike.chain {s' t' : Stream} (h : Alike context s s') (k : Alike context t t') :
    Alike context (.chain s t) (.chain s' t') := by
  refine of_simulation (R := fun u v => ∃ s s' t t', u = .chain s t ∧ v = .chain s' t' ∧
    Alike context s s' ∧ Alike context t t') ?_ ?_ ⟨s, s', t, t', rfl, rfl, h, k⟩
  · rintro _ _ ⟨s, s', t, t', rfl, rfl, h, k⟩
    exact ⟨s', s, t', t, rfl, rfl, h.symm, k.symm⟩
  · rintro _ _ ⟨s, s', t, t', rfl, rfl, h, k⟩ w item u w' p
    obtain ⟨x, s₁, rfl, rfl, p₁⟩ | ⟨s₁, t₁, w₁, rfl, p₁, q₁⟩ := pulls_chain.mp p
    · obtain ⟨s₂, p₂, hs⟩ := (h.pulls w).1 _ _ _ p₁
      exact ⟨_, pulls_chain.mpr (.inl ⟨x, s₂, rfl, rfl, p₂⟩),
        fun hi => ⟨s₁, s₂, t, t', rfl, rfl, hs hi, k⟩⟩
    · obtain ⟨s₂, p₂, -⟩ := (h.pulls w).1 _ _ _ p₁
      obtain ⟨t₂, q₂, ht⟩ := (k.pulls w₁).1 _ _ _ q₁
      exact ⟨_, pulls_chain.mpr (.inr ⟨s₂, t₂, w₁, rfl, p₂, q₂⟩),
        fun hi => ⟨_, _, t₁, t₂, rfl, rfl, .refl _, ht hi⟩⟩

/-- The stream that is given to `after` comes first, and then what is left without it. -/
def Fronts (context : Context) (after : Stream → Stream) : Prop :=
  ∀ {front s : Stream} {w w' : World} {item : Option Item},
    Pulls context (after front) w item s w' ↔
      (∃ x front', item = some x ∧ s = after front' ∧ Pulls context front w (some x) front' w') ∨
      ∃ front' w₁, Pulls context front w none front' w₁ ∧
        Pulls context (after .empty) w₁ item s w'

/-- What has a stream in front is that stream and then what is left without it. -/
theorem Fronts.alike {after : Stream → Stream} (hafter : Fronts context after) (front : Stream) :
    Alike context (after front) (.chain front (after .empty)) := by
  refine ⟨fun s u => (∃ front, s = after front ∧ u = .chain front (after .empty)) ∨
    Alike context s u, .inl ⟨front, rfl, rfl⟩, ?_⟩
  rintro s u (⟨front, rfl, rfl⟩ | h) w
  · refine ⟨fun item s' w' p => ?_, fun item u w' p => ?_⟩
    · obtain ⟨x, front', rfl, rfl, h⟩ | ⟨front', w₁, h, k⟩ := hafter.mp p
      · exact ⟨_, pulls_chain.mpr (.inl ⟨x, front', rfl, rfl, h⟩), fun _ => .inl ⟨_, rfl, rfl⟩⟩
      · exact ⟨_, pulls_chain.mpr (.inr ⟨front', s', w₁, rfl, h, k⟩),
          fun _ => .inr (.chain_empty s')⟩
    · obtain ⟨x, front', rfl, rfl, h⟩ | ⟨front', s', w₁, rfl, h, k⟩ := pulls_chain.mp p
      · exact ⟨_, hafter.mpr (.inl ⟨x, front', rfl, rfl, h⟩), fun _ => .inl ⟨_, rfl, rfl⟩⟩
      · exact ⟨s', hafter.mpr (.inr ⟨front', w₁, h, k⟩), fun _ => .inr (.chain_empty s')⟩
  · exact (h.pulls w).mono fun _ _ h => .inr h

/-! ## Operands one after the other -/

theorem fronts_concat (scope : Scope) (operands : List Operand) :
    Fronts context (.concat scope operands) := by
  intro front s w w' item
  constructor
  · intro p
    cases pulls_concat.mp p with
    | front h => exact .inl ⟨_, _, rfl, rfl, h⟩
    | done h e => exact .inr ⟨_, _, h, pulls_concat.mpr (.done pulls_empty e)⟩
    | next h e o k => exact .inr ⟨_, _, h, pulls_concat.mpr (.next pulls_empty e o k)⟩
  · rintro (⟨x, front', rfl, rfl, h⟩ | ⟨front', w₁, h, k⟩)
    · exact pulls_concat.mpr (.front h)
    · cases pulls_concat.mp k with
      | front h' => cases (h'.det pulls_empty).1
      | done h' e =>
        obtain ⟨-, -, rfl⟩ := h'.det pulls_empty
        exact pulls_concat.mpr (.done h e)
      | next h' e o k' =>
        obtain ⟨-, -, rfl⟩ := h'.det pulls_empty
        exact pulls_concat.mpr (.next h e o k')

/-- Pulling a stream behind which no operand is left. -/
theorem pulls_concat_nil {u : Stream} :
    Pulls context (.concat scope [] s) w item u w' ↔
      ∃ s', Pulls context s w item s' w' ∧
        u = .concat scope [] (if item.isSome then s' else .empty) := by
  refine pulls_concat.trans ⟨?_, ?_⟩
  · rintro (h | ⟨h, -⟩ | ⟨_, e, _, _⟩)
    · exact ⟨_, h, rfl⟩
    · exact ⟨_, h, rfl⟩
    · cases e
  · rintro ⟨s', h, rfl⟩
    match item with
    | none => exact .done h rfl
    | some _ => exact .front h

/-- The stream of the first operand is made when the first element is taken. -/
theorem pulls_concat_cons {x : Operand} {rest : List Operand} :
    Pulls context (.concat scope (x :: rest) .empty) w item s w' ↔
      ∃ next w₁, Opens context scope x w next w₁ ∧
        Pulls context (.concat scope rest next) w₁ item s w' := by
  refine pulls_concat.trans ⟨?_, ?_⟩
  · rintro (h | ⟨_, e⟩ | ⟨h, e, o, k⟩)
    · cases (h.det pulls_empty).1
    · cases e
    · cases e
      obtain ⟨-, -, rfl⟩ := h.det pulls_empty
      exact ⟨_, _, o, k⟩
  · rintro ⟨next, w₁, o, k⟩
    exact .next pulls_empty rfl o k

/-- No operand behind a stream makes no difference. -/
theorem Alike.concat_nil (scope : Scope) (h : Alike context s t) :
    Alike context s (.concat scope [] t) := by
  refine ⟨fun s u => ∃ t, u = .concat scope [] t ∧ Alike context s t, ⟨t, rfl, h⟩, ?_⟩
  rintro s _ ⟨t, rfl, h⟩ w
  refine ⟨fun item s' w' k => ?_, fun item u w' k => ?_⟩
  · obtain ⟨t', kt, ht⟩ := (h.pulls w).1 item s' w' k
    refine ⟨_, pulls_concat_nil.mpr ⟨t', kt, rfl⟩, fun hi => ⟨t', ?_, ht hi⟩⟩
    rw [if_pos hi]
  · obtain ⟨t', kt, rfl⟩ := pulls_concat_nil.mp k
    obtain ⟨s', ks, ht⟩ := (h.pulls w).2 item t' w' kt
    refine ⟨s', ks, fun hi => ⟨t', ?_, ht hi⟩⟩
    rw [if_pos hi]

/-- In whatever world they are made, the streams of the operands cannot be told apart. -/
def Operand.Alike (context : Context) (scope : Scope) (x y : Operand) : Prop :=
  ∀ w, (∀ s w', Opens context scope x w s w' →
      ∃ t, Opens context scope y w t w' ∧ Rill.Alike context s t) ∧
    ∀ t w', Opens context scope y w t w' →
      ∃ s, Opens context scope x w s w' ∧ Rill.Alike context s t

namespace Operand.Alike

variable {x y : Operand}

theorem refl (x : Operand) : Operand.Alike context scope x x :=
  fun _ => ⟨fun s _ h => ⟨s, h, .refl s⟩, fun s _ h => ⟨s, h, .refl s⟩⟩

theorem symm (h : Operand.Alike context scope x y) : Operand.Alike context scope y x := by
  refine fun w => ⟨fun t w' k => ?_, fun s w' k => ?_⟩
  · obtain ⟨s, k, hst⟩ := (h w).2 t w' k
    exact ⟨s, k, hst.symm⟩
  · obtain ⟨t, k, hst⟩ := (h w).1 s w' k
    exact ⟨t, k, hst.symm⟩

end Operand.Alike

/-- Operands one after the other can be told apart only by one of them. -/
theorem Alike.concat {xs ys : List Operand} (h : List.Forall₂ (Operand.Alike context scope) xs ys)
    (k : Alike context s t) : Alike context (.concat scope xs s) (.concat scope ys t) := by
  refine of_simulation (R := fun u v => ∃ xs ys s t, u = .concat scope xs s ∧
    v = .concat scope ys t ∧ List.Forall₂ (Operand.Alike context scope) xs ys ∧ Alike context s t)
    ?_ ?_ ⟨xs, ys, s, t, rfl, rfl, h, k⟩
  · rintro _ _ ⟨xs, ys, s, t, rfl, rfl, h, k⟩
    exact ⟨ys, xs, t, s, rfl, rfl, h.flip.imp fun _ _ h => Operand.Alike.symm h, k.symm⟩
  · rintro _ _ ⟨xs, ys, s, t, rfl, rfl, h, k⟩ w item u w' p
    induction h generalizing s t w with
    | nil =>
      obtain ⟨s', p', rfl⟩ := pulls_concat_nil.mp p
      obtain ⟨t', q, hst⟩ := (k.pulls w).1 item s' w' p'
      refine ⟨_, pulls_concat_nil.mpr ⟨t', q, rfl⟩, fun hi => ?_⟩
      rw [if_pos hi, if_pos hi]
      exact ⟨_, _, s', t', rfl, rfl, .nil, hst hi⟩
    | cons hx hxs ih =>
      cases pulls_concat.mp p with
      | front p' =>
        obtain ⟨t', q, hst⟩ := (k.pulls w).1 _ _ w' p'
        exact ⟨_, pulls_concat.mpr (.front q),
          fun hi => ⟨_, _, _, t', rfl, rfl, .cons hx hxs, hst hi⟩⟩
      | done p' e => cases e
      | next p' e o p'' =>
        -- the streams in front end together, and those of the next operands take their places
        cases e
        obtain ⟨t', q, -⟩ := (k.pulls w).1 _ _ _ p'
        obtain ⟨next, o', hnext⟩ := (hx _).1 _ _ o
        obtain ⟨v, q', hR⟩ := ih _ next hnext p''
        exact ⟨v, pulls_concat.mpr (.next q rfl o' q'), hR⟩

/-! ## Factories -/

/-- Using a factory, and taking the first element of what it makes. -/
def FirstPulls (context : Context) (f : Factory) (input : Stream) (w : World) : PullEnding :=
  fun item s w' => ∃ s₀ w₀, Makes context f input w s₀ w₀ ∧ Pulls context s₀ w₀ item s w'

/-- Used on `input` in `w`, the factories make streams that cannot be told apart. -/
def AlikeFrom (context : Context) (f g : Factory) (input : Stream) (w : World) : Prop :=
  Matches (Alike context) (FirstPulls context f input w) (FirstPulls context g input w)

variable {f g : Factory} {input : Stream}

theorem firstPulls_sequence {operands : List Operand} :
    FirstPulls context (.sequence scope operands) input w =
      Pulls context (.concat scope operands .empty) w := by
  funext item s w'
  refine propext ⟨?_, fun k => ⟨_, _, makes_sequence.mpr ⟨rfl, rfl⟩, k⟩⟩
  rintro ⟨s₀, w₀, h, k⟩
  obtain ⟨rfl, rfl⟩ := makes_sequence.mp h
  exact k

/-- One operand gives its stream. -/
theorem firstPulls_operand {x : Operand} {w₁ : World} (o : Opens context scope x w s w₁) :
    FirstPulls context (.sequence scope [x]) input w = Pulls context (.concat scope [] s) w₁ := by
  rw [firstPulls_sequence]
  funext item t w'
  refine propext (pulls_concat_cons.trans ⟨?_, fun p => ⟨s, w₁, o, p⟩⟩)
  rintro ⟨s', w₂, o', p⟩
  obtain ⟨rfl, rfl⟩ := Run.Ends.det o' o
  exact p

/-- Factories that start with different elements can be told apart. -/
theorem not_alikeFrom {x y : Option Item} (h : ∃ s w', FirstPulls context f input w x s w')
    (k : ∃ t w', FirstPulls context g input w y t w') (ne : x ≠ y) :
    ¬ AlikeFrom context f g input w := by
  obtain ⟨s, w₁, h⟩ := h
  obtain ⟨t, w₂, t₂, w₄, m₂, p₂⟩ := k
  intro e
  obtain ⟨t', ⟨t₁, w₃, m₁, p₁⟩, -⟩ := e.1 x s w₁ h
  obtain ⟨rfl, rfl⟩ := Run.Ends.det m₁ m₂
  exact ne (p₁.det p₂).1

end Rill
