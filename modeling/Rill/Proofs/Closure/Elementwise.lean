import Rill.Proofs.Arguments
import Rill.Proofs.Closure.Each
import Rill.Proofs.Closure.Keeping

/-!
# Stages that work element by element

What `add`, `get`, a closure, or a composition of them makes of inputs that stand one after the
other is what it makes of each of them (`stages_distribute`). Nothing is asked of the slots and the
bodies of the closures: both streams do the same, in the same order, so they cannot be told apart in
any world.

The laws (`Elementwise`) are those of one stage, and a composition keeps them (`Elementwise.comp`).
Pulling through a transform may take many elements of the input for one of its own, so proofs about
it are by induction on what is taken (`FlatMapPulls`).
-/

namespace Rill

open Eval (pull_mono calls)

variable {context : Context} {t : Transform} {input front s : Stream} {item : Option Item}
  {w w' : World}

/-! ## Pulling through a transform -/

/-- How pulling through a transform ends, with all that is taken from the input for it. -/
inductive FlatMapPulls (context : Context) (t : Transform) :
    Stream → Stream → World → Option Item → Stream → World → Prop
  /-- The stream in front has an element. -/
  | front {input front front' : Stream} {x : Item} {w w' : World}
    (h : Pulls context front w (some x) front' w') :
    FlatMapPulls context t input front w (some x) (.flatMap t input front') w'
  /-- The stream in front and the input have ended. -/
  | done {input front front' input' : Stream} {w w₁ w' : World}
    (h : Pulls context front w none front' w₁) (i : Pulls context input w₁ none input' w') :
    FlatMapPulls context t input front w none (.flatMap t .empty .empty) w'
  /-- The stream in front has ended, and what replaces an element of the input takes its place. -/
  | next {input front front' input' next s : Stream} {x : Item} {item : Option Item}
    {w w₁ w₂ w₃ w' : World} (h : Pulls context front w none front' w₁)
    (i : Pulls context input w₁ (some x) input' w₂) (o : Replaces context t x w₂ next w₃)
    (k : FlatMapPulls context t input' next w₃ item s w') :
    FlatMapPulls context t input front w item s w'

theorem FlatMapPulls.pulls (h : FlatMapPulls context t input front w item s w') :
    Pulls context (.flatMap t input front) w item s w' := by
  induction h with
  | front h => exact pulls_flatMap.mpr (.front h)
  | done h i => exact pulls_flatMap.mpr (.done h i)
  | next h i o _ ih =>
    cases o with
    | error => exact pulls_flatMap.mpr (.error h i ih)
    | value o => exact pulls_flatMap.mpr (.value h i o ih)

theorem pulls_flatMap_iff :
    Pulls context (.flatMap t input front) w item s w' ↔
      FlatMapPulls context t input front w item s w' := by
  refine ⟨fun h => ?_, FlatMapPulls.pulls⟩
  obtain ⟨n, h⟩ := pulls_iff.mp h
  -- the calls keep their fuel, and the induction is on that of the loop
  suffices hloop : ∀ (fuel : Nat) {input front : Stream} {w : World},
      (calls context n).pullFlatMap t fuel input front w = some ((item, s), w') →
        FlatMapPulls context t input front w item s w' from hloop n (h n (Nat.le_refl n))
  intro fuel
  induction fuel with
  | zero => intro _ _ _ h; cases h
  | succ fuel ih =>
    intro input front w h
    obtain ⟨⟨_ | x, front'⟩, w₁, hfront, h⟩ := Run.bind_eq_some.mp h
    · obtain ⟨⟨y, input'⟩, w₂, hinput, h⟩ := Run.bind_eq_some.mp h
      have hfront := (pull_mono front).ends hfront
      have hinput := (pull_mono input).ends hinput
      match y with
      | none =>
        cases h
        exact .done hfront hinput
      | some (.error e) => exact .next hfront hinput (.error e _) (ih h)
      | some (.ok v) =>
        obtain ⟨next, w₃, hnext, h⟩ := Run.bind_eq_some.mp h
        exact .next hfront hinput (.value ((transform_mono t v).ends hnext)) (ih h)
    · cases h
      exact .front ((pull_mono front).ends hfront)

/-- Without a stream in front the pull begins with the input. -/
theorem pulls_flatMap_empty :
    Pulls context (.flatMap t input .empty) w item s w' ↔
      (item = none ∧ s = .flatMap t .empty .empty ∧ ∃ input', Pulls context input w none input' w') ∨
      ∃ x input' next w₁ w₂, Pulls context input w (some x) input' w₁ ∧
        Replaces context t x w₁ next w₂ ∧ Pulls context (.flatMap t input' next) w₂ item s w' := by
  refine pulls_flatMap_iff.trans ⟨?_, ?_⟩
  · rintro (h | ⟨h, i⟩ | ⟨h, i, o, k⟩)
    · cases (h.det pulls_empty).1
    · obtain ⟨-, -, rfl⟩ := h.det pulls_empty
      exact .inl ⟨rfl, rfl, _, i⟩
    · obtain ⟨-, -, rfl⟩ := h.det pulls_empty
      exact .inr ⟨_, _, _, _, _, i, o, k.pulls⟩
  · rintro (⟨rfl, rfl, input', i⟩ | ⟨x, input', next, w₁, w₂, i, o, k⟩)
    · exact .done pulls_empty i
    · exact .next pulls_empty i o (pulls_flatMap_iff.mp k)

/-- A stream in front that has ended has no part in the pull. -/
theorem pulls_flatMap_ended {front' : Stream} {w₁ : World}
    (h : Pulls context front w none front' w₁) :
    Pulls context (.flatMap t input front) w = Pulls context (.flatMap t input .empty) w₁ := by
  funext item s w'
  refine propext ⟨fun p => ?_, pulls_flatMap_of_ended h⟩
  cases pulls_flatMap_iff.mp p with
  | front h' => cases (h.det h').1
  | done h' i =>
    obtain ⟨-, -, rfl⟩ := h.det h'
    exact pulls_flatMap_empty.mpr (.inl ⟨rfl, rfl, _, i⟩)
  | next h' i o k =>
    obtain ⟨-, -, rfl⟩ := h.det h'
    exact pulls_flatMap_empty.mpr (.inr ⟨_, _, _, _, _, i, o, k.pulls⟩)

/-- What is taken from the input is replaced, and the pull goes on with that. -/
theorem pulls_flatMap_replaced {front' input' next : Stream} {x : Item} {w₁ w₂ w₃ : World}
    (h : Pulls context front w none front' w₁) (i : Pulls context input w₁ (some x) input' w₂)
    (o : Replaces context t x w₂ next w₃) :
    Pulls context (.flatMap t input front) w = Pulls context (.flatMap t input' next) w₃ :=
  (pulls_flatMap_ended h).trans (pulls_flatMap_next i o)

/-! ## Pulling two streams -/

/-- A stream that has ended has no part in pulling it and another. -/
theorem pulls_chain_ended {first first' second : Stream} {w₁ : World}
    (h : Pulls context first w none first' w₁) :
    Pulls context (.chain first second) w = Pulls context (.chain .empty second) w₁ := by
  funext item s w'
  refine propext (pulls_chain.trans (Iff.trans ⟨?_, ?_⟩ pulls_chain.symm))
  · rintro (⟨x, _, -, -, k⟩ | ⟨_, second', _, rfl, k, k'⟩)
    · cases (h.det k).1
    · obtain ⟨-, -, rfl⟩ := h.det k
      exact .inr ⟨_, second', _, rfl, pulls_empty, k'⟩
  · rintro (⟨x, _, -, -, k⟩ | ⟨_, second', _, rfl, k, k'⟩)
    · cases (k.det pulls_empty).1
    · obtain ⟨-, -, rfl⟩ := k.det pulls_empty
      exact .inr ⟨_, second', _, rfl, h, k'⟩

/-- Pulling two streams depends on the first as far as it depends on pulling that. -/
theorem pulls_chain_congr {first first' second : Stream} {w₁ : World}
    (e : Pulls context first w = Pulls context first' w₁) :
    Pulls context (.chain first second) w = Pulls context (.chain first' second) w₁ := by
  funext item s w'
  rw [pulls_chain, pulls_chain, e]

/-! ## What the stages have in common -/

/-- What `run` makes of inputs that stand one after the other is what it makes of each of them. -/
structure Elementwise (context : Context) (run : Stream → Stream) : Prop where
  /-- Inputs that cannot be told apart are not told apart by the stage. -/
  congr {a b : Stream} : Alike context a b → Alike context (run a) (run b)
  /-- The elements of the second input come after those of the first. -/
  chain (a b : Stream) : Alike context (run (.chain a b)) (.chain (run a) (run b))
  /-- Nothing is made of nothing. -/
  empty : Alike context (run .empty) .empty
  /-- An error stays an error. -/
  fail (e : Error) : Alike context (run (.fail e)) (.fail e)

/-- A stage behind another. -/
theorem Elementwise.comp {f g : Stream → Stream} (hg : Elementwise context g)
    (hf : Elementwise context f) : Elementwise context (g ∘ f) where
  congr h := hg.congr (hf.congr h)
  chain a b := (hg.congr (hf.chain a b)).trans (hg.chain _ _)
  empty := (hg.congr hf.empty).trans hg.empty
  fail e := (hg.congr (hf.fail e)).trans (hg.fail e)

/-! ## Adding a value -/

theorem Alike.add (amount : Value) {a b : Stream} (h : Alike context a b) :
    Alike context (.add amount a) (.add amount b) := by
  refine of_simulation (R := fun u v => ∃ a b, u = .add amount a ∧ v = .add amount b ∧
    Alike context a b) ?_ ?_ ⟨a, b, rfl, rfl, h⟩
  · rintro _ _ ⟨a, b, rfl, rfl, h⟩
    exact ⟨b, a, rfl, rfl, h.symm⟩
  · rintro _ _ ⟨a, b, rfl, rfl, h⟩ w item s w' p
    obtain ⟨x, a', rfl, rfl, pa⟩ := pulls_add.mp p
    obtain ⟨b', pb, hab⟩ := (h.pulls w).1 _ _ _ pa
    refine ⟨_, pulls_add.mpr ⟨x, b', rfl, rfl, pb⟩, fun hi => ⟨a', b', rfl, rfl, hab ?_⟩⟩
    rwa [Option.isSome_map] at hi

theorem Alike.add_chain (amount : Value) (a b : Stream) :
    Alike context (.add amount (.chain a b)) (.chain (.add amount a) (.add amount b)) := by
  -- when the first input has ended, what is left of it is `.empty`
  have hrest (s : Stream) : Alike context (.add amount (.chain .empty s))
      (.chain .empty (.add amount s)) :=
    ((chain_empty s).symm.add amount).trans (chain_empty _)
  refine ⟨fun u v => (∃ a b, u = .add amount (.chain a b) ∧
    v = .chain (.add amount a) (.add amount b)) ∨ Alike context u v, .inl ⟨a, b, rfl, rfl⟩, ?_⟩
  rintro u v (⟨a, b, rfl, rfl⟩ | h) w
  · constructor
    · intro item s w' p
      obtain ⟨x, _, rfl, rfl, pc⟩ := pulls_add.mp p
      obtain ⟨y, a', rfl, rfl, pa⟩ | ⟨a', b', w₁, rfl, pa, pb⟩ := pulls_chain.mp pc
      · exact ⟨_, pulls_chain.mpr (.inl ⟨_, _, rfl, rfl, pulls_add.mpr ⟨_, _, rfl, rfl, pa⟩⟩),
          fun _ => .inl ⟨a', b, rfl, rfl⟩⟩
      · exact ⟨_, pulls_chain.mpr (.inr ⟨_, _, w₁, rfl, pulls_add.mpr ⟨_, _, rfl, rfl, pa⟩,
          pulls_add.mpr ⟨_, _, rfl, rfl, pb⟩⟩), fun _ => .inr (hrest b')⟩
    · intro item s w' p
      obtain ⟨y, _, rfl, rfl, pa⟩ | ⟨_, _, w₁, rfl, pa, pb⟩ := pulls_chain.mp p
      · obtain ⟨x, a', e, rfl, pa'⟩ := pulls_add.mp pa
        obtain ⟨z, rfl, rfl⟩ := Option.map_eq_some_iff.mp e.symm
        exact ⟨_, pulls_add.mpr ⟨_, _, rfl, rfl, pulls_chain.mpr (.inl ⟨z, a', rfl, rfl, pa'⟩)⟩,
          fun _ => .inl ⟨a', b, rfl, rfl⟩⟩
      · obtain ⟨x, a', e, rfl, pa'⟩ := pulls_add.mp pa
        obtain rfl := Option.map_eq_none_iff.mp e.symm
        obtain ⟨y, b', rfl, rfl, pb'⟩ := pulls_add.mp pb
        exact ⟨_, pulls_add.mpr ⟨_, _, rfl, rfl,
            pulls_chain.mpr (.inr ⟨a', b', w₁, rfl, pa', pb'⟩)⟩,
          fun _ => .inr (hrest b')⟩
  · exact (h.pulls w).mono fun _ _ h => .inr h

theorem Delivers.add {xs : List Item} (amount : Value) (h : Delivers context s xs) :
    Delivers context (.add amount s) (xs.map (Calls.added amount)) := by
  induction h with
  | nil h => exact .nil fun w => pulls_add.mpr ⟨_, _, rfl, rfl, h w⟩
  | cons h _ ih => exact .cons (fun w => pulls_add.mpr ⟨_, _, rfl, rfl, h w⟩) ih

theorem elementwise_add (context : Context) (amount : Value) :
    Elementwise context (.add amount) where
  congr h := h.add amount
  chain := Alike.add_chain amount
  empty := (Delivers.add amount (.items [])).alike (.items [])
  fail e := (Delivers.add amount (.items [.error e])).alike (.items [.error e])

/-! ## Transforms -/

theorem Alike.flatMap (t : Transform) {a b f g : Stream} (h : Alike context a b)
    (k : Alike context f g) : Alike context (.flatMap t a f) (.flatMap t b g) := by
  refine of_simulation (R := fun u v => ∃ a b f g, u = .flatMap t a f ∧ v = .flatMap t b g ∧
    Alike context a b ∧ Alike context f g) ?_ ?_ ⟨a, b, f, g, rfl, rfl, h, k⟩
  · rintro _ _ ⟨a, b, f, g, rfl, rfl, h, k⟩
    exact ⟨b, a, g, f, rfl, rfl, h.symm, k.symm⟩
  · rintro _ _ ⟨a, b, f, g, rfl, rfl, h, k⟩ w item s w' p
    induction pulls_flatMap_iff.mp p generalizing b g with
    | front pf =>
      obtain ⟨g', pg, hfg⟩ := (k.pulls _).1 _ _ _ pf
      exact ⟨_, pulls_flatMap.mpr (.front pg), fun hi => ⟨_, b, _, g', rfl, rfl, h, hfg hi⟩⟩
    | done pf pa =>
      obtain ⟨g', pg, -⟩ := (k.pulls _).1 _ _ _ pf
      obtain ⟨b', pb, -⟩ := (h.pulls _).1 _ _ _ pa
      exact ⟨_, pulls_flatMap.mpr (.done pg pb), nofun⟩
    | next pf pa o p' ih =>
      obtain ⟨g', pg, -⟩ := (k.pulls _).1 _ _ _ pf
      obtain ⟨b', pb, hab⟩ := (h.pulls _).1 _ _ _ pa
      rw [pulls_flatMap_replaced pg pb o]
      exact ih b' _ (hab rfl) (.refl _) p'.pulls

variable (b : Stream) {a f : Stream}

/-- What is left of a transform of two inputs while the first has not ended, and what is left of the
transforms of each. -/
def Distributes (context : Context) (t : Transform) (b u v : Stream) : Prop :=
  (∃ a f, u = .flatMap t (.chain a b) f ∧ v = .chain (.flatMap t a f) (.flatMap t b .empty)) ∨
    Alike context u v

/-- By induction on what is taken from the first input. -/
theorem matches_flatMap_chain (h : FlatMapPulls context t a f w item s w') :
    Matches (Distributes context t b) (Pulls context (.flatMap t (.chain a b) f) w)
      (Pulls context (.chain (.flatMap t a f) (.flatMap t b .empty)) w) := by
  induction h with
  | @front a f f' x w w' hf =>
    have hl : Pulls context (.flatMap t (.chain a b) f) w (some x)
        (.flatMap t (.chain a b) f') w' := pulls_flatMap.mpr (.front hf)
    have hr : Pulls context (.chain (.flatMap t a f) (.flatMap t b .empty)) w (some x)
        (.chain (.flatMap t a f') (.flatMap t b .empty)) w' :=
      pulls_chain.mpr (.inl ⟨x, _, rfl, rfl, pulls_flatMap.mpr (.front hf)⟩)
    refine ⟨fun item s w'' k => ?_, fun item s w'' k => ?_⟩
    · obtain ⟨rfl, rfl, rfl⟩ := k.det hl
      exact ⟨_, hr, fun _ => .inl ⟨a, f', rfl, rfl⟩⟩
    · obtain ⟨rfl, rfl, rfl⟩ := k.det hr
      exact ⟨_, hl, fun _ => .inl ⟨a, f', rfl, rfl⟩⟩
  | @done a f f' a' w w₁ w' hf ha =>
    -- both sides go on with the second input alone
    have hl : Pulls context (.flatMap t (.chain a b) f) w =
        Pulls context (.flatMap t (.chain .empty b) .empty) w' := by
      rw [pulls_flatMap_ended hf]
      funext item s w''
      rw [pulls_flatMap_empty, pulls_flatMap_empty, pulls_chain_ended ha]
    have hr : Pulls context (.chain (.flatMap t a f) (.flatMap t b .empty)) w =
        Pulls context (.chain .empty (.flatMap t b .empty)) w' :=
      pulls_chain_ended (pulls_flatMap.mpr (.done hf ha))
    rw [hl, hr]
    have halike : Alike context (.flatMap t (.chain .empty b) .empty)
        (.chain .empty (.flatMap t b .empty)) :=
      ((Alike.chain_empty b).symm.flatMap t (.refl _)).trans (.chain_empty _)
    exact (halike.pulls w').mono fun _ _ h => .inr h
  | next hf ha o _ ih =>
    rw [pulls_flatMap_replaced hf (pulls_chain.mpr (.inl ⟨_, _, rfl, rfl, ha⟩)) o,
      pulls_chain_congr (pulls_flatMap_replaced hf ha o)]
    exact ih

/-- Whatever is pulled, the transform of the first input is pulled for it. -/
theorem flatMapPulls_of_chain (h : FlatMapPulls context t (.chain a b) f w item s w') :
    ∃ item₁ s₁ w₁, FlatMapPulls context t a f w item₁ s₁ w₁ := by
  generalize hc : Stream.chain a b = c at h
  induction h generalizing a with
  | front hf => exact ⟨_, _, _, .front hf⟩
  | done hf i =>
    subst hc
    obtain ⟨_, _, e, -⟩ | ⟨_, _, _, -, ha, -⟩ := pulls_chain.mp i
    · cases e
    · exact ⟨_, _, _, .done hf ha⟩
  | next hf i o _ ih =>
    subst hc
    obtain ⟨_, _, e, rfl, ha⟩ | ⟨_, _, _, -, ha, -⟩ := pulls_chain.mp i
    · cases e
      obtain ⟨_, _, _, h⟩ := ih rfl
      exact ⟨_, _, _, .next hf ha o h⟩
    · exact ⟨_, _, _, .done hf ha⟩

theorem Alike.flatMap_chain (t : Transform) (a b f : Stream) :
    Alike context (.flatMap t (.chain a b) f) (.chain (.flatMap t a f) (.flatMap t b .empty)) := by
  refine ⟨Distributes context t b, .inl ⟨a, f, rfl, rfl⟩, ?_⟩
  rintro u v (⟨a, f, rfl, rfl⟩ | h) w
  · refine ⟨fun item s w' p => ?_, fun item s w' p => ?_⟩
    · obtain ⟨_, _, _, h⟩ := flatMapPulls_of_chain b (pulls_flatMap_iff.mp p)
      exact (matches_flatMap_chain b h).1 item s w' p
    · obtain ⟨_, _, -, -, h⟩ | ⟨_, _, _, -, h, -⟩ := pulls_chain.mp p
      all_goals exact (matches_flatMap_chain b (pulls_flatMap_iff.mp h)).2 item s w' p
  · exact (h.pulls w).mono fun _ _ h => .inr h

theorem elementwise_flatMap (context : Context) (t : Transform) :
    Elementwise context fun input => .flatMap t input .empty := by
  have hempty : Delivers context (.flatMap t .empty .empty) [] :=
    .nil fun _ => pulls_flatMap.mpr (.done pulls_empty pulls_empty)
  have hfail (e : Error) : Delivers context (.flatMap t (.fail e) .empty) [.error e] := by
    have herror (w : World) : Pulls context (.fail e) w (some (.error e)) .empty w :=
      pulls_items_cons.mpr ⟨⟨rfl, rfl⟩, rfl⟩
    refine .cons (fun w => pulls_flatMap.mpr ?_) hempty
    exact .error pulls_empty (herror w) (pulls_flatMap.mpr (.front (herror w)))
  exact {
    congr := fun h => h.flatMap t (.refl _)
    chain := fun a b => .flatMap_chain t a b .empty
    empty := hempty.alike (.items [])
    fail := fun e => (hfail e).alike (.items [.error e]) }

/-! ## What is given -/

/-- Pulling `s` again and again begins with the elements of a list. -/
inductive Begins (context : Context) : Stream → World → List Item → World → Prop
  | nil {s : Stream} {w : World} : Begins context s w [] w
  | cons {s s' : Stream} {w w₁ w' : World} {x : Item} {xs : List Item}
    (h : Pulls context s w (some x) s' w₁) (k : Begins context s' w₁ xs w') :
    Begins context s w (x :: xs) w'

variable {u : Stream} {xs : List Item}

theorem Alike.begins (h : Alike context s u) (k : Begins context s w xs w') :
    Begins context u w xs w' := by
  induction k generalizing u with
  | nil => exact .nil
  | cons p _ ih =>
    obtain ⟨_, q, h⟩ := (h.pulls _).1 _ _ _ p
    exact .cons q (ih (h rfl))

theorem Begins.chain (h : Begins context s w xs w') (second : Stream) :
    Begins context (.chain s second) w xs w' := by
  induction h with
  | nil => exact .nil
  | cons p _ ih => exact .cons (pulls_chain.mpr (.inl ⟨_, _, rfl, rfl, p⟩)) ih

theorem Alike.drains (h : Alike context s u) (k : Drains context s w xs w') :
    Drains context u w xs w' := by
  induction k generalizing u with
  | nil p =>
    obtain ⟨_, q, -⟩ := (h.pulls _).1 _ _ _ p
    exact .nil q
  | cons p _ ih =>
    obtain ⟨_, q, h⟩ := (h.pulls _).1 _ _ _ p
    exact .cons q (ih (h rfl))

/-- Two streams are pulled to their ends one after the other. -/
theorem drains_chain {first second : Stream} :
    Drains context (.chain first second) w xs w' ↔
      ∃ ys zs w₁, xs = ys ++ zs ∧ Drains context first w ys w₁ ∧ Drains context second w₁ zs w' := by
  constructor
  · intro h
    generalize hc : Stream.chain first second = c at h
    induction h generalizing first with
    | nil p =>
      subst hc
      obtain ⟨_, _, e, -⟩ | ⟨_, _, _, -, p, q⟩ := pulls_chain.mp p
      · cases e
      · exact ⟨[], [], _, rfl, .nil p, .nil q⟩
    | cons p k ih =>
      subst hc
      obtain ⟨_, _, e, rfl, p⟩ | ⟨_, _, _, rfl, p, q⟩ := pulls_chain.mp p
      · cases e
        obtain ⟨ys, zs, _, rfl, hfirst, hsecond⟩ := ih rfl
        exact ⟨_ :: ys, zs, _, rfl, .cons p hfirst, hsecond⟩
      · exact ⟨[], _, _, rfl, .nil p, .cons q ((Alike.chain_empty _).symm.drains k)⟩
  · rintro ⟨ys, zs, w₁, rfl, hfirst, hsecond⟩
    induction hfirst with
    | nil p =>
      refine ((Alike.chain_empty second).drains hsecond).of_pulls fun item s' w' q => ?_
      rwa [pulls_chain_ended p]
    | cons p _ ih => exact .cons (pulls_chain.mpr (.inl ⟨_, _, rfl, rfl, p⟩)) (ih hsecond)

variable {worlds : World → Prop}

theorem Alike.continues (h : Alike context s u) (k : Continues context worlds s w xs) :
    Continues context worlds u w xs := by
  induction xs generalizing s u w with
  | nil =>
    obtain ⟨_, w', p, hw⟩ := k
    obtain ⟨_, q, -⟩ := (h.pulls w).1 _ _ _ p
    exact ⟨_, w', q, hw⟩
  | cons x xs ih =>
    obtain ⟨_, w', p, hw, k⟩ := k
    obtain ⟨_, q, h⟩ := (h.pulls w).1 _ _ _ p
    exact ⟨_, w', q, hw, fun w₁ hw₁ => ih (h rfl) (k w₁ hw₁)⟩

theorem Alike.deliversIn (h : Alike context s u) (k : DeliversIn context worlds s xs) :
    DeliversIn context worlds u xs := fun w hw => h.continues (k w hw)

/-- One stream after another delivers both lists. -/
theorem DeliversIn.chain {first second : Stream} {ys : List Item}
    (h : DeliversIn context worlds first xs) (k : DeliversIn context worlds second ys) :
    DeliversIn context worlds (.chain first second) (xs ++ ys) := by
  have hfirst {first first' : Stream} {x : Item} {w w' : World}
      (p : Pulls context first w (some x) first' w') :
      Pulls context (.chain first second) w (some x) (.chain first' second) w' :=
    pulls_chain.mpr (.inl ⟨_, _, rfl, rfl, p⟩)
  refine after_front hfirst h fun p hw => ?_
  refine ((Alike.chain_empty second).continues (k _ hw)).of_pulls fun _ _ _ q => ?_
  rwa [pulls_chain_ended p]

/-! ## Compositions -/

/-- A composition of stages that work element by element: used in one world, it leaves another and
does `run` to its input. -/
inductive Stages (context : Context) : World → Factory → (Stream → Stream) → World → Prop
  | add {scope : Scope} {args : List Operand} {amount : Value} {more : List Value} {w w' : World}
    (h : CollectsAll context scope args w (.ok (amount :: more)) w') :
    Stages context w (.builtin .add scope args) (.add amount) w'
  | get {scope : Scope} {args : List Operand} {path : Value} {more : List Value} {w w' : World}
    (h : CollectsAll context scope args w (.ok (path :: more)) w') :
    Stages context w (.builtin .get scope args)
      (fun input => .flatMap (.get (segments path.render)) input .empty) w'
  | each (body : Factory) (w : World) :
    Stages context w (.each body) (fun input => .flatMap (.each body) input .empty) w
  | bind (slot : Handle) (body : Factory) (w : World) :
    Stages context w (.bind slot body) (fun input => .flatMap (.bind slot body) input .empty) w
  | compose {first second : Factory} {f g : Stream → Stream} {w w₁ w' : World}
    (h : Stages context w first f w₁) (k : Stages context w₁ second g w') :
    Stages context w (.compose first second) (g ∘ f) w'

namespace Stages

variable {stages : Factory} {run : Stream → Stream}

theorem makes (h : Stages context w stages run w') {w'' : World} :
    Makes context stages input w s w'' ↔ s = run input ∧ w'' = w' := by
  induction h generalizing input s w'' with
  | add h => exact makes_builtin_of_collects (by decide) h
  | get h => exact makes_builtin_of_collects (by decide) h
  | each => exact makes_each
  | bind => exact makes_bind
  | compose _ _ ih₁ ih₂ =>
    refine makes_compose.trans ⟨?_, ?_⟩
    · rintro ⟨t, w₁, h, k⟩
      obtain ⟨rfl, rfl⟩ := ih₁.mp h
      exact ih₂.mp k
    · rintro ⟨rfl, rfl⟩
      exact ⟨_, _, ih₁.mpr ⟨rfl, rfl⟩, ih₂.mpr ⟨rfl, rfl⟩⟩

theorem elementwise (h : Stages context w stages run w') : Elementwise context run := by
  induction h with
  | add => exact elementwise_add context _
  | get => exact elementwise_flatMap context _
  | each => exact elementwise_flatMap context _
  | bind => exact elementwise_flatMap context _
  | compose _ _ ih₁ ih₂ => exact ih₂.comp ih₁

end Stages

/-- A composition of stages that work element by element makes of inputs that stand one after the
other what it makes of each of them. So an error of the input stays in its place, and what has been
given for the beginning of an input does not depend on what follows. -/
theorem stages_distribute {stages : Factory} {run : Stream → Stream} {w₀ w₀' : World}
    (h : Stages context w₀ stages run w₀') :
    (∀ input s w', Makes context stages input w₀ s w' ↔ s = run input ∧ w' = w₀') ∧
    (∀ a b, Alike context (run (.chain a b)) (.chain (run a) (run b))) ∧
    Alike context (run .empty) .empty ∧
    (∀ e, Alike context (run (.fail e)) (.fail e)) ∧
    (∀ a e b, Alike context (run (.chain a (.chain (.fail e) b)))
      (.chain (run a) (.chain (.fail e) (run b)))) ∧
    (∀ a b w xs w', Drains context (run (.chain a b)) w xs w' ↔
      ∃ ys zs w₁, xs = ys ++ zs ∧ Drains context (run a) w ys w₁ ∧
        Drains context (run b) w₁ zs w') ∧
    (∀ worlds a b ys zs, DeliversIn context worlds (run a) ys →
      DeliversIn context worlds (run b) zs →
        DeliversIn context worlds (run (.chain a b)) (ys ++ zs)) ∧
    ∀ a b w xs w', Begins context (run a) w xs w' → Begins context (run (.chain a b)) w xs w' := by
  have hrun := h.elementwise
  refine ⟨fun _ _ _ => h.makes, hrun.chain, hrun.empty, hrun.fail, fun a e b => ?_,
    fun a b w xs w' => ?_, fun worlds a b ys zs hy hz => ?_, fun a b w xs w' k => ?_⟩
  · exact (hrun.chain a _).trans (.chain (.refl _)
      ((hrun.chain _ b).trans (.chain (hrun.fail e) (.refl _))))
  · rw [← drains_chain]
    exact ⟨(hrun.chain a b).drains, (hrun.chain a b).symm.drains⟩
  · exact (hrun.chain a b).symm.deliversIn (hy.chain hz)
  · exact (hrun.chain a b).symm.begins (k.chain _)

/-- `add ! | { n -> n n }` on `x`, an error and `y`: the error stays between what is made of the two,
in whatever world the stages are used, as long as the slot is live. -/
theorem stages_distribute_around_error :
    let slot : Handle := ⟨0, 0⟩
    let stages : Factory := .compose (.builtin .add .empty [.value (.string "!")])
      (.bind slot (.sequence .ofParameter [.word "n", .word "n"]))
    let input := fun text => Stream.items [.ok (.string text)]
    World.Live (.ofParameter .null) slot ∧
    ∃ run, (∀ w, Stages {} w stages run w) ∧
      DeliversIn {} (·.Live slot)
        (run (.chain (input "x") (.chain (.fail .invalidOp) (input "y"))))
        [.ok (.string "x!"), .ok (.string "x!"), .error .invalidOp, .ok (.string "y!"),
          .ok (.string "y!")] := by
  intro slot stages input
  have hamount (w : World) :
      CollectsAll {} .empty [.value (.string "!")] w (.ok [.string "!"]) w :=
    collectsAll_cons.mpr
      (.inr ⟨_, _, .ok [], collects_value _, collectsAll_nil.mpr ⟨rfl, rfl⟩, rfl⟩)
  have hstages (w : World) : Stages {} w stages _ w := .compose (.add (hamount w)) (.bind slot _ w)
  refine ⟨⟨_, rfl⟩, _, hstages, ?_⟩
  have hword (v : Value) : (Operand.word "n").DeliversIn {} (·.Holds slot v) .ofParameter
      (valueItems v) := fun w hw => by
    have hself : v.project ((segments "n").drop 1) = v := by cases v <;> rfl
    have hreads : Operand.Reads {} .ofParameter slot (.word "n") _ := .word rfl
    obtain ⟨s, ho, hs⟩ := hreads hw
    exact ⟨s, w, ho, hw, .of_delivers (hself ▸ hs)⟩
  have hbind (v : Value) (w : World) (hw : w.Live slot) : ∃ s w', Transforms {}
      (.bind slot (.sequence .ofParameter [.word "n", .word "n"])) v w s w' ∧ w'.Live slot ∧
        DeliversIn {} (·.Live slot) s (valueItems v ++ valueItems v) := by
    refine ⟨_, _, transforms_bind.mpr ⟨_, rfl, makes_sequence.mpr ⟨rfl, rfl⟩⟩,
      (hw.holds_store v).live, ?_⟩
    have hwords := (AllDeliver.singleton (hword v)).append (.singleton (hword v))
    have hempty : DeliversIn {} (·.Holds slot v) .empty [] := .of_delivers (.items [])
    exact .bound (fun _ hw => hw.holds_store v) (fun _ => World.Holds.live) (hempty.concat hwords)
  have hrun {input : Stream} {xs : List Item} (h : Delivers {} input xs) :=
    DeliversIn.flatMap hbind (.of_delivers (h.add (.string "!"))) (.of_delivers (.items []))
  obtain ⟨-, -, -, hfail, -, -, hchain, -⟩ :=
    stages_distribute (hstages (.ofParameter .null))
  have herror : DeliversIn {} (·.Live slot) (.fail .invalidOp) [.error .invalidOp] :=
    .of_delivers (.items _)
  exact hchain _ _ _ _ _ (hrun (.items [.ok (.string "x")])) (hchain _ _ _ _ _
    ((hfail .invalidOp).symm.deliversIn herror) (hrun (.items [.ok (.string "y")])))

end Rill
