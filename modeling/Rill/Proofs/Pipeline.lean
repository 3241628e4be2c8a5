import Rill.Proofs.Delivers

/-!
# Pipelines one after the other

The factories of a pipeline are used each on the output of the one before it (`Piped`). Of pipelines
that stand one after the other, all streams but that of the last are pulled to the end (`Drains`),
in order, and the last one gives the stream of them all (`InSequence`). `makes_andThen` says that
this is what a factory does that follows another.
-/

namespace Rill

open Run (Ends Mono ends_bind ends_pure ends_const)
open Eval (pull_mono calls calls_le)

/-- The factories, each on the output of the one before it, make `s` of `input`. -/
inductive Piped (context : Context) : List Factory → Stream → World → Stream → World → Prop
  | nil (s : Stream) (w : World) : Piped context [] s w s w
  | cons {f : Factory} {fs : List Factory} {input t s : Stream} {w w₁ w' : World}
    (h : Makes context f input w t w₁) (k : Piped context fs t w₁ s w') :
    Piped context (f :: fs) input w s w'

/-- The streams of the pipelines but the last are pulled to the end, in order; `s` is the stream of
the last one. -/
inductive InSequence (context : Context) : List (List Factory) → World → Stream → World → Prop
  | last {fs : List Factory} {s : Stream} {w w' : World} (h : Piped context fs .empty w s w') :
    InSequence context [fs] w s w'
  | cons {fs : List Factory} {rest : List (List Factory)} {t s : Stream} {xs : List Item}
    {w w₁ w₂ w' : World} (h : Piped context fs .empty w t w₁) (d : Drains context t w₁ xs w₂)
    (k : InSequence context rest w₂ s w') : InSequence context (fs :: rest) w s w'

variable {context : Context} {w w' : World} {s input : Stream}

/-! ## Draining -/

theorem drain_mono (s : Stream) : Mono fun n => (calls context n).drain n s :=
  fun _ _ h => Calls.drain_le (calls_le context h) h s

/-- One round of the loop more than the calls have fuel changes nothing. -/
theorem ends_drain : Ends (fun n => (calls context n).drain n s) w () w' ↔
    Ends (fun n => (calls context n).drain (n + 1) s) w () w' :=
  Run.ends_between (fun n => Calls.drain_le (calls_le context (Nat.le_refl n)) n.le_succ s)
    fun n => Calls.drain_le (calls_le context n.le_succ) (Nat.le_refl _) s

theorem drains_of_drain {k n : Nat} (h : (calls context k).drain n s w = some ((), w')) :
    ∃ xs, Drains context s w xs w' := by
  induction n generalizing s w with
  | zero => cases h
  | succ n ih =>
    obtain ⟨⟨item, s'⟩, w₁, hpull, hrest⟩ := Run.bind_eq_some.mp h
    have hpulls : Pulls context s w item s' w₁ := (pull_mono s).ends hpull
    match item with
    | none =>
      cases hrest
      exact ⟨[], .nil hpulls⟩
    | some x =>
      obtain ⟨xs, hxs⟩ := ih hrest
      exact ⟨x :: xs, .cons hpulls hxs⟩

theorem drains_iff :
    Ends (fun n => (calls context n).drain n s) w () w' ↔ ∃ xs, Drains context s w xs w' := by
  refine ⟨fun ⟨n, h⟩ => drains_of_drain (h n (Nat.le_refl n)), ?_⟩
  rintro ⟨xs, h⟩
  induction h with
  | nil h => exact ends_drain.mpr (ends_pull.mpr ⟨_, _, _, h, ends_pure.mpr ⟨rfl, rfl⟩⟩)
  | cons h _ ih => exact ends_drain.mpr (ends_pull.mpr ⟨_, _, _, h, ih⟩)

/-- The second factory is used when the stream of the first has been pulled to its end. -/
theorem makes_andThen {first second : Factory} :
    Makes context (.andThen first second) input w s w' ↔
      ∃ t xs w₁ w₂, Makes context first input w t w₁ ∧ Drains context t w₁ xs w₂ ∧
        Makes context second .empty w₂ s w' := by
  refine makes_iff.trans (ends_invoke.trans ⟨?_, ?_⟩)
  · rintro ⟨t, w₁, h, k⟩
    obtain ⟨_, w₂, d, k⟩ := (ends_bind (drain_mono t)).mp k
    obtain ⟨xs, d⟩ := drains_iff.mp d
    exact ⟨t, xs, w₁, w₂, h, d, k⟩
  · rintro ⟨t, xs, w₁, w₂, h, d, k⟩
    exact ⟨t, w₁, h, (ends_bind (drain_mono t)).mpr ⟨(), w₂, drains_iff.mpr ⟨xs, d⟩, k⟩⟩

/-! ## Pipelines -/

variable {fs gs : List Factory} {f : Factory}

theorem piped_nil : Piped context [] input w s w' ↔ s = input ∧ w' = w := by
  constructor
  · rintro ⟨⟩
    exact ⟨rfl, rfl⟩
  · rintro ⟨rfl, rfl⟩
    exact .nil s w'

theorem piped_append : Piped context (fs ++ gs) input w s w' ↔
    ∃ t w₁, Piped context fs input w t w₁ ∧ Piped context gs t w₁ s w' := by
  induction fs generalizing input w with
  | nil =>
    refine ⟨fun h => ⟨input, w, .nil input w, h⟩, ?_⟩
    rintro ⟨t, w₁, ⟨⟩, h⟩
    exact h
  | cons f fs ih =>
    constructor
    · rintro (_ | ⟨h, k⟩)
      obtain ⟨t, w₁, h₁, h₂⟩ := ih.mp k
      exact ⟨t, w₁, .cons h h₁, h₂⟩
    · rintro ⟨t, w₁, _ | ⟨h, k⟩, h₂⟩
      exact .cons h (ih.mpr ⟨t, w₁, k, h₂⟩)

theorem piped_singleton : Piped context [f] input w s w' ↔ Makes context f input w s w' := by
  constructor
  · rintro (_ | ⟨h, ⟨⟩⟩)
    exact h
  · exact fun h => .cons h (.nil s w')

/-! ## Sequences -/

theorem inSequence_singleton :
    InSequence context [fs] w s w' ↔ Piped context fs .empty w s w' := by
  constructor
  · rintro (h | ⟨_, _, ⟨⟩⟩)
    exact h
  · exact .last

/-- One more pipeline is used when the stream of all before it has been pulled to its end. -/
theorem inSequence_append {fss : List (List Factory)} (hne : fss ≠ []) :
    InSequence context (fss ++ [fs]) w s w' ↔
      ∃ t xs w₁ w₂, InSequence context fss w t w₁ ∧ Drains context t w₁ xs w₂ ∧
        Piped context fs .empty w₂ s w' := by
  induction fss generalizing w with
  | nil => exact absurd rfl hne
  | cons gs rest ih =>
    cases rest with
    | nil =>
      constructor
      · rintro (_ | ⟨h, d, k⟩)
        exact ⟨_, _, _, _, .last h, d, inSequence_singleton.mp k⟩
      · rintro ⟨t, xs, w₁, w₂, h, d, k⟩
        exact .cons (inSequence_singleton.mp h) d (.last k)
    | cons hs rest =>
      have ih {w : World} := ih (w := w) (List.cons_ne_nil hs rest)
      constructor
      · rintro (_ | ⟨h, d, k⟩)
        obtain ⟨t, xs, w₁, w₂, k₁, d₁, k₂⟩ := ih.mp k
        exact ⟨t, xs, w₁, w₂, .cons h d k₁, d₁, k₂⟩
      · rintro ⟨t, xs, w₁, w₂, _ | ⟨h, d, k⟩, d₁, k₂⟩
        exact .cons h d (ih.mpr ⟨t, xs, w₁, w₂, k, d₁, k₂⟩)

end Rill
