import Rill.Proofs.Alike
import Rill.Proofs.Delivers
import Rill.Proofs.Line.Inside

/-!
# Closures without a parameter

A closure whose body is a single stage uses the body on each input value by itself
(`perElement_each`): its stream is that of the body on the first value alone, followed by that of
the closure on the rest of the input, and an error of the input stays in its place (`PerElement`).

A body that is fed, as one with a `|` or `;` outside brackets is, is used once, on the whole input.
`read_closure` says which of the two a closure in a line is.
-/

namespace Rill

variable {context : Context} {w w' : World}

/-! ## One element of the input -/

theorem fronts_flatMap (tr : Transform) (input : Stream) :
    Fronts context (.flatMap tr input) := by
  intro front s w w' item
  constructor
  · intro p
    cases pulls_flatMap.mp p with
    | front h => exact .inl ⟨_, _, rfl, rfl, h⟩
    | done h i => exact .inr ⟨_, _, h, pulls_flatMap.mpr (.done pulls_empty i)⟩
    | error h i k => exact .inr ⟨_, _, h, pulls_flatMap.mpr (.error pulls_empty i k)⟩
    | value h i o k => exact .inr ⟨_, _, h, pulls_flatMap.mpr (.value pulls_empty i o k)⟩
  · rintro (⟨x, front', rfl, rfl, h⟩ | ⟨front', w₁, h, k⟩)
    · exact pulls_flatMap.mpr (.front h)
    · exact pulls_flatMap_of_ended h k

/-- The stream that takes the place of an element of the input. -/
inductive Replaces (context : Context) (tr : Transform) : Item → World → Stream → World → Prop
  | error (e : Error) (w : World) : Replaces context tr (.error e) w (.fail e) w
  | value {v : Value} {w w' : World} {s : Stream} (h : Transforms context tr v w s w') :
    Replaces context tr (.ok v) w s w'

/-- Pulling through a transform begins with the first element of the input. -/
theorem pulls_flatMap_next {tr : Transform} {input input' next : Stream} {x : Item} {w₁ : World}
    (i : Pulls context input w (some x) input' w₁) (o : Replaces context tr x w₁ next w') :
    Pulls context (.flatMap tr input .empty) w = Pulls context (.flatMap tr input' next) w' := by
  funext item s w''
  refine propext ⟨fun p => ?_, fun k => pulls_flatMap.mpr ?_⟩
  · cases pulls_flatMap.mp p with
    | front h => cases (h.det pulls_empty).1
    | done h i' =>
      obtain ⟨-, -, rfl⟩ := h.det pulls_empty
      cases (i.det i').1
    | error h i' k =>
      obtain ⟨-, -, rfl⟩ := h.det pulls_empty
      obtain ⟨e, rfl, rfl⟩ := i.det i'
      cases e
      cases o
      exact k
    | value h i' o' k =>
      obtain ⟨-, -, rfl⟩ := h.det pulls_empty
      obtain ⟨e, rfl, rfl⟩ := i.det i'
      cases e
      cases o with
      | value o =>
        obtain ⟨rfl, rfl⟩ := Run.Ends.det o o'
        exact k
  · cases o with
    | error => exact .error pulls_empty i k
    | value o => exact .value pulls_empty i o k

/-! ## Element by element -/

/-- What `run` makes of an input is what `f` makes of each value of it alone, one after the other,
with the errors of the input in their places. -/
structure PerElement (context : Context) (f : Factory) (run : Stream → Stream) : Prop where
  /-- Nothing is made of nothing. -/
  ended : ∀ {input input' : Stream} {w w' : World}, Pulls context input w none input' w' →
    ∃ s, Pulls context (run input) w none s w'
  /-- An error stays in its place. -/
  error : ∀ {input input' : Stream} {e : Error} {w w' : World},
    Pulls context input w (some (.error e)) input' w' →
      Matches (Alike context) (Pulls context (run input) w)
        (Pulls context (.chain (.fail e) (run input')) w')
  /-- A value is used alone. -/
  value : ∀ {input input' s : Stream} {v : Value} {w w₁ w' : World},
    Pulls context input w (some (.ok v)) input' w₁ → Makes context f (.once v) w₁ s w' →
      Matches (Alike context) (Pulls context (run input) w)
        (Pulls context (.chain s (run input')) w')

/-- A closure without a parameter uses its body on each value alone. -/
theorem perElement_each (context : Context) (f : Factory) :
    PerElement context f fun input => .flatMap (.each f) input .empty where
  ended i := ⟨_, pulls_flatMap.mpr (.done pulls_empty i)⟩
  error i := by
    rw [pulls_flatMap_next i (.error _ _)]
    exact (Fronts.alike (fronts_flatMap _ _) _).pulls _
  value i m := by
    rw [pulls_flatMap_next i (.value (transforms_each.mpr m))]
    exact (Fronts.alike (fronts_flatMap _ _) _).pulls _

/-! ## Closures in lines -/

open Parse (Comes)

/-- A closure after a `|` becomes a stage. If its body, read alone, comes to a stage that nothing
feeds and that is no closure, then that stage is used on each input value by itself; this is so if
no `|`, `;` or `->` stands in the body outside brackets. Any other body is used once, on the whole
input. -/
theorem read_closure {p q : Parse} {s body : Stage} {rest : List Stage} {below : List Pending}
    (hs : p.stages = s :: rest) (hp : p.pending = .op .pipe :: below)
    (ho : s.operands = []) (hc : s.closure = none) (hd : s.recordDepth = 0) {tokens : List String}
    (hb : Comes context tokens (p.alone s.scope tokens) body q) (after : List String) :
    ∃ stage : Factory,
      Parse.all context ("\x7b" :: (tokens ++ "\x7d" :: after)) p =
        Parse.all context after
          ⟨after, { s with closure := some stage, mode := s.mode <|> body.mode } :: rest, p.pending,
            q.taken, q.slots, q.env⟩ ∧
      (body.feed = none → body.closure = none → ∃ run : Stream → Stream,
        (∀ input w, Makes context stage input w (run input) w) ∧
          PerElement context (body.toFactory context) run) ∧
      (body.feed ≠ none ∨ body.closure ≠ none → stage = body.toFactory context) ∧
      (unpiped tokens [] = true → body.feed = none ∧ body.closure = none) := by
  have hopens : Parse.opensClosure s p.pending (tokens ++ "\x7d" :: after) = true := by
    simp [Parse.opensClosure, hp, ho, hc, hd]
  refine ⟨_, Parse.all_closure hs hopens hb, fun hfeed hclosure => ?_, fun h => ?_, hb.unfed⟩
  · refine ⟨_, fun input w => ?_, perElement_each context (body.toFactory context)⟩
    simp only [Parse.closureStage, hfeed, hclosure]
    exact makes_each.mpr ⟨rfl, rfl⟩
  · refine if_pos (Bool.or_eq_true_iff.mpr ?_)
    exact h.symm.imp Option.isSome_iff_ne_none.mpr Option.isSome_iff_ne_none.mpr

/-- `{ prepend null }` is used on each value. `{ prepend null | prepend }` is used once: it gives
one `null` for two values, and one for none. -/
theorem read_closure_prepend :
    let left : Stage := { scope := .empty, operands := [.value (.bool true), .value (.bool false)] }
    let p : Parse := ⟨[], [{ scope := .empty }, left], [.op .pipe], [], .empty, .empty⟩
    let reads := fun body stage => Parse.all {} ("\x7b" :: (body ++ ["\x7d"])) p = .ok ()
      { p with stages := [{ scope := .empty, closure := some stage }, left] }
    let prepend := Factory.builtin .prepend .empty [.value .null]
    let twice := Factory.compose prepend (.builtin .prepend .empty [])
    let gives := fun stage input xs => ∃ s, (∀ w, Makes {} stage (.items input) w s w) ∧
      Delivers {} s xs
    (∃ stage run, reads ["prepend", "null"] stage ∧
      (∀ input w, Makes {} stage input w (run input) w) ∧ PerElement {} prepend run) ∧
    ∃ stage, reads ["prepend", "null", "|", "prepend"] stage ∧
      gives stage [.ok (.bool true), .ok (.bool false)]
        [.ok .null, .ok (.bool true), .ok (.bool false)] ∧
      gives stage [] [.ok .null] ∧
      ¬ ∃ run, (∀ input w, Makes {} stage input w (run input) w) ∧ PerElement {} twice run := by
  intro left p reads prepend twice gives
  let single : Stage := { scope := .empty, operands := [.word "prepend", .value .null] }
  have hsingle : Comes {} ["prepend", "null"] (p.alone .empty ["prepend", "null"]) single
      ⟨[], [single], [], [], .empty, .empty⟩ := ⟨rfl, rfl, rfl⟩
  let piped : Stage := { scope := .empty, feed := some prepend, operands := [.word "prepend"] }
  have hpiped : Comes {} ["prepend", "null", "|", "prepend"]
      (p.alone .empty ["prepend", "null", "|", "prepend"]) piped
      ⟨[], [piped], [], [], .empty, .empty⟩ := ⟨rfl, rfl, rfl⟩
  have hnone : Delivers {} (.concat .empty [] .empty) [] := .concat .nil (.items [])
  have hvalue : Operand.Delivers {} .empty (.value .null) [.ok .null] :=
    ⟨_, fun _ => opens_value.mpr ⟨rfl, rfl⟩, .items _⟩
  have hnull : Delivers {} (.concat .empty [.value .null] .empty) [.ok .null] :=
    .concat (.cons hvalue .nil) (.items [])
  have htwice (input : List Item) : gives twice input (.ok .null :: input) := by
    refine ⟨_, fun w => ?_, hnone.chain (hnull.chain (.items input))⟩
    exact makes_compose.mpr ⟨_, w, makes_prepend.mpr ⟨rfl, rfl⟩, makes_prepend.mpr ⟨rfl, rfl⟩⟩
  constructor
  · obtain ⟨stage, hread, heach, -, hunfed⟩ := read_closure (p := p) (s := { scope := .empty })
      rfl rfl rfl rfl rfl hsingle []
    obtain ⟨hfeed, hclosure⟩ := hunfed (by decide)
    obtain ⟨run, hmakes, hrun⟩ := heach hfeed hclosure
    exact ⟨stage, run, hread, hmakes, hrun⟩
  · obtain ⟨stage, hread, -, hwhole, -⟩ := read_closure (p := p) (s := { scope := .empty })
      rfl rfl rfl rfl rfl hpiped []
    obtain rfl : stage = twice := hwhole (.inl nofun)
    refine ⟨_, hread, htwice _, htwice [], ?_⟩
    rintro ⟨run, hmakes, hrun⟩
    let w : World := .ofEnvironment .empty
    obtain ⟨s, hs, hdelivers⟩ := htwice []
    obtain ⟨e, -⟩ := Run.Ends.det (hmakes .empty w) (hs w)
    -- nothing comes of nothing, but `s` starts with `null`
    obtain ⟨t, hended⟩ := hrun.ended (w := w) pulls_empty
    rw [e] at hended
    obtain ⟨u, hfirst⟩ := hdelivers.head w
    cases (hended.det hfirst).1

end Rill
