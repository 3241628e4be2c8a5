import Rill.Proofs.Line.Folding
import Rill.Proofs.Line.Inside
import Rill.Proofs.Line.Worlds

/-!
# Lines one after the other

A line that is read comes to one stage, and its factory is that of the stage (`ReadAs.comes`). Lines
that can be read at all can be read one after the other, each in the world that the one before it
leaves (`InTurn`).
-/

namespace Rill

/-- Steps one after the other, each from the world that the one before it left. -/
inductive InTurn {α β : Type} (step : α → World → β → World → Prop) :
    List α → World → List β → World → Prop
  | nil (w : World) : InTurn step [] w [] w
  | cons {x : α} {y : β} {xs : List α} {ys : List β} {w w₁ w' : World} (h : step x w y w₁)
    (k : InTurn step xs w₁ ys w') : InTurn step (x :: xs) w (y :: ys) w'

theorem exists_inTurn {α β : Type} {step : α → World → β → World → Prop} {xs : List α}
    (h : ∀ x ∈ xs, ∀ w, ∃ y w', step x w y w') (w : World) : ∃ ys w', InTurn step xs w ys w' := by
  induction xs generalizing w with
  | nil => exact ⟨[], w, .nil w⟩
  | cons x xs ih =>
    obtain ⟨hx, hxs⟩ := List.forall_mem_cons.mp h
    obtain ⟨y, w₁, hy⟩ := hx w
    obtain ⟨ys, w', hys⟩ := ih hxs w₁
    exact ⟨y :: ys, w', .cons hy hys⟩

/-- If each step has one result, so have steps one after the other. -/
theorem InTurn.det {α β : Type} {step : α → World → β → World → Prop}
    (hstep : ∀ {x w y y' w₁ w₂}, step x w y w₁ → step x w y' w₂ → y = y' ∧ w₁ = w₂)
    {xs : List α} {ys zs : List β} {w w₁ w₂ : World} (h : InTurn step xs w ys w₁)
    (k : InTurn step xs w zs w₂) : ys = zs ∧ w₁ = w₂ := by
  induction h generalizing zs with
  | nil w =>
    cases k
    exact ⟨rfl, rfl⟩
  | cons h _ ih =>
    obtain _ | ⟨h', k⟩ := k
    obtain ⟨rfl, rfl⟩ := hstep h h'
    obtain ⟨rfl, rfl⟩ := ih k
    exact ⟨rfl, rfl⟩

/-- Read in `w`, the tokens are a line with the factory `f`, and leave `w'`. -/
def ReadAs (context : Context) (tokens : List String) (w : World) (f : Factory) (w' : World) :
    Prop := ∃ mode, parse context tokens w = (.ok (f, mode), w')

/-- The tokens are a line. -/
def Readable (context : Context) (tokens : List String) : Prop :=
  ∃ w f w', ReadAs context tokens w f w'

variable {context : Context} {tokens : List String} {w w' : World} {f : Factory}

theorem ReadAs.det {g : Factory} {w₁ w₂ : World} (h : ReadAs context tokens w f w₁)
    (k : ReadAs context tokens w g w₂) : f = g ∧ w₁ = w₂ := by
  obtain ⟨mode, h⟩ := h
  obtain ⟨mode', k⟩ := k
  cases h.symm.trans k
  exact ⟨rfl, rfl⟩

/-- What is a line in some world is one in this world. -/
theorem Readable.readAs (h : Readable context tokens) (w : World) :
    ∃ f w', ReadAs context tokens w f w' := by
  obtain ⟨w₀, f₀, w₁, mode₀, h⟩ := h
  obtain ⟨⟨f, mode⟩, w', h⟩ := exists_parse_of_parse h w
  exact ⟨f, w', mode, h⟩

theorem Parse.Ends.comes {p r : Parse} {root : Stage}
    (h : Parse.Ends context tokens w p r root) :
    Parse.Comes context tokens (.start w tokens) root r :=
  ⟨(Parse.bind_ok h.read).trans h.folds.foldAll_eq, h.stages, h.pending⟩

/-- A line comes to one stage, of which it has the factory. -/
theorem ReadAs.comes (h : ReadAs context tokens w f w') :
    ∃ body q, Parse.Comes context tokens (.start w tokens) body q ∧
      f = body.toFactory context ∧ w' = { w with slots := q.slots, env := q.env } := by
  obtain ⟨mode, h⟩ := h
  obtain ⟨p, r, root, hends, rfl, -, rfl⟩ := Parse.exists_ends h
  exact ⟨root, r, hends.comes, rfl, rfl⟩

/-- Reading a line changes only the slots and the named streams of the world. -/
theorem ReadAs.world (h : ReadAs context tokens w f w') :
    w' = { w with slots := w'.slots, env := w'.env } := by
  obtain ⟨body, q, -, -, rfl⟩ := h.comes
  rfl

theorem InTurn.world {α β : Type} {step : α → World → β → World → Prop}
    (hstep : ∀ {x w y w'}, step x w y w' → w' = { w with slots := w'.slots, env := w'.env })
    {xs : List α} {ys : List β} (h : InTurn step xs w ys w') :
    w' = { w with slots := w'.slots, env := w'.env } := by
  induction h with
  | nil w => rfl
  | cons h _ ih =>
    rw [hstep h] at ih
    exact ih

end Rill
