import Rill.Proofs.Step

/-!
# What a slot holds

A slot holds what was last stored in it (`World.Live.holds_store`), as long as its handle reaches
it.
-/

namespace Rill

namespace Slots

variable {s : Slots} {h : Handle}

theorem find?_eq_some {e : Slot} :
    s.find? h = some e ↔
      s.entries[h.index]? = some e ∧ (e.live && e.generation == h.generation) = true := by
  unfold find?
  split
  · rename_i e' he
    rw [he, Option.some.injEq]
    split
    · rename_i hc
      rw [Option.some.injEq]
      exact ⟨fun k => ⟨k, k ▸ hc⟩, fun k => k.1⟩
    · rename_i hc
      exact ⟨nofun, fun k => absurd (k.1 ▸ k.2) hc⟩
  · rename_i he
    rw [he]
    exact ⟨nofun, nofun⟩

theorem find?_set_self {e : Slot} (hf : s.find? h = some e) (v : Value) :
    (s.set h v).2.find? h = some { e with value := some v } := by
  obtain ⟨he, hc⟩ := find?_eq_some.mp hf
  have hb : h.index < s.entries.size := (Array.getElem?_eq_some_iff.mp he).1
  refine find?_eq_some.mpr ⟨?_, hc⟩
  simp only [set, hf]
  rw [Array.getElem?_setIfInBounds_self, if_pos hb]

theorem get?_set_self {e : Slot} (hf : s.find? h = some e) (v : Value) :
    (s.set h v).2.get? h = some v := by
  rw [get?, find?_set_self hf]
  rfl

theorem set_of_find? {e : Slot} (hf : s.find? h = some e) (v : Value) :
    (s.set h v).2 =
      { s with entries := s.entries.setIfInBounds h.index { e with value := some v } } := by
  simp only [set, hf]

end Slots

namespace World

/-- The handle reaches its slot. -/
def Live (w : World) (slot : Handle) : Prop := ∃ e, w.slots.find? slot = some e

/-- What was last stored in the slot. -/
def Holds (w : World) (slot : Handle) (v : Value) : Prop := w.slots.get? slot = some v

variable {w : World} {slot : Handle} {v : Value}

theorem Holds.live (h : w.Holds slot v) : w.Live slot := by
  unfold Holds Slots.get? at h
  obtain ⟨e, he, -⟩ := Option.bind_eq_some_iff.mp h
  exact ⟨e, he⟩

theorem Live.holds_store (h : w.Live slot) (v : Value) : (w.store slot v).Holds slot v := by
  obtain ⟨e, he⟩ := h
  exact Slots.get?_set_self he v

end World

end Rill
