import Rill.Value.Basic

/-!
# Slots

Closure parameters live in slots. A slot is reached through a handle, which has the slot's index and
the generation in which it was given out; when a slot is released its generation goes up, so that
handles from before no longer reach it. Released slots are given out again, the last first.
-/

namespace Rill

/-- A way to reach a slot. -/
structure Handle where
  /-- The place of the slot. -/
  index : Nat
  /-- The generation of the slot when the handle was given out. -/
  generation : UInt32
  deriving DecidableEq, Repr

/-- One slot. -/
structure Slot where
  /-- How often the slot was released. -/
  generation : UInt32
  /-- Whether the slot is given out. -/
  live : Bool
  /-- What was last stored. -/
  value : Option Value
  deriving Repr

/-- All slots, and the indices of those that can be given out again. -/
structure Slots where
  /-- The slots, by index. -/
  entries : Array Slot
  /-- The indices of released slots, the last released first. -/
  free : List Nat
  deriving Repr

namespace Slots

/-- No slots. -/
def empty : Slots := ⟨#[], []⟩

/-- The slot that a handle reaches. -/
def find? (s : Slots) (h : Handle) : Option Slot :=
  match s.entries[h.index]? with
  | some e => if e.live && e.generation == h.generation then some e else none
  | none => none

/-- Gives out a slot that holds nothing. -/
def alloc (s : Slots) : Handle × Slots :=
  match s.free with
  | i :: free =>
    let generation := (s.entries[i]?.map Slot.generation).getD 0
    (⟨i, generation⟩, ⟨s.entries.setIfInBounds i ⟨generation, true, none⟩, free⟩)
  | [] => (⟨s.entries.size, 0⟩, ⟨s.entries.push ⟨0, true, none⟩, []⟩)

/-- What was last stored through a handle. -/
def get? (s : Slots) (h : Handle) : Option Value := (s.find? h).bind Slot.value

/-- Stores a value through a handle, and says whether the handle still reaches its slot. -/
def set (s : Slots) (h : Handle) (v : Value) : Bool × Slots :=
  match s.find? h with
  | some e =>
    (true, { s with entries := s.entries.setIfInBounds h.index { e with value := some v } })
  | none => (false, s)

/-- Takes a slot back. -/
def release (s : Slots) (h : Handle) : Slots :=
  match s.find? h with
  | some e =>
    ⟨s.entries.setIfInBounds h.index ⟨e.generation + 1, false, none⟩, h.index :: s.free⟩
  | none => s

/-- How many slots are given out. -/
def live (s : Slots) : Nat := s.entries.size - s.free.length

end Slots

end Rill
