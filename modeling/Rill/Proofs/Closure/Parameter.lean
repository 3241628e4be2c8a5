import Rill.Proofs.Delivers
import Rill.Proofs.Slot

/-!
# Operands that read a parameter

A closure's parameter is read when an operand is forced (`Operand.Computes`) or when its stream is
made (`Operand.Reads`): from then on the stream delivers what the slot held at that time, whatever
is stored in it later.
-/

namespace Rill

variable {context : Context} {scope : Scope} {slot : Handle}

/-- Forcing the operand gives a function of what the slot holds. -/
def Operand.Computes (context : Context) (scope : Scope) (slot : Handle) (x : Operand)
    (f : Value → Value) : Prop :=
  ∀ ⦃w v⦄, w.Holds slot v → Forces context scope x w (.ok (.value (f v))) w

/-- The stream of the operand delivers a function of what the slot holds when it is made. -/
def Operand.Reads (context : Context) (scope : Scope) (slot : Handle) (x : Operand)
    (g : Value → List Item) : Prop :=
  ∀ ⦃w v⦄, w.Holds slot v → ∃ s, Opens context scope x w s w ∧ Rill.Delivers context s (g v)

/-- The word is the parameter that lives in the slot, with or without a path into it. -/
theorem resolve?_of_holds {word : String}
    (h : Sorted.find? (Scope.head word) scope.vars = some slot) {w : World} {v : Value}
    (hv : w.Holds slot v) :
    scope.resolve? w.slots word = some (v.project ((segments word).drop 1)) := by
  have hv : w.slots.get? slot = some v := hv
  rw [Scope.resolve?, Scope.get?, h, Option.map_some, Option.map_some, hv]
  rfl

namespace Operand.Computes

theorem value (a : Value) : Computes context scope slot (.value a) fun _ => a :=
  fun _ _ _ => forces_value

theorem word {word : String} (h : Sorted.find? (Scope.head word) scope.vars = some slot) :
    Computes context scope slot (.word word) fun v => v.project ((segments word).drop 1) :=
  fun _ _ hv => forces_word (resolve?_of_holds h hv)

end Operand.Computes

theorem Operand.Reads.word {word : String}
    (h : Sorted.find? (Scope.head word) scope.vars = some slot) :
    Operand.Reads context scope slot (.word word) fun v =>
      valueItems (v.project ((segments word).drop 1)) :=
  fun _ _ hv => ⟨_, (opens_word (resolve?_of_holds h hv)).mpr ⟨rfl, rfl⟩, .ofValue _⟩

end Rill
