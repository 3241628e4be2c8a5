import Rill.Proofs.Closure.Recursion
import Rill.Proofs.Holding

/-!
# Streams that read parameters as they are pulled

The stream of an expression inside closures reads their parameters while it is pulled, so what it
gives is known only among worlds in which the slots hold the same values. `DeliversIn` says that a
stream gives the elements of a list if every pull begins in one of some worlds, and that every pull
then ends in one of them. It is enough that what a closure does is known among the worlds in which
its slot holds the value (`DeliversIn.bound`), and so streams inside one another need not know of
each other's slots (`DeliversIn.flatMap`).

What an operand stands for among such worlds is what it would stand for if the values of the
parameters were written in their place (`Stands`): operators on such operands do to what they stand
for what operators do (`Stands.applyUnary`, `Stands.applyBinary`), and choices are made by it
(`Stands.ternary`).
-/

namespace Rill

section

variable (context : Context) (worlds : World → Prop)

/-- Pulling `s` in one world gives the elements of a list, and then nothing, if every later pull
begins in one of some worlds; every pull ends in one of them. -/
def Continues : Stream → World → List Item → Prop
  | s, w, [] => ∃ s' w', Pulls context s w none s' w' ∧ worlds w'
  | s, w, x :: xs => ∃ s' w', Pulls context s w (some x) s' w' ∧ worlds w' ∧
    ∀ w₁, worlds w₁ → Continues s' w₁ xs

/-- Pulling `s` gives the elements of a list, and then nothing, if every pull begins in one of some
worlds; every pull ends in one of them. -/
def DeliversIn (s : Stream) (xs : List Item) : Prop :=
  ∀ w, worlds w → Continues context worlds s w xs

/-- The stream of `x` is made, and delivers a list, among some worlds. -/
def Operand.DeliversIn (scope : Scope) (x : Operand) (xs : List Item) : Prop :=
  ∀ w, worlds w → ∃ s w', Opens context scope x w s w' ∧ worlds w' ∧
    Rill.DeliversIn context worlds s xs

/-- The stream that `f` makes of nothing is made, and delivers a list, among some worlds. -/
def Factory.DeliversIn (f : Factory) (xs : List Item) : Prop :=
  ∀ w, worlds w → ∃ s w', Makes context f .empty w s w' ∧ worlds w' ∧
    Rill.DeliversIn context worlds s xs

/-- The streams of some operands deliver the parts of a list. -/
def AllDeliver (scope : Scope) (operands : List Operand) (xs : List Item) : Prop :=
  ∃ xss, List.Forall₂ (Operand.DeliversIn context worlds scope) operands xss ∧ xss.flatten = xs

end

variable {context : Context} {worlds : World → Prop} {scope : Scope}

/-- A stream that is pulled like another gives what it gives. -/
theorem Continues.of_pulls {s t : Stream} {w w₀ : World} {xs : List Item}
    (h : Continues context worlds s w xs)
    (k : ∀ item s' w', Pulls context s w item s' w' → Pulls context t w₀ item s' w') :
    Continues context worlds t w₀ xs := by
  cases xs with
  | nil =>
    obtain ⟨s', w', p, hw⟩ := h
    exact ⟨s', w', k _ _ _ p, hw⟩
  | cons x xs =>
    obtain ⟨s', w', p, hw, h⟩ := h
    exact ⟨s', w', k _ _ _ p, hw, h⟩

namespace DeliversIn

theorem of_delivers {s : Stream} {xs : List Item} (h : Delivers context s xs) :
    DeliversIn context worlds s xs := by
  induction h with
  | nil h => exact fun w hw => ⟨_, w, h w, hw⟩
  | cons h _ ih => exact fun w hw => ⟨_, w, h w, hw, ih⟩

theorem drains {s : Stream} {xs : List Item} (h : DeliversIn context worlds s xs) {w : World}
    (hw : worlds w) : ∃ w', Drains context s w xs w' := by
  induction xs generalizing s w with
  | nil =>
    obtain ⟨s', w', p, -⟩ := h w hw
    exact ⟨w', .nil p⟩
  | cons x xs ih =>
    obtain ⟨s', w₁, p, hw₁, h⟩ := h w hw
    obtain ⟨w', k⟩ := ih h hw₁
    exact ⟨w', .cons p k⟩

/-- What follows the stream in front comes after its elements. -/
theorem after_front {around : Stream → Stream}
    (hfront : ∀ {front w x front' w'}, Pulls context front w (some x) front' w' →
      Pulls context (around front) w (some x) (around front') w')
    {front : Stream} {ys zs : List Item} (k : DeliversIn context worlds front ys)
    (hnext : ∀ {front w front' w'}, Pulls context front w none front' w' → worlds w' →
      Continues context worlds (around front) w zs) :
    DeliversIn context worlds (around front) (ys ++ zs) := by
  induction ys generalizing front with
  | nil =>
    intro w hw
    obtain ⟨front', w', p, hw'⟩ := k w hw
    exact hnext p hw'
  | cons y ys ih =>
    intro w hw
    obtain ⟨front', w', p, hw', k⟩ := k w hw
    exact ⟨_, w', hfront p, hw', ih k⟩

theorem concat {operands : List Operand} {xs : List Item}
    (h : AllDeliver context worlds scope operands xs) {front : Stream} {ys : List Item}
    (k : DeliversIn context worlds front ys) :
    DeliversIn context worlds (.concat scope operands front) (ys ++ xs) := by
  obtain ⟨xss, h, rfl⟩ := h
  induction h generalizing front ys with
  | nil =>
    refine after_front (fun p => pulls_concat.mpr (.front p)) k fun p hw => ?_
    exact ⟨_, _, pulls_concat.mpr (.done p rfl), hw⟩
  | cons hx _ ih =>
    refine after_front (fun p => pulls_concat.mpr (.front p)) k fun p hw => ?_
    obtain ⟨s, w₁, o, hw₁, hs⟩ := hx _ hw
    exact (ih hs w₁ hw₁).of_pulls fun _ _ _ q => pulls_concat.mpr (.next p rfl o q)

theorem flatMap {t : Transform} {g : Value → List Item}
    (ht : ∀ v w, worlds w → ∃ s w', Transforms context t v w s w' ∧ worlds w' ∧
      DeliversIn context worlds s (g v))
    {input front : Stream} {xs ys : List Item} (h : DeliversIn context worlds input xs)
    (k : DeliversIn context worlds front ys) :
    DeliversIn context worlds (.flatMap t input front) (ys ++ xs.flatMap (onValue g)) := by
  induction xs generalizing input front ys with
  | nil =>
    refine after_front (fun p => pulls_flatMap.mpr (.front p)) k fun p hw => ?_
    obtain ⟨input', w₁, i, hw₁⟩ := h _ hw
    exact ⟨_, _, pulls_flatMap.mpr (.done p i), hw₁⟩
  | cons x xs ih =>
    refine after_front (fun p => pulls_flatMap.mpr (.front p)) k fun p hw => ?_
    obtain ⟨input', w₁, i, hw₁, hrest⟩ := h _ hw
    match x with
    | .error e =>
      have hfail : DeliversIn context worlds (.fail e) [.error e] := of_delivers (.items _)
      exact (ih hrest hfail w₁ hw₁).of_pulls fun _ _ _ q => pulls_flatMap.mpr (.error p i q)
    | .ok v =>
      obtain ⟨s, w₂, o, hw₂, hs⟩ := ht v w₁ hw₁
      exact (ih hrest hs w₂ hw₂).of_pulls fun _ _ _ q => pulls_flatMap.mpr (.value p i o q)

/-- The stream of an activation is pulled with its own value in the slot. -/
theorem bound {inner : World → Prop} {slot : Handle} {v : Value}
    (hin : ∀ w, worlds w → inner (w.store slot v)) (hout : ∀ w, inner w → worlds w) {s : Stream}
    {xs : List Item} (h : DeliversIn context inner s xs) :
    DeliversIn context worlds (.bound slot v s) xs := by
  induction xs generalizing s with
  | nil =>
    intro w hw
    obtain ⟨s', w', p, hw'⟩ := h _ (hin w hw)
    exact ⟨_, w', pulls_bound.mpr ⟨s', rfl, p⟩, hout w' hw'⟩
  | cons x xs ih =>
    intro w hw
    obtain ⟨s', w', p, hw', h⟩ := h _ (hin w hw)
    exact ⟨_, w', pulls_bound.mpr ⟨s', rfl, p⟩, hout w' hw', ih h⟩

end DeliversIn

/-! ## Operands one after the other -/

theorem AllDeliver.append {xs ys : List Operand} {as bs : List Item}
    (h : AllDeliver context worlds scope xs as) (k : AllDeliver context worlds scope ys bs) :
    AllDeliver context worlds scope (xs ++ ys) (as ++ bs) := by
  obtain ⟨ass, h, rfl⟩ := h
  obtain ⟨bss, k, rfl⟩ := k
  exact ⟨ass ++ bss, List.rel_append h k, List.flatten_append⟩

theorem AllDeliver.singleton {x : Operand} {xs : List Item}
    (h : x.DeliversIn context worlds scope xs) : AllDeliver context worlds scope [x] xs :=
  ⟨[xs], .cons h .nil, by simp⟩

theorem AllDeliver.of_singleton {x : Operand} {xs : List Item}
    (h : AllDeliver context worlds scope [x] xs) : x.DeliversIn context worlds scope xs := by
  obtain ⟨xss, h, rfl⟩ := h
  obtain ⟨ys, rfl, hys⟩ : ∃ ys, xss = [ys] ∧ x.DeliversIn context worlds scope ys := by
    cases h with
    | cons h hnil =>
      cases hnil
      exact ⟨_, rfl, h⟩
  simpa using hys

theorem AllDeliver.sequence {operands : List Operand} {xs : List Item}
    (h : AllDeliver context worlds scope operands xs) :
    Factory.DeliversIn context worlds (.sequence scope operands) xs :=
  fun w hw => ⟨_, w, makes_sequence.mpr ⟨rfl, rfl⟩, hw, .concat h (.of_delivers (.items []))⟩

/-- A closure on the elements of a source: each of them begins an activation. -/
theorem Factory.DeliversIn.bind {source body : Factory} {slot : Handle}
    {inner : Value → World → Prop} {xs : List Item} {out : Value → List Item}
    (hsource : source.DeliversIn context worlds xs)
    (hin : ∀ v w, worlds w → inner v (w.store slot v)) (hout : ∀ v w, inner v w → worlds w)
    (hbody : ∀ v, body.DeliversIn context (inner v) (out v)) :
    Factory.DeliversIn context worlds (.compose source (.bind slot body))
      (xs.flatMap (onValue out)) := by
  have ht (v : Value) (w : World) (hw : worlds w) : ∃ s w',
      Transforms context (.bind slot body) v w s w' ∧ worlds w' ∧
        Rill.DeliversIn context worlds s (out v) := by
    obtain ⟨s, w', hm, hw', hs⟩ := hbody v _ (hin v w hw)
    exact ⟨_, w', transforms_bind.mpr ⟨s, rfl, hm⟩, hout v w' hw', .bound (hin v) (hout v) hs⟩
  intro w hw
  obtain ⟨s, w', hm, hw', hs⟩ := hsource w hw
  refine ⟨_, w', makes_compose.mpr ⟨s, w', hm, makes_bind.mpr ⟨rfl, rfl⟩⟩, hw', ?_⟩
  exact .flatMap ht hs (.of_delivers (.items []))

/-! ## What operands stand for -/

/-- What an operand stands for among some worlds, and whether it waits for parameters. -/
inductive Stands (context : Context) (worlds : World → Prop) (scope : Scope) :
    Bool → Operand → Meaning → Prop
  | means {x : Operand} {m : Meaning} (h : Means context x m) :
    Stands context worlds scope false x m
  | word {word : String} {v : Value} (hvar : scope.isVarPath word = true)
    (h : ∀ w, worlds w → scope.resolve? w.slots word = some v) :
    Stands context worlds scope true (.word word) (.known v)
  | deferred {d : Deferred} {m : Meaning}
    (h : ∀ w, worlds w → ∃ y, Evaluates context scope d w (.ok y) w ∧ Means context y m) :
    Stands context worlds scope true (.deferred d) m

theorem Means.forces {x : Operand} {m : Meaning} (h : Means context x m) (w : World) :
    Forces context scope x w (.ok x) w := by
  cases h with
  | known v => exact forces_value
  | elements _ => exact forces_stream

theorem Means.deliversIn {x : Operand} {m : Meaning} (h : Means context x m) :
    x.DeliversIn context worlds scope m.items := by
  obtain ⟨s, o, hs⟩ : x.Delivers context scope m.items := h.delivers
  exact fun w hw => ⟨s, w, o w, hw, .of_delivers hs⟩

namespace Stands

variable {b b' : Bool} {x y : Operand} {m n : Meaning}

theorem forces (h : Stands context worlds scope b x m) {w : World} (hw : worlds w) :
    ∃ y, Forces context scope x w (.ok y) w ∧ Means context y m := by
  cases h with
  | means h => exact ⟨x, h.forces w, h⟩
  | word _ h => exact ⟨_, forces_word (h w hw), .known _⟩
  | deferred h =>
    obtain ⟨y, he, hy⟩ := h w hw
    exact ⟨y, forces_deferred he (hy.forces w), hy⟩

theorem deliversIn (h : Stands context worlds scope b x m) :
    x.DeliversIn context worlds scope m.items := by
  cases h with
  | means h => exact h.deliversIn
  | word _ h =>
    exact fun w hw => ⟨_, w, (opens_word (h w hw)).mpr ⟨rfl, rfl⟩, hw, .of_delivers (.ofValue _)⟩
  | deferred h =>
    intro w hw
    obtain ⟨y, he, hy⟩ := h w hw
    obtain ⟨s, o, hs⟩ : y.Delivers context scope m.items := hy.delivers
    exact ⟨s, w, opens_deferred he (o w), hw, .of_delivers hs⟩

/-- An operand that waits is not ready. -/
theorem ready?_eq_none (h : Stands context worlds scope true x m) : x.ready? scope = none := by
  cases h with
  | word hvar _ => exact if_pos hvar
  | deferred _ => rfl

theorem applyUnary (h : Stands context worlds scope b x m) (op : Operator) :
    Stands context worlds scope b (.applyUnary scope op x) (m.unary op) := by
  match b with
  | false =>
    obtain ⟨h⟩ := h
    exact .means (h.applyUnary op)
  | true =>
    rw [Operand.applyUnary, h.ready?_eq_none]
    refine .deferred fun w hw => ?_
    obtain ⟨y, hf, hy⟩ := h.forces hw
    exact ⟨_, evaluates_unary hf, hy.applyUnary op⟩

theorem applyBinary (h : Stands context worlds scope b x m)
    (k : Stands context worlds scope b' y n) (op : Operator) :
    Stands context worlds scope (b || b') (.applyBinary scope op x y) (m.binary op n) := by
  have hwait (e : Operand.applyBinary scope op x y = .deferred (.binary op x y)) :
      Stands context worlds scope true (.applyBinary scope op x y) (m.binary op n) := by
    rw [e]
    refine .deferred fun w hw => ?_
    obtain ⟨x', hf, hx⟩ := h.forces hw
    obtain ⟨y', hf', hy⟩ := k.forces hw
    exact ⟨_, evaluates_binary hf hf', hx.applyBinary hy op⟩
  match b, b' with
  | false, false =>
    obtain ⟨h⟩ := h
    obtain ⟨k⟩ := k
    exact .means (h.applyBinary k op)
  | true, _ => exact hwait (by simp only [Operand.applyBinary, h.ready?_eq_none])
  | false, true =>
    refine hwait ?_
    rw [Operand.applyBinary, k.ready?_eq_none]
    rcases x.ready? scope with _ | _ | _ <;> rfl

end Stands

/-! ## Choices -/

/-- What decides a choice: a value that is known, or the first element of what is not, which is
`null` if there is none. -/
def Meaning.decision (waits : Bool) (m : Meaning) : Item :=
  match waits, m with
  | false, known v => .ok v
  | _, m => m.items.head?.getD (.ok .null)

/-- What a choice gives. Without a first branch, what decides it is given if it counts as true, and
replaced if it is an error. -/
def choiceItems (decision : Item) (onTrue : Option (List Item)) (onFalse : List Item) : List Item :=
  match decision, onTrue with
  | .ok v, some xs => if v.isTruthy then xs else onFalse
  | .ok v, none => if v.isTruthy then valueItems v else onFalse
  | .error e, some _ => [.error e]
  | .error _, none => onFalse

/-- The operands of a first branch, if there is one, deliver a list. -/
def BranchDelivers (context : Context) (worlds : World → Prop) (scope : Scope)
    (operands : List Operand) : Option (List Item) → Prop
  | some xs => operands ≠ [] ∧ AllDeliver context worlds scope operands xs
  | none => operands = []

theorem AllDeliver.operand {operands : List Operand} {xs : List Item}
    (h : AllDeliver context worlds scope operands xs) :
    Operand.DeliversIn context worlds scope (.stream (.sequence scope operands)) xs := by
  intro w hw
  obtain ⟨s, w', hm, hw', hs⟩ := h.sequence w hw
  exact ⟨s, w', opens_stream.mpr hm, hw', hs⟩

section

variable {onTrue onFalse : List Operand} {as : Option (List Item)} {bs : List Item}

/-- The operands that a value picks deliver what it decides. -/
theorem picked_deliver (ht : BranchDelivers context worlds scope onTrue as)
    (hf : AllDeliver context worlds scope onFalse bs) (v : Value) :
    AllDeliver context worlds scope
      (if v.isTruthy then if onTrue.isEmpty then [.value v] else onTrue else onFalse)
      (choiceItems (.ok v) as bs) := by
  match as, ht with
  | some xs, ⟨hne, ht⟩ =>
    have hempty : onTrue.isEmpty = false := by simpa using hne
    by_cases hv : v.isTruthy = true
    · simpa [choiceItems, hv, hempty] using ht
    · simpa [choiceItems, hv] using hf
  | none, ht =>
    obtain rfl : onTrue = [] := ht
    by_cases hv : v.isTruthy = true
    · have hvalue : Operand.DeliversIn context worlds scope (.value v) (valueItems v) :=
        (Means.known v).deliversIn
      simpa [choiceItems, hv] using AllDeliver.singleton hvalue
    · simpa [choiceItems, hv] using hf

theorem chosen_deliversIn (ht : BranchDelivers context worlds scope onTrue as)
    (hf : AllDeliver context worlds scope onFalse bs) (decision : Item) :
    (∃ x, chosen scope onTrue onFalse decision = .ok x ∧
      x.DeliversIn context worlds scope (choiceItems decision as bs)) ∨
    ∃ e, chosen scope onTrue onFalse decision = .error e ∧
      choiceItems decision as bs = [.error e] := by
  cases decision with
  | ok v =>
    have hv := picked_deliver ht hf v
    simp only [chosen]
    split_ifs at hv ⊢
    · exact .inl ⟨_, rfl, hv.of_singleton⟩
    · exact .inl ⟨_, rfl, hv.operand⟩
    · exact .inl ⟨_, rfl, hv.operand⟩
  | error e =>
    cases as with
    | some xs =>
      have hne : onTrue ≠ [] := ht.1
      exact .inr ⟨e, by simp [chosen, hne], rfl⟩
    | none =>
      obtain rfl : onTrue = [] := ht
      exact .inl ⟨_, rfl, hf.operand⟩

/-- A choice that waits is made by the first element of its condition. -/
theorem Operand.DeliversIn.ternary {c : Operand} {cs : List Item}
    (hc : c.DeliversIn context worlds scope cs)
    (ht : BranchDelivers context worlds scope onTrue as)
    (hf : AllDeliver context worlds scope onFalse bs) :
    Operand.DeliversIn context worlds scope (.deferred (.ternary c onTrue onFalse))
      (choiceItems (cs.head?.getD (.ok .null)) as bs) := by
  intro w hw
  obtain ⟨s, w₁, o, hw₁, hs⟩ := hc w hw
  obtain ⟨s', w₂, p, hw₂⟩ : ∃ s' w₂, Pulls context s w₁ cs.head? s' w₂ ∧ worlds w₂ := by
    cases cs with
    | nil => exact hs w₁ hw₁
    | cons x xs =>
      obtain ⟨s', w₂, p, hw₂, -⟩ := hs w₁ hw₁
      exact ⟨s', w₂, p, hw₂⟩
  have he : Evaluates context scope (.ternary c onTrue onFalse) w _ w₂ := evaluates_ternary o p
  rcases chosen_deliversIn ht hf (cs.head?.getD (.ok .null)) with ⟨x, e, hx⟩ | ⟨e, e', hitems⟩
  · rw [e] at he
    obtain ⟨t, w₃, o', hw₃, ht⟩ := hx w₂ hw₂
    exact ⟨t, w₃, opens_deferred he o', hw₃, ht⟩
  · rw [e'] at he
    rw [hitems]
    exact ⟨_, w₂, opens_deferred_error he, hw₂, .of_delivers (.items _)⟩

/-- A choice gives what its condition decides. -/
theorem Stands.ternary {b : Bool} {c : Operand} {m : Meaning}
    (h : Stands context worlds scope b c m)
    (ht : BranchDelivers context worlds scope onTrue as)
    (hf : AllDeliver context worlds scope onFalse bs) :
    AllDeliver context worlds scope (Operand.ternary scope c onTrue onFalse)
      (choiceItems (m.decision b) as bs) := by
  have hwait (e : Operand.ternary scope c onTrue onFalse = [.deferred (.ternary c onTrue onFalse)])
      (e' : m.decision b = m.items.head?.getD (.ok .null)) :
      AllDeliver context worlds scope (Operand.ternary scope c onTrue onFalse)
        (choiceItems (m.decision b) as bs) := by
    rw [e, e']
    exact .singleton (h.deliversIn.ternary ht hf)
  match b with
  | true => exact hwait (by rw [Operand.ternary, h.ready?_eq_none]) rfl
  | false =>
    obtain ⟨h⟩ := h
    cases h with
    | elements _ => exact hwait rfl rfl
    | known v => exact picked_deliver ht hf v

end

/-! ## Worlds that hold the same values -/

/-- Some slots can be reached, and some hold given values. -/
structure Keeping (live : List Handle) (held : List (Handle × Value)) (w : World) : Prop where
  live : ∀ slot ∈ live, w.Live slot
  holds : ∀ p ∈ held, w.Holds p.1 p.2

namespace Keeping

variable {live : List Handle} {held : List (Handle × Value)} {w : World} {slot : Handle}

/-- A slot that is not among those that hold values can be given one. -/
theorem store (h : Keeping live held w) (hs : slot ∈ live) (hne : ∀ p ∈ held, slot ≠ p.1)
    (v : Value) : Keeping live ((slot, v) :: held) (w.store slot v) := by
  have hlive : ∀ k ∈ live, (w.store slot v).Live k := fun k hk =>
    (Slots.alike_set w.slots slot v).reaches.mpr (h.live k hk)
  refine ⟨hlive, List.forall_mem_cons.mpr ⟨(h.live slot hs).holds_store v, fun p hp => ?_⟩⟩
  have hp' := h.holds p hp
  have hfind : (w.slots.set slot v).2.find? p.1 = w.slots.find? p.1 :=
    Slots.find?_set_of_ne (h.live slot hs) hp'.live (hne p hp) v
  show (w.slots.set slot v).2.get? p.1 = some p.2
  rw [Slots.get?, hfind]
  exact hp'

theorem of_cons {p : Handle × Value} (h : Keeping live (p :: held) w) : Keeping live held w :=
  ⟨h.live, fun q hq => h.holds q (List.mem_cons_of_mem p hq)⟩

end Keeping

end Rill
