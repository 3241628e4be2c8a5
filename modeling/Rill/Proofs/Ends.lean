import Rill.Proofs.Fuel

/-!
# What streams do, whatever the fuel

`Pulls`, `Makes`, `Opens` and `Forces` say how pulling a stream, using a factory, making the stream
of an operand and forcing an operand end when there is fuel enough. They are functions of the world
(`Pulls.det`), and each step of `Rill.Eval` is an equivalence for them: `pulls_flatMap` says
everything that pulling a `flatMap` can do, and so on. Later proofs use these equivalences and never
unfold an activity.
-/

namespace Rill

/-! ## Computations with fuel -/

namespace Run

/-- With enough fuel the computation ends in `w'` with the result `a`. -/
def Ends {α : Type} (x : Nat → Run α) (w : World) (a : α) (w' : World) : Prop :=
  ∃ n, ∀ m, n ≤ m → x m w = some (a, w')

/-- More fuel keeps how a computation ends. -/
def Mono {α : Type} (x : Nat → Run α) : Prop := ∀ m n, m ≤ n → Le (x m) (x n)

variable {α β : Type} {w w' : World}

theorem Mono.ends {x : Nat → Run α} (hx : Mono x) {n : Nat} {a : α} (h : x n w = some (a, w')) :
    Ends x w a w' := ⟨n, fun m hm => hx n m hm w _ h⟩

/-- A computation ends in one way only. -/
theorem Ends.det {x : Nat → Run α} {a b : α} {w₁ w₂ : World} (h : Ends x w a w₁)
    (k : Ends x w b w₂) : a = b ∧ w₁ = w₂ := by
  obtain ⟨m, h⟩ := h
  obtain ⟨n, k⟩ := k
  have e := (h _ (Nat.le_max_left m n)).symm.trans (k _ (Nat.le_max_right m n))
  exact Prod.mk.inj (Option.some.inj e)

theorem ends_const {x : Run α} {a : α} : Ends (fun _ => x) w a w' ↔ x w = some (a, w') :=
  ⟨fun ⟨n, h⟩ => h n (Nat.le_refl n), fun h => ⟨0, fun _ _ => h⟩⟩

theorem ends_pure {a b : α} : Ends (fun _ => (pure b : Run α)) w a w' ↔ a = b ∧ w' = w := by
  rw [ends_const]
  show some (b, w) = some (a, w') ↔ _
  simp [eq_comm]

theorem ends_bind {x : Nat → Run α} {f : Nat → α → Run β} (hx : Mono x) {b : β} :
    Ends (fun n => x n >>= f n) w b w' ↔
      ∃ a w₁, Ends x w a w₁ ∧ Ends (fun n => f n a) w₁ b w' := by
  constructor
  · rintro ⟨n, h⟩
    obtain ⟨a, w₁, h₁, -⟩ := bind_eq_some.mp (h n (Nat.le_refl n))
    have ends := hx.ends h₁
    refine ⟨a, w₁, ends, n, fun m hm => ?_⟩
    obtain ⟨a', w₁', h₁', h₂⟩ := bind_eq_some.mp (h m hm)
    obtain ⟨rfl, rfl⟩ := ends.det (hx.ends h₁')
    exact h₂
  · rintro ⟨a, w₁, ⟨m, h₁⟩, ⟨n, h₂⟩⟩
    refine ⟨max m n, fun k hk => bind_eq_some.mpr ⟨a, w₁, h₁ k ?_, h₂ k ?_⟩⟩ <;> omega

/-- What stands between two neighbours of a computation ends as it does. -/
theorem ends_between {x y : Nat → Run α} (h : ∀ n, Le (x n) (y n)) (k : ∀ n, Le (y n) (x (n + 1)))
    {a : α} : Ends x w a w' ↔ Ends y w a w' := by
  constructor
  · rintro ⟨n, e⟩
    exact ⟨n, fun m hm => h m _ _ (e m hm)⟩
  · rintro ⟨n, e⟩
    refine ⟨n + 1, fun m hm => ?_⟩
    obtain ⟨m, rfl⟩ := Nat.exists_eq_succ_of_ne_zero (by omega : m ≠ 0)
    exact k m _ _ (e m (by omega))

theorem ends_succ {x : Nat → Run α} (hx : Mono x) {a : α} :
    Ends x w a w' ↔ Ends (fun n => x (n + 1)) w a w' :=
  ends_between (fun n => hx _ _ n.le_succ) fun _ => .refl _

end Run

open Run (Ends Mono ends_bind ends_pure ends_const)

/-! ## The four activities -/

variable (context : Context)

/-- Pulling `s` gives `item` and leaves `s'`. -/
def Pulls (s : Stream) (w : World) (item : Option Item) (s' : Stream) (w' : World) : Prop :=
  Ends (fun n => Eval.pull context n s) w (item, s') w'

/-- Using `f` on `input` makes `s`. -/
def Makes (f : Factory) (input : Stream) (w : World) (s : Stream) (w' : World) : Prop :=
  Ends (fun n => Eval.invoke context n f input) w s w'

/-- The stream of `x` is `s`. -/
def Opens (scope : Scope) (x : Operand) (w : World) (s : Stream) (w' : World) : Prop :=
  Ends (fun n => Eval.toStream context n scope x) w s w'

/-- Forcing `x` gives `r`. -/
def Forces (scope : Scope) (x : Operand) (w : World) (r : Except Error Operand) (w' : World) :
    Prop :=
  Ends (fun n => Eval.force context n scope x) w r w'

variable {context} {w w' : World}

namespace Eval

theorem pull_mono (s : Stream) : Mono fun n => pull context n s :=
  fun _ _ h => (calls_le context h).pull s

theorem invoke_mono (f : Factory) (input : Stream) : Mono fun n => invoke context n f input :=
  fun _ _ h => (calls_le context h).invoke f input

theorem toStream_mono (scope : Scope) (x : Operand) : Mono fun n => toStream context n scope x :=
  fun _ _ h => (calls_le context h).toStream scope x

theorem force_mono (scope : Scope) (x : Operand) : Mono fun n => force context n scope x :=
  fun _ _ h => (calls_le context h).force scope x

end Eval

open Eval (pull_mono invoke_mono toStream_mono force_mono calls calls_le)

/-- What is pulled is a function of the stream and the world. -/
theorem Pulls.det {s s₁ s₂ : Stream} {x y : Option Item} {w₁ w₂ : World}
    (h : Pulls context s w x s₁ w₁) (k : Pulls context s w y s₂ w₂) :
    x = y ∧ s₁ = s₂ ∧ w₁ = w₂ := by
  obtain ⟨e, rfl⟩ := Ends.det h k
  obtain ⟨rfl, rfl⟩ := Prod.mk.inj e
  exact ⟨rfl, rfl, rfl⟩

theorem pulls_iff {s s' : Stream} {item : Option Item} :
    Pulls context s w item s' w' ↔ Ends (fun n => (calls context n).pullStep n s) w (item, s') w' :=
  Run.ends_succ (pull_mono s)

theorem makes_iff {f : Factory} {input s : Stream} :
    Makes context f input w s w' ↔
      Ends (fun n => (calls context n).invokeStep context n f input) w s w' :=
  Run.ends_succ (invoke_mono f input)

theorem opens_iff {scope : Scope} {x : Operand} {s : Stream} :
    Opens context scope x w s w' ↔ Ends (fun n => (calls context n).toStreamStep n scope x) w s w' :=
  Run.ends_succ (toStream_mono scope x)

theorem forces_iff {scope : Scope} {x : Operand} {r : Except Error Operand} :
    Forces context scope x w r w' ↔ Ends (fun n => (calls context n).forceStep n scope x) w r w' :=
  Run.ends_succ (force_mono scope x)

/-! ## Sequences of activities -/

theorem ends_pull {α : Type} {s : Stream} {f : Nat → Option Item × Stream → Run α} {a : α} :
    Ends (fun n => Eval.pull context n s >>= f n) w a w' ↔
      ∃ item s' w₁, Pulls context s w item s' w₁ ∧ Ends (fun n => f n (item, s')) w₁ a w' :=
  (ends_bind (pull_mono s)).trans
    ⟨fun ⟨(item, s'), w₁, h⟩ => ⟨item, s', w₁, h⟩, fun ⟨item, s', w₁, h⟩ => ⟨(item, s'), w₁, h⟩⟩

theorem ends_invoke {α : Type} {f : Factory} {input : Stream} {k : Nat → Stream → Run α} {a : α} :
    Ends (fun n => Eval.invoke context n f input >>= k n) w a w' ↔
      ∃ s w₁, Makes context f input w s w₁ ∧ Ends (fun n => k n s) w₁ a w' :=
  ends_bind (invoke_mono f input)

theorem ends_toStream {α : Type} {scope : Scope} {x : Operand} {k : Nat → Stream → Run α} {a : α} :
    Ends (fun n => Eval.toStream context n scope x >>= k n) w a w' ↔
      ∃ s w₁, Opens context scope x w s w₁ ∧ Ends (fun n => k n s) w₁ a w' :=
  ends_bind (toStream_mono scope x)

theorem ends_force {α : Type} {scope : Scope} {x : Operand}
    {k : Nat → Except Error Operand → Run α} {a : α} :
    Ends (fun n => Eval.force context n scope x >>= k n) w a w' ↔
      ∃ r w₁, Forces context scope x w r w₁ ∧ Ends (fun n => k n r) w₁ a w' :=
  ends_bind (force_mono scope x)

end Rill
