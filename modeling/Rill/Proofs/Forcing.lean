import Rill.Proofs.Delivers

/-!
# Forcing

An operator on an operand that waits for parameters waits, and forces its sides one after the other
when its stream is made. What an operand is forced to is ready for an operator, and its stream is
the stream of the operand (`Forces.spec`), so that an operator on two operands starts as the
operator on what they are forced to (`firstPulls_binary`).
-/

namespace Rill

open Run (ends_bind ends_pure)

variable {context : Context} {scope : Scope} {op : Operator} {w w' : World} {item : Option Item}
  {s : Stream}

theorem forces_of_ready {x : Operand} {r : Ready} (h : x.ready? scope = some r) :
    Forces context scope x w (.ok x) w := by
  match x with
  | .value _ | .stream _ | .streamRef _ => exact forces_iff.mpr (ends_pure.mpr ⟨rfl, rfl⟩)
  | .deferred _ => cases h
  | .word word =>
    refine forces_text (Bool.eq_false_iff.mpr fun hvar => ?_)
    rw [Operand.ready?, if_pos hvar] at h
    cases h

/-- What an operand is forced to waits for nothing, and its stream is the stream of the operand. -/
theorem Forces.spec {x y : Operand} {w₁ : World} (h : Forces context scope x w (.ok y) w₁) :
    (∃ r, y.ready? scope = some r) ∧
      ∀ s w', Opens context scope y w₁ s w' → Opens context scope x w s w' := by
  obtain ⟨n, hn⟩ := h
  have h : Eval.force context n scope x w = some (.ok y, w₁) := hn n (Nat.le_refl n)
  clear hn
  induction n generalizing x w with
  | zero => cases h
  | succ n ih =>
    cases x with
    | value _ | stream _ | streamRef _ =>
      cases h
      exact ⟨⟨_, rfl⟩, fun _ _ o => o⟩
    | word word =>
      obtain ⟨_, _, ⟨⟩, k⟩ := Run.bind_eq_some.mp h
      cases hr : scope.resolve? w.slots word with
      | some v =>
        rw [hr] at k
        cases k
        exact ⟨⟨_, rfl⟩, fun s w' o => (opens_word hr).mpr (opens_value.mp o)⟩
      | none =>
        have hvar : scope.isVarPath word = false := by
          rw [Scope.isVarPath_eq_isSome w.slots, hr]
          rfl
        rw [hr] at k
        cases k
        exact ⟨⟨_, if_neg (Bool.eq_false_iff.mp hvar)⟩, fun _ _ o => o⟩
    | deferred d =>
      obtain ⟨r, w₂, he, k⟩ := Run.bind_eq_some.mp h
      cases r with
      | error e => cases k
      | ok z =>
        obtain ⟨hready, hopens⟩ := ih k
        exact ⟨hready, fun s w' o => opens_deferred ((evaluate_mono d).ends he) (hopens s w' o)⟩

/-- How what starts with forcing an operand ends: with the error that it gives, or as `next` does
with what it gives. -/
def Forced (context : Context) (scope : Scope) (x : Operand) (w : World)
    (next : Operand → World → PullEnding) : PullEnding :=
  fun item s w' =>
    (∃ e, Forces context scope x w (.error e) w' ∧ item = some (.error e) ∧ s = .empty) ∨
    ∃ y u, Forces context scope x w (.ok y) u ∧ next y u item s w'

theorem forced_of_forces {x y : Operand} {w₁ : World} {next : Operand → World → PullEnding}
    (h : Forces context scope x w (.ok y) w₁) : Forced context scope x w next = next y w₁ := by
  funext item s w'
  refine propext ⟨?_, fun k => .inr ⟨y, w₁, h, k⟩⟩
  rintro (⟨e, h', -, -⟩ | ⟨y', u, h', k⟩)
  · cases (h.det h').1
  · obtain ⟨e, rfl⟩ := h.det h'
    cases e
    exact k

theorem Matches.forced {x : Operand} {R : Stream → Stream → Prop}
    {next next' : Operand → World → PullEnding} (hR : R .empty .empty)
    (h : ∀ y u, Forces context scope x w (.ok y) u → Matches R (next y u) (next' y u)) :
    Matches R (Forced context scope x w next) (Forced context scope x w next') := by
  refine ⟨fun item s w' => ?_, fun item t w' => ?_⟩
  · rintro (⟨e, hx, rfl, rfl⟩ | ⟨y, u, hx, k⟩)
    · exact ⟨_, .inl ⟨e, hx, rfl, rfl⟩, fun _ => hR⟩
    · obtain ⟨t, k, hst⟩ := (h y u hx).1 item s w' k
      exact ⟨t, .inr ⟨y, u, hx, k⟩, hst⟩
  · rintro (⟨e, hx, rfl, rfl⟩ | ⟨y, u, hx, k⟩)
    · exact ⟨_, .inl ⟨e, hx, rfl, rfl⟩, fun _ => hR⟩
    · obtain ⟨s, k, hst⟩ := (h y u hx).2 item t w' k
      exact ⟨s, .inr ⟨y, u, hx, k⟩, hst⟩

/-! ## Operators -/

/-- Making the stream of an operand, and taking the first element of it. -/
def Operand.FirstPulls (context : Context) (scope : Scope) (x : Operand) (w : World) :
    PullEnding :=
  fun item s w' => ∃ s₀ w₀, Opens context scope x w s₀ w₀ ∧ Pulls context s₀ w₀ item s w'

theorem firstPulls_stream {f : Factory} :
    Operand.FirstPulls context scope (.stream f) w = FirstPulls context f .empty w := by
  funext item s w'
  simp only [Operand.FirstPulls, opens_stream, FirstPulls]

/-- The stream of a computation that waits is that of what it comes to, or the error that it
gives. -/
theorem opens_deferred_iff {d : Deferred} :
    Opens context scope (.deferred d) w s w' ↔
      (∃ e, Evaluates context scope d w (.error e) w' ∧ s = .fail e) ∨
      ∃ x u, Evaluates context scope d w (.ok x) u ∧ Opens context scope x u s w' := by
  constructor
  · intro o
    obtain ⟨e | x, u, h, k⟩ := (ends_bind (evaluate_mono d)).mp (opens_iff.mp o)
    · obtain ⟨rfl, rfl⟩ := ends_pure.mp k
      exact .inl ⟨e, h, rfl⟩
    · exact .inr ⟨x, u, h, k⟩
  · rintro (⟨e, h, rfl⟩ | ⟨x, u, h, k⟩)
    · exact opens_deferred_error h
    · exact opens_deferred h k

/-- A computation that waits starts as what it comes to, or with the error that it gives. -/
theorem firstPulls_deferred {d : Deferred} :
    Operand.FirstPulls context scope (.deferred d) w item s w' ↔
      (∃ e, Evaluates context scope d w (.error e) w' ∧ item = some (.error e) ∧ s = .empty) ∨
      ∃ x u, Evaluates context scope d w (.ok x) u ∧
        Operand.FirstPulls context scope x u item s w' := by
  constructor
  · rintro ⟨s₀, w₀, o, p⟩
    obtain ⟨e, h, rfl⟩ | ⟨x, u, h, k⟩ := opens_deferred_iff.mp o
    · obtain ⟨⟨rfl, rfl⟩, rfl⟩ := pulls_items_cons.mp p
      exact .inl ⟨e, h, rfl, rfl⟩
    · exact .inr ⟨x, u, h, s₀, w₀, k, p⟩
  · rintro (⟨e, h, rfl, rfl⟩ | ⟨x, u, h, s₀, w₀, o, p⟩)
    · exact ⟨_, _, opens_deferred_error h, pulls_items_cons.mpr ⟨⟨rfl, rfl⟩, rfl⟩⟩
    · exact ⟨s₀, w₀, opens_deferred h o, p⟩

/-- An operator that waits forces its operand. -/
theorem evaluates_unary_iff {op : Operator} {x : Operand} {r : Except Error Operand} :
    Evaluates context scope (.unary op x) w r w' ↔
      (∃ e, Forces context scope x w (.error e) w' ∧ r = .error e) ∨
      ∃ y, Forces context scope x w (.ok y) w' ∧ r = .ok (.applyUnary scope op y) := by
  refine ends_force.trans ⟨?_, ?_⟩
  · rintro ⟨e | y, u, h, k⟩ <;> obtain ⟨rfl, rfl⟩ := ends_pure.mp k
    · exact .inl ⟨e, h, rfl⟩
    · exact .inr ⟨y, h, rfl⟩
  · rintro (⟨e, h, rfl⟩ | ⟨y, h, rfl⟩) <;> exact ⟨_, _, h, ends_pure.mpr ⟨rfl, rfl⟩⟩

/-- An operator that waits forces one side after the other. -/
theorem evaluates_binary_iff {x y : Operand} {r : Except Error Operand} :
    Evaluates context scope (.binary op x y) w r w' ↔
      (∃ e, Forces context scope x w (.error e) w' ∧ r = .error e) ∨
      ∃ x' u, Forces context scope x w (.ok x') u ∧
        ((∃ e, Forces context scope y u (.error e) w' ∧ r = .error e) ∨
          ∃ y', Forces context scope y u (.ok y') w' ∧ r = .ok (.applyBinary scope op x' y')) := by
  refine ends_force.trans ⟨?_, ?_⟩
  · rintro ⟨e | x', u, h, k⟩
    · obtain ⟨rfl, rfl⟩ := ends_pure.mp k
      exact .inl ⟨e, h, rfl⟩
    · obtain ⟨e | y', u', h', k⟩ := ends_force.mp k <;> obtain ⟨rfl, rfl⟩ := ends_pure.mp k
      · exact .inr ⟨x', u, h, .inl ⟨e, h', rfl⟩⟩
      · exact .inr ⟨x', u, h, .inr ⟨y', h', rfl⟩⟩
  · rintro (⟨e, h, rfl⟩ | ⟨x', u, h, ⟨e, h', rfl⟩ | ⟨y', h', rfl⟩⟩)
    · exact ⟨_, _, h, ends_pure.mpr ⟨rfl, rfl⟩⟩
    · exact ⟨_, _, h, ends_force.mpr ⟨_, _, h', ends_pure.mpr ⟨rfl, rfl⟩⟩⟩
    · exact ⟨_, _, h, ends_force.mpr ⟨_, _, h', ends_pure.mpr ⟨rfl, rfl⟩⟩⟩

theorem firstPulls_waiting (op : Operator) (x y : Operand) :
    Operand.FirstPulls context scope (.deferred (.binary op x y)) w =
      Forced context scope x w fun x' u => Forced context scope y u fun y' =>
        Operand.FirstPulls context scope (.applyBinary scope op x' y') := by
  funext item s w'
  refine propext (firstPulls_deferred.trans ⟨?_, ?_⟩)
  · rintro (⟨e, h, rfl, rfl⟩ | ⟨z, u, h, k⟩)
    · obtain ⟨_, hx, ⟨⟩⟩ | ⟨x', u, hx, ⟨_, hy, ⟨⟩⟩ | ⟨_, _, ⟨⟩⟩⟩ := evaluates_binary_iff.mp h
      · exact .inl ⟨e, hx, rfl, rfl⟩
      · exact .inr ⟨x', u, hx, .inl ⟨e, hy, rfl, rfl⟩⟩
    · obtain ⟨_, _, ⟨⟩⟩ | ⟨x', u', hx, ⟨_, _, ⟨⟩⟩ | ⟨y', hy, ⟨⟩⟩⟩ := evaluates_binary_iff.mp h
      exact .inr ⟨x', u', hx, .inr ⟨y', u, hy, k⟩⟩
  · rintro (⟨e, hx, rfl, rfl⟩ | ⟨x', u, hx, ⟨e, hy, rfl, rfl⟩ | ⟨y', u', hy, k⟩⟩)
    · exact .inl ⟨e, evaluates_binary_iff.mpr (.inl ⟨e, hx, rfl⟩), rfl, rfl⟩
    · exact .inl ⟨e, evaluates_binary_iff.mpr (.inr ⟨x', u, hx, .inl ⟨e, hy, rfl⟩⟩), rfl, rfl⟩
    · exact .inr ⟨_, _, evaluates_binary hx hy, k⟩

/-- An operator on two operands starts as the operator on what they come to. -/
theorem firstPulls_binary (op : Operator) (x y : Operand) :
    Operand.FirstPulls context scope (.applyBinary scope op x y) w =
      Forced context scope x w fun x' u => Forced context scope y u fun y' =>
        Operand.FirstPulls context scope (.applyBinary scope op x' y') := by
  cases hx : x.ready? scope with
  | none =>
    have e : Operand.applyBinary scope op x y = .deferred (.binary op x y) := by
      simp only [Operand.applyBinary, hx]
    rw [e]
    exact firstPulls_waiting op x y
  | some a =>
    cases hy : y.ready? scope with
    | none =>
      have e : Operand.applyBinary scope op x y = .deferred (.binary op x y) := by
        cases a <;> simp only [Operand.applyBinary, hx, hy]
      rw [e]
      exact firstPulls_waiting op x y
    | some b => rw [forced_of_forces (forces_of_ready hx), forced_of_forces (forces_of_ready hy)]

end Rill
