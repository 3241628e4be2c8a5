import Rill.Proofs.Forcing

/-!
# Forcing ends

Forcing evaluates what waits, and goes on with what that gives; nothing in the operand seems to get
smaller. But whatever waits, and whatever scope it is evaluated in, it gives a value or a stream
(`Evaluates.isComputed`): the sides of an operator are forced before, and what they are forced to
waits for nothing, while a choice, a record and a template give a value or a stream at once. So the
loop goes round once at most (`Unwinds.le_one`), and forcing ends when one evaluation does
(`forces_deferred_iff`). Operators alone always end, however deep they are nested
(`OfOperators.forces`). All this together is `forcing_evaluates_once`.
-/

namespace Rill

open Run (Ends ends_bind ends_pure)

variable {context : Context} {scope : Scope} {d : Deferred} {w w' : World}

namespace Operand

/-- Whether an operand is a computation that waits. -/
def isDeferred : Operand → Bool
  | .deferred _ => true
  | _ => false

/-- Whether an operand is a value or a stream. -/
def isComputed : Operand → Bool
  | .value _ | .stream _ => true
  | _ => false

theorem isDeferred_of_isComputed {x : Operand} (h : x.isComputed = true) :
    x.isDeferred = false := by
  cases x with
  | value _ | stream _ => rfl
  | streamRef _ | word _ | deferred _ => cases h

theorem isDeferred_of_ready {x : Operand} {r : Ready} (h : x.ready? scope = some r) :
    x.isDeferred = false := by
  cases x with
  | value _ | stream _ | streamRef _ | word _ => rfl
  | deferred _ => cases h

theorem isComputed_ofOutcome (outcome : Except Error Outcome) :
    (ofOutcome outcome).isComputed = true := by
  match outcome with
  | .ok (.value _) | .ok (.range _ _) | .error _ => rfl

/-- An operator on what waits for nothing is computed at once. -/
theorem isComputed_applyUnary (op : Operator) {x : Operand} {r : Ready}
    (h : x.ready? scope = some r) : (applyUnary scope op x).isComputed = true := by
  cases r with
  | known v =>
    simp only [applyUnary, h]
    exact isComputed_ofOutcome _
  | lazy f =>
    simp only [applyUnary, h]
    rfl

theorem isComputed_applyBinary (op : Operator) {x y : Operand} {r r' : Ready}
    (h : x.ready? scope = some r) (h' : y.ready? scope = some r') :
    (applyBinary scope op x y).isComputed = true := by
  cases r with
  | known v =>
    cases r' with
    | known v' =>
      simp only [applyBinary, h, h']
      exact isComputed_ofOutcome _
    | lazy g =>
      simp only [applyBinary, h, h']
      rfl
  | lazy f => cases r' <;> simp only [applyBinary, h, h'] <;> rfl

end Operand

/-! ## One evaluation -/

theorem Calls.isComputed_choose {c : Calls} {condition y : Operand} {onTrue onFalse : List Operand}
    (h : c.choose scope condition onTrue onFalse w = some (.ok y, w')) : y.isComputed = true := by
  obtain ⟨item, u, -, h⟩ := Run.bind_eq_some.mp h
  cases item with
  | ok v =>
    dsimp only at h
    split at h
    · cases h
      split <;> rfl
    · cases h
      rfl
  | error e =>
    obtain ⟨h, -⟩ := Prod.mk.inj (Option.some.inj h)
    split at h
    · cases h
      rfl
    · cases h

/-- What waits gives a value or a stream, in whatever scope it is evaluated. -/
theorem Evaluates.isComputed {y : Operand} (h : Evaluates context scope d w (.ok y) w') :
    y.isComputed = true := by
  cases d with
  | unary op x =>
    obtain ⟨_, -, ⟨⟩⟩ | ⟨x', hx, ⟨⟩⟩ := evaluates_unary_iff.mp h
    obtain ⟨r, hr⟩ := hx.spec.1
    exact Operand.isComputed_applyUnary op hr
  | binary op x x' =>
    obtain ⟨_, -, ⟨⟩⟩ | ⟨z, u, hz, ⟨_, -, ⟨⟩⟩ | ⟨z', hz', ⟨⟩⟩⟩ := evaluates_binary_iff.mp h
    obtain ⟨r, hr⟩ := hz.spec.1
    obtain ⟨r', hr'⟩ := hz'.spec.1
    exact Operand.isComputed_applyBinary op hr hr'
  | ternary condition onTrue onFalse =>
    obtain ⟨n, hn⟩ := h
    exact Calls.isComputed_choose (hn n (Nat.le_refl n))
  | record type operands =>
    obtain ⟨n, hn⟩ := h
    obtain ⟨contents, u, -, k⟩ := Run.bind_eq_some.mp (hn n (Nat.le_refl n))
    cases contents with
    | error e => cases k
    | ok contents =>
      obtain ⟨hk, -⟩ := Prod.mk.inj (Option.some.inj k)
      cases ht : Record.ofText type (Record.text contents) with
      | error e =>
        rw [ht] at hk
        cases hk
      | ok v =>
        rw [ht] at hk
        cases hk
        rfl
  | template text =>
    obtain ⟨n, hn⟩ := h
    obtain ⟨pieces, u, -, k⟩ := Run.bind_eq_some.mp (hn n (Nat.le_refl n))
    cases pieces with
    | error e => cases k
    | ok pieces =>
      cases k
      rfl

/-! ## The loops -/

/-- So many computations that wait are evaluated, each but the first being what the one before
gave. -/
inductive Unwinds (context : Context) (scope : Scope) :
    Nat → Operand → World → Operand → World → Prop
  /-- None is evaluated. -/
  | here {x : Operand} {w : World} : Unwinds context scope 0 x w x w
  /-- The first is evaluated, and the others after it. -/
  | round {n : Nat} {d : Deferred} {y z : Operand} {w u w' : World}
    (h : Evaluates context scope d w (.ok y) u) (k : Unwinds context scope n y u z w') :
    Unwinds context scope (n + 1) (.deferred d) w z w'

/-- No loop goes round more than once. -/
theorem Unwinds.le_one {n : Nat} {x y : Operand} (h : Unwinds context scope n x w y w') :
    n ≤ 1 := by
  cases h with
  | here => exact Nat.zero_le 1
  | round h k =>
    cases k with
    | here => exact Nat.le_refl 1
    | round _ _ => exact nomatch h.isComputed

/-- Where a loop lands: at an operand that does not wait, with what is `done` there, or at a
computation that gives an error. -/
inductive Lands {α : Type} (context : Context) (scope : Scope)
    (done : Operand → World → α → World → Prop) (failed : Error → α) :
    Operand → World → α → World → Prop
  /-- The operand does not wait. -/
  | done {x : Operand} {w w' : World} {a : α} (hx : x.isDeferred = false) (h : done x w a w') :
    Lands context scope done failed x w a w'
  /-- The computation gives an error. -/
  | failed {d : Deferred} {e : Error} {w w' : World}
    (h : Evaluates context scope d w (.error e) w') :
    Lands context scope done failed (.deferred d) w (failed e) w'

/-- Of a computation, a loop does what it does of what the computation gives. -/
def Loops {α : Type} (context : Context) (scope : Scope)
    (loop : Operand → World → α → World → Prop) (failed : Error → α) : Prop :=
  ∀ d w a w', loop (.deferred d) w a w' ↔
    (∃ e, Evaluates context scope d w (.error e) w' ∧ a = failed e) ∨
    ∃ y u, Evaluates context scope d w (.ok y) u ∧ loop y u a w'

theorem Loops.iff_unwinds {α : Type} {loop : Operand → World → α → World → Prop}
    {failed : Error → α} (hloop : Loops context scope loop failed) {x : Operand} {a : α} :
    loop x w a w' ↔ ∃ n y u, Unwinds context scope n x w y u ∧
      Lands context scope loop failed y u a w' := by
  constructor
  · intro h
    cases hx : x.isDeferred with
    | false => exact ⟨0, x, w, .here, .done hx h⟩
    | true =>
      obtain ⟨d, rfl⟩ : ∃ d, x = .deferred d := by
        cases x with
        | deferred d => exact ⟨d, rfl⟩
        | value _ | stream _ | streamRef _ | word _ => cases hx
      obtain ⟨e, he, rfl⟩ | ⟨y, u, hy, k⟩ := (hloop d w a w').mp h
      · exact ⟨0, _, w, .here, .failed he⟩
      · exact ⟨1, y, u, .round hy .here, .done (Operand.isDeferred_of_isComputed hy.isComputed) k⟩
  · rintro ⟨n, y, u, h, k⟩
    induction h with
    | here =>
      cases k with
      | done _ h => exact h
      | failed h => exact (hloop ..).mpr (.inl ⟨_, h, rfl⟩)
    | round h _ ih => exact (hloop ..).mpr (.inr ⟨_, _, h, ih k⟩)

theorem loops_forces : Loops context scope (Forces context scope) .error := by
  intro d w r w'
  refine (forces_iff.trans (ends_bind (evaluate_mono d))).trans ⟨?_, ?_⟩
  · rintro ⟨e | y, u, h, k⟩
    · obtain ⟨rfl, rfl⟩ := ends_pure.mp k
      exact .inl ⟨e, h, rfl⟩
    · exact .inr ⟨y, u, h, k⟩
  · rintro (⟨e, h, rfl⟩ | ⟨y, u, h, k⟩)
    · exact ⟨_, _, h, ends_pure.mpr ⟨rfl, rfl⟩⟩
    · exact ⟨_, _, h, k⟩

theorem loops_opens : Loops context scope (Opens context scope) .fail :=
  fun _ _ _ _ => opens_deferred_iff

/-! ## What forcing gives -/

/-- A value or a stream is forced to itself. -/
theorem forces_of_isComputed {x : Operand} (hx : x.isComputed = true) :
    Forces context scope x w (.ok x) w := by
  cases x with
  | value _ => exact forces_value
  | stream _ => exact forces_stream
  | streamRef _ | word _ | deferred _ => cases hx

/-- Forcing what waits is evaluating it once. -/
theorem forces_deferred_iff {r : Except Error Operand} :
    Forces context scope (.deferred d) w r w' ↔ Evaluates context scope d w r w' := by
  refine (loops_forces d w r w').trans ⟨?_, fun h => ?_⟩
  · rintro (⟨e, h, rfl⟩ | ⟨y, u, h, k⟩)
    · exact h
    · obtain ⟨rfl, rfl⟩ := k.det (forces_of_isComputed h.isComputed)
      exact h
  · cases r with
    | error e => exact .inl ⟨e, h, rfl⟩
    | ok y => exact .inr ⟨y, w', h, forces_of_isComputed h.isComputed⟩

/-- A word that an operand is forced to is no parameter. -/
theorem Forces.isVarPath_eq_false {x : Operand} {word : String}
    (h : Forces context scope x w (.ok (.word word)) w') : scope.isVarPath word = false := by
  obtain ⟨r, hr⟩ := h.spec.1
  cases hvar : scope.isVarPath word with
  | false => rfl
  | true =>
    rw [Operand.ready?, if_pos hvar] at hr
    cases hr

/-- Operators, at any depth, of operands that do not wait. -/
inductive OfOperators : Operand → Prop
  /-- The operand does not wait. -/
  | leaf {x : Operand} (hx : x.isDeferred = false) : OfOperators x
  /-- An operator with one operand. -/
  | unary (op : Operator) {x : Operand} (hx : OfOperators x) :
    OfOperators (.deferred (.unary op x))
  /-- An operator with two operands. -/
  | binary (op : Operator) {x y : Operand} (hx : OfOperators x) (hy : OfOperators y) :
    OfOperators (.deferred (.binary op x y))

/-- Operators alone are always forced, and nothing else happens. -/
theorem OfOperators.forces {x : Operand} (h : OfOperators x) (w : World) :
    ∃ y, Forces context scope x w (.ok y) w := by
  induction h with
  | @leaf x hx =>
    cases x with
    | value _ | stream _ | streamRef _ => exact ⟨_, forces_of_ready rfl⟩
    | deferred _ => cases hx
    | word word =>
      cases hr : scope.resolve? w.slots word with
      | some v => exact ⟨_, forces_word hr⟩
      | none =>
        refine ⟨_, forces_text ?_⟩
        rw [Scope.isVarPath_eq_isSome w.slots, hr]
        rfl
  | unary op _ ih =>
    obtain ⟨y, hy⟩ := ih
    exact ⟨_, forces_deferred_iff.mpr (evaluates_unary hy)⟩
  | binary op _ _ ihx ihy =>
    obtain ⟨x', hx⟩ := ihx
    obtain ⟨y', hy⟩ := ihy
    exact ⟨_, forces_deferred_iff.mpr (evaluates_binary hx hy)⟩

/-- Whatever waits, in any scope, what it gives does not wait. So the loops that force an operand
and make its stream evaluate one computation at most; forcing a computation ends exactly as
evaluating it does, and always when it is made of operators alone; and it gives neither something
that waits nor a word that is a parameter. -/
theorem forcing_evaluates_once (context : Context) (scope : Scope) (x : Operand) (w : World) :
    (∀ d y w', Evaluates context scope d w (.ok y) w' → y.isDeferred = false) ∧
    (∀ n y w', Unwinds context scope n x w y w' → n ≤ 1) ∧
    (∀ r w', Forces context scope x w r w' ↔ ∃ n y u, Unwinds context scope n x w y u ∧
      Lands context scope (Forces context scope) .error y u r w') ∧
    (∀ s w', Opens context scope x w s w' ↔ ∃ n y u, Unwinds context scope n x w y u ∧
      Lands context scope (Opens context scope) .fail y u s w') ∧
    (∀ d r w', x = .deferred d →
      (Forces context scope x w r w' ↔ Evaluates context scope d w r w')) ∧
    (OfOperators x → ∃ y, Forces context scope x w (.ok y) w) ∧
    ∀ y w', Forces context scope x w (.ok y) w' →
      y.isDeferred = false ∧ ∀ word, y = .word word → scope.isVarPath word = false := by
  refine ⟨fun d y w' h => Operand.isDeferred_of_isComputed h.isComputed, fun n y w' h => h.le_one,
    fun r w' => loops_forces.iff_unwinds, fun s w' => loops_opens.iff_unwinds, ?_,
    fun h => h.forces w, fun y w' h => ⟨?_, ?_⟩⟩
  · rintro d r w' rfl
    exact forces_deferred_iff
  · obtain ⟨r, hr⟩ := h.spec.1
    exact Operand.isDeferred_of_ready hr
  · rintro word rfl
    exact h.isVarPath_eq_false

/-- What waits for a parameter is forced in the scope that has it, and in one in which its name is
only a text. -/
theorem forcing_evaluates_once_twice :
    let inner : Scope := .mk [("i", ⟨0, 0⟩)] []
    let outer : Scope := .mk [] []
    let w : World :=
      { World.ofEnvironment .empty with slots := ⟨#[⟨0, true, some (.json (.bool false))⟩], []⟩ }
    let x : Operand := .applyUnary inner .not (.applyUnary inner .not (.word "i"))
    x.isDeferred = true ∧
    Forces {} inner x w (.ok (.value (.json (.bool false)))) w ∧
    Forces {} outer x w (.ok (.value (.json (.bool true)))) w := by
  intro inner outer w x
  have forces_not {scope : Scope} {x y : Operand} (hy : Forces {} scope x w (.ok y) w) :
      Forces {} scope (.deferred (.unary .not x)) w (.ok (.applyUnary scope .not y)) w :=
    ((forcing_evaluates_once {} scope _ w).2.2.2.2.1 _ _ w rfl).mpr (evaluates_unary hy)
  have hinner : inner.resolve? w.slots "i" = some (.json (.bool false)) := rfl
  have houter : outer.isVarPath "i" = false := rfl
  refine ⟨rfl, ?_, ?_⟩
  · exact forces_not (forces_not (forces_word hinner))
  · exact forces_not (forces_not (forces_text houter))

end Rill
