import Mathlib.Logic.Function.Basic
import Rill.Proofs.Closure.Parameter
import Rill.Proofs.Closure.Work
import Rill.Proofs.Holding

/-!
# Closures that call themselves

All activations of a closure share one slot. It is written when an activation starts and before each
pull of it, and not when an activation that was pulled inside it returns: what is read after that is
the value of the inner activation. `Does` says how activities are done when the slots are read with
what is known of them at that time, wherever an inner activation stands: among the operands, on a
side of an operator, in a condition, in an argument or a record, or as an input of another. It
leaves open what is known after an inner activation (`Return`): the outer activation's own value, as
in the recursive function that the body defines (`Does.own_eq`); what the inner activation left, as
it is; or nothing, so that nothing may be read.

* `Does.happens`: activities happen as they are done if the slots hold what inner activations left
  in them;
* `Does.of_unknown`: where nothing is read after an inner activation, it makes no difference what
  they left;
* `recursive_closure`: both for the stream of a closure on any inputs, of which each begins an
  activation (`Acts`, `Answers`).
-/

namespace Rill

/-! ## What is known of the slots -/

/-- What is known of the slots. -/
abbrev Knowledge := Handle → Option Value

/-- What `k` knows `j` knows. -/
def Knowledge.Within (k j : Knowledge) : Prop := ∀ h v, k h = some v → j h = some v

/-- The slots hold what is known of them, in a world that differs from `w₀` in what its slots hold
and in nothing else. -/
structure Knows (w₀ : World) (k : Knowledge) (w : World) : Prop where
  rest : { w with slots := w₀.slots } = w₀
  live : ∀ h, w₀.Live h → w.Live h
  holds : ∀ h v, k h = some v → w.Holds h v

/-- What is known of the slot when an inner activation has returned. -/
inductive Return where
  /-- What was known of it before. -/
  | own
  /-- What the inner activation left. -/
  | last
  /-- Nothing. -/
  | unknown

/-- What is known after an activation that knows `k` when it returns, if `u` was known of the slot
before. -/
def Return.after (r : Return) (slot : Handle) (u : Option Value) (k : Knowledge) : Knowledge :=
  match r with
  | own => Function.update k slot u
  | last => k
  | unknown => Function.update k slot none

/-- How activities are done one after the other, from what is known when they begin to what is known
when they end. -/
inductive Does (context : Context) (w₀ : World) (r : Return) :
    Knowledge → List Work → Knowledge → Prop
  | done {k} : Does context w₀ r k [] k
  /-- An activity for which enough is known. -/
  | reads {k k' a as} (h : ∀ w, Knows w₀ k w → a.Happens context w w)
    (has : Does context w₀ r k as k') : Does context w₀ r k (a :: as) k'
  /-- An activity that is done by doing others. -/
  | step {k k₁ k' a bs as} (h : Needs context w₀.env a bs) (hbs : Does context w₀ r k bs k₁)
    (has : Does context w₀ r k₁ as k') : Does context w₀ r k (a :: as) k'
  /-- An inner activation, of the value `v`. -/
  | enter {k k₁ k' slot v a b as} (hl : w₀.Live slot) (h : Enters slot v a b)
    (hb : Does context w₀ r (Function.update k slot (some v)) [b] k₁)
    (has : Does context w₀ r (r.after slot (k slot) k₁) as k') : Does context w₀ r k (a :: as) k'

/-- What an activation of `v` gives: `v` is stored before each pull of the stream but the first,
which begins with what is known then. -/
inductive Acts (context : Context) (w₀ : World) (r : Return) (slot : Handle) (v : Value) :
    Knowledge → Stream → List Item → Knowledge → Prop
  | nil {k k' s s'} (h : Does context w₀ r k [.pull s none s'] k') :
    Acts context w₀ r slot v k s [] k'
  | cons {k k₁ k' s x s' xs} (h : Does context w₀ r k [.pull s (some x) s'] k₁)
    (hxs : Acts context w₀ r slot v (Function.update k₁ slot (some v)) s' xs k') :
    Acts context w₀ r slot v k s (x :: xs) k'

section

variable {context : Context} {w₀ w : World} {r : Return} {slot : Handle} {v : Value}
  {k k' k₁ j : Knowledge} {a b : Work} {as bs : List Work} {s : Stream} {xs ys zs : List Item}

namespace Knows

theorem env (h : Knows w₀ k w) : w.env = w₀.env := by
  have e := congrArg World.env h.rest
  exact e

theorem mono (h : Knows w₀ k w) (hj : j.Within k) : Knows w₀ j w :=
  ⟨h.rest, h.live, fun h' v' hv => h.holds h' v' (hj h' v' hv)⟩

theorem store (h : Knows w₀ k w) (hl : w₀.Live slot) (v : Value) :
    Knows w₀ (Function.update k slot (some v)) (w.store slot v) where
  rest := h.rest
  live h' hh := (Slots.alike_set w.slots slot v).reaches.mpr (h.live h' hh)
  holds h' v' hv := by
    by_cases e : h' = slot
    · subst e
      rw [Function.update_self] at hv
      exact Option.some.inj hv ▸ (h.live h' hl).holds_store v
    · rw [Function.update_of_ne e] at hv
      have hold := h.holds h' v' hv
      show ((w.slots.set slot v).2.find? h').bind Slot.value = some v'
      rw [Slots.find?_set_of_ne (h.live slot hl) hold.live (Ne.symm e)]
      exact hold

end Knows

/-- What was known before does not matter where the slot is written next. -/
theorem Return.update_after (r : Return) (slot : Handle) (u u' : Option Value) (k : Knowledge) :
    Function.update (r.after slot u k) slot u' = Function.update k slot u' := by
  cases r <;> simp only [Return.after, Function.update_idem]

/-- Of two activations one after the other the second counts. -/
theorem Return.after_after (r : Return) (slot : Handle) (u : Option Value) (k k' : Knowledge) :
    r.after slot (r.after slot u k slot) k' = r.after slot u k' := by
  cases r <;> simp only [Return.after, Function.update_self]

theorem Knowledge.Within.update (h : k.Within j) (slot : Handle) (u : Option Value) :
    Knowledge.Within (Function.update k slot u) (Function.update j slot u) := by
  intro h' v hv
  by_cases e : h' = slot
  · subst e
    rwa [Function.update_self] at hv ⊢
  · rw [Function.update_of_ne e] at hv ⊢
    exact h h' v hv

/-- Nothing is known of the slot where it is unknown what was left. -/
theorem Knowledge.Within.after (h : k.Within j) (r : Return) (slot : Handle) (u : Option Value) :
    Knowledge.Within (Function.update k slot none) (r.after slot u j) := by
  have hnone : Knowledge.Within (Function.update k slot none) j := by
    intro h' v hv
    by_cases e : h' = slot
    · subst e
      rw [Function.update_self] at hv
      cases hv
    · rw [Function.update_of_ne e] at hv
      exact h h' v hv
  cases r with
  | own =>
    intro h' v hv
    by_cases e : h' = slot
    · subst e
      rw [Function.update_self] at hv
      cases hv
    · exact (Function.update_of_ne e ..).trans (hnone h' v hv)
  | last => exact hnone
  | unknown => exact h.update slot none

/-! ## How activities are done -/

namespace Does

theorem append (h : Does context w₀ r k as k₁) (h' : Does context w₀ r k₁ bs k') :
    Does context w₀ r k (as ++ bs) k' := by
  induction h with
  | done => exact h'
  | reads h _ ih => exact .reads h (ih h')
  | step h hbs _ _ ih => exact .step h hbs (ih h')
  | enter hl h hb _ _ ih => exact .enter hl h hb (ih h')

/-- In the recursive function an inner activation changes nothing that is known. -/
theorem own_eq (h : Does context w₀ .own k as k') : k' = k := by
  induction h with
  | done => rfl
  | reads _ _ ih => exact ih
  | step _ _ _ ihb ih => exact ih.trans ihb
  | @enter k k₁ k' slot _ _ _ _ _ _ _ _ ihb ih =>
    subst ihb
    rw [ih, Return.after, Function.update_idem, Function.update_eq_self]

/-- What is done without knowing what inner activations left is done whatever they left. -/
theorem of_unknown (r : Return) (h : Does context w₀ .unknown k as k') (hj : k.Within j) :
    ∃ j', Does context w₀ r j as j' ∧ k'.Within j' := by
  induction h generalizing j with
  | done => exact ⟨j, .done, hj⟩
  | reads h _ ih =>
    obtain ⟨j', has, hj'⟩ := ih hj
    exact ⟨j', .reads (fun w hw => h w (hw.mono hj)) has, hj'⟩
  | step h _ _ ihb ih =>
    obtain ⟨j₁, hbs, hj₁⟩ := ihb hj
    obtain ⟨j', has, hj'⟩ := ih hj₁
    exact ⟨j', .step h hbs has, hj'⟩
  | enter hl h _ _ ihb ih =>
    obtain ⟨j₁, hb, hj₁⟩ := ihb (hj.update _ _)
    obtain ⟨j', has, hj'⟩ := ih (hj₁.after r _ _)
    exact ⟨j', .enter hl h hb has, hj'⟩

/-- Activities happen as they are done if the slots hold what inner activations left in them. -/
theorem happens (h : Does context w₀ .last k as k') (hw : Knows w₀ k w) :
    ∃ w', Work.AllHappen context as w w' ∧ Knows w₀ k' w' := by
  -- on the derivation: what is known of the slots is what they hold, so every read finds it there
  induction h generalizing w with
  | done => exact ⟨w, rfl, hw⟩
  | reads h _ ih =>
    obtain ⟨w', has, hw'⟩ := ih hw
    exact ⟨w', ⟨w, h w hw, has⟩, hw'⟩
  | step h _ _ ihb ih =>
    obtain ⟨w₁, hbs, hw₁⟩ := ihb hw
    obtain ⟨w', has, hw'⟩ := ih hw₁
    exact ⟨w', ⟨w₁, h.happens hw.env hbs, has⟩, hw'⟩
  | enter hl h _ _ ihb ih =>
    obtain ⟨w₁, ⟨_, hb, rfl⟩, hw₁⟩ := ihb (hw.store hl _)
    obtain ⟨w', has, hw'⟩ := ih hw₁
    exact ⟨w', ⟨_, h.happens hb, has⟩, hw'⟩

end Does

/-! ## What activations give -/

namespace Acts

/-- Only the first pull sees what was known before. -/
theorem of_pulls {t : Stream} (h : Acts context w₀ r slot v k s xs k')
    (hp : ∀ {item s' k₁}, Does context w₀ r k [.pull s item s'] k₁ →
      Does context w₀ r j [.pull t item s'] k₁) : Acts context w₀ r slot v j t xs k' := by
  cases h with
  | nil h => exact .nil (hp h)
  | cons h hxs => exact .cons (hp h) hxs

/-- An activation of the recursive function knows its own value, and keeps what else is known. -/
theorem own_eq (h : Acts context w₀ .own slot v k s xs k') (hk : k slot = some v) : k' = k := by
  induction h with
  | nil h => exact h.own_eq
  | cons h _ ih =>
    rw [ih (Function.update_self ..), h.own_eq, ← hk, Function.update_eq_self]

theorem of_unknown (r : Return) (h : Acts context w₀ .unknown slot v k s xs k')
    (hj : k.Within j) : ∃ j', Acts context w₀ r slot v j s xs j' ∧ k'.Within j' := by
  induction h generalizing j with
  | nil h =>
    obtain ⟨j', h, hj'⟩ := h.of_unknown r hj
    exact ⟨j', .nil h, hj'⟩
  | cons h _ ih =>
    obtain ⟨j₁, h, hj₁⟩ := h.of_unknown r hj
    obtain ⟨j', hxs, hj'⟩ := ih (hj₁.update _ _)
    exact ⟨j', .cons h hxs, hj'⟩

/-- What an activation gives is what its stream gives. -/
theorem drains (h : Acts context w₀ .last slot v (Function.update k slot (some v)) s xs k')
    (hl : w₀.Live slot) (hw : Knows w₀ k w) :
    ∃ w', Drains context (.bound slot v s) w xs w' ∧ Knows w₀ k' w' := by
  generalize e : Function.update k slot (some v) = k₀ at h
  induction h generalizing k w with
  | nil h =>
    subst e
    obtain ⟨w', ⟨_, p, rfl⟩, hw'⟩ := h.happens (hw.store hl v)
    exact ⟨w', .nil (pulls_bound.mpr ⟨_, rfl, p⟩), hw'⟩
  | cons h _ ih =>
    subst e
    obtain ⟨w₁, ⟨_, p, rfl⟩, hw₁⟩ := h.happens (hw.store hl v)
    obtain ⟨w', d, hw'⟩ := ih hw₁ rfl
    exact ⟨w', .cons (pulls_bound.mpr ⟨_, rfl, p⟩) d, hw'⟩

end Acts

/-! ## Rules for operands, and for values that are piped into a closure -/

namespace Does

variable {scope : Scope} {x y : Operand} {operands : List Operand} {front front' next : Stream}
  {item : Option Item}

theorem pull_once (scope : Scope) (operands : List Operand) (v : Value) :
    Does context w₀ r k
      [.pull (.concat scope operands (.once v)) (some (.ok v)) (.concat scope operands .empty)] k :=
  .step .concatFront (.reads (fun _ _ => pulls_items_cons.mpr ⟨⟨rfl, rfl⟩, rfl⟩) .done) .done

theorem pull_ended (h : Does context w₀ r k [.pull front none front'] k') :
    Does context w₀ r k [.pull (.concat scope [] front) none (.concat scope [] .empty)] k' :=
  .step .concatDone h .done

theorem pull_empty : Does context w₀ r k [.pull .empty none .empty] k :=
  .reads (fun _ _ => pulls_empty) .done

/-- The next operand is pulled where the stream in front has ended. -/
theorem pull_next {k₂ : Knowledge} (h : Does context w₀ r k [.pull front none front'] k₁)
    (o : Does context w₀ r k₁ [.stream scope x next] k₂)
    (p : Does context w₀ r k₂ [.pull (.concat scope operands next) item s] k') :
    Does context w₀ r k [.pull (.concat scope (x :: operands) front) item s] k' :=
  .step .concatNext (h.append (o.append p)) .done

/-- A parameter is read. -/
theorem word {name : String} (h : Sorted.find? (Scope.head name) scope.vars = some slot)
    (hk : k slot = some v) :
    Does context w₀ r k
      [.stream scope (.word name) (.ofValue (v.project ((segments name).drop 1)))] k :=
  .reads (fun _ hw => (opens_word (resolve?_of_holds h (hw.holds slot v hk))).mpr ⟨rfl, rfl⟩) .done

theorem computes {f : Value → Value} (h : x.Computes context scope slot f) (hk : k slot = some v) :
    Does context w₀ r k [.force scope x (.ok (.value (f v)))] k :=
  .reads (fun _ hw => h (hw.holds slot v hk)) .done

/-- An operator between what is computed from a parameter. -/
theorem binary {op : Operator} {f g : Value → Value} {c : Value}
    (hx : x.Computes context scope slot f) (hy : y.Computes context scope slot g)
    (hk : k slot = some v) (e : op.binary (f v) (g v) = .ok (.value c))
    (hc : Stream.ofValue c = .once c) :
    Does context w₀ r k [.stream scope (.deferred (.binary op x y)) (.once c)] k := by
  have hvalue : Operand.applyBinary scope op (.value (f v)) (.value (g v)) = .value c := by
    show Operand.ofOutcome (op.binary (f v) (g v)) = _
    rw [e]
    rfl
  have hneeds : Needs context w₀.env
      (.evaluate scope (.binary op x y) (.ok (.applyBinary scope op (.value (f v)) (.value (g v)))))
      [.force scope x (.ok (.value (f v))), .force scope y (.ok (.value (g v)))] :=
    .evaluateBinary (r := .ok _)
  have heval : Does context w₀ r k [.evaluate scope (.binary op x y) (.ok (.value c))] k :=
    .step (hvalue ▸ hneeds) ((computes hx hk).append (computes hy hk)) .done
  refine .step .deferred (heval.append ?_) .done
  exact .reads (fun _ _ => opens_value.mpr ⟨hc.symm, rfl⟩) .done

/-- A choice by a value. -/
theorem choice {c : Value} {z : Operand} {zs onFalse : List Operand}
    (h : Does context w₀ r k [.stream scope x (.once c)] k₁) :
    Does context w₀ r k
      [.stream scope (.deferred (.ternary x (z :: zs) onFalse))
        (.concat scope (if c.isTruthy then z :: zs else onFalse) .empty)] k₁ := by
  have hpull : Does context w₀ r k₁ [.pull (.once c) (some (.ok c)) .empty] k₁ :=
    .reads (fun _ _ => pulls_items_cons.mpr ⟨⟨rfl, rfl⟩, rfl⟩) .done
  have hchosen : chosen scope (z :: zs) onFalse (.ok c) =
      .ok (.stream (.sequence scope (if c.isTruthy then z :: zs else onFalse))) := by
    simp only [chosen]
    split <;> rfl
  have heval : Does context w₀ r k [.evaluate scope (.ternary x (z :: zs) onFalse) _] k₁ :=
    .step .evaluateTernary (h.append hpull) .done
  refine .step .deferred ((hchosen ▸ heval).append ?_) .done
  exact .step .factory (.reads (fun _ _ => makes_sequence.mpr ⟨rfl, rfl⟩) .done) .done

/-- A value that is piped into the closure begins an activation. -/
theorem call {c : Value} {body : Factory} {inner inner' : Stream} {z : Item} (hl : w₀.Live slot)
    (o : Does context w₀ r k [.stream scope x (.once c)] k)
    (hm : Does context w₀ r (Function.update k slot (some c)) [.make body .empty inner]
      (Function.update k slot (some c)))
    (hp : Does context w₀ r (Function.update k slot (some c)) [.pull inner (some z) inner'] k₁) :
    Does context w₀ r k
      [.pull (.flatMap (.bind slot body) (.concat scope [x] .empty) .empty) (some z)
        (.flatMap (.bind slot body) (.concat scope [] .empty) (.bound slot c inner'))]
      (r.after slot (k slot) k₁) := by
  have hinput : Does context w₀ r k
      [.pull (.concat scope [x] .empty) (some (.ok c)) (.concat scope [] .empty)] k :=
    pull_next pull_empty o (pull_once scope [] c)
  have hstart : Does context w₀ r k [.transform (.bind slot body) c (.bound slot c inner)]
      (r.after slot (k slot) (Function.update k slot (some c))) := .enter hl .transform hm .done
  have hstored : Function.update (r.after slot (k slot) (Function.update k slot (some c))) slot
      (some c) = Function.update k slot (some c) := by
    rw [r.update_after, Function.update_idem]
  rw [← hstored] at hp
  have hpull : Does context w₀ r (r.after slot (k slot) (Function.update k slot (some c)))
      [.pull (.flatMap (.bind slot body) (.concat scope [] .empty) (.bound slot c inner)) (some z)
        (.flatMap (.bind slot body) (.concat scope [] .empty) (.bound slot c inner'))]
      (r.after slot (r.after slot (k slot) (Function.update k slot (some c)) slot) k₁) :=
    .step .flatMapFront (.enter hl .pull hp .done) .done
  rw [r.after_after] at hpull
  exact .step .flatMapValue (pull_empty.append (hinput.append (hstart.append hpull))) .done

/-- The activation ends, and there is no other input. -/
theorem call_ended {c : Value} {t : Transform} {inner inner' : Stream} (hl : w₀.Live slot)
    (hp : Does context w₀ r (Function.update k slot (some c)) [.pull inner none inner'] k₁) :
    Does context w₀ r k
      [.pull (.flatMap t (.concat scope [] .empty) (.bound slot c inner)) none
        (.flatMap t .empty .empty)] (r.after slot (k slot) k₁) :=
  .step .flatMapDone (.enter hl .pull hp (pull_ended pull_empty)) .done

end Does

/-! ## The stream of a closure -/

/-- The next input is taken where the stream in front ended. -/
theorem Drains.flatMap {t : Transform} {input front : Stream} {w₁ w' : World}
    (h : Drains context front w xs w₁) (k : Drains context (.flatMap t input .empty) w₁ ys w') :
    Drains context (.flatMap t input front) w (xs ++ ys) w' := by
  induction h with
  | nil h => exact k.of_pulls fun _ _ _ p => pulls_flatMap_of_ended h p
  | cons h _ ih => exact .cons (pulls_flatMap.mpr (.front h)) (ih k)

/-- The closure is bound to a name that nothing hides, and its slot can be reached. -/
structure Stored (w : World) (slot : Handle) (scope : Scope) (name : String) (body : List Operand) :
    Prop where
  live : w.Live slot
  bound : Sorted.find? name w.env.bindings = some (.bind slot (.sequence scope body))
  notLocal : Sorted.find? name scope.overrides = none
  notVar : scope.isVarPath name = false

/-- What a closure gives for an input, if `k` is known of other slots before and after. -/
def Answers (context : Context) (w : World) (slot : Handle) (scope : Scope) (body : List Operand)
    (r : Return) (k : Knowledge) : Item → List Item → Prop
  | .ok v, ys => ∃ k', Acts context w r slot v (Function.update k slot (some v))
      (.concat scope body .empty) ys k' ∧ k.Within k'
  | .error e, ys => ys = [.error e]

variable {scope : Scope} {name : String} {body : List Operand}

theorem Answers.of_unknown (r : Return) : ∀ {x : Item} {ys : List Item},
    Answers context w slot scope body .unknown k x ys → Answers context w slot scope body r k x ys
  | .ok _, _, ⟨_, h, hk⟩ =>
    let ⟨j', h', hj'⟩ := h.of_unknown r fun _ _ => id
    ⟨j', h', fun h v hv => hj' h v (hk h v hv)⟩
  | .error _, _, h => h

/-- A closure gives its answers one after the other. -/
theorem Answers.drains (hc : Stored w slot scope name body) (hslot : k slot = none)
    {inputs : List Item} {zss : List (List Item)}
    (h : List.Forall₂ (Answers context w slot scope body .last k) inputs zss) :
    ∀ {w₀ : World}, Knows w k w₀ →
      ∃ w', Drains context (.flatMap (.bind slot (.sequence scope body)) (.items inputs) .empty) w₀
        zss.flatten w' := by
  induction h with
  | nil => exact fun _ => ⟨_, .nil (pulls_flatMap.mpr (.done pulls_empty pulls_empty))⟩
  | @cons x zs inputs zss hx _ ih =>
    intro w₀ hw
    have hnext : Pulls context (.items (x :: inputs)) w₀ (some x) (.items inputs) w₀ :=
      pulls_items_cons.mpr ⟨⟨rfl, rfl⟩, rfl⟩
    match x, hx with
    | .error e, hx =>
      obtain rfl := hx
      obtain ⟨w', hrest⟩ := ih hw
      have hfail : Drains context (.fail e) w₀ [.error e] w₀ :=
        .cons (pulls_items_cons.mpr ⟨⟨rfl, rfl⟩, rfl⟩) (.nil pulls_empty)
      refine ⟨w', (hfail.flatMap hrest).of_pulls fun _ _ _ p => pulls_flatMap.mpr ?_⟩
      exact .error pulls_empty hnext p
    | .ok c, ⟨k', hx, hk'⟩ =>
      have hstored : Knows w k (w₀.store slot c) := (hw.store hc.live c).mono fun h v hv => by
        rw [Function.update_of_ne fun e => ?_]
        · exact hv
        · rw [e, hslot] at hv
          cases hv
      obtain ⟨w₁, hact, hw₁⟩ := hx.drains hc.live hstored
      obtain ⟨w', hrest⟩ := ih (hw₁.mono hk')
      refine ⟨w', (hact.flatMap hrest).of_pulls fun _ _ _ p => pulls_flatMap.mpr ?_⟩
      refine .value pulls_empty hnext (transforms_bind.mpr ⟨_, rfl, ?_⟩) p
      exact makes_sequence.mpr ⟨rfl, rfl⟩

end

/-! ## Closures that put something behind a text

`{ n -> n == 'a' ? … : n }`, where texts such as `n + 'b'` are piped into the closure again. -/

namespace Behind

/-- The slot of `n`. -/
def slot : Handle := ⟨0, 0⟩

/-- The scope of the closure. -/
def scope : Scope := Scope.empty.declare "n" slot

/-- The parameter with a text behind it. -/
def plus (t : String) : Operand := .deferred (.binary .add (.word "n") (.value (.string t)))

/-- That text, piped into the closure. -/
def piped (t : String) : Factory := .compose (.sequence scope [plus t]) (.reference scope "f")

/-- The body of the closure. -/
def body (onTrue : List Operand) : List Operand :=
  [.deferred (.ternary (.deferred (.binary .eq (.word "n") (.value (.string "a")))) onTrue
    [.word "n"])]

/-- A world in which the closure is bound to `f`. -/
def world (onTrue : List Operand) : World :=
  { World.ofEnvironment
      (Environment.empty.set "f" (.bind slot (.sequence scope (body onTrue)))) with
    slots := Slots.empty.alloc.2 }

/-- The closure gives these texts for `a`. -/
def Gives (onTrue : List Operand) (texts : List String) : Prop :=
  ∃ s w', Makes {} (.reference scope "f") (.items [.ok (.string "a")]) (world onTrue) s
      (world onTrue) ∧
    Drains {} s (world onTrue) (texts.map fun t => .ok (.string t)) w'

/-- The stream of a text that is piped into the closure. -/
def call (onTrue : List Operand) (t : String) : Stream :=
  .flatMap (.bind slot (.sequence scope (body onTrue))) (.concat scope [plus t] .empty) .empty

/-- What is left of it when the closure has given its first text, for `u`. -/
def called (onTrue : List Operand) (u : String) : Stream :=
  .flatMap (.bind slot (.sequence scope (body onTrue))) (.concat scope [] .empty)
    (.bound slot (.string u) (.concat scope [] (.concat scope [] .empty)))

/-- What is known where the slot holds a text. -/
def known (u : String) : Knowledge := Function.update (fun _ => none) slot (some (.string u))

theorem known_slot (k : Knowledge) (u : String) :
    Function.update k slot (some (.string u)) slot = some (.string u) := Function.update_self ..

theorem stored (onTrue : List Operand) : Stored (world onTrue) slot scope "f" (body onTrue) :=
  ⟨⟨_, rfl⟩, rfl, rfl, rfl⟩

variable {onTrue : List Operand} {r : Return} {k : Knowledge} {u : String}

theorem reads (hk : k slot = some (.string u)) :
    Does {} (world onTrue) r k [.stream scope (.word "n") (.once (.string u))] k := .word rfl hk

theorem opens {x : Operand} {xs : List Operand} (hk : k slot = some (.string u)) :
    Does {} (world (x :: xs)) r k
      [.stream scope
        (.deferred (.ternary (.deferred (.binary .eq (.word "n") (.value (.string "a")))) (x :: xs)
          [.word "n"]))
        (.concat scope (if u == "a" then x :: xs else [.word "n"]) .empty)] k :=
  .choice (.binary (c := .bool (u == "a")) (.word rfl) (.value _) hk rfl rfl)

theorem makes (t : String) :
    Does {} (world onTrue) r k [.make (piped t) .empty (call onTrue t)] k :=
  .step .compose (.reads (fun _ _ => makes_sequence.mpr ⟨rfl, rfl⟩)
    (.step (.named rfl rfl rfl) (.reads (fun _ _ => makes_bind.mpr ⟨rfl, rfl⟩) .done) .done)) .done

/-- A text that is piped into the closure comes back, unless it is `a`. -/
theorem calls {x : Operand} {xs : List Operand} (t : String) (hk : k slot = some (.string u))
    (hu : (u ++ t == "a") = false) :
    Does {} (world (x :: xs)) r k
      [.pull (call (x :: xs) t) (some (.ok (.string (u ++ t)))) (called (x :: xs) (u ++ t))]
      (r.after slot (k slot) (Function.update k slot (some (.string (u ++ t))))) := by
  have hn : Does {} (world (x :: xs)) r _ _ _ := opens (known_slot k (u ++ t))
  rw [hu] at hn
  refine .call (stored _).live (.binary (.word rfl) (.value _) hk rfl rfl)
    (.reads (fun _ _ => makes_sequence.mpr ⟨rfl, rfl⟩) .done) (.pull_next .pull_empty hn ?_)
  exact .step .concatFront
    (.pull_next .pull_empty (reads (known_slot k _)) (.pull_once scope [] _)) .done

theorem ends : Does {} (world onTrue) r k
    [.pull (called onTrue u) none
      (.flatMap (.bind slot (.sequence scope (body onTrue))) .empty .empty)]
    (r.after slot (k slot) (Function.update k slot (some (.string u)))) :=
  .call_ended (stored _).live (.pull_ended (.pull_ended .pull_empty))

/-- What the closure gives if the operands of its first case are pulled one by one. -/
theorem answers {x : Operand} {xs : List Operand} {ys : List Item}
    (h : Acts {} (world (x :: xs)) r slot (.string "a") (known "a")
      (.concat scope [] (.concat scope (x :: xs) .empty)) ys k) :
    Answers {} (world (x :: xs)) slot scope (body (x :: xs)) r (fun _ => none)
      (.ok (.string "a")) ys :=
  ⟨k, h.of_pulls fun p => .pull_next .pull_empty (opens (known_slot _ _)) p, nofun⟩

/-- The parameter is read after a text has been piped into the closure. -/
def readAfter : List Operand := [.stream (piped "b"), .word "n"]

/-- The parameter is read before. -/
def readBefore : List Operand := [.word "n", .stream (piped "b")]

/-- The right side of an operator reads the parameter after the left side. -/
def sum : List Operand := [.stream (.zip .add (piped "b") (piped "c"))]

theorem answers_readAfter (e : ∀ k, r.after slot (some (.string "a"))
      (Function.update k slot (some (.string "ab"))) slot = some (.string u)) :
    Answers {} (world readAfter) slot scope (body readAfter) r (fun _ => none) (.ok (.string "a"))
      [.ok (.string "ab"), .ok (.string u)] := by
  have first : Does {} (world readAfter) r (known "a")
      [.pull (.concat scope [] (.concat scope readAfter .empty)) (some (.ok (.string "ab")))
        (.concat scope [] (.concat scope [.word "n"] (called readAfter "ab")))] _ :=
    .step .concatFront (.pull_next .pull_empty (.step .factory (makes "b") .done)
      (.step .concatFront (calls "b" (known_slot _ "a") rfl) .done)) .done
  have second {k : Knowledge} (hk : k slot = some (.string "a")) : Does {} (world readAfter) r k
      [.pull (.concat scope [] (.concat scope [.word "n"] (called readAfter "ab")))
        (some (.ok (.string u))) (.concat scope [] (.concat scope [] .empty))] _ :=
    .step .concatFront (.pull_next ends (reads (hk ▸ e k)) (.pull_once scope [] _)) .done
  exact answers (.cons first (.cons (second (known_slot _ _))
    (.nil (.pull_ended (.pull_ended .pull_empty)))))

theorem answers_readBefore :
    Answers {} (world readBefore) slot scope (body readBefore) r (fun _ => none)
      (.ok (.string "a")) [.ok (.string "a"), .ok (.string "ab")] := by
  have first : Does {} (world readBefore) r (known "a")
      [.pull (.concat scope [] (.concat scope readBefore .empty)) (some (.ok (.string "a")))
        (.concat scope [] (.concat scope [.stream (piped "b")] .empty))] _ :=
    .step .concatFront (.pull_next .pull_empty (reads (known_slot _ "a"))
      (.pull_once scope _ _)) .done
  have second {k : Knowledge} (hk : k slot = some (.string "a")) : Does {} (world readBefore) r k
      [.pull (.concat scope [] (.concat scope [.stream (piped "b")] .empty))
        (some (.ok (.string "ab"))) (.concat scope [] (.concat scope [] (called readBefore "ab")))]
      _ :=
    .step .concatFront (.pull_next .pull_empty (.step .factory (makes "b") .done)
      (.step .concatFront (calls "b" hk rfl) .done)) .done
  exact answers (.cons first (.cons (second (known_slot _ _))
    (.nil (.pull_ended (.pull_ended ends)))))

theorem answers_sum (e : ∀ k, r.after slot (some (.string "a"))
      (Function.update k slot (some (.string "ab"))) slot = some (.string u))
    (hu : (u ++ "c" == "a") = false) :
    Answers {} (world sum) slot scope (body sum) r (fun _ => none) (.ok (.string "a"))
      [.ok (.string ("ab" ++ (u ++ "c")))] := by
  have right : Does {} (world sum) r _ _ _ := calls "c" (e (known "a")) hu
  have pair : Does {} (world sum) r (known "a")
      [.pull (.zip .add (call sum "b") (call sum "c") .empty)
        (some (.ok (.string ("ab" ++ (u ++ "c")))))
        (.zip .add (called sum "ab") (called sum (u ++ "c")) .empty)] _ :=
    .step .zipPair (Does.pull_empty.append ((calls "b" (known_slot _ "a") rfl).append (right.append
      (.step .zipFront (.reads (fun _ _ => pulls_items_cons.mpr ⟨⟨rfl, rfl⟩, rfl⟩) .done) .done))))
      .done
  have first : Does {} (world sum) r (known "a")
      [.pull (.concat scope [] (.concat scope sum .empty))
        (some (.ok (.string ("ab" ++ (u ++ "c")))))
        (.concat scope [] (.concat scope []
          (.zip .add (called sum "ab") (called sum (u ++ "c")) .empty)))] _ :=
    .step .concatFront (.pull_next .pull_empty
      (.step .factory (.step .zip ((makes "b").append (makes "c")) .done) .done)
      (.step .concatFront pair .done)) .done
  exact answers (.cons first (.nil (.pull_ended (.pull_ended
    (.step .zipLeft (Does.pull_empty.append ends) .done)))))

end Behind

/-! ## The result -/

/-- What a closure that is bound to a name, and pipes values into that name, gives for any inputs.
Whatever is read in an activation is read with what the last activation inside it left in the slot.
So the closure gives what the recursive function gives exactly if that makes no difference; it makes
none where nothing is read after an inner activation until the next pull. -/
theorem recursive_closure {context : Context} {w : World} {slot : Handle} {scope : Scope}
    {name : String} {body : List Operand} {k : Knowledge} (hc : Stored w slot scope name body)
    (hslot : k slot = none)
    (hk : ∀ h v, k h = some v → w.Holds h v) {inputs : List Item} {s : Stream}
    (hs : Makes context (.reference scope name) (.items inputs) w s w) :
    (∀ zss, List.Forall₂ (Answers context w slot scope body .last k) inputs zss →
      ∃ w', Drains context s w zss.flatten w') ∧
    (∀ yss zss, List.Forall₂ (Answers context w slot scope body .own k) inputs yss →
      List.Forall₂ (Answers context w slot scope body .last k) inputs zss →
      ((∃ w', Drains context s w yss.flatten w') ↔ yss.flatten = zss.flatten)) ∧
    (∀ yss, List.Forall₂ (Answers context w slot scope body .unknown k) inputs yss →
      List.Forall₂ (Answers context w slot scope body .own k) inputs yss ∧
      ∃ w', Drains context s w yss.flatten w') := by
  have hmade : Makes context (.reference scope name) (.items inputs) w _ w :=
    makes_reference hc.notLocal hc.notVar hc.bound (makes_bind.mpr ⟨rfl, rfl⟩)
  obtain ⟨rfl, -⟩ := Run.Ends.det hs hmade
  have hdrains {zss : List (List Item)}
      (h : List.Forall₂ (Answers context w slot scope body .last k) inputs zss) :=
    Answers.drains hc hslot h ⟨rfl, fun _ => id, hk⟩
  refine ⟨fun zss h => hdrains h, fun yss zss _ h => ?_, fun yss h => ⟨?_, hdrains ?_⟩⟩
  · obtain ⟨w₁, hz⟩ := hdrains h
    refine ⟨fun ⟨w', hy⟩ => hy.det hz, fun e => ⟨w₁, ?_⟩⟩
    rw [e]
    exact hz
  · exact h.imp fun _ _ hx => hx.of_unknown .own
  · exact h.imp fun _ _ hx => hx.of_unknown .last

open Behind in
/-- `{ n -> n == 'a' ? (n + 'b' | $f) n : n }` on `a`: the parameter is read after the inner
activation, and found to be what that was given. In `n (n + 'b' | $f)` it is read before. And in
`(n + 'b' | $f) + (n + 'c' | $f)` the right side is read after the activation on the left. -/
theorem recursive_closure_order :
    Gives readAfter ["ab", "ab"] ∧ ¬ Gives readAfter ["ab", "a"] ∧
      Gives readBefore ["a", "ab"] ∧
      Gives sum ["ababc"] ∧ ¬ Gives sum ["abac"] := by
  have hs (onTrue : List Operand) : Makes {} (.reference scope "f") (.items [.ok (.string "a")])
      (world onTrue) (.flatMap (.bind slot (.sequence scope (body onTrue)))
        (.items [.ok (.string "a")]) .empty) (world onTrue) :=
    makes_reference rfl rfl rfl (makes_bind.mpr ⟨rfl, rfl⟩)
  have hlast (k : Knowledge) : Return.last.after slot (some (.string "a"))
      (Function.update k slot (some (.string "ab"))) slot = some (.string "ab") := known_slot k _
  have hown (k : Knowledge) : Return.own.after slot (some (.string "a"))
      (Function.update k slot (some (.string "ab"))) slot = some (.string "a") := known_slot _ _
  have hnothing {w : World} (h : Handle) (v : Value) (e : none = some v) : w.Holds h v := nomatch e
  -- the closure gives what `last` says, where it differs from what `own` says
  have hgives {onTrue : List Operand} {texts : List String}
      (h : Answers {} (world onTrue) slot scope (body onTrue) .last (fun _ => none)
        (.ok (.string "a")) (texts.map fun t => .ok (.string t))) : Gives onTrue texts := by
    obtain ⟨w', hd⟩ :=
      (recursive_closure (stored onTrue) rfl hnothing (hs onTrue)).1 _ (.cons h .nil)
    rw [List.flatten_cons, List.flatten_nil, List.append_nil] at hd
    exact ⟨_, w', hs onTrue, hd⟩
  have hnot {onTrue : List Operand} {texts : List String} (others : List String)
      (hne : texts ≠ others)
      (h : Answers {} (world onTrue) slot scope (body onTrue) .own (fun _ => none)
        (.ok (.string "a")) (texts.map fun t => .ok (.string t)))
      (h' : Answers {} (world onTrue) slot scope (body onTrue) .last (fun _ => none)
        (.ok (.string "a")) (others.map fun t => .ok (.string t))) : ¬ Gives onTrue texts := by
    rintro ⟨s, w', hm, hd⟩
    have hiff := (recursive_closure (stored onTrue) rfl hnothing hm).2.1 _ _ (.cons h .nil)
      (.cons h' .nil)
    simp only [List.flatten_cons, List.flatten_nil, List.append_nil] at hiff
    refine hne (List.map_injective_iff.mpr (fun t u e => ?_) (hiff.mp ⟨w', hd⟩))
    cases e
    rfl
  have hbefore : Gives readBefore ["a", "ab"] := by
    obtain ⟨-, w', hd⟩ := (recursive_closure (stored readBefore) rfl hnothing (hs _)).2.2 _
      (.cons answers_readBefore .nil)
    rw [List.flatten_cons, List.flatten_nil, List.append_nil] at hd
    exact ⟨_, w', hs _, hd⟩
  exact ⟨hgives (answers_readAfter hlast),
    hnot ["ab", "ab"] (by decide) (answers_readAfter hown) (answers_readAfter hlast), hbefore,
    hgives (answers_sum hlast rfl),
    hnot ["ababc"] (by decide) (answers_sum hown rfl) (answers_sum hlast rfl)⟩

end Rill
