import Mathlib.Data.Seq.Basic
import Mathlib.Logic.Function.Basic
import Rill.Proofs.Closure.Parameter

/-!
# Uses of one closure side by side

All uses of a closure share the slot of its parameter. If its body only reads that slot
(`ReadsOnly`), streams that the closure makes of lists can be pulled in any order (`Interleaved`):
each of them gives what the body gives for its own inputs, one after the other
(`interleaved_closures`), since the value is stored again before each pull. What such a stream still
has to give can be read off its shape (`Follows`), whatever the slot holds between two pulls.
-/

namespace Rill

open Stream' (Seq)

variable (context : Context)

/-- A body that only reads its slot: when the slot holds `v`, the streams that it makes are related
by `runs v` to what they will give, they are pulled accordingly, and the slot still holds `v`
afterwards. This has to hold in the worlds in which the body is used. -/
structure ReadsOnly (slot : Handle) (body : Factory) (worlds : World → Prop)
    (runs : Value → Stream → Seq Item → Prop) (out : Value → Seq Item) : Prop where
  store : ∀ {w} v, worlds w → worlds (w.store slot v)
  make : ∀ {w v s w'}, worlds w → w.Holds slot v → Makes context body .empty w s w' →
    worlds w' ∧ w'.Holds slot v ∧ runs v s (out v)
  pull : ∀ {w v s xs item s' w'}, worlds w → w.Holds slot v → runs v s xs →
    Pulls context s w item s' w' →
    worlds w' ∧ w'.Holds slot v ∧ item = xs.head ∧ runs v s' xs.tail

/-- Whatever a body is asked for comes to an end. -/
structure Completes (slot : Handle) (body : Factory) (worlds : World → Prop)
    (runs : Value → Stream → Seq Item → Prop) : Prop where
  make : ∀ {w v}, worlds w → w.Holds slot v → ∃ s w', Makes context body .empty w s w'
  pull : ∀ {w v s xs}, worlds w → w.Holds slot v → runs v s xs →
    ∃ item s' w', Pulls context s w item s' w'

/-- What a body gives for each of its inputs, one after the other. Errors stay where they are. -/
def flatItems (out : Value → Seq Item) : List Item → Seq Item
  | [] => .nil
  | .ok v :: xs => (out v).append (flatItems out xs)
  | .error e :: xs => .cons (.error e) (flatItems out xs)

/-- Pulls on a family of streams, one after the other: which stream was pulled and what it gave. -/
inductive Interleaved {ι : Type} [DecidableEq ι] :
    (ι → Stream) → World → List (ι × Option Item) → (ι → Stream) → World → Prop
  | nil {S : ι → Stream} {w : World} : Interleaved S w [] S w
  | cons {S S' : ι → Stream} {w w₁ w' : World} {i : ι} {item : Option Item} {s : Stream}
    {log : List (ι × Option Item)} (h : Pulls context (S i) w item s w₁)
    (k : Interleaved (Function.update S i s) w₁ log S' w') :
    Interleaved S w ((i, item) :: log) S' w'

/-- What one of the streams gave. -/
def results {ι : Type} [DecidableEq ι] (i : ι) : List (ι × Option Item) → List (Option Item)
  | [] => []
  | (j, item) :: log => if j = i then item :: results i log else results i log

variable {context}

section

variable {slot : Handle} {body : Factory} {worlds : World → Prop}
  {runs : Value → Stream → Seq Item → Prop} {out : Value → Seq Item}

/-! ## One stream -/

/-- What the stream in front of a closure's stream has to give. -/
inductive FrontGives (slot : Handle) (runs : Value → Stream → Seq Item → Prop) :
    Stream → Seq Item → Prop
  | items (xs : List Item) : FrontGives slot runs (.items xs) (.ofList xs)
  | bound {v : Value} {inner : Stream} {xs : Seq Item} (h : runs v inner xs) :
    FrontGives slot runs (.bound slot v inner) xs

/-- What is left to give of a closure's stream: the rest of what is in front, and what the body
gives for the inputs that are left. -/
inductive Follows (slot : Handle) (body : Factory) (runs : Value → Stream → Seq Item → Prop)
    (out : Value → Seq Item) : Stream → Seq Item → Prop
  | mk {front : Stream} {xs : Seq Item} (h : FrontGives slot runs front xs) (inputs : List Item) :
    Follows slot body runs out (.flatMap (.bind slot body) (.items inputs) front)
      (xs.append (flatItems out inputs))

theorem FrontGives.pull (hb : ReadsOnly context slot body worlds runs out) {front front' : Stream}
    {xs : Seq Item} {w w' : World} {item : Option Item} (h : FrontGives slot runs front xs)
    (hw : worlds w) (hl : w.Live slot) (k : Pulls context front w item front' w') :
    worlds w' ∧ w'.Live slot ∧ item = xs.head ∧ FrontGives slot runs front' xs.tail := by
  cases h with
  | items xs =>
    match xs with
    | [] =>
      obtain ⟨⟨rfl, rfl⟩, rfl⟩ := pulls_items_nil.mp k
      exact ⟨hw, hl, rfl, .items []⟩
    | x :: xs =>
      obtain ⟨⟨rfl, rfl⟩, rfl⟩ := pulls_items_cons.mp k
      rw [Seq.ofList_cons]
      exact ⟨hw, hl, rfl, .items xs⟩
  | @bound v _ _ h =>
    obtain ⟨inner', rfl, ki⟩ := pulls_bound.mp k
    obtain ⟨hw, hs, hx, h⟩ := hb.pull (hb.store v hw) (hl.holds_store v) h ki
    exact ⟨hw, hs.live, hx, .bound h⟩

theorem Follows.start (inputs : List Item) : Follows slot body runs out
    (.flatMap (.bind slot body) (.items inputs) .empty) (flatItems out inputs) := by
  have h : Follows slot body runs out _ _ := .mk (.items []) inputs
  rwa [Seq.ofList_nil, Seq.nil_append] at h

/-- An element in front is the first of all that is left. -/
theorem FrontGives.follows {x : Item} {xs : Seq Item} (hx : some x = xs.head) {front : Stream}
    (h : FrontGives slot runs front xs.tail) (inputs : List Item) :
    some x = (xs.append (flatItems out inputs)).head ∧
      Follows slot body runs out (.flatMap (.bind slot body) (.items inputs) front)
        (xs.append (flatItems out inputs)).tail := by
  have e : xs.append (flatItems out inputs) = .cons x (xs.tail.append (flatItems out inputs)) := by
    conv => lhs; rw [Seq.head_eq_some hx.symm]
    rw [Seq.cons_append]
  rw [e]
  exact ⟨rfl, .mk h inputs⟩

/-- A pull gives the first of what is left. -/
theorem Follows.pull (hb : ReadsOnly context slot body worlds runs out) {s s' : Stream}
    {xs : Seq Item} {w w' : World} {item : Option Item} (h : Follows slot body runs out s xs)
    (hw : worlds w) (hl : w.Live slot) (k : Pulls context s w item s' w') :
    worlds w' ∧ w'.Live slot ∧ item = xs.head ∧ Follows slot body runs out s' xs.tail := by
  obtain ⟨h, inputs⟩ := h
  rename_i front xs
  -- on the inputs: each round of the loop takes one
  induction inputs generalizing front xs w with
  | nil =>
    cases pulls_flatMap.mp k with
    | front kf =>
      obtain ⟨hw, hl, hx, hf⟩ := h.pull hb hw hl kf
      exact ⟨hw, hl, hf.follows hx []⟩
    | done kf ki =>
      obtain ⟨hw, hl, hx, -⟩ := h.pull hb hw hl kf
      obtain ⟨-, rfl⟩ := pulls_items_nil.mp ki
      rw [Seq.head_eq_none hx.symm, Seq.nil_append]
      exact ⟨hw, hl, rfl, .start []⟩
    | error _ ki | value _ ki => cases (pulls_items_nil.mp ki).1.1
  | cons y inputs ih =>
    cases pulls_flatMap.mp k with
    | front kf =>
      obtain ⟨hw, hl, hx, hf⟩ := h.pull hb hw hl kf
      exact ⟨hw, hl, hf.follows hx _⟩
    | done _ ki => cases (pulls_items_cons.mp ki).1.1
    | error kf ki kn =>
      obtain ⟨hw, hl, hx, -⟩ := h.pull hb hw hl kf
      obtain ⟨⟨e, rfl⟩, rfl⟩ := pulls_items_cons.mp ki
      obtain rfl := Option.some.inj e
      have := ih hw hl (.items [_]) kn
      rw [Seq.head_eq_none hx.symm, Seq.nil_append]
      rwa [Seq.ofList_cons, Seq.ofList_nil, Seq.cons_append, Seq.nil_append] at this
    | value kf ki o kn =>
      obtain ⟨hw, hl, hx, -⟩ := h.pull hb hw hl kf
      obtain ⟨⟨e, rfl⟩, rfl⟩ := pulls_items_cons.mp ki
      obtain rfl := Option.some.inj e
      obtain ⟨inner, rfl, m⟩ := transforms_bind.mp o
      obtain ⟨hw, hs, hr⟩ := hb.make (hb.store _ hw) (hl.holds_store _) m
      rw [Seq.head_eq_none hx.symm, Seq.nil_append]
      exact ih hw hs.live (.bound hr) kn

theorem FrontGives.exists_pull (hb : ReadsOnly context slot body worlds runs out)
    (hc : Completes context slot body worlds runs) {front : Stream} {xs : Seq Item} {w : World}
    (h : FrontGives slot runs front xs) (hw : worlds w) (hl : w.Live slot) :
    ∃ item front' w', Pulls context front w item front' w' := by
  cases h with
  | items xs =>
    match xs with
    | [] => exact ⟨_, _, _, pulls_items_nil.mpr ⟨⟨rfl, rfl⟩, rfl⟩⟩
    | x :: xs => exact ⟨_, _, _, pulls_items_cons.mpr ⟨⟨rfl, rfl⟩, rfl⟩⟩
  | @bound v _ _ h =>
    obtain ⟨item, inner, w', k⟩ := hc.pull (hb.store v hw) (hl.holds_store v) h
    exact ⟨item, _, w', pulls_bound.mpr ⟨inner, rfl, k⟩⟩

/-- A pull comes to an end if whatever the body is asked for does. -/
theorem Follows.exists_pull (hb : ReadsOnly context slot body worlds runs out)
    (hc : Completes context slot body worlds runs) {s : Stream} {xs : Seq Item} {w : World}
    (h : Follows slot body runs out s xs) (hw : worlds w) (hl : w.Live slot) :
    ∃ item s' w', Pulls context s w item s' w' := by
  obtain ⟨h, inputs⟩ := h
  rename_i front xs
  induction inputs generalizing front xs w with
  | nil =>
    obtain ⟨_ | x, front', w₁, kf⟩ := h.exists_pull hb hc hw hl
    · exact ⟨_, _, _, pulls_flatMap.mpr (.done kf (pulls_items_nil.mpr ⟨⟨rfl, rfl⟩, rfl⟩))⟩
    · exact ⟨_, _, _, pulls_flatMap.mpr (.front kf)⟩
  | cons y inputs ih =>
    obtain ⟨_ | x, front', w₁, kf⟩ := h.exists_pull hb hc hw hl
    · obtain ⟨hw, hl, -⟩ := h.pull hb hw hl kf
      have ki : Pulls context (.items (y :: inputs)) w₁ (some y) (.items inputs) w₁ :=
        pulls_items_cons.mpr ⟨⟨rfl, rfl⟩, rfl⟩
      match y with
      | .error e =>
        obtain ⟨item, s', w', k⟩ := ih hw hl (.items [.error e])
        exact ⟨_, _, _, pulls_flatMap.mpr (.error kf ki k)⟩
      | .ok v =>
        obtain ⟨inner, w₂, m⟩ := hc.make (hb.store v hw) (hl.holds_store v)
        obtain ⟨hw, hs, hr⟩ := hb.make (hb.store v hw) (hl.holds_store v) m
        obtain ⟨item, s', w', k⟩ := ih hw hs.live (.bound hr)
        exact ⟨_, _, _, pulls_flatMap.mpr (.value kf ki (transforms_bind.mpr ⟨_, rfl, m⟩) k)⟩
    · exact ⟨_, _, _, pulls_flatMap.mpr (.front kf)⟩

end

/-! ## Bodies that are sequences of reads -/

section

variable {scope : Scope} {slot : Handle}

/-- The stream of a sequence of operands that read the slot. -/
inductive SequenceRuns (context : Context) (scope : Scope) (slot : Handle) (v : Value) :
    Stream → Seq Item → Prop
  | mk {operands : List Operand} {gs : List (Value → List Item)} {front : Stream} {ys : List Item}
    (h : List.Forall₂ (fun x g => x.Reads context scope slot g) operands gs)
    (k : Delivers context front ys) :
    SequenceRuns context scope slot v (.concat scope operands front)
      (.ofList (ys ++ (gs.map fun g => g v).flatten))

theorem SequenceRuns.pull {v : Value} {s : Stream} {xs : Seq Item} {w : World}
    (h : SequenceRuns context scope slot v s xs) (hw : w.Holds slot v) :
    ∃ s', Pulls context s w xs.head s' w ∧ SequenceRuns context scope slot v s' xs.tail := by
  obtain ⟨h, k⟩ := h
  rename_i operands gs front ys
  induction h generalizing front ys with
  | nil =>
    cases k with
    | nil k => exact ⟨_, pulls_concat.mpr (.done (k w) rfl), .mk .nil (.items [])⟩
    | cons k k' =>
      rw [List.cons_append, Seq.ofList_cons]
      exact ⟨_, pulls_concat.mpr (.front (k w)), .mk .nil k'⟩
  | cons hx hxs ih =>
    cases k with
    | nil k =>
      obtain ⟨s, o, hs⟩ := hx hw
      obtain ⟨s', p, hs'⟩ := ih hs
      exact ⟨s', pulls_concat.mpr (.next (k w) rfl o p), hs'⟩
    | cons k k' =>
      rw [List.cons_append, Seq.ofList_cons]
      exact ⟨_, pulls_concat.mpr (.front (k w)), .mk (.cons hx hxs) k'⟩

variable {operands : List Operand} {gs : List (Value → List Item)}

theorem readsOnly_sequence
    (h : List.Forall₂ (fun x g => x.Reads context scope slot g) operands gs) :
    ReadsOnly context slot (.sequence scope operands) (fun _ => True)
      (SequenceRuns context scope slot) fun v => .ofList (gs.map fun g => g v).flatten where
  store := fun _ _ => trivial
  make := by
    rintro w v s w' - hv hm
    obtain ⟨rfl, rfl⟩ := makes_sequence.mp hm
    exact ⟨trivial, hv, .mk h (.items [])⟩
  pull := by
    rintro w v s xs item s' w' - hv hs hp
    obtain ⟨s₁, hp₁, hs₁⟩ := hs.pull hv
    obtain ⟨rfl, rfl, rfl⟩ := hp.det hp₁
    exact ⟨trivial, hv, rfl, hs₁⟩

theorem completes_sequence :
    Completes context slot (.sequence scope operands) (fun _ => True)
      (SequenceRuns context scope slot) where
  make := fun _ _ => ⟨_, _, makes_sequence.mpr ⟨rfl, rfl⟩⟩
  pull := by
    rintro w v s xs - hv hs
    obtain ⟨s', hp, -⟩ := hs.pull hv
    exact ⟨_, s', w, hp⟩

end

/-! ## Many streams -/

section

variable {slot : Handle} {body : Factory} {worlds : World → Prop}
  {runs : Value → Stream → Seq Item → Prop} {out : Value → Seq Item}
  {ι : Type} [DecidableEq ι]

/-- A pull on one stream leaves what the others have to give. -/
theorem follows_update {S : ι → Stream} {left : ι → Seq Item}
    (hS : ∀ i, Follows slot body runs out (S i) (left i)) {j : ι} {s : Stream}
    (hs : Follows slot body runs out s (left j).tail) (i : ι) :
    Follows slot body runs out (Function.update S j s i)
      (Function.update left j (left j).tail i) := by
  by_cases hij : i = j
  · subst hij
    rw [Function.update_self, Function.update_self]
    exact hs
  · rw [Function.update_of_ne hij, Function.update_of_ne hij]
    exact hS i

/-- Pulls in any order give what each stream has left, from the first on. -/
theorem Interleaved.results_eq (hb : ReadsOnly context slot body worlds runs out)
    {S S' : ι → Stream} {w w' : World} {log : List (ι × Option Item)}
    (h : Interleaved context S w log S' w') {left : ι → Seq Item}
    (hS : ∀ i, Follows slot body runs out (S i) (left i)) (hw : worlds w) (hl : w.Live slot)
    (i : ι) {k : Nat} {x : Option Item} (hx : (results i log)[k]? = some x) :
    x = (left i).get? k := by
  induction h generalizing left k with
  | nil => cases hx
  | @cons S S' w w₁ w' j item s log h _ ih =>
    obtain ⟨hw, hl, hitem, hs⟩ := (hS j).pull hb hw hl h
    by_cases hij : j = i
    · subst hij
      rw [results, if_pos rfl] at hx
      match k with
      | 0 => exact (Option.some.inj hx).symm.trans hitem
      | k + 1 =>
        have := ih (follows_update hS hs) hw hl hx
        rwa [Function.update_self] at this
    · rw [results, if_neg hij] at hx
      have := ih (follows_update hS hs) hw hl hx
      rwa [Function.update_of_ne (Ne.symm hij)] at this

/-- Pulls in every order come to an end if whatever the body is asked for does. -/
theorem Interleaved.exists_run (hb : ReadsOnly context slot body worlds runs out)
    (hc : Completes context slot body worlds runs) :
    ∀ (schedule : List ι) {S : ι → Stream} {left : ι → Seq Item} {w : World},
      (∀ i, Follows slot body runs out (S i) (left i)) → worlds w → w.Live slot →
      ∃ log S' w', Interleaved context S w log S' w' ∧ log.map Prod.fst = schedule
  | [], S, _, w, _, _, _ => ⟨[], S, w, .nil, rfl⟩
  | j :: schedule, S, left, w, hS, hw, hl => by
    obtain ⟨item, s, w₁, h⟩ := (hS j).exists_pull hb hc hw hl
    obtain ⟨hw, hl, -, hs⟩ := (hS j).pull hb hw hl h
    obtain ⟨log, S', w', k, e⟩ := exists_run hb hc schedule (follows_update hS hs) hw hl
    exact ⟨_, S', w', .cons h k, by rw [List.map_cons, e]⟩

/-- Streams that one closure makes of lists do not disturb each other: in whatever order they are
pulled, what each of them gives is what the body gives for its own inputs, one after the other, and
every pull comes to an end if whatever the body is asked for does. -/
theorem interleaved_closures (hb : ReadsOnly context slot body worlds runs out)
    (inputs : ι → List Item) {S : ι → Stream}
    (hS : ∀ i, ∃ w₀ w₁, Makes context (.bind slot body) (.items (inputs i)) w₀ (S i) w₁)
    {w : World} (hw : worlds w) (hl : w.Live slot) :
    (∀ log S' w', Interleaved context S w log S' w' →
      ∀ i k x, (results i log)[k]? = some x → x = (flatItems out (inputs i)).get? k) ∧
    (Completes context slot body worlds runs → ∀ schedule : List ι,
      ∃ log S' w', Interleaved context S w log S' w' ∧ log.map Prod.fst = schedule) := by
  have hS (i : ι) : Follows slot body runs out (S i) (flatItems out (inputs i)) := by
    obtain ⟨w₀, w₁, h⟩ := hS i
    rw [(makes_bind.mp h).1]
    exact .start _
  refine ⟨fun log S' w' h i k x hx => h.results_eq hb hS hw hl i hx, fun hc schedule => ?_⟩
  exact Interleaved.exists_run hb hc schedule hS hw hl

end

/-- A closure that gives its parameter twice, used on `1`, an error and `2`, and on `true`. -/
theorem interleaved_closures_twice :
    ∃ (log : List (Bool × Option Item)) (S' : Bool → Stream) (w' : World),
      Interleaved {}
        (fun i => .flatMap
          (.bind ⟨0, 0⟩ (.sequence (Scope.empty.declare "n" ⟨0, 0⟩) [.word "n", .word "n"]))
          (.items
            (if i then [.ok (.bool true)] else [.ok (.int 1), .error .invalidOp, .ok (.int 2)]))
          .empty)
        { World.ofEnvironment .empty with slots := Slots.empty.alloc.2 } log S' w' ∧
      log.map Prod.fst = [false, true, false, true, false, false, true] ∧
      ∀ (i : Bool) (k : Nat) (x : Option Item), (results i log)[k]? = some x →
        x = (if i then [.ok (.bool true), .ok (.bool true)]
          else [.ok (.int 1), .ok (.int 1), .error .invalidOp, .ok (.int 2), .ok (.int 2)] :
            List Item)[k]? := by
  have hn : Operand.Reads {} (Scope.empty.declare "n" ⟨0, 0⟩) ⟨0, 0⟩ (.word "n") fun v =>
      valueItems (v.project []) := .word rfl
  obtain ⟨gives, ends⟩ := interleaved_closures (readsOnly_sequence (.cons hn (.cons hn .nil)))
    (fun i : Bool =>
      if i then [.ok (.bool true)] else [.ok (.int 1), .error .invalidOp, .ok (.int 2)])
    (fun i => ⟨.ofEnvironment .empty, _, makes_bind.mpr ⟨rfl, rfl⟩⟩)
    (w := { World.ofEnvironment .empty with slots := Slots.empty.alloc.2 }) trivial ⟨_, rfl⟩
  obtain ⟨log, S', w', h, e⟩ :=
    ends completes_sequence [false, true, false, true, false, false, true]
  refine ⟨log, S', w', h, e, fun i k x hx => (gives log S' w' h i k x hx).trans ?_⟩
  cases i with
  | false =>
    show (flatItems _ [.ok (.int 1), .error .invalidOp, .ok (.int 2)]).get? k = _
    simp only [flatItems, Seq.append_nil, ← Seq.ofList_cons, ← Seq.ofList_append]
    rfl
  | true =>
    show (flatItems _ [.ok (.bool true)]).get? k = _
    simp only [flatItems, Seq.append_nil]
    rfl

end Rill
