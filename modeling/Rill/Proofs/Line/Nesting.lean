import Rill.Proofs.Holding
import Rill.Proofs.Line.Phrase

/-!
# Parameters inside one another

In `s | x -> t | y -> e` each `->` makes a parameter of the name before it, which is visible in all
that follows (`NestedLine`). `->` binds less tightly than `|` and leaves those before it waiting, so
each level is read on the ground of the ones around it (`Ground.enter`), and they are all folded at
the end of the line, the innermost first (`Wraps`). So the line is read as the source of each level,
piped into a closure whose body is read from the rest of the line (`nestedFactory`,
`NestedLine.parse_eq`).
-/

namespace Rill

open Parse (bind_ok lift_ok)

/-- A source of values, and the parameter that takes them. -/
structure Level where
  source : Phrase
  name : String

/-- A word that can be a parameter: it has no point. -/
structure IsName (name : String) : Prop extends IsWord name where
  plain : name.toList.contains '.' = false

/-- The tokens write some levels inside one another, and what is done in the innermost. -/
inductive NestedLine : List String → List Level → Phrase → List String → Prop
  | body {names : List String} {e : Phrase} {ts : List String} (h : Phrased names [] e ts) :
    NestedLine names [] e ts
  | level {names : List String} {source e : Phrase} {name : String} {levels : List Level}
    {ts us : List String} (hs : Phrased names ("|" :: name :: "->" :: us) source ts)
    (hn : IsName name) (h : NestedLine (name :: names) levels e us) :
    NestedLine names (⟨source, name⟩ :: levels) e (ts ++ "|" :: name :: "->" :: us)

/-- The factory of some levels, which take the next slots. -/
def nestedFactory (scope : Scope) (slots : Slots) : List Level → Phrase → Factory
  | [], e => .sequence scope (e.operands scope)
  | l :: levels, e =>
    .compose (.sequence scope (l.source.operands scope))
      (.bind slots.alloc.1
        (nestedFactory (scope.declare l.name slots.alloc.1) slots.alloc.2 levels e))

namespace Ground

/-- Nothing is on top of what waits but the parameter of a closure. -/
def Base (g : Ground) : Prop := ∀ p ∈ g.pending.head?, ∃ slot, p = .bind slot

/-- The ground of the body of a closure. -/
def enter (g : Ground) (name : String) (source : Factory) : Ground where
  scope := g.scope.declare name g.slots.alloc.1
  stages := { Yard.stage g.scope [.word name] with feed := some source } :: g.stages
  pending := .bind g.slots.alloc.1 :: g.pending
  taken := g.taken ++ [g.slots.alloc.1]
  slots := g.slots.alloc.2
  env := g.env

theorem Base.low {g : Ground} (h : g.Base) : g.Low := by
  intro p hp t ht
  obtain ⟨slot, rfl⟩ := h p hp
  cases ht
  decide

theorem base_start (w : World) : (start w).Base := nofun

theorem base_enter (g : Ground) (name : String) (source : Factory) :
    (g.enter name source).Base := by
  rintro _ ⟨⟩
  exact ⟨_, rfl⟩

end Ground

theorem Scope.isVar_declare {scope : Scope} {names : List String} {name : String} {slot : Handle}
    (h : ∀ n ∈ names, scope.isVar n = true) :
    ∀ n ∈ name :: names, (scope.declare name slot).isVar n = true := by
  intro n hn
  show (Sorted.find? n (Sorted.insert name slot scope.vars)).isSome = true
  by_cases e : n = name
  · rw [e, Sorted.find?_insert_self]
    rfl
  · rw [Sorted.find?_insert_of_ne e]
    exact h n ((List.mem_cons.mp hn).resolve_left e)

variable {context : Context} {names : List String} {g g' : Ground}

namespace Yard

/-- `|` after a phrase. -/
theorem token_pipe (hg : g.Base) {xs : List Operand} {y : Yard} (h : Settles context g xs y g')
    (tokens : List String) :
    Parse.token context "|" (y.parse tokens g') =
      .ok () (((⟨xs, []⟩ : Yard).push (.op .pipe)).parse tokens g) := by
  have hkeeps := keeps_binds Operator.pipe.tier
  obtain ⟨n, -, hfold⟩ := h.fold tokens hkeeps (by decide) rfl
  have hstop : ∀ p ∈ g.pending.head?,
      p.binds (fun t => decide (Operator.pipe.tier ≤ t)) = false := by
    intro p hp
    obtain ⟨slot, rfl⟩ := hg p hp
    rfl
  rw [Parse.foldWhile_of_head hstop] at hfold
  have hinfix : Parse.infixOp context (.op .pipe) (y.parse tokens g') =
      .ok () (((⟨xs, []⟩ : Yard).push (.op .pipe)).parse tokens g) := (bind_ok hfold).trans rfl
  exact hinfix

/-- `->` after a name folds the `|` before it, and leaves what is before that. -/
theorem token_bind (hg : g.Base) {xs : List Operand} (hxs : ∀ x ∈ xs, x.Settled g.scope)
    {name : String} (hn : IsName name) (tokens : List String) :
    Parse.token context "->"
        ((((⟨xs, []⟩ : Yard).push (.op .pipe)).append (.word name)).parse tokens g) =
      .ok () ((⟨[], []⟩ : Yard).parse tokens (g.enter name (.sequence g.scope xs))) := by
  -- the stage of the name, fed by the stage before the `|`
  let fed (source : Factory) : Parse :=
    ⟨tokens, { stage g.scope [.word name] with feed := some source } :: g.stages, g.pending,
      g.taken, g.slots, g.env⟩
  have hpipe : Parse.fold context
      ((((⟨xs, []⟩ : Yard).push (.op .pipe)).append (.word name)).parse tokens g) =
        .ok () (fed ((stage g.scope xs).toFactory context)) := rfl
  rw [toFactory_stage hxs] at hpipe
  have hstop : ∀ p ∈ g.pending.head?,
      p.binds (fun t => decide (Operator.bind.tier < t)) = false := by
    intro p hp
    obtain ⟨slot, rfl⟩ := hg p hp
    rfl
  have hfold : Parse.foldAll context (Pending.binds fun t => decide (Operator.bind.tier < t))
      ((((⟨xs, []⟩ : Yard).push (.op .pipe)).append (.word name)).parse tokens g) =
        .ok () (fed (.sequence g.scope xs)) := by
    refine (bind_ok rfl).trans ?_
    show Parse.foldWhile _ _ (g.pending.length + 1) _ = _
    rw [Parse.foldWhile_step rfl rfl, bind_ok hpipe]
    exact Parse.foldWhile_of_head hstop _
  have hbind : Parse.bindOp context
      ((((⟨xs, []⟩ : Yard).push (.op .pipe)).append (.word name)).parse tokens g) =
        .ok () ((⟨[], []⟩ : Yard).parse tokens (g.enter name (.sequence g.scope xs))) := by
    refine (bind_ok hfold).trans ((bind_ok rfl).trans ?_)
    show (if name.toList.contains '.' = true then _ else _ : Parser Unit) (fed _) = _
    rw [hn.plain]
    rfl
  exact hbind

end Yard

open Yard (Settles)

/-- A level is read on the ground of the ones around it. -/
theorem Phrased.reads_level (hg : g.Base) (hnames : ∀ name ∈ names, g.scope.isVar name = true)
    {name : String} (hn : IsName name) {phrase : Phrase} {ts us : List String}
    (h : Phrased names ("|" :: name :: "->" :: us) phrase ts) (tokens : List String) :
    Parse.all context (ts ++ "|" :: name :: "->" :: us) ((⟨[], []⟩ : Yard).parse tokens g) =
      Parse.all context us ((⟨[], []⟩ : Yard).parse us
        (g.enter name (.sequence g.scope (phrase.operands g.scope)))) := by
  obtain ⟨y, g', run, hy⟩ := h.reads context hg.low hnames
  rw [run, Parse.all_ok (Yard.token_pipe hg hy _),
    Parse.all_ok (Yard.token_leaf hn.read_eq hn.not_mark _),
    Parse.all_ok (Yard.token_bind hg hy.settled hn _)]

/-! ## The end of the line -/

/-- What the levels around a ground make of a factory on it. -/
inductive Wraps (w : World) : Ground → (Factory → Factory) → Prop
  | start : Wraps w (.start w) id
  | enter {g : Ground} {wrap : Factory → Factory} (h : Wraps w g wrap) (name : String)
    (source : Factory) :
    Wraps w (g.enter name source) fun f => wrap (.compose source (.bind g.slots.alloc.1 f))

/-- At the end of the line all levels are folded, the innermost first. -/
theorem Wraps.foldWhile {w : World} {wrap : Factory → Factory} (h : Wraps w g wrap)
    (context : Context) (taken : List Handle) (slots : Slots) (env : Environment) :
    ∀ {s : Stage} {n : Nat}, s.mode = none → g.pending.length ≤ n →
      ∃ root : Stage, root.toFactory context = wrap (s.toFactory context) ∧ root.mode = none ∧
        Parse.foldWhile context (fun p => !p.isBracket) n
          ⟨[], s :: g.stages, g.pending, taken, slots, env⟩ =
            .ok () ⟨[], [root], [], taken, slots, env⟩ := by
  induction h with
  | start =>
    intro s n hs _
    have hnone : ∀ p ∈ ([] : List Pending).head?, (!p.isBracket) = false := nofun
    exact ⟨s, rfl, hs, Parse.foldWhile_of_head hnone n⟩
  | @enter g wrap _ name source ih =>
    intro s n hs hn
    obtain ⟨m, rfl⟩ : ∃ m, n = m + 1 := ⟨n - 1, by simp [Ground.enter] at hn; omega⟩
    let outer : Stage :=
      { Yard.stage g.scope [] with
        feed := some source
        closure := some (.bind g.slots.alloc.1 (s.toFactory context))
        mode := s.mode }
    have hfold : Parse.fold context
        ⟨[], s :: (g.enter name source).stages, (g.enter name source).pending, taken, slots, env⟩ =
          .ok () ⟨[], outer :: g.stages, g.pending, taken, slots, env⟩ := rfl
    obtain ⟨root, hroot, hmode, e⟩ := ih (s := outer) hs (Nat.le_of_succ_le_succ hn)
    refine ⟨root, hroot, hmode, ?_⟩
    rw [Parse.foldWhile_step rfl rfl, bind_ok hfold, e]

/-- The end of the line after a phrase inside some levels. -/
theorem Wraps.finish {w : World} {wrap : Factory → Factory} (h : Wraps w g wrap)
    {xs : List Operand} {y : Yard} (hy : Settles context g xs y g') :
    Parse.finish context (y.parse [] g') =
      .ok (wrap (.sequence g.scope xs), .default) ⟨[], [], [], g.taken, g.slots, g.env⟩ := by
  obtain ⟨n, hn, hfold⟩ := hy.fold [] Yard.keeps_not_bracket (Nat.zero_le _) rfl
  obtain ⟨root, hroot, hmode, e⟩ :=
    h.foldWhile context g.taken g.slots g.env (s := Yard.stage g.scope xs) rfl hn
  rw [Yard.toFactory_stage hy.settled] at hroot
  have hresult : Parse.finish context (y.parse [] g') =
      .ok (root.toFactory context, root.mode.getD .default)
        ⟨[], [], [], g.taken, g.slots, g.env⟩ :=
    (bind_ok (hfold.trans e)).trans rfl
  rw [hresult, hroot, hmode]
  rfl

/-- A line of levels is read as their factory, inside what is around them. -/
theorem NestedLine.reads {levels : List Level} {e : Phrase} {ts : List String}
    (h : NestedLine names levels e ts) :
    ∀ {w : World} {g : Ground} {wrap : Factory → Factory}, Wraps w g wrap → g.Base →
      (∀ name ∈ names, g.scope.isVar name = true) →
      ∃ taken, (Parse.all context ts >>= fun _ => Parse.finish context)
          ((⟨[], []⟩ : Yard).parse ts g) =
        .ok (wrap (nestedFactory g.scope g.slots levels e), .default)
          ⟨[], [], [], taken, (g.slots.allocMany levels.length).2, g.env⟩ := by
  induction h with
  | body h =>
    intro w g wrap hw hg hnames
    obtain ⟨y, g', run, hy⟩ := h.reads context hg.low hnames
    rw [List.append_nil] at run
    exact ⟨_, (bind_ok (run _)).trans (hw.finish hy)⟩
  | @level names source e name levels ts us hs hn _ ih =>
    intro w g wrap hw hg hnames
    obtain ⟨taken, run⟩ := ih (hw.enter name _) (g.base_enter name _) (Scope.isVar_declare hnames)
    exact ⟨taken, (Parse.bind_eq (hs.reads_level hg hnames hn _)).trans run⟩

/-- A line of levels is read as their factory, and takes one slot for each of them. -/
theorem NestedLine.parse_eq (context : Context) {levels : List Level} {e : Phrase}
    {tokens : List String} (h : NestedLine [] levels e tokens) (w : World) :
    parse context tokens w =
      (.ok (nestedFactory .empty w.slots levels e, .default),
        { w with slots := (w.slots.allocMany levels.length).2 }) := by
  obtain ⟨taken, run⟩ := h.reads (.start (w := w)) (Ground.base_start w) nofun
  exact parse_of_ok run

end Rill
