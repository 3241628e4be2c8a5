import Rill.Proofs.Record.Contents
import Rill.Proofs.Sorted

/-!
# Arguments one after the other

The values of the arguments of a command are collected one argument after the other, up to the first
that fails (`collectsAll_append`, `collectsAll_error_iff`), and become one object. Of arguments that
stand one after the other that is the object of the first, with the fields of the second put over
it, but for what both list under `@`, which is put one after the other (`Arguments.unite`,
`Arguments.project_append`). All this together is `configures_unite`; `makes_echo` says that a
command is given this object.
-/

namespace Rill

/-! ## The object of some values -/

namespace Arguments

variable {vs ws : List Value}

/-- What a value gives to the object if it is an object. -/
def fieldsOf (v : Value) : Sorted Json :=
  match v.toJson with
  | .object fields => fields
  | _ => []

/-- No value that is an object has a field whose key is that of the other values. -/
def Unlisted (vs : List Value) : Prop := ∀ v ∈ vs, ∀ e ∈ fieldsOf v, e.1 ≠ positional

instance (vs : List Value) : Decidable (Unlisted vs) :=
  inferInstanceAs (Decidable (∀ v ∈ vs, ∀ e ∈ fieldsOf v, e.1 ≠ positional))

/-- Two lists under `@` one after the other. -/
def joined : Option Json → Option Json → Option Json
  | some (.list xs), some (.list ys) => some (.list (xs ++ ys))
  | x, y => y.or x

/-- The fields of both objects, those of `more` winning; but what both list under `@` is put one
after the other. -/
def unite (base more : Sorted Json) : Sorted Json :=
  match joined (Sorted.find? positional base) (Sorted.find? positional more) with
  | some listed => Sorted.insert positional listed (Sorted.merge base more)
  | none => Sorted.merge base more

theorem fields_eq (vs : List Value) : fields vs = Sorted.ofList (vs.flatMap fieldsOf) := by
  suffices h : ∀ acc : Sorted Json, vs.foldl (fun acc v =>
      match v.toJson with
      | .object more => Sorted.merge acc more
      | _ => acc) acc = Sorted.merge acc (vs.flatMap fieldsOf) from h []
  induction vs with
  | nil => exact fun _ => rfl
  | cons v vs ih =>
    intro acc
    rw [List.foldl_cons, ih, List.flatMap_cons, Sorted.merge, Sorted.merge, List.foldl_append]
    unfold fieldsOf
    cases v.toJson <;> rfl

theorem find?_fields_append (key : String) (vs ws : List Value) :
    Sorted.find? key (fields (vs ++ ws)) =
      (Sorted.find? key (fields ws)).or (Sorted.find? key (fields vs)) := by
  rw [fields_eq, fields_eq, fields_eq, List.flatMap_append, ← Sorted.find?_merge, Sorted.ofList,
    Sorted.merge, List.foldl_append]
  rfl

theorem find?_fields_of_unlisted (h : Unlisted vs) : Sorted.find? positional (fields vs) = none := by
  rw [fields_eq]
  refine Sorted.find?_ofList_of_not_mem fun e he => ?_
  obtain ⟨v, hv, he⟩ := List.mem_flatMap.mp he
  exact h v hv e he

theorem increasing_project (vs : List Value) : (project vs).Increasing := by
  have hfields : (fields vs).Increasing := by
    rw [fields_eq]
    exact Sorted.Increasing.merge .nil _
  rw [project]
  split
  · exact hfields
  · exact hfields.insert _ _

theorem find?_project {key : String} (h : key ≠ positional) (vs : List Value) :
    Sorted.find? key (project vs) = Sorted.find? key (fields vs) := by
  rw [project]
  split
  · rfl
  · exact Sorted.find?_insert_of_ne h _ _

/-- What is under `@`, unless objects put something there. -/
def listing (vs : List Value) : Option Json :=
  if (listed vs).isEmpty then none else some (.list (listed vs))

theorem find?_positional (h : Unlisted vs) :
    Sorted.find? positional (project vs) = listing vs := by
  rw [project, listing]
  split
  · exact find?_fields_of_unlisted h
  · exact Sorted.find?_insert_self _ _ _

theorem joined_listing (vs ws : List Value) :
    joined (listing vs) (listing ws) = listing (vs ++ ws) := by
  have happend : listed (vs ++ ws) = listed vs ++ listed ws := List.filterMap_append
  simp only [listing, happend]
  cases listed vs with
  | nil => cases listed ws <;> rfl
  | cons x xs =>
    cases listed ws with
    | nil => simp [joined]
    | cons y ys => simp [joined]

theorem find?_unite {base more : Sorted Json} (hmore : more.Increasing) (key : String) :
    Sorted.find? key (unite base more) =
      if key = positional then
        joined (Sorted.find? positional base) (Sorted.find? positional more)
      else (Sorted.find? key more).or (Sorted.find? key base) := by
  have hmerge : Sorted.find? key (Sorted.merge base more) =
      (Sorted.find? key more).or (Sorted.find? key base) := by
    rw [Sorted.find?_merge, Sorted.ofList_of_increasing hmore]
  rw [unite]
  split
  · rename_i items hitems
    split
    · rename_i hkey
      rw [hkey, Sorted.find?_insert_self, hitems]
    · rename_i hkey
      rw [Sorted.find?_insert_of_ne hkey, hmerge]
  · rename_i hnone
    rw [hmerge]
    split
    · -- neither has anything under the key
      rename_i hkey
      rw [hkey, hnone]
      unfold joined at hnone
      split at hnone
      · cases hnone
      · exact hnone
    · rfl

theorem increasing_unite {base : Sorted Json} (hbase : base.Increasing) (more : Sorted Json) :
    (unite base more).Increasing := by
  rw [unite]
  split
  · exact (hbase.merge more).insert _ _
  · exact hbase.merge more

/-- The object of values that stand one after the other. -/
theorem project_append (hvs : Unlisted vs) (hws : Unlisted ws) :
    project (vs ++ ws) = unite (project vs) (project ws) := by
  have happend : Unlisted (vs ++ ws) := fun v hv =>
    (List.mem_append.mp hv).elim (hvs v) (hws v)
  refine (increasing_project _).ext (increasing_unite (increasing_project vs) _) fun key => ?_
  rw [find?_unite (increasing_project ws)]
  split
  · rename_i hkey
    rw [hkey, find?_positional happend, find?_positional hvs, find?_positional hws, joined_listing]
  · rename_i hkey
    rw [find?_project hkey, find?_project hkey, find?_project hkey, find?_fields_append]

/-- The object of some values is itself a value, and its object is itself. -/
theorem project_object {config : Sorted Json} (h : config.Increasing) :
    project [.json (.object config)] = config :=
  Sorted.ofList_of_increasing h

end Arguments

/-! ## Evaluating arguments -/

open Run (Ends ends_bind ends_pure)
open Eval (calls calls_le)

/-- The values of all arguments are collected, or there is an error among them. -/
def CollectsAll (context : Context) (scope : Scope) (args : List Operand) (w : World)
    (r : Except Error (List Value)) (w' : World) : Prop :=
  Ends (fun n => (calls context n).allValues n scope args) w r w'

/-- The arguments become one object, or there is an error among their values. -/
def Configures (context : Context) (scope : Scope) (args : List Operand) (w : World)
    (r : Except Error (Sorted Json)) (w' : World) : Prop :=
  ∃ vs, CollectsAll context scope args w vs w' ∧ r = vs.map Arguments.project

variable {context : Context} {scope : Scope} {w w₁ w' : World} {args xs ys : List Operand}
  {x : Operand} {e : Error} {vs ws : List Value} {r : Except Error (List Value)}

theorem ends_allValues {α : Type} {f : Nat → Except Error (List Value) → Run α} {a : α} :
    Ends (fun n => (calls context n).allValues n scope args >>= f n) w a w' ↔
      ∃ r w₁, CollectsAll context scope args w r w₁ ∧ Ends (fun n => f n r) w₁ a w' :=
  ends_bind fun _ _ h => Calls.allValues_le (calls_le context h) h scope args

theorem collects_value (v : Value) :
    Collects context scope (.value v) w (collected (valueItems v)) w :=
  collects_of_opens (opens_value.mpr ⟨rfl, rfl⟩) (.ofValue v)

theorem collectsAll_nil : CollectsAll context scope [] w r w' ↔ r = .ok [] ∧ w' = w := ends_pure

/-- An error in the first argument ends it, and its values are followed by those of the others. -/
theorem collectsAll_cons :
    CollectsAll context scope (x :: xs) w r w' ↔
      (∃ e, Collects context scope x w (.error e) w' ∧ r = .error e) ∨
      ∃ vs w₁ more, Collects context scope x w (.ok vs) w₁ ∧
        CollectsAll context scope xs w₁ more w' ∧ r = more.map (vs ++ ·) := by
  refine Record.ends_values.trans ⟨?_, ?_⟩
  · rintro ⟨e | vs, w₁, h, k⟩
    · obtain ⟨rfl, rfl⟩ := ends_pure.mp k
      exact .inl ⟨e, h, rfl⟩
    · obtain ⟨e | more, w₂, h', k⟩ := ends_allValues.mp k <;> obtain ⟨rfl, rfl⟩ := ends_pure.mp k
      · exact .inr ⟨vs, w₁, .error e, h, h', rfl⟩
      · exact .inr ⟨vs, w₁, .ok more, h, h', rfl⟩
  · rintro (⟨e, h, rfl⟩ | ⟨vs, w₁, more, h, h', rfl⟩)
    · exact ⟨_, _, h, ends_pure.mpr ⟨rfl, rfl⟩⟩
    · refine ⟨_, _, h, ends_allValues.mpr ⟨_, _, h', ?_⟩⟩
      cases more <;> exact ends_pure.mpr ⟨rfl, rfl⟩

/-- Behind arguments without an error the others are evaluated. -/
theorem collectsAll_append (h : CollectsAll context scope xs w (.ok vs) w₁) :
    CollectsAll context scope (xs ++ ys) w r w' ↔
      ∃ more, CollectsAll context scope ys w₁ more w' ∧ r = more.map (vs ++ ·) := by
  induction xs generalizing w vs r with
  | nil =>
    obtain ⟨e, rfl⟩ := collectsAll_nil.mp h
    cases e
    refine ⟨fun hys => ⟨r, hys, ?_⟩, ?_⟩
    · cases r <;> rfl
    · rintro ⟨more, hys, rfl⟩
      cases more <;> exact hys
  | cons x xs ih =>
    obtain ⟨_, -, e⟩ | ⟨us, w₂, more, hx, hxs, e⟩ := collectsAll_cons.mp h
    · cases e
    obtain ⟨us', rfl⟩ : ∃ us', more = .ok us' := by
      cases more with
      | error => cases e
      | ok us' => exact ⟨us', rfl⟩
    cases e
    have hmap (more : Except Error (List Value)) :
        (more.map (us' ++ ·)).map (us ++ ·) = more.map (us ++ us' ++ ·) := by
      cases more with
      | error => rfl
      | ok => exact congrArg Except.ok (List.append_assoc ..).symm
    refine collectsAll_cons.trans ⟨?_, ?_⟩
    · rintro (⟨_, hx', -⟩ | ⟨us₁, w₃, more, hx', hmore, rfl⟩)
      · cases (hx.det hx').1
      · obtain ⟨e, rfl⟩ := hx.det hx'
        cases e
        obtain ⟨more, hys, rfl⟩ := (ih hxs).mp hmore
        exact ⟨more, hys, hmap more⟩
    · rintro ⟨more, hys, rfl⟩
      exact .inr ⟨us, w₂, _, hx, (ih hxs).mpr ⟨more, hys, rfl⟩, (hmap more).symm⟩

/-- An error comes from the first argument that has one. -/
theorem collectsAll_error_iff :
    CollectsAll context scope args w (.error e) w' ↔
      ∃ before x after vs w₁, args = before ++ x :: after ∧
        CollectsAll context scope before w (.ok vs) w₁ ∧
        Collects context scope x w₁ (.error e) w' := by
  constructor
  · intro h
    induction args generalizing w with
    | nil => cases (collectsAll_nil.mp h).1
    | cons x xs ih =>
      obtain ⟨_, hx, e⟩ | ⟨vs, w₁, more, hx, hxs, e⟩ := collectsAll_cons.mp h
      · cases e
        exact ⟨[], x, xs, [], w, rfl, collectsAll_nil.mpr ⟨rfl, rfl⟩, hx⟩
      · cases more with
        | ok => cases e
        | error =>
          cases e
          obtain ⟨before, y, after, us, w₂, rfl, hbefore, hy⟩ := ih hxs
          exact ⟨x :: before, y, after, vs ++ us, w₂, rfl,
            collectsAll_cons.mpr (.inr ⟨vs, w₁, .ok us, hx, hbefore, rfl⟩), hy⟩
  · rintro ⟨before, x, after, vs, w₁, rfl, hbefore, hx⟩
    exact (collectsAll_append hbefore).mpr
      ⟨.error e, collectsAll_cons.mpr (.inl ⟨e, hx, rfl⟩), rfl⟩

/-! ## Commands -/

/-- What a command makes of its arguments, but for `prepend`. -/
theorem makes_builtin {name : Builtin} {input s : Stream} (h : name ≠ .prepend) :
    Makes context (.builtin name scope args) input w s w' ↔
      ∃ r, CollectsAll context scope args w r w' ∧
        s = match r with
          | .error e => .fail e
          | .ok vs => Calls.builtinStream name vs input := by
  have hstep (n : Nat) : (calls context n).invokeStep context n (.builtin name scope args) input =
      (calls context n).allValues n scope args >>= fun
        | .error e => pure (.fail e)
        | .ok vs => pure (Calls.builtinStream name vs input) := by
    cases name <;> first | rfl | exact absurd rfl h
  rw [makes_iff]
  simp only [hstep]
  refine ends_allValues.trans ⟨?_, ?_⟩
  · rintro ⟨r, w₁, h, k⟩
    cases r <;> obtain ⟨rfl, rfl⟩ := ends_pure.mp k <;> exact ⟨_, h, rfl⟩
  · rintro ⟨r, h, rfl⟩
    refine ⟨r, w', h, ?_⟩
    cases r <;> exact ends_pure.mpr ⟨rfl, rfl⟩

theorem makes_builtin_of_collects {name : Builtin} {input s : Stream} (hname : name ≠ .prepend)
    (h : CollectsAll context scope args w (.ok vs) w₁) :
    Makes context (.builtin name scope args) input w s w' ↔
      s = Calls.builtinStream name vs input ∧ w' = w₁ := by
  refine (makes_builtin hname).trans ⟨?_, ?_⟩
  · rintro ⟨r, k, rfl⟩
    obtain ⟨rfl, rfl⟩ := k.det h
    exact ⟨rfl, rfl⟩
  · rintro ⟨rfl, rfl⟩
    exact ⟨_, h, rfl⟩

/-- `echo` gives the object of its arguments. -/
theorem makes_echo {input s : Stream} :
    Makes context (.builtin .echo scope args) input w s w' ↔
      ∃ r, Configures context scope args w r w' ∧
        s = match r with
          | .error e => .fail e
          | .ok config => .once (.json (.object config)) := by
  refine (makes_builtin (by decide)).trans ⟨?_, ?_⟩
  · rintro ⟨r, h, rfl⟩
    refine ⟨_, ⟨r, h, rfl⟩, ?_⟩
    cases r <;> rfl
  · rintro ⟨_, ⟨r, h, rfl⟩, rfl⟩
    refine ⟨r, h, ?_⟩
    cases r <;> rfl

/-- The object of arguments that stand one after the other is that of the first with that of the
others put over it, but for what both list under `@`, which is put one after the other; and such an
object as the only argument is itself. If there is an error among the arguments, the result is that
of the first argument that has one. -/
theorem configures_unite (context : Context) (scope : Scope) :
    (∀ xs ys vs ws w w₁ w', CollectsAll context scope xs w (.ok vs) w₁ →
      CollectsAll context scope ys w₁ (.ok ws) w' →
      Arguments.Unlisted vs → Arguments.Unlisted ws →
      ∃ first second, Configures context scope xs w (.ok first) w₁ ∧
        Configures context scope ys w₁ (.ok second) w' ∧
        Configures context scope (xs ++ ys) w (.ok (Arguments.unite first second)) w' ∧
        ∀ key, Sorted.find? key (Arguments.unite first second) =
          if key = Arguments.positional then
            Arguments.joined (Sorted.find? Arguments.positional first)
              (Sorted.find? Arguments.positional second)
          else (Sorted.find? key second).or (Sorted.find? key first)) ∧
    (∀ xs config w w₁, Configures context scope xs w (.ok config) w₁ →
      ∀ w', Configures context scope [.value (.json (.object config))] w' (.ok config) w') ∧
    ∀ args e w w', Configures context scope args w (.error e) w' ↔
      ∃ before x after vs w₁, args = before ++ x :: after ∧
        CollectsAll context scope before w (.ok vs) w₁ ∧
        Collects context scope x w₁ (.error e) w' := by
  refine ⟨?_, ?_, ?_⟩
  · intro xs ys vs ws w w₁ w' hxs hys hvs hws
    refine ⟨_, _, ⟨_, hxs, rfl⟩, ⟨_, hys, rfl⟩,
      ⟨_, (collectsAll_append hxs).mpr ⟨_, hys, rfl⟩, ?_⟩,
      Arguments.find?_unite (Arguments.increasing_project ws)⟩
    exact congrArg Except.ok (Arguments.project_append hvs hws).symm
  · rintro xs config w w₁ ⟨r, -, e⟩ w'
    cases r with
    | error => cases e
    | ok vs =>
      cases e
      refine ⟨_, collectsAll_cons.mpr
        (.inr ⟨_, _, .ok [], collects_value _, collectsAll_nil.mpr ⟨rfl, rfl⟩, rfl⟩), ?_⟩
      exact congrArg Except.ok (Arguments.project_object (Arguments.increasing_project vs)).symm
  · intro args e w w'
    rw [← collectsAll_error_iff]
    constructor
    · rintro ⟨r, h, k⟩
      cases r with
      | ok => cases k
      | error =>
        cases k
        exact h
    · exact fun h => ⟨_, h, rfl⟩

/-- Of `1 { n: 1, v: true }` and `two { n: 2 }` the second `n` counts, and the others are listed:
that is what `echo` gives. An error between them is the result. -/
theorem configures_unite_flags :
    let w : World := .ofEnvironment .empty
    let xs : List Operand := [.value (.int 1),
      .value (.json (.object [("n", .number (.int 1)), ("v", .bool true)]))]
    let ys : List Operand := [.word "two", .value (.json (.object [("n", .number (.int 2))]))]
    let failing : Operand := .stream (.items [.error .invalidOp])
    let config : Sorted Json := [("@", .list [.number (.int 1), .string "two"]),
      ("n", .number (.int 2)), ("v", .bool true)]
    Configures {} .empty (xs ++ ys) w (.ok config) w ∧
    Makes {} (.builtin .echo .empty (xs ++ ys)) .empty w (.once (.json (.object config))) w ∧
    Configures {} .empty (xs ++ failing :: ys) w (.error .invalidOp) w := by
  intro w xs ys failing config
  have hone {x : Operand} {v : Value} (h : Collects {} .empty x w (.ok [v]) w)
      (object : Sorted Json) :
      CollectsAll {} .empty [x, .value (.json (.object object))] w
        (.ok [v, .json (.object object)]) w :=
    collectsAll_cons.mpr (.inr ⟨_, _, .ok [_], h, collectsAll_cons.mpr
      (.inr ⟨_, _, .ok [], collects_value _, collectsAll_nil.mpr ⟨rfl, rfl⟩, rfl⟩), rfl⟩)
  have hxs := hone (collects_value (.int 1)) [("n", .number (.int 1)), ("v", .bool true)]
  have hword : Collects {} .empty (.word "two") w (.ok [.string "two"]) w :=
    collects_of_opens (opens_text rfl) (.items [.ok (.string "two")])
  have hys := hone hword [("n", .number (.int 2))]
  have hfails : Collects {} .empty failing w (.error .invalidOp) w :=
    collects_of_opens (opens_stream.mpr (makes_items.mpr ⟨rfl, rfl⟩)) (.items _)
  obtain ⟨hunite, -, herror⟩ := configures_unite {} .empty
  have hconfig : Configures {} .empty (xs ++ ys) w (.ok config) w := by
    obtain ⟨_, _, ⟨_, hfirst, efirst⟩, ⟨_, hsecond, esecond⟩, h, -⟩ :=
      hunite _ _ _ _ _ _ _ hxs hys (by decide) (by decide)
    obtain ⟨rfl, -⟩ := hfirst.det hxs
    obtain ⟨rfl, -⟩ := hsecond.det hys
    cases efirst
    cases esecond
    exact h
  refine ⟨hconfig, makes_echo.mpr ⟨_, hconfig, rfl⟩, ?_⟩
  exact (herror _ _ _ _).mpr ⟨xs, failing, ys, _, _, rfl, hxs, hfails⟩

end Rill
