import Rill.Value.Path

/-!
# How far a path leads

Strict lookup and projection walk the same way into a value; they differ in what they make of a
segment that leads nowhere. `Json.trail` is the part of a path that leads somewhere. It is the
longest such part (`Json.prefix_trail`), looking it up gives the projection (`Json.lookup?_trail`),
and so each of the two is known from the other (`Value.project_eq_longest`).
-/

namespace Rill

namespace Json

variable {j next : Json} {s : String} {p q : List String}

theorem lookup?_cons (j : Json) (s : String) (p : List String) :
    j.lookup? (s :: p) = (j.child? s).bind (·.lookup? p) := rfl

theorem project_cons_of_child (h : j.child? s = some next) :
    j.project (s :: p) = next.project p := by
  rw [project, h]

theorem project_cons_of_missing (h : j.child? s = none) : j.project (s :: p) = j := by
  rw [project, h]

/-- The part of the path that leads somewhere. -/
def trail : Json → List String → List String
  | _, [] => []
  | j, s :: path =>
    match j.child? s with
    | some next => s :: next.trail path
    | none => []

theorem trail_cons_of_child (h : j.child? s = some next) :
    j.trail (s :: p) = s :: next.trail p := by
  rw [trail, h]

theorem trail_cons_of_missing (h : j.child? s = none) : j.trail (s :: p) = [] := by
  rw [trail, h]

theorem trail_prefix (j : Json) (p : List String) : j.trail p <+: p := by
  induction p generalizing j with
  | nil => exact List.nil_prefix
  | cons s p ih =>
    cases h : j.child? s with
    | some next =>
      rw [trail_cons_of_child h]
      exact List.cons_prefix_cons.mpr ⟨rfl, ih next⟩
    | none =>
      rw [trail_cons_of_missing h]
      exact List.nil_prefix

/-- The trail leads to the projection. -/
theorem lookup?_trail (j : Json) (p : List String) :
    j.lookup? (j.trail p) = some (j.project p) := by
  induction p generalizing j with
  | nil => rfl
  | cons s p ih =>
    cases h : j.child? s with
    | some next =>
      rw [trail_cons_of_child h, project_cons_of_child h, lookup?_cons, h, Option.bind_some, ih]
    | none =>
      rw [trail_cons_of_missing h, project_cons_of_missing h]
      rfl

/-- Every part of the path that leads somewhere is part of the trail. -/
theorem prefix_trail (hq : q <+: p) (h : (j.lookup? q).isSome) : q <+: j.trail p := by
  induction q generalizing j p with
  | nil => exact List.nil_prefix
  | cons s q ih =>
    obtain ⟨p, rfl⟩ := hq
    obtain ⟨x, hx⟩ := Option.isSome_iff_exists.mp h
    obtain ⟨next, hnext, hrest⟩ := Option.bind_eq_some_iff.mp hx
    rw [List.cons_append, trail_cons_of_child hnext]
    refine List.cons_prefix_cons.mpr ⟨rfl, ih (List.prefix_append ..) ?_⟩
    exact Option.isSome_iff_exists.mpr ⟨x, hrest⟩

theorem project_of_lookup? (h : j.lookup? p = some next) : j.project p = next := by
  have htrail : j.trail p = p :=
    (j.trail_prefix p).eq_of_length_le
      (prefix_trail (List.prefix_refl p) (Option.isSome_iff_exists.mpr ⟨next, h⟩)).length_le
  have heq := j.lookup?_trail p
  rw [htrail, h] at heq
  exact (Option.some.inj heq).symm

theorem lookup?_append (j : Json) (p q : List String) :
    j.lookup? (p ++ q) = (j.lookup? p).bind (·.lookup? q) := by
  induction p generalizing j with
  | nil => rfl
  | cons s p ih =>
    rw [List.cons_append, lookup?_cons, lookup?_cons, Option.bind_assoc]
    exact Option.bind_congr fun next _ => ih next

end Json

namespace Value

/-- Looking up two paths one after the other is looking up both at once. -/
theorem lookup?_append (v : Value) (p q : List String) :
    v.lookup? (p ++ q) = (v.lookup? p).bind (·.lookup? q) := by
  cases v with
  | json j =>
    rw [lookup?, lookup?, Json.lookup?_append, Option.map_bind, Option.bind_map]
    rfl
  | bytes _ => rfl
  | typed _ _ => rfl

/-- The projection of JSON is what the longest part of the path leads to that leads anywhere, so it
is what the whole path leads to when that is anything; nothing is inside of other values, and their
projection is all of them; and a path is looked up one part after the other. -/
theorem project_eq_longest (v : Value) (p q : List String) :
    (∀ j, v = .json j → ∃ r, r <+: p ∧ v.lookup? r = some (v.project p) ∧
      ∀ r', r' <+: p → (v.lookup? r').isSome → r' <+: r) ∧
    (∀ x, v.lookup? p = some x → v.project p = x) ∧
    (v.kind = .bytes ∨ v.kind = .typed → v.lookup? p = none ∧ v.project p = v) ∧
    v.lookup? (p ++ q) = (v.lookup? p).bind (·.lookup? q) := by
  refine ⟨?_, fun x hx => ?_, fun hv => ?_, v.lookup?_append p q⟩
  · rintro j rfl
    refine ⟨j.trail p, j.trail_prefix p, ?_, fun r' hr' h => Json.prefix_trail hr' ?_⟩
    · rw [lookup?, j.lookup?_trail, Option.map_some, project]
    · rwa [lookup?, Option.isSome_map] at h
  · cases v with
    | json j =>
      obtain ⟨i, hi, rfl⟩ := Option.map_eq_some_iff.mp hx
      rw [project, Json.project_of_lookup? hi]
    | bytes _ => exact nomatch hx
    | typed _ _ => exact nomatch hx
  · cases v with
    | json j => exact absurd hv (by cases j <;> simp [kind, Json.kind])
    | bytes _ => exact ⟨rfl, rfl⟩
    | typed _ _ => exact ⟨rfl, rfl⟩

/-- Where a segment leads nowhere the projection stays, and no longer part of the path leads on. -/
theorem project_eq_longest_address :
    let address : Json := .object [("city", .string "London")]
    let person : Value := .json (.object [("address", address), ("langs", .list [.string "en"])])
    person.project ["address", "city"] = .string "London" ∧
    (∃ r, r <+: ["address", "zip", "city"] ∧ person.lookup? r = some (.json address) ∧
      ∀ r', r' <+: ["address", "zip", "city"] → (person.lookup? r').isSome → r' <+: r) ∧
    person.lookup? (["langs", "1"] ++ ["name"]) = none ∧
    (bytes [1]).project ["0"] = bytes [1] := by
  intro address person
  refine ⟨?_, ?_, ?_, ?_⟩
  · exact (project_eq_longest person ["address", "city"] []).2.1 (.string "London") rfl
  · exact (project_eq_longest person ["address", "zip", "city"] []).1 _ rfl
  · exact (project_eq_longest person ["langs", "1"] ["name"]).2.2.2
  · exact ((project_eq_longest (bytes [1]) ["0"] []).2.2.1 (.inl rfl)).2

end Value

end Rill
