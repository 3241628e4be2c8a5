import Rill.Proofs.Sorted
import Rill.World

/-!
# Variables that are read once

A name that is not bound is read from the variables of the process, and is bound to what was read
from then on. What a name is found to be does not depend on that: whatever was done before, it is
what the name was bound to last, the version, or else the pieces of the variable (`get?_after`). Only
the names that are bound tell which variables were read.
-/

namespace Rill

/-! ## Pieces -/

namespace Text

variable {sep : Char}

/-- The pieces and what stands between them are the whole. -/
theorem intercalate_pieces (sep : Char) (cs : List Char) :
    [sep].intercalate (pieces sep cs) = cs := by
  induction cs with
  | nil => rfl
  | cons c cs ih =>
    rw [pieces]
    split
    · rename_i h
      cases hp : pieces sep cs with
      | nil => exact absurd hp (pieces_ne_nil sep cs)
      | cons p ps => rw [List.intercalate_cons_cons, ← hp, ih, h]; rfl
    · cases hp : pieces sep cs with
      | nil => exact absurd hp (pieces_ne_nil sep cs)
      | cons p ps =>
        rw [hp] at ih
        cases ps with
        | nil => simpa using ih
        | cons q ps =>
          rw [List.intercalate_cons_cons] at ih ⊢
          rw [← ih]
          rfl

/-- No piece holds what stands between them. -/
theorem not_mem_of_mem_pieces {p cs : List Char} (h : p ∈ pieces sep cs) : sep ∉ p := by
  induction cs generalizing p with
  | nil =>
    obtain rfl := List.mem_singleton.mp h
    exact List.not_mem_nil
  | cons c cs ih =>
    rw [pieces] at h
    split at h
    · obtain rfl | h := List.mem_cons.mp h
      · exact List.not_mem_nil
      · exact ih h
    · rename_i hc
      cases hp : pieces sep cs with
      | nil => exact absurd hp (pieces_ne_nil sep cs)
      | cons q qs =>
        rw [hp] at h ih
        obtain rfl | h := List.mem_cons.mp h
        · exact fun hs => (List.mem_cons.mp hs).elim (Ne.symm hc) (ih List.mem_cons_self)
        · exact ih (List.mem_cons_of_mem q h)

theorem intercalate_piecesText (sep : String) (c : Char) (hsep : sep.toList = [c]) (s : String) :
    sep.intercalate (piecesText c s) = s := by
  have hchars : (piecesText c s).map String.toList = pieces c s.toList := by
    rw [piecesText, List.map_map]
    exact List.map_id'' (fun _ => String.toList_ofList) _
  refine String.toList_injective ?_
  rw [String.toList_intercalate, hchars, hsep, intercalate_pieces]

end Text

/-! ## What is bound -/

/-- What is done with a name. -/
inductive Access where
  /-- It is looked up. -/
  | get (name : String)
  /-- It is bound. -/
  | set (name : String) (f : Factory)

namespace Environment

/-- The environment of a session after what was done in it, the last first. -/
def after (vars : Sorted String) : List Access → Environment
  | [] => .ofVariables vars
  | .get name :: earlier => ((after vars earlier).get? name).2
  | .set name f :: earlier => (after vars earlier).set name f

/-- What the name was bound to last, and else the version. -/
def written? (name : String) : List Access → Option Factory
  | [] => if name = "STSH_VERSION" then some (.constant [.string version]) else none
  | .get _ :: earlier => written? name earlier
  | .set n f :: earlier => if n = name then some f else written? name earlier

/-- The stream of the variable. -/
def inherited? (vars : Sorted String) (name : String) : Option Factory :=
  (valueOf? vars name).map ofVariable

/-- The stream of the variable, if it was looked up. -/
def seen? (vars : Sorted String) (name : String) : List Access → Option Factory
  | [] => none
  | .get n :: earlier => if n = name then inherited? vars name else seen? vars name earlier
  | .set _ _ :: earlier => seen? vars name earlier

variable {vars : Sorted String} {log : List Access} {e : Environment}

/-- What was seen of a variable is the variable. -/
theorem seen?_or (vars : Sorted String) (log : List Access) (name : String) :
    (seen? vars name log).or (inherited? vars name) = inherited? vars name := by
  induction log with
  | nil => rfl
  | cons a earlier ih =>
    cases a with
    | get n =>
      rw [seen?]
      split
      · exact Option.or_self
      · exact ih
    | set n f => exact ih

variable {name : String} {f : Factory}

/-- A name that is bound is not read. -/
theorem get?_of_bound (h : Sorted.find? name e.bindings = some f) : e.get? name = (some f, e) := by
  rw [get?, h]

/-- A variable that is read is bound. -/
theorem get?_of_variable (h : Sorted.find? name e.bindings = none)
    (hv : inherited? e.vars name = some f) : e.get? name = (some f, e.set name f) := by
  obtain ⟨text, htext, rfl⟩ := Option.map_eq_some_iff.mp hv
  rw [get?, h, htext]

/-- A variable that is missing is not bound. -/
theorem get?_of_missing (h : Sorted.find? name e.bindings = none)
    (hv : inherited? e.vars name = none) : e.get? name = (none, e) := by
  rw [get?, h, Option.map_eq_none_iff.mp hv]

/-- The bindings are what was bound and what was read. -/
structure Cached (vars : Sorted String) (log : List Access) (e : Environment) : Prop where
  /-- The variables stay what they were. -/
  vars_eq : e.vars = vars
  /-- The names are in order. -/
  increasing : e.bindings.Increasing
  /-- What was bound comes before what was read. -/
  found (name : String) :
    Sorted.find? name e.bindings = (written? name log).or (seen? vars name log)

namespace Cached

theorem ofVariables (vars : Sorted String) : Cached vars [] (.ofVariables vars) where
  vars_eq := rfl
  increasing := List.pairwise_singleton ..
  found name := by
    rw [written?, seen?, Option.or_none]
    by_cases h : name = "STSH_VERSION"
    · rw [h]
      rfl
    · exact (if_neg (Ne.symm h)).trans (if_neg h).symm

theorem set (h : Cached vars log e) (name : String) (f : Factory) :
    Cached vars (.set name f :: log) (e.set name f) where
  vars_eq := h.vars_eq
  increasing := h.increasing.insert name f
  found n := by
    rw [written?, seen?, Environment.set]
    split
    · rename_i hn
      rw [hn, Sorted.find?_insert_self, Option.some_or]
    · rename_i hn
      rw [Sorted.find?_insert_of_ne (Ne.symm hn), h.found]

/-- What is found is what was bound last, or the variable, whether it was read before or not. -/
theorem get?_fst (h : Cached vars log e) (name : String) :
    (e.get? name).1 = (written? name log).or (inherited? vars name) := by
  rw [← seen?_or vars log name, ← Option.or_assoc, ← h.found, ← h.vars_eq]
  cases hfind : Sorted.find? name e.bindings with
  | some f => rw [get?_of_bound hfind, Option.some_or]
  | none =>
    cases hv : inherited? e.vars name with
    | some f => rw [get?_of_variable hfind hv, Option.none_or]
    | none => rw [get?_of_missing hfind hv, Option.none_or]

theorem get (h : Cached vars log e) (name : String) :
    Cached vars (.get name :: log) (e.get? name).2 := by
  have hfst := h.get?_fst name
  -- only what is found under the name itself is new
  have hfound {e' : Environment} (hname : Sorted.find? name e'.bindings = (e.get? name).1)
      (hother : ∀ n, n ≠ name → Sorted.find? n e'.bindings = Sorted.find? n e.bindings)
      (n : String) :
      Sorted.find? n e'.bindings = (written? n log).or (seen? vars n (.get name :: log)) := by
    rw [seen?]
    split
    · rename_i hn
      rw [← hn, hname, hfst]
    · rename_i hn
      rw [hother n (Ne.symm hn), h.found]
  cases hfind : Sorted.find? name e.bindings with
  | some f =>
    rw [get?_of_bound hfind] at hfound ⊢
    exact ⟨h.vars_eq, h.increasing, hfound hfind fun _ _ => rfl⟩
  | none =>
    cases hv : inherited? e.vars name with
    | some f =>
      rw [get?_of_variable hfind hv] at hfound ⊢
      exact ⟨h.vars_eq, h.increasing.insert name f,
        hfound (Sorted.find?_insert_self ..) fun n hn => Sorted.find?_insert_of_ne hn ..⟩
    | none =>
      rw [get?_of_missing hfind hv] at hfound ⊢
      exact ⟨h.vars_eq, h.increasing, hfound hfind fun _ _ => rfl⟩

end Cached

theorem cached_after (vars : Sorted String) (log : List Access) :
    Cached vars log (after vars log) := by
  induction log with
  | nil => exact .ofVariables vars
  | cons a earlier ih =>
    cases a with
    | get name => exact ih.get name
    | set name f => exact ih.set name f

theorem isSome_written? :
    (written? name log).isSome ↔ name = "STSH_VERSION" ∨ ∃ f, .set name f ∈ log := by
  induction log with
  | nil => simp [written?]
  | cons a earlier ih =>
    cases a with
    | get n => simpa [written?] using ih
    | set n f =>
      rw [written?]
      split
      · rename_i hn
        exact iff_of_true rfl (.inr ⟨f, hn ▸ List.mem_cons_self⟩)
      · rename_i hn
        simpa [Ne.symm hn] using ih

theorem isSome_seen? :
    (seen? vars name log).isSome ↔ .get name ∈ log ∧ (valueOf? vars name).isSome := by
  induction log with
  | nil => simp [seen?]
  | cons a earlier ih =>
    cases a with
    | get n =>
      rw [seen?]
      split
      · rename_i hn
        simp [hn, inherited?]
      · rename_i hn
        simpa [Ne.symm hn] using ih
    | set n f => simpa [seen?] using ih

/-- Whatever was done before, a name is found to be what it was bound to last, the version, or the
pieces of its variable, as if no variable were ever kept; and the names that are bound are, in order,
that of the version, those that were bound, and those of the variables that were read. -/
theorem get?_after (vars : Sorted String) (log : List Access) :
    (∀ name, ((after vars log).get? name).1 = (written? name log).or (inherited? vars name)) ∧
    (∀ name, valueOf? vars name = none → inherited? vars name = none) ∧
    (∀ name text, valueOf? vars name = some text → ∃ pieces : List String,
      inherited? vars name = some (.constant (pieces.map .string)) ∧ pieces ≠ [] ∧
        (∀ p ∈ pieces, ':' ∉ p.toList) ∧ ":".intercalate pieces = text) ∧
    (after vars log).names.Pairwise (· < ·) ∧
    ∀ name, name ∈ (after vars log).names ↔ name = "STSH_VERSION" ∨ (∃ f, .set name f ∈ log) ∨
      .get name ∈ log ∧ (valueOf? vars name).isSome := by
  have h := cached_after vars log
  refine ⟨h.get?_fst, fun name hnone => ?_, fun name text htext => ?_, ?_, fun name => ?_⟩
  · rw [inherited?, hnone, Option.map_none]
  · refine ⟨Text.piecesText ':' text, ?_, ?_, fun p hp => ?_,
      Text.intercalate_piecesText ":" ':' rfl text⟩
    · rw [inherited?, htext]
      rfl
    · exact fun hnil => Text.pieces_ne_nil ':' text.toList (List.map_eq_nil_iff.mp hnil)
    · obtain ⟨cs, hcs, rfl⟩ := List.mem_map.mp hp
      rw [String.toList_ofList]
      exact Text.not_mem_of_mem_pieces hcs
  · exact List.pairwise_map.mpr h.increasing
  · rw [names, Sorted.mem_keys_iff, h.found, Option.isSome_or, Bool.or_eq_true, isSome_written?,
      isSome_seen?, or_assoc]

/-- A path that was read is found again, a binding made after that hides it, and a name without a
variable is found when it is bound, though it was looked up before. -/
theorem get?_after_path :
    let vars : Sorted String := [("PATH", "/bin::/usr/bin")]
    let own : Factory := .constant [.string "/opt"]
    ((after vars [.get "PATH"]).get? "PATH").1 =
      some (.constant [.string "/bin", .string "", .string "/usr/bin"]) ∧
    ((after vars [.get "PATH", .set "PATH" own, .get "PATH"]).get? "PATH").1 = some own ∧
    ((after vars [.set "HOME" own, .get "HOME"]).get? "HOME").1 = some own ∧
    "HOME" ∉ (after vars [.get "PATH", .get "HOME"]).names := by
  intro vars own
  refine ⟨(get?_after vars _).1 "PATH", (get?_after vars _).1 "PATH", (get?_after vars _).1 "HOME",
    fun h => ?_⟩
  obtain h | ⟨f, hf⟩ | ⟨-, hread⟩ := ((get?_after vars _).2.2.2.2 "HOME").mp h
  · exact absurd h (by decide)
  · simp at hf
  · exact absurd hread (by decide)

end Environment

end Rill
