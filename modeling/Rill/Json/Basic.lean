/-!
# JSON values

A JSON value with its numbers kept apart: an integer is exact, any other number is a `Float`. The
fields of an object are sorted by key and every key occurs once; `Sorted.insert` keeps both. Two
values are the same if they have the same shape and the same leaves, an integer never being the same
as a `Float`.
-/

namespace Rill

/-- A number of JSON. -/
inductive Numeral where
  /-- An integer of 64 bits, with or without a sign. -/
  | int (n : Int)
  /-- Any other number. -/
  | float (x : Float)
  deriving Repr, Inhabited

/-- The least integer that a numeral holds exactly. -/
def Numeral.minInt : Int := -0x8000000000000000

/-- The greatest integer that a numeral holds exactly. -/
def Numeral.maxInt : Int := 0xffffffffffffffff

/-- Whether two numerals are of the same kind and equal. -/
def Numeral.same : Numeral → Numeral → Bool
  | .int m, .int n => m == n
  | .float x, .float y => x == y
  | _, _ => false

instance : BEq Numeral := ⟨Numeral.same⟩

/-- A JSON value. -/
inductive Json where
  /-- `null`. -/
  | null
  /-- `true` or `false`. -/
  | bool (b : Bool)
  /-- A number. -/
  | number (n : Numeral)
  /-- A text. -/
  | string (s : String)
  /-- A list. -/
  | list (items : List Json)
  /-- An object; its fields are sorted by key. -/
  | object (fields : List (String × Json))
  deriving Repr, Inhabited

namespace Json

/-! ## Sameness -/

mutual

/-- Whether two values are the same. -/
def same : Json → Json → Bool
  | .null, .null => true
  | .bool a, .bool b => a == b
  | .number m, .number n => m == n
  | .string s, .string t => s == t
  | .list xs, .list ys => sameItems xs ys
  | .object xs, .object ys => sameFields xs ys
  | _, _ => false

/-- Whether two lists hold the same values. -/
def sameItems : List Json → List Json → Bool
  | [], [] => true
  | x :: xs, y :: ys => same x y && sameItems xs ys
  | _, _ => false

/-- Whether two objects hold the same values under the same keys. -/
def sameFields : List (String × Json) → List (String × Json) → Bool
  | [], [] => true
  | (k, x) :: xs, (l, y) :: ys => k == l && same x y && sameFields xs ys
  | _, _ => false

end

instance : BEq Json := ⟨same⟩

end Json

/-! ## Fields -/

/-- Entries sorted by key. -/
abbrev Sorted (α : Type) := List (String × α)

namespace Sorted

variable {α : Type}

/-- The entries with `value` under `key`, in the place that the order of keys gives it; an entry
that was there is replaced. -/
def insert (key : String) (value : α) : Sorted α → Sorted α
  | [] => [(key, value)]
  | (k, v) :: rest =>
    if key < k then (key, value) :: (k, v) :: rest
    else if key = k then (key, value) :: rest
    else (k, v) :: insert key value rest

/-- What is stored under `key`. -/
def find? (key : String) : Sorted α → Option α
  | [] => none
  | (k, v) :: rest => if k = key then some v else find? key rest

/-- Whether something is stored under `key`. -/
def has (key : String) (entries : Sorted α) : Bool := (find? key entries).isSome

/-- The keys, in order. -/
def keys (entries : Sorted α) : List String := entries.map Prod.fst

/-- The entries of `base` and of `more`, those of `more` winning. -/
def merge (base more : Sorted α) : Sorted α := more.foldl (fun acc e => insert e.1 e.2 acc) base

/-- Entries in any order, a later one winning. -/
def ofList (entries : List (String × α)) : Sorted α := merge [] entries

theorem find?_insert_self (key : String) (value : α) (entries : Sorted α) :
    find? key (insert key value entries) = some value := by
  induction entries with
  | nil => simp [insert, find?]
  | cons e rest ih =>
    obtain ⟨k, v⟩ := e
    unfold insert
    split
    · simp [find?]
    · split
      · simp [find?]
      · rename_i h
        simp [find?, Ne.symm h, ih]

theorem find?_insert_of_ne {key other : String} (h : other ≠ key) (value : α)
    (entries : Sorted α) : find? other (insert key value entries) = find? other entries := by
  induction entries with
  | nil => simp [insert, find?, Ne.symm h]
  | cons e rest ih =>
    obtain ⟨k, v⟩ := e
    unfold insert
    split
    · simp [find?, Ne.symm h]
    · split
      · rename_i hk
        subst hk
        simp [find?, Ne.symm h]
      · simp [find?, ih]

end Sorted

end Rill
