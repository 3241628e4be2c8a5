import Rill.Line.Leaf
import Rill.Proofs.Json.Decimals
import Rill.Proofs.Json.Reread

/-!
# Scalars

A value that is `null`, a truth value, a number or a text is a scalar, and a number among them is
one that the reader takes: an integer of 64 bits, or a finite one. What an operator makes of values
is a scalar (`Outcome.Scalar.binary`, `Outcome.Scalar.unary`), and so is a literal that is no list
and no object (`scalar_leaf`). The text of a scalar is read (`Json.Scalar.exists_reread`), and how
deep the scalar stands makes no difference to what it is read as (`Json.Scalar.reread_eq`).
-/

namespace Rill

/-- An integer of 64 bits, or a number that is finite. -/
def Numeral.Held : Numeral → Prop
  | .int n => minInt ≤ n ∧ n ≤ maxInt
  | .float x => x.isFinite = true

/-- `null`, a truth value, a number or a text. -/
def Json.Scalar : Json → Prop
  | .number n => n.Held
  | .null | .bool _ | .string _ => True
  | .list _ | .object _ => False

/-- The value is a scalar of JSON. -/
def Value.Scalar : Value → Prop
  | .json j => j.Scalar
  | .bytes _ | .typed _ _ => False

/-! ## Reading -/

namespace Json

variable {cs rest : List Char} {n : Numeral} {j : Json} {negative : Bool} {significand : Nat}
  {e : Int} {fuel depth : Nat}

/-- Of a value and the characters after it that were read, the value came of a part. -/
theorem readPart_inv {α : Type} {part : Except Fault (α × List Char)} (whole : α → Json)
    (h : (do let (a, cs) ← part; return (whole a, cs)) = Except.ok (j, rest)) :
    ∃ a, part = .ok (a, rest) ∧ j = whole a := by
  cases part with
  | error e => cases h
  | ok r =>
    cases h
    exact ⟨r.1, rfl, rfl⟩

theorem held_readDecimal (h : readDecimal negative significand e cs = .ok (n, rest)) : n.Held := by
  unfold readDecimal at h
  split at h <;> cases h
  next hx => exact Number.isFinite_ofDecimal? hx

theorem held_zero (negative : Bool) : (Numeral.float (if negative then -0.0 else 0.0)).Held := by
  have hfinite : ∀ negative : Bool, (if negative then -0.0 else 0.0 : Float).isFinite = true := by
    decide
  exact hfinite negative

theorem held_readExponent (h : readExponent negative significand e cs = .ok (n, rest)) :
    n.Held := by
  rw [readExponent_sign] at h
  unfold readPower at h
  split at h
  · cases h
  split at h
  · cases h
  dsimp only at h
  split at h
  · split at h <;> cases h
    exact held_zero negative
  · exact held_readDecimal h

theorem held_readTail (h : readTail negative significand e cs = .ok (n, rest)) : n.Held := by
  unfold readTail at h
  split at h
  · exact held_readExponent h
  · exact held_readExponent h
  · exact held_readDecimal h

theorem held_readFraction (h : readFraction negative significand e cs = .ok (n, rest)) :
    n.Held := by
  unfold readFraction at h
  dsimp only at h
  split at h
  · exact held_readTail h
  split at h
  · split at h <;> cases h
  · exact held_readTail h

theorem held_integer (h : significand ≤ maxSignificand) : (integer negative significand).Held := by
  unfold integer
  have hmax : (significand : Int) ≤ 0xffffffffffffffff := Int.ofNat_le.mpr h
  split
  · exact ⟨by rw [Numeral.minInt]; omega, hmax⟩
  · split
    · exact ⟨by rw [Numeral.minInt]; omega, by rw [Numeral.maxInt]; omega⟩
    · exact Number.isFinite_neg (Number.isFinite_toFloat _)

theorem held_readInteger (hs : significand ≤ maxSignificand)
    (h : readInteger negative significand cs = .ok (n, rest)) : n.Held := by
  unfold readInteger at h
  split at h
  · dsimp only at h
    split at h
    · exact held_readFraction h
    · exact held_readTail h
  · split at h
    · exact held_readFraction h
    · exact held_readExponent h
    · exact held_readExponent h
    · cases h
      exact held_integer hs

/-- What is gathered stays within the limit. -/
theorem gather_le {limit k : Nat} (h : k ≤ limit) (cs : List Char) :
    (gather limit k cs).1 ≤ limit := by
  induction cs generalizing k with
  | nil => exact h
  | cons c cs ih =>
    rw [gather]
    split
    · exact h
    · split
      next hle => exact ih hle
      next => exact h

/-- An integer that was read is one of 64 bits, and any other number finite. -/
theorem held_readNumber (h : readNumber negative cs = .ok (n, rest)) : n.Held := by
  unfold readNumber at h
  split at h
  · cases h
  · split at h
    · cases h
    · exact held_readInteger (Nat.zero_le _) h
  · split at h
    · exact held_readInteger (gather_le (Nat.zero_le _) _) h
    · cases h

theorem of_readIdent {value : Json} {expected : List Char}
    (h : readIdent value expected cs = .ok (j, rest)) : j = value := by
  induction expected generalizing cs with
  | nil =>
    cases h
    rfl
  | cons e expected ih =>
    cases cs with
    | nil => cases h
    | cons c cs =>
      rw [readIdent] at h
      split at h
      · exact ih h
      · cases h

/-- What the characters of a value that was read are, by its kind. -/
inductive ReadFrom (cs : List Char) : Json → Prop
  | null : ReadFrom cs .null
  | bool (b : Bool) : ReadFrom cs (.bool b)
  | number {negative : Bool} {cs' rest : List Char} {n : Numeral}
    (h : readNumber negative cs' = .ok (n, rest)) : ReadFrom cs (.number n)
  | string (s : String) : ReadFrom cs (.string s)
  | list {cs' : List Char} (h : skipSpace cs = '[' :: cs') (items : List Json) :
    ReadFrom cs (.list items)
  | object (fields : List (String × Json)) : ReadFrom cs (.object fields)

theorem readFrom (h : readValue fuel depth cs = .ok (j, rest)) : ReadFrom cs j := by
  cases fuel with
  | zero => cases h
  | succ fuel =>
    rw [readValue] at h
    split at h
    · cases h
    · obtain rfl := of_readIdent h
      exact .null
    · obtain rfl := of_readIdent h
      exact .bool true
    · obtain rfl := of_readIdent h
      exact .bool false
    · obtain ⟨_, hn, rfl⟩ := readPart_inv .number h
      exact .number hn
    · obtain ⟨_, -, rfl⟩ := readPart_inv (fun s => .string (String.ofList s)) h
      exact .string _
    next hcs =>
      split at h
      · cases h
      · obtain ⟨_, -, rfl⟩ := readPart_inv .list h
        exact .list hcs _
    · split at h
      · cases h
      · obtain ⟨_, -, rfl⟩ := readPart_inv .object h
        exact .object _
    · split at h
      · obtain ⟨_, hn, rfl⟩ := readPart_inv .number h
        exact .number hn
      · cases h

/-- A text that was read begins with its value. -/
theorem readFrom_of_read {text : String} (h : read text = .ok j) : ReadFrom text.toList j := by
  unfold read readAll at h
  cases hvalue : readValue (2 * text.toList.length + 1) maxDepth text.toList with
  | error fault =>
    rw [hvalue] at h
    cases h
  | ok r =>
    obtain ⟨k, rest⟩ := r
    rw [hvalue] at h
    cases hrest : skipSpace rest with
    | nil =>
      simp only [bind, Except.bind, hrest] at h
      cases h
      exact readFrom hvalue
    | cons c cs =>
      simp only [bind, Except.bind, hrest] at h
      cases h

theorem held_read {text : String} (h : read text = .ok (.number n)) : n.Held := by
  cases readFrom_of_read h with
  | number hn => exact held_readNumber hn

/-- The text of a scalar is read as the same value wherever it stands. -/
theorem Scalar.reread_eq (h : j.Scalar) (depth depth' : Nat) :
    reread depth j = reread depth' j := by
  cases j with
  | list items => exact h.elim
  | object fields => exact h.elim
  | _ => simp only [reread]

/-- The text of a scalar is read. -/
theorem Scalar.exists_reread (h : j.Scalar) (depth : Nat) : ∃ k, reread depth j = some k := by
  match j with
  | .number (.int n) =>
    have he : Exact (fun _ => True) depth (.number (.int n)) := .int h
    exact ⟨_, he.reread_eq⟩
  | .number (.float x) =>
    obtain ⟨y, hy⟩ := numeral?_floatText h
    exact ⟨_, congrArg (Option.map Json.number) hy⟩
  | .null => exact ⟨_, rfl⟩
  | .bool b => exact ⟨_, rfl⟩
  | .string s => exact ⟨_, rfl⟩

end Json

/-! ## Values -/

namespace Value

theorem Scalar.kind_ne_list {v : Value} (h : v.Scalar) : v.kind ≠ .list := by
  intro hv
  match v with
  | .json (.list _) => exact h
  | .json .null | .json (.bool _) | .json (.number _) | .json (.string _) | .json (.object _)
  | .bytes _ | .typed _ _ => cases hv

theorem held_toInt64 (x : Float) :
    Numeral.minInt ≤ Number.toInt64 x ∧ Number.toInt64 x ≤ Numeral.maxInt := by
  have hleast := Int64.le_toInt (Number.truncate x).toInt64
  have hgreatest := Int64.toInt_lt (Number.truncate x).toInt64
  rw [Numeral.minInt, Numeral.maxInt, Number.toInt64]
  omega

theorem scalar_number (x : Float) : (Value.number x).Scalar := by
  unfold Value.number
  split
  · trivial
  next hfinite =>
    split
    · exact held_toInt64 x
    · rwa [Bool.not_eq_true', Bool.not_eq_false] at hfinite

/-- What is read from a text is a scalar, unless it is a list or an object. -/
theorem scalar_read {text : String} {v : Value} (h : Value.read text = .ok v)
    (hlist : v.kind ≠ .list) (hobject : v.kind ≠ .struct) : v.Scalar := by
  unfold Value.read at h
  split at h
  next j hj =>
    cases h
    cases j with
    | number n => exact Json.held_read hj
    | list items => exact absurd rfl hlist
    | object fields => exact absurd rfl hobject
    | null | bool _ | string _ => trivial
  next => cases h

end Value

/-- A literal is a scalar, unless it is a list or an object. -/
theorem scalar_leaf {t : String} {v : Value} (h : Leaf.read t = .ok (.value v))
    (hlist : v.kind ≠ .list) (hobject : v.kind ≠ .struct) : v.Scalar := by
  unfold Leaf.read at h
  split at h
  · cases h
  · unfold Operand.template at h
    split at h <;> cases h
    trivial
  · cases h
    trivial
  · cases hv : Value.read t with
    | error e =>
      rw [hv] at h
      cases h
    | ok u =>
      rw [hv] at h
      cases h
      exact Value.scalar_read hv hlist hobject
  · split at h
    · split at h <;> cases h
      exact Value.scalar_number _
    · split at h <;> cases h
      next hv => exact Value.scalar_read hv hlist hobject

/-! ## Operators -/

/-- What an operator left is a scalar, or a range of integers of 64 bits. -/
def Outcome.Scalar : Except Error Outcome → Prop
  | .ok (.value v) => v.Scalar
  | .ok (.range first last) => Numeral.minInt ≤ first ∧ last ≤ Numeral.maxInt
  | .error _ => True

namespace Outcome.Scalar

theorem truth (b : Bool) : Outcome.Scalar (Operator.truth b) := trivial

theorem finite (x : Float) : Outcome.Scalar (Operator.finite x) := by
  unfold Operator.finite
  split
  · exact Value.scalar_number x
  · trivial

theorem onNumbers (op : Operator) (x y : Float) : Outcome.Scalar (op.onNumbers x y) := by
  have hrange : Outcome.Scalar (.ok (.range (Number.toInt64 x) (Number.toInt64 y))) :=
    ⟨(Value.held_toInt64 x).1, (Value.held_toInt64 y).2⟩
  unfold Operator.onNumbers
  split
  all_goals first | exact finite _ | exact truth _ | exact hrange | trivial

theorem onTruths (op : Operator) (a b : Bool) : Outcome.Scalar (op.onTruths a b) := by
  unfold Operator.onTruths
  split <;> trivial

theorem onTexts (op : Operator) (s t : String) : Outcome.Scalar (op.onTexts s t) := by
  unfold Operator.onTexts
  split <;> trivial

/-- An operator between two values makes a scalar of them, or a range, or an error. -/
theorem binary (op : Operator) (v w : Value) : Outcome.Scalar (op.binary v w) := by
  unfold Operator.binary
  split
  · exact onNumbers op _ _
  · exact onTruths op _ _
  · exact onTexts op _ _
  · split <;> trivial

/-- So does an operator with one operand, except `&`, which leaves it as it is. -/
theorem unary {op : Operator} (h : op ≠ .background) (v : Value) :
    Outcome.Scalar (op.unary v) := by
  cases op with
  | not =>
    simp only [Operator.unary]
    split <;> trivial
  | neg | pos =>
    simp only [Operator.unary]
    split
    · exact Value.scalar_number _
    · trivial
  | rangeFrom =>
    have hmax : Operator.maxRange ≤ Numeral.maxInt := by decide
    simp only [Operator.unary]
    split
    next x _ => exact ⟨(Value.held_toInt64 x).1, hmax⟩
    · trivial
  | background => exact absurd rfl h
  | _ => trivial

end Outcome.Scalar

end Rill
