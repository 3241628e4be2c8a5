import Rill.Operator
import Rill.Value.Basic

/-!
# What operators do to values

Two operands are first brought to the widest domain that they share: numbers, truth values or texts.
`&&` and `||` take any operands as truth values, and so does a comparison of a truth value with a
text or a number. Operands that share no domain can only be told apart by `==` and `!=`.
-/

namespace Rill

/-- What an operator leaves: a value, or the integers from `first` to `last`. -/
inductive Outcome where
  /-- One value. -/
  | value (v : Value)
  /-- Every integer from `first` to `last`, both included. -/
  | range (first last : Int)
  deriving Repr

namespace Operator

/-- The greatest integer of a range. -/
def maxRange : Int := 0x7fffffffffffffff

/-- A truth value. -/
def truth (b : Bool) : Except Error Outcome := .ok (.value (.bool b))

/-- A number, unless it is not finite. -/
def finite (x : Float) : Except Error Outcome :=
  if x.isFinite then .ok (.value (.number x)) else .error .invalidNumberOp

/-! ## One operand -/

/-- The error of an operator that a kind of values does not have. -/
def unsupported : Kind → Error
  | .number => .invalidNumberOp
  | .bool => .invalidBoolOp
  | .string => .invalidStringOp
  | _ => .invalidOp

/-- Applies an operator that stands before or after its operand. -/
def unary (op : Operator) (v : Value) : Except Error Outcome :=
  match op with
  | .not => if v.kind = .typed then .error .invalidOp else truth (!v.isTruthy)
  | .neg =>
    match v.float? with
    | some x => .ok (.value (.number (-x)))
    | none => .error (unsupported v.kind)
  | .pos =>
    match v.float? with
    | some x => .ok (.value (.number x))
    | none => .error (unsupported v.kind)
  | .rangeFrom =>
    match v.float? with
    | some x => .ok (.range (Number.toInt64 x) maxRange)
    | none => .error (unsupported v.kind)
  | .background => .ok (.value v)
  | _ => .error .invalidOp

/-! ## Two operands -/

/-- The widest domain that two operands share. -/
inductive Domain where
  | numbers (x y : Float)
  | truths (a b : Bool)
  | texts (s t : String)
  | other
  deriving Repr

/-- The widest domain that two operands share for an operator. A typed value shares none. -/
def domain (op : Operator) (v w : Value) : Domain :=
  if v.kind = .typed ∨ w.kind = .typed then .other
  else if op.isLogical then .truths v.isTruthy w.isTruthy
  else
    match v, w with
    | .json (.number m), .json (.number n) => .numbers m.toFloat n.toFloat
    | .json (.bool a), .json (.bool b) => .truths a b
    | .json (.string s), .json (.string t) => .texts s t
    | .json (.bool _), .json (.string _) | .json (.bool _), .json (.number _)
    | .json (.string _), .json (.bool _) | .json (.number _), .json (.bool _) =>
      if op.isComparison then .truths v.isTruthy w.isTruthy else .other
    | _, _ => .other

/-- An operator between numbers. -/
def onNumbers (op : Operator) (x y : Float) : Except Error Outcome :=
  match op with
  | .add => finite (x + y)
  | .sub => finite (x - y)
  | .mul => finite (x * y)
  | .div => finite (x / y)
  | .rem => finite (Number.remainder x y)
  | .lt => truth (x < y)
  | .le => truth (x ≤ y)
  | .gt => truth (y < x)
  | .ge => truth (y ≤ x)
  | .eq => truth (x == y)
  | .ne => truth (x != y)
  | .range => .ok (.range (Number.toInt64 x) (Number.toInt64 y))
  | _ => .error .invalidNumberOp

/-- An operator between truth values, of which false is the lesser. -/
def onTruths (op : Operator) (a b : Bool) : Except Error Outcome :=
  match op with
  | .and => truth (a && b)
  | .or => truth (a || b)
  | .eq => truth (a == b)
  | .ne => truth (a != b)
  | .lt => truth (!a && b)
  | .le => truth (!a || b)
  | .gt => truth (a && !b)
  | .ge => truth (a || !b)
  | _ => .error .invalidBoolOp

/-- An operator between texts, which are ordered by their code points. -/
def onTexts (op : Operator) (s t : String) : Except Error Outcome :=
  match op with
  | .add => .ok (.value (.string (s ++ t)))
  | .eq => truth (s == t)
  | .ne => truth (s != t)
  | .lt => truth (s < t)
  | .le => truth (¬ t < s)
  | .gt => truth (t < s)
  | .ge => truth (¬ s < t)
  | _ => .error .invalidStringOp

/-- Applies an operator that stands between its operands. -/
def binary (op : Operator) (v w : Value) : Except Error Outcome :=
  match op.domain v w with
  | .numbers x y => op.onNumbers x y
  | .truths a b => op.onTruths a b
  | .texts s t => op.onTexts s t
  | .other =>
    match op with
    | .eq => truth (v == w)
    | .ne => truth (!(v == w))
    | _ => .error .invalidOp

end Operator

end Rill
