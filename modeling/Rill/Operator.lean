/-!
# Operators

The operators of a line, told apart by where they stand: `-` before an operand is another operator
than `-` between two. Each has a tier, a place and an associativity.

| tier | operators                       | associativity |
|------|---------------------------------|---------------|
| 10   | `+ - !` before an operand       | right         |
| 9    | `.. &` after an operand         |               |
| 8    | `* / %`                         | left          |
| 7    | `+ - < <= > >= ..`              | left          |
| 6    | `== !=`                         | left          |
| 5    | `&& \|\|`                       | left          |
| 4    | `? :`                           | right         |
| 3    | `= \|`                          | left          |
| 2    | `;`                             | left          |
| 1    | `:` (window), `->`              | left, right   |
-/

namespace Rill

/-- An operator. -/
inductive Operator where
  | neg | pos | not
  | rangeFrom | background
  | mul | div | rem
  | add | sub | lt | le | gt | ge | range
  | eq | ne
  | and | or
  | assign | pipe | seq | window | bind
  deriving DecidableEq, Repr

/-- Where an operator stands. -/
inductive Place where
  /-- Before its operand. -/
  | before
  /-- After its operand. -/
  | after
  /-- Between its operands. -/
  | between
  deriving DecidableEq, Repr

namespace Operator

/-- Every operator. -/
def all : List Operator :=
  [neg, pos, not, rangeFrom, background, mul, div, rem, add, sub, lt, le, gt, ge, range, eq, ne,
    and, or, assign, pipe, seq, window, bind]

theorem mem_all (op : Operator) : op ∈ all := by
  cases op <;> simp [all]

/-- How tightly an operator binds. -/
def tier : Operator → Nat
  | neg | pos | not => 10
  | rangeFrom | background => 9
  | mul | div | rem => 8
  | add | sub | lt | le | gt | ge | range => 7
  | eq | ne => 6
  | and | or => 5
  | assign | pipe => 3
  | seq => 2
  | window | bind => 1

/-- The tier of `?` and its `:`. -/
def ternaryTier : Nat := 4

/-- Where an operator stands. -/
def place : Operator → Place
  | neg | pos | not => .before
  | rangeFrom | background => .after
  | _ => .between

/-- Whether an operator leaves those of its own tier before it pending. -/
def isRightAssociative (op : Operator) : Bool := op.place == .before || op == bind

/-- How an operator is written. -/
def symbol : Operator → String
  | neg | sub => "-"
  | pos | add => "+"
  | not => "!"
  | rangeFrom | range => ".."
  | background => "&"
  | mul => "*"
  | div => "/"
  | rem => "%"
  | lt => "<"
  | le => "<="
  | gt => ">"
  | ge => ">="
  | eq => "=="
  | ne => "!="
  | and => "&&"
  | or => "||"
  | assign => "="
  | pipe => "|"
  | seq => ";"
  | window => ":"
  | bind => "->"

/-- The operator that a symbol writes before an operand. -/
def ofPrefix? : String → Option Operator
  | "-" => some neg
  | "+" => some pos
  | "!" => some not
  | _ => none

/-- The operator that a symbol writes between operands. -/
def ofInfix? : String → Option Operator
  | "*" => some mul
  | "/" => some div
  | "%" => some rem
  | "+" => some add
  | "-" => some sub
  | "<" => some lt
  | "<=" => some le
  | ">" => some gt
  | ">=" => some ge
  | ".." => some range
  | "==" => some eq
  | "!=" => some ne
  | "&&" => some and
  | "||" => some or
  | "=" => some assign
  | "|" => some pipe
  | ";" => some seq
  | ":" => some window
  | "->" => some bind
  | _ => none

/-- The symbol of an operator between its operands is read as the operator. -/
theorem ofInfix?_symbol {op : Operator} (h : op.place = .between) :
    ofInfix? op.symbol = some op := by
  cases op <;> first | rfl | cases h

/-- Nothing else is read as the operator. -/
theorem symbol_of_ofInfix? {token : String} {op : Operator} (h : ofInfix? token = some op) :
    op.place = .between ∧ op.symbol = token := by
  unfold ofInfix? at h
  split at h <;> cases h <;> exact ⟨rfl, rfl⟩

/-- Whether an operator makes one value of two. Inside a record only these are operators. -/
def isValueOp (op : Operator) : Bool := op.place == .between && 5 ≤ op.tier && op != range

/-- Whether an operator works on whether its operands count as true. -/
def isLogical (op : Operator) : Bool := op == and || op == or

/-- Whether an operator compares its operands. -/
def isComparison : Operator → Bool
  | lt | le | gt | ge | eq | ne => true
  | _ => false

end Operator

end Rill
