/-
**Boolean expressions.**

The tree of an expression: constants, variables, negation and the five connectives, with the
operations that build larger expressions from smaller ones.

* `Expr.height`: the length of the longest path from the root, zero for a leaf;
* `Expr.leaves`: the names at the variable leaves from left to right;
* `Expr.names`: the distinct names in the order of names;
* `Expr.chain`: the left-associated combination of a list of expressions.
-/

import TwoLevel.Connective
import TwoLevel.Name

namespace TwoLevel

/-- A boolean expression. -/
inductive Expr where
  | const (value : Bool)
  | var (name : String)
  | not (operand : Expr)
  | binary (op : Connective) (left right : Expr)
  deriving DecidableEq, Repr, Inhabited

namespace Expr

/-- The conjunction. -/
def and (left right : Expr) : Expr := binary .and left right

/-- The disjunction. -/
def or (left right : Expr) : Expr := binary .or left right

/-- The exclusive disjunction. -/
def xor (left right : Expr) : Expr := binary .xor left right

/-- The negated conjunction. -/
def nand (left right : Expr) : Expr := binary .nand left right

/-- The negated disjunction. -/
def nor (left right : Expr) : Expr := binary .nor left right

instance : Mul Expr := ⟨and⟩

instance : Add Expr := ⟨or⟩

instance : XorOp Expr := ⟨xor⟩

instance : Complement Expr := ⟨not⟩

/-- Combine the terms from the left; without terms, the expression given for that case. -/
def chain (op : Connective) (terms : List Expr) (empty : Expr) : Expr :=
  match terms with
  | [] => empty
  | first :: rest => rest.foldl (binary op) first

/-- The length of the longest path from the root to a leaf. -/
def height : Expr → Nat
  | const _ | var _ => 0
  | not operand => operand.height + 1
  | binary _ left right => max left.height right.height + 1

/-- The names of the variable leaves from left to right. -/
def leaves : Expr → List String
  | const _ => []
  | var name => [name]
  | not operand => operand.leaves
  | binary _ left right => left.leaves ++ right.leaves

/-- The distinct variable names, ascending in the order of names. -/
def names (expr : Expr) : List String := sortNames expr.leaves

end Expr

end TwoLevel
