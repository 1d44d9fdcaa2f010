/-
**The value of an expression.**

An expression has a value under every valuation of names, and a value in a row of a table over a
list of names. Row `index` gives the bits of `index` to the names, the highest bit to the first.

* `Expr.eval`: the value under a valuation;
* `Expr.evalRow`: the value in a row; a name that is not in the list has none, and the leftmost such
  name of the expression is reported, also where the other operand would decide the value;
* `Expr.evalRowIn`: the same in a build that may stop at a shift; `evalRowIn_of_reads` says that it
  does not, where the build reads rows over so many names.
-/

import TwoLevel.Expr.Basic
import TwoLevel.Failure
import TwoLevel.Word

namespace TwoLevel

/-- The bit of a row that belongs to the column at a position; the first column has the highest. -/
def columnBit (width position index : Nat) : Bool := Word.bit index (width - position - 1)

namespace Expr

/-- The value under a valuation of the names. -/
def eval (valuation : String → Bool) : Expr → Bool
  | const value => value
  | var name => valuation name
  | not operand => !operand.eval valuation
  | binary op left right => op.apply (left.eval valuation) (right.eval valuation)

/-- The value in a row of a table whose columns carry the names given; of a repeated name the first
column counts. -/
def evalRow (names : List String) (index : Nat) : Expr → Except InternalError Bool
  | const value => .ok value
  | var name =>
    match names.idxOf? name with
    | some position => .ok (columnBit names.length position index)
    | none => .error (.unboundVariable name)
  | not operand => do
    let value ← operand.evalRow names index
    return !value
  | binary op left right => do
    let first ← left.evalRow names index
    let second ← right.evalRow names index
    return op.apply first second

/-- The value in a row in a build, if no shift stops the program. Both operands are evaluated, also
where the first one has no value. -/
def evalRowIn (build : Build) (names : List String) (index : Nat) :
    Expr → Option (Except InternalError Bool)
  | const value => some (.ok value)
  | var name =>
    match names.idxOf? name with
    | some position =>
      build.shift (names.length - position - 1) (.ok (columnBit names.length position index))
    | none => some (.error (.unboundVariable name))
  | not operand => do
    let value ← operand.evalRowIn build names index
    return value.map (!·)
  | binary op left right => do
    let first ← left.evalRowIn build names index
    let second ← right.evalRowIn build names index
    return do return op.apply (← first) (← second)

/-- Where a build reads rows over the names, it evaluates every expression in them. -/
theorem evalRowIn_of_reads {build : Build} {names : List String} (reads : build.Reads names.length)
    (index : Nat) (expr : Expr) :
    expr.evalRowIn build names index = some (expr.evalRow names index) := by
  induction expr with
  | const value => rfl
  | var name =>
    rw [evalRowIn, evalRow]
    split
    · next position found =>
      obtain ⟨below, _⟩ := List.idxOf?_eq_some_iff.mp found
      exact reads.shift_eq (by omega) _
    · rfl
  | not operand ih => rw [evalRowIn, ih]; rfl
  | binary op left right leftIh rightIh => rw [evalRowIn, leftIh, rightIh]; rfl

end Expr

end TwoLevel
