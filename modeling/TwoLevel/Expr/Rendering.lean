/-
**The written form of an expression.**

Connectives are written with their symbols between spaces, NOT as a leading `¬`, constants as `0`
and `1`, with parentheses only where the tree would otherwise be read differently: connectives of
one precedence associate to the left.

* `Expr.precedence`: the binding strength of the root;
* `Expr.render`: the written form.
-/

import TwoLevel.Expr.Basic

namespace TwoLevel.Expr

/-- The binding strength of NOT, above that of every connective. -/
def notPrecedence : Nat := 4

/-- The binding strength of the root; nothing binds tighter than a leaf. -/
def precedence : Expr → Nat
  | const _ | var _ => 5
  | not _ => notPrecedence
  | binary op _ _ => op.precedence

/-- Put a text into parentheses where asked. -/
def enclose (parentheses : Bool) (text : String) : String :=
  if parentheses then "(" ++ text ++ ")" else text

/-- The written form. -/
def render : Expr → String
  | const value => if value then "1" else "0"
  | var name => name
  | not operand => "¬" ++ enclose (operand.precedence < notPrecedence) operand.render
  | binary op left right =>
    enclose (left.precedence < op.precedence) left.render
      ++ " " ++ String.singleton op.symbol ++ " "
      ++ enclose (right.precedence ≤ op.precedence) right.render

instance : ToString Expr := ⟨render⟩

end TwoLevel.Expr
