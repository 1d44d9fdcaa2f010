/-
**Implicants as terms.**

Over a list of names, a pattern is the product of the literals it fixes, and, of the rows it does
not match, the clause of the complemented literals. Positions that have no name are dropped.

* `Pattern.product`: the conjunction of the literals, `1` without literals;
* `Pattern.complementedClause`: the disjunction of the complemented literals, `0` without literals.
-/

import TwoLevel.Expr.Rendering
import TwoLevel.Implicant.Basic

namespace TwoLevel

/-- The literal of a name that is true where the name has the value given. -/
def Expr.literal (value : Bool) (name : String) : Expr :=
  if value then .var name else .not (.var name)

namespace Pattern

/-- The literals of the fixed positions, or with `complement` their complements. -/
def literals (complement : Bool) : Pattern → List String → List Expr
  | trit :: rest, name :: names =>
    match trit.value? with
    | none => literals complement rest names
    | some value => .literal (value != complement) name :: literals complement rest names
  | _, _ => []

/-- The conjunction of the literals. -/
def product (pattern : Pattern) (names : List String) : Expr :=
  Expr.chain .and (pattern.literals false names) (.const true)

/-- The disjunction of the complemented literals. -/
def complementedClause (pattern : Pattern) (names : List String) : Expr :=
  Expr.chain .or (pattern.literals true names) (.const false)

end Pattern

namespace Implicant

/-- The conjunction of the literals. -/
def product (implicant : Implicant) (names : List String) : Expr := implicant.pattern.product names

/-- The disjunction of the complemented literals. -/
def complementedClause (implicant : Implicant) (names : List String) : Expr :=
  implicant.pattern.complementedClause names

/-- The written form of the product. -/
def term (implicant : Implicant) (names : List String) : String := (implicant.product names).render

end Implicant

end TwoLevel
