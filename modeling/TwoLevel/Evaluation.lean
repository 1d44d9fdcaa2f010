/-
**The evaluation of a text.**

A text is read as an expression, tabulated over its variables, and minimized twice: the true rows
give a smallest sum of products, the false rows a smallest product of sums.

* `Limits`: how many variables and how much nesting are allowed;
* `Form`: a minimal form with the minimization it comes from;
* `evaluate`: the evaluation of a text, or why there is none.
-/

import TwoLevel.Derivation
import TwoLevel.Grammar
import TwoLevel.TruthTable

namespace TwoLevel

/-- The greatest number of variables that a table can have. -/
def mostVariables : Nat := 5

/-- How many variables and how much nesting are allowed. -/
structure Limits where
  variableCount : Nat
  nesting : Nat
  deriving DecidableEq, Repr, Inhabited

namespace Limits

/-- The limits when nothing else is asked for. -/
def standard : Limits := ⟨mostVariables, defaultNesting⟩

/-- The number of variables allowed, which is never more than a table can have. -/
def variableLimit (limits : Limits) : Nat := min limits.variableCount mostVariables

end Limits

/-- A minimal form: an expression and the minimization it comes from. -/
structure Form where
  expression : Expr
  minimization : Minimization
  deriving DecidableEq, Inhabited

namespace Form

/-- The sum of the products of the selected implicants, `0` without implicants. -/
def sumOfProducts (names : List String) (minimization : Minimization) : Form :=
  ⟨Expr.chain .or (minimization.selected.map fun implicant => implicant.product names)
    (.const false), minimization⟩

/-- The product of the complemented clauses of the selected implicants: `1` without implicants, and
`0` if one of them has no literals. -/
def productOfSums (names : List String) (minimization : Minimization) : Form :=
  let clauses := minimization.selected.map fun implicant => implicant.complementedClause names
  ⟨if clauses.contains (.const false) then .const false else Expr.chain .and clauses (.const true),
    minimization⟩

end Form

/-- The evaluation of a text. -/
structure Evaluation where
  text : String
  expr : Expr
  names : List String
  table : TruthTable
  sop : Form
  pos : Form
  deriving DecidableEq, Inhabited

/-- The evaluation of an expression over its names. -/
def tabulate (text : String) (expr : Expr) (names : List String) :
    Except InternalError Evaluation := do
  let table ← TruthTable.build expr names
  let trueRows ← Minimization.ofIndices names table.minterms []
  let falseRows ← Minimization.ofIndices names table.maxterms []
  return ⟨text, expr, names, table, .sumOfProducts names trueRows, .productOfSums names falseRows⟩

/-- The evaluation of a text under limits. -/
def evaluate (limits : Limits) (text : String) : Except Failure Evaluation := do
  let expr ← (Expr.parse limits.nesting text).mapError .unreadable
  let names := expr.names
  if limits.variableLimit < names.length then
    .error (.tooManyVariables names.length limits.variableLimit)
  else (tabulate text expr names).mapError .internal

namespace Evaluation

/-- The written form of the expression. -/
def normalized (evaluation : Evaluation) : String := evaluation.expr.render

/-- The written minimal sum of products. -/
def minimalSop (evaluation : Evaluation) : String := evaluation.sop.expression.render

/-- The written minimal product of sums. -/
def minimalPos (evaluation : Evaluation) : String := evaluation.pos.expression.render

/-- The written canonical disjunction. -/
def canonicalDnf (evaluation : Evaluation) : String := evaluation.table.dnf.render

/-- The written canonical conjunction. -/
def canonicalCnf (evaluation : Evaluation) : String := evaluation.table.cnf.render

/-- The line between the sentences of the two minimizations. -/
def derivationSeparator : String := "---"

/-- What marks a sentence of the second minimization. -/
def posTag : String := "[POS] "

/-- The sentences of both minimizations; the second, if it has any, after a separator. -/
def derivation (evaluation : Evaluation) : List String :=
  let sentences (form : Form) := form.minimization.steps.map (Step.render evaluation.names)
  let second := sentences evaluation.pos
  sentences evaluation.sop ++
    if second.isEmpty then [] else derivationSeparator :: second.map (posTag ++ ·)

end Evaluation

end TwoLevel
