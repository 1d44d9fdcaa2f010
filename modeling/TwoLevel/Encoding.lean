/-
**Structured output.**

The JSON form of expressions, implicants, steps, tables, evaluations and failures. The members of
every object have a fixed order.

* `Expr.toJson`: a tree as nested objects, each with the name of its root as the only key;
* `Evaluation.toJson`: everything about an evaluation;
* `Failure.toJson`: the kind and the wording of a failure.
-/

import TwoLevel.Evaluation
import TwoLevel.JsonValue

namespace TwoLevel

open JsonValue (ofList)

/-- The JSON form of a tree. -/
def Expr.toJson : Expr → JsonValue
  | const value => .object [("Const", .bool value)]
  | var name => .object [("Var", .string name)]
  | not operand => .object [("Not", operand.toJson)]
  | binary op left right =>
    .object [("Binary",
      .object [("op", .string op.title), ("left", left.toJson), ("right", right.toJson)])]

/-- The JSON form of an implicant. -/
def Implicant.toJson (implicant : Implicant) : JsonValue :=
  .object [("pattern", .string implicant.pattern.render),
    ("minterms", ofList .number implicant.minterms.toList)]

/-- The JSON form of a line of the chart. -/
def ChartRow.toJson (row : ChartRow) : JsonValue :=
  .object [("implicant", row.implicant.toJson), ("term", .string row.term),
    ("covers", ofList .number row.covers)]

/-- The JSON form of a step. -/
def Step.toJson : Step → JsonValue
  | single index term =>
    .object [("SingleMinterm", .object [("index", .number index), ("term", term.toJson)])]
  | grouped groups =>
    .object [("Grouped", .object [("groups", ofList (fun (ones, members) =>
      .array [.number ones, ofList Implicant.toJson members]) groups)])]
  | merged pass merge =>
    .object [("Combined", .object [("pass", .number pass), ("left", merge.left.toJson),
      ("right", merge.right.toJson), ("merged", merge.merged.toJson)])]
  | essential implicant index =>
    .object [("Essential", .object [("implicant", implicant.toJson), ("index", .number index)])]
  | completed chosen =>
    .object [("Petrick", .object [("chosen", ofList Implicant.toJson chosen)])]

/-- The JSON form of a row of a table. -/
def TruthRow.toJson (row : TruthRow) : JsonValue :=
  .object [("index", .number row.index),
    ("assignment", .object (row.assignment.map fun (name, value) => (name, .bool value))),
    ("output", .bool row.output)]

/-- The JSON form of a table. -/
def TruthTable.toJson (table : TruthTable) : JsonValue :=
  .object [("variables", ofList .string table.names), ("rows", ofList TruthRow.toJson table.rows)]

/-- The JSON form of a minimal form. -/
def Form.toJson (form : Form) : JsonValue :=
  .object [("expression", form.expression.toJson),
    ("implicants", ofList Implicant.toJson form.minimization.selected),
    ("chart", ofList ChartRow.toJson form.minimization.chart),
    ("steps", ofList Step.toJson form.minimization.steps)]

/-- The JSON form of an evaluation. -/
def Evaluation.toJson (evaluation : Evaluation) : JsonValue :=
  .object [("expression", .string evaluation.text), ("ast", evaluation.expr.toJson),
    ("normalized_infix", .string evaluation.normalized),
    ("variables", ofList .string evaluation.names),
    ("truth_table", evaluation.table.toJson),
    ("minimal_sop", .string evaluation.minimalSop), ("minimal_pos", .string evaluation.minimalPos),
    ("canonical_dnf", .string evaluation.canonicalDnf),
    ("canonical_cnf", .string evaluation.canonicalCnf),
    ("derivation_steps", ofList .string evaluation.derivation),
    ("sop", evaluation.sop.toJson), ("pos", evaluation.pos.toJson)]

/-- The JSON form of a failure. -/
def Failure.toJson (failure : Failure) : JsonValue :=
  .object [("kind", .string failure.kind.name), ("message", .string failure.message)]

end TwoLevel
