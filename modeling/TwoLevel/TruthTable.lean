/-
**Truth tables.**

The value of an expression in every row over a list of names. A row also keeps the values of its
names, sorted by the code points of the names, each name once.

* `TruthTable.build`: the table, or the first name without a column;
* `TruthTable.buildIn`: the same in a build that may stop at a shift;
* `TruthTable.buildIn_eq_none_iff`: where it does;
* `TruthTable.minterms`, `TruthTable.maxterms`: the rows where the expression is true or false;
* `TruthTable.dnf`, `TruthTable.cnf`: the canonical forms, one full term for each such row.
-/

import TwoLevel.Expr.Valuation
import TwoLevel.Implicant.Term

namespace TwoLevel

/-- A row of a truth table. -/
structure TruthRow where
  index : Nat
  assignment : List (String × Bool)
  output : Bool
  deriving DecidableEq, Inhabited

/-- The values in the order of the assignment. -/
def TruthRow.bits (row : TruthRow) : List Bool := row.assignment.map Prod.snd

/-- The number of rows over so many names: each name is false or true. -/
def rowCount (width : Nat) : Nat := Word.power width

/-- The values that a row gives to the names, sorted by name; of a repeated name the last column
counts. -/
def rowAssignment (names : List String) (index : Nat) : List (String × Bool) :=
  distinctBy (fun left right => compare left.1 right.1) <|
    names.zipIdx.map fun (name, position) => (name, columnBit names.length position index)

/-- A truth table. -/
structure TruthTable where
  names : List String
  rows : List TruthRow
  deriving DecidableEq, Inhabited

namespace TruthTable

/-- The row with an index. -/
def row (expr : Expr) (names : List String) (index : Nat) : Except InternalError TruthRow := do
  let output ← expr.evalRow names index
  return ⟨index, rowAssignment names index, output⟩

/-- The table of an expression with the names as columns. -/
def build (expr : Expr) (names : List String) : Except InternalError TruthTable := do
  let rows ← (List.range (rowCount names.length)).mapM (row expr names)
  return ⟨names, rows⟩

/-- The table in a build, if no shift stops the program. The first shift is the one for the number
of rows; the rows then shift by smaller amounts only. -/
def buildIn (build : Build) (expr : Expr) (names : List String) :
    Option (Except InternalError TruthTable) := do
  let count ← build.shift names.length (rowCount names.length)
  return do
    let rows ← (List.range count).mapM (row expr names)
    return ⟨names, rows⟩

/-- Where a build shifts by the number of names, it builds the table. -/
theorem buildIn_of_reads {build : Build} {names : List String}
    (reads : build.Reads (names.length + 1)) (expr : Expr) :
    buildIn build expr names = some (TruthTable.build expr names) := by
  rw [buildIn, reads.shift_eq (Nat.lt_succ_self _)]
  rfl

/-- Where a build does not shift by the number of names, it stops before the first row. -/
theorem buildIn_of_not_reads {build : Build} {names : List String}
    (stops : ¬ build.Reads (names.length + 1)) (expr : Expr) : buildIn build expr names = none := by
  rw [buildIn, Build.shift_of_not_reads stops]
  rfl

/-- **Where no table is built**: in a checked build, from as many names on as a word has bits. -/
theorem buildIn_eq_none_iff {build : Build} {expr : Expr} {names : List String} :
    buildIn build expr names = none ↔ build = .checked ∧ Word.size ≤ names.length := by
  by_cases reads : build.Reads (names.length + 1)
  · rw [buildIn_of_reads reads]
    refine iff_of_false (nomatch ·) fun ⟨checked, wide⟩ => ?_
    exact Nat.not_succ_le_self _ (Nat.le_trans (reads checked) wide)
  · obtain ⟨checked, wide⟩ := Build.not_reads_iff.mp reads
    exact iff_of_true (buildIn_of_not_reads reads expr) ⟨checked, Nat.le_of_lt_succ wide⟩

theorem reads_of_buildIn {build : Build} {expr : Expr} {names : List String}
    {outcome : Except InternalError TruthTable} (made : buildIn build expr names = some outcome) :
    build.Reads (names.length + 1) := by
  refine Decidable.byContradiction fun stops => ?_
  rw [buildIn_of_not_reads stops] at made
  cases made

/-- The number of columns. -/
def width (table : TruthTable) : Nat := table.names.length

/-- The output column. -/
def outputs (table : TruthTable) : List Bool := table.rows.map TruthRow.output

/-- The indices of the rows with the output given. -/
def indicesWhere (table : TruthTable) (output : Bool) : List Nat :=
  (table.rows.filter fun row => row.output == output).map TruthRow.index

/-- The rows where the expression is true. -/
def minterms (table : TruthTable) : List Nat := table.indicesWhere true

/-- The rows where the expression is false. -/
def maxterms (table : TruthTable) : List Nat := table.indicesWhere false

/-- The canonical disjunction: a full product for each true row, `0` without true rows. -/
def dnf (table : TruthTable) : Expr :=
  Expr.chain .or
    (table.minterms.map fun index => (Pattern.ofIndex table.width index).product table.names)
    (.const false)

/-- The canonical conjunction: a full clause for each false row, `1` without false rows. -/
def cnf (table : TruthTable) : Expr :=
  Expr.chain .and
    (table.maxterms.map fun index =>
      (Pattern.ofIndex table.width index).complementedClause table.names)
    (.const true)

end TruthTable

end TwoLevel
