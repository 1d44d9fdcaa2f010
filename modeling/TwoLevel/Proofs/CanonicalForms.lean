/-
**The canonical forms of a table.**

The two canonical forms have the value of the expression in every row of the table. Over different
names this holds at every width, also where the number of rows does not fit into a word, and as long
as it does fit, also where a name is repeated in the columns. The forms are made from the output
column alone, and the output column is found again by evaluating them, so each of them is a normal
form: two tables over the same columns have the same form just where they have the same outputs.

* `TruthTable.any_fits_ofIndex_iff` — the full patterns for an output fit the rows with the output;
* `TruthTable.eval_dnf`, `TruthTable.eval_cnf` — the value of a canonical form;
* `TruthTable.evalRow_form` — a form with the value of the expression has the output of each row;
* `TruthTable.outputs_eq_iff` — two output columns are the same just where the expressions have the
  same value in every row;
* `TruthTable.form_eq_iff` — a form made from the outputs, with the value of the expression, is
  canonical;
* `canonical_forms_decide_outputs` — the forms are right in every row, and canonical.
-/

import TwoLevel.Proofs.Forms

namespace TwoLevel

namespace TruthTable

variable {names : List String} {expr other : Expr} {table otherTable : TruthTable}

/-! ### The forms are right -/

section Rows

variable (distinct : names.Nodup ∨ names.length < Word.size)
  (inside : ∀ name ∈ expr.leaves, name ∈ names) (built : build expr names = .ok table)
include distinct inside built

/-- In a row of the table, one of the full patterns for an output fits exactly if the row has the
output. Either no two rows of the table are read alike, or the number of rows fits into a word. -/
theorem any_fits_ofIndex_iff (output : Bool) {index : Nat} (below : index < rowCount names.length) :
    (((table.indicesWhere output).map (Pattern.ofIndex names.length)).any fun pattern =>
      pattern.fits (rowOf names (rowValuation names index))) = true ↔
        expr.eval (rowValuation names index) = output := by
  rcases distinct with different | narrow
  · have fits : ∀ listed ∈ table.indicesWhere output,
        (Pattern.ofIndex names.length listed).fits (rowOf names (rowValuation names index)) = true ↔
          listed = index := by
      intro listed member
      rw [rowOf_rowValuation different, Pattern.fits_ofIndex_iff,
        Nat.mod_eq_of_lt (readRow_lt _ _)]
      exact ⟨fun same => readRow_injOn (lt_of_mem_indicesWhere inside built member) below same.symm,
        fun same => same ▸ rfl⟩
    rw [List.any_map, List.any_eq_true]
    calc (∃ listed ∈ table.indicesWhere output, _)
        ↔ ∃ listed ∈ table.indicesWhere output, listed = index :=
          exists_congr fun listed => and_congr_right (fits listed)
      _ ↔ index ∈ table.indicesWhere output := exists_eq_right
      _ ↔ expr.eval (rowValuation names index) = output := by
          rw [indicesWhere_eq inside built, List.mem_filter, List.mem_range, beq_iff_eq]
          exact and_iff_right below
  · rw [(realizes_indicesWhere narrow inside built output).any_fits_iff,
      mem_indicesWhere_rowOf narrow inside built]

/-- The canonical disjunction has the value of the expression in every row of the table. -/
theorem eval_dnf {index : Nat} (below : index < rowCount names.length) :
    table.dnf.eval (rowValuation names index) = expr.eval (rowValuation names index) := by
  rw [dnf_eq inside built, eval_sum (Pattern.length_of_mem_map_ofIndex _), Bool.eq_iff_iff]
  exact any_fits_ofIndex_iff distinct inside built true below

/-- The canonical conjunction has the value of the expression in every row of the table. -/
theorem eval_cnf {index : Nat} (below : index < rowCount names.length) :
    table.cnf.eval (rowValuation names index) = expr.eval (rowValuation names index) := by
  rw [cnf_eq inside built, eval_clauseProduct (Pattern.length_of_mem_map_ofIndex _), Bool.eq_iff_iff,
    Bool.not_eq_true', ← Bool.not_eq_true, maxterms,
    any_fits_ofIndex_iff distinct inside built false below, Bool.not_eq_false]

end Rows

/-- The variables of the canonical forms are columns. -/
theorem forms_inside (inside : ∀ name ∈ expr.leaves, name ∈ names)
    (built : build expr names = .ok table) :
    (∀ name ∈ table.dnf.leaves, name ∈ names) ∧ ∀ name ∈ table.cnf.leaves, name ∈ names := by
  rw [dnf_eq inside built, cnf_eq inside built]
  exact ⟨(over_chain_terms _ _ _ _ _ _).inside, (over_chain_terms _ _ _ _ _ _).inside⟩

/-- **A form with the value of the expression has the output of each row.** -/
theorem evalRow_form (inside : ∀ name ∈ expr.leaves, name ∈ names)
    (built : build expr names = .ok table) {form : Expr}
    (formInside : ∀ name ∈ form.leaves, name ∈ names)
    (values : ∀ index < rowCount names.length,
      form.eval (rowValuation names index) = expr.eval (rowValuation names index))
    {row : TruthRow} (member : row ∈ table.rows) :
    form.evalRow names row.index = .ok row.output := by
  obtain ⟨below, _, output⟩ := (mem_rows_iff inside built).mp member
  rw [Expr.evalRow_eq formInside, values row.index below, output]

/-! ### The forms are canonical -/

/-- The output column lists the values of the expression, row by row. -/
theorem outputs_eq (inside : ∀ name ∈ expr.leaves, name ∈ names)
    (built : build expr names = .ok table) :
    table.outputs = (List.range (rowCount names.length)).map fun index =>
      expr.eval (rowValuation names index) := by
  rw [build_eq inside] at built
  cases built
  rw [outputs, List.map_map]
  rfl

section Canonical

variable (inside : ∀ name ∈ expr.leaves, name ∈ names)
  (otherInside : ∀ name ∈ other.leaves, name ∈ names) (built : build expr names = .ok table)
  (otherBuilt : build other names = .ok otherTable)
include inside otherInside built otherBuilt

/-- Two output columns are the same just where the expressions have the same value in every row. -/
theorem outputs_eq_iff :
    table.outputs = otherTable.outputs ↔ ∀ index < rowCount names.length,
      expr.eval (rowValuation names index) = other.eval (rowValuation names index) := by
  rw [outputs_eq inside built, outputs_eq otherInside otherBuilt, List.map_inj_left]
  exact forall_congr' fun index => imp_congr_left List.mem_range

/-- Tables with the same outputs list the same rows. -/
theorem indicesWhere_congr (same : table.outputs = otherTable.outputs) (output : Bool) :
    table.indicesWhere output = otherTable.indicesWhere output := by
  have values := (outputs_eq_iff inside otherInside built otherBuilt).mp same
  rw [indicesWhere_eq inside built, indicesWhere_eq otherInside otherBuilt]
  exact List.filter_congr fun index member => by rw [values index (List.mem_range.mp member)]

/-- **A form that is made from the outputs is canonical** if it has the value of the expression in
every row: the outputs are found again by evaluating it. -/
theorem form_eq_iff {form otherForm : Expr}
    (values : ∀ index < rowCount names.length,
      form.eval (rowValuation names index) = expr.eval (rowValuation names index))
    (otherValues : ∀ index < rowCount names.length,
      otherForm.eval (rowValuation names index) = other.eval (rowValuation names index))
    (made : table.outputs = otherTable.outputs → form = otherForm) :
    form = otherForm ↔ table.outputs = otherTable.outputs := by
  refine ⟨fun same => ?_, made⟩
  refine (outputs_eq_iff inside otherInside built otherBuilt).mpr fun index below => ?_
  rw [← values index below, same, otherValues index below]

variable (distinct : names.Nodup ∨ names.length < Word.size)
include distinct

theorem dnf_eq_iff : table.dnf = otherTable.dnf ↔ table.outputs = otherTable.outputs := by
  refine form_eq_iff inside otherInside built otherBuilt
    (fun _ => eval_dnf distinct inside built)
    (fun _ => eval_dnf distinct otherInside otherBuilt) fun same => ?_
  rw [dnf_eq inside built, dnf_eq otherInside otherBuilt, minterms, minterms,
    indicesWhere_congr inside otherInside built otherBuilt same]

theorem cnf_eq_iff : table.cnf = otherTable.cnf ↔ table.outputs = otherTable.outputs := by
  refine form_eq_iff inside otherInside built otherBuilt
    (fun _ => eval_cnf distinct inside built)
    (fun _ => eval_cnf distinct otherInside otherBuilt) fun same => ?_
  rw [cnf_eq inside built, cnf_eq otherInside otherBuilt, maxterms, maxterms,
    indicesWhere_congr inside otherInside built otherBuilt same]

end Canonical

end TruthTable

/-- **The canonical forms are right and canonical.** Take any list of different names, or one with
repetitions if the number of rows fits into a word, and an expression over it. Only a checked build
stops, from as many names on as a word has bits. Every other call gives a table, and in each of its
rows both forms have the output of the row. Another expression over the same names has the same
canonical disjunction, and the same canonical conjunction, exactly if its outputs are the same. -/
theorem canonical_forms_decide_outputs (build : Build) {names : List String} {expr : Expr}
    (distinct : names.Nodup ∨ names.length < Word.size)
    (inside : ∀ name ∈ expr.leaves, name ∈ names) :
    (TruthTable.buildIn build expr names = none ↔ build = .checked ∧ Word.size ≤ names.length) ∧
    ∀ outcome, TruthTable.buildIn build expr names = some outcome → ∃ table, outcome = .ok table ∧
      (∀ row ∈ table.rows,
        table.dnf.evalRowIn build names row.index = some (.ok row.output) ∧
        table.cnf.evalRowIn build names row.index = some (.ok row.output)) ∧
      ∀ other : Expr, (∀ name ∈ other.leaves, name ∈ names) →
        ∃ otherTable, TruthTable.buildIn build other names = some (.ok otherTable) ∧
          (table.dnf = otherTable.dnf ↔ table.outputs = otherTable.outputs) ∧
          (table.cnf = otherTable.cnf ↔ table.outputs = otherTable.outputs) := by
  refine ⟨TruthTable.buildIn_eq_none_iff, fun outcome made => ?_⟩
  have reads := TruthTable.reads_of_buildIn made
  have inBuild := TruthTable.buildIn_of_reads reads
  have built := TruthTable.build_eq inside
  rw [inBuild expr, built, Option.some.injEq] at made
  have rows := Expr.evalRowIn_of_reads (reads.mono (Nat.le_succ _))
  obtain ⟨dnfInside, cnfInside⟩ := TruthTable.forms_inside inside built
  refine ⟨_, made.symm, fun row member => ⟨?_, ?_⟩, fun other otherInside => ?_⟩
  · rw [rows, TruthTable.evalRow_form inside built dnfInside
      (fun _ => TruthTable.eval_dnf distinct inside built) member]
  · rw [rows, TruthTable.evalRow_form inside built cnfInside
      (fun _ => TruthTable.eval_cnf distinct inside built) member]
  · have otherBuilt := TruthTable.build_eq otherInside
    exact ⟨_, (inBuild other).trans (congrArg some otherBuilt),
      TruthTable.dnf_eq_iff inside otherInside built otherBuilt distinct,
      TruthTable.cnf_eq_iff inside otherInside built otherBuilt distinct⟩

/-- Two ways to write NAND, over columns in reverse: the outputs are the same, so the forms are. -/
theorem canonical_forms_decide_outputs_nand :
    ∃ table otherTable,
      TruthTable.buildIn .checked (.binary .nand (.var "A") (.var "B")) ["B", "A"] =
        some (.ok table) ∧
      TruthTable.buildIn .checked (.binary .or (.not (.var "A")) (.not (.var "B"))) ["B", "A"] =
        some (.ok otherTable) ∧
      table.outputs = [true, true, true, false] ∧ table.dnf = otherTable.dnf ∧
      table.cnf = otherTable.cnf := by
  have inside : ∀ name ∈ (Expr.binary .nand (.var "A") (.var "B")).leaves, name ∈ ["B", "A"] := by
    decide
  obtain ⟨_, found⟩ := canonical_forms_decide_outputs .checked (.inl (by decide)) inside
  obtain ⟨table, built, _, decides⟩ := found _ rfl
  obtain ⟨otherTable, otherBuilt, dnf, cnf⟩ :=
    decides (.binary .or (.not (.var "A")) (.not (.var "B"))) (by decide)
  have outputs : table.outputs = [true, true, true, false] := by
    cases built
    rfl
  have same : table.outputs = otherTable.outputs := by
    cases otherBuilt
    exact outputs
  exact ⟨table, otherTable, congrArg some built, otherBuilt, outputs, dnf.mpr same, cnf.mpr same⟩

/-- Without columns there is one row, whose product and whose clause have no literals. -/
example : (TruthTable.build (.const false) []).map (fun table => (table.dnf, table.cnf)) =
    .ok (.const false, .const false) := by
  decide

end TwoLevel
