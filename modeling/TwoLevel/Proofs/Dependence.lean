/-
**The names that matter.**

A table depends on a name if flipping the bit of its column changes the output of some row. The
minimal forms mention just these names. A form with the values of the input cannot leave one of
them out, whatever it looks like; and a name that does not matter can be left out of the table,
which leaves the minimal forms as they are.

* `flipColumn` — the row with the bit of a column flipped; `rowValuation_flipColumn` and
  `rowOf_eq_flipColumn` say that this changes the value of one name;
* `TruthTable.DependsOn`, `TruthTable.dependsOn_iff` — dependence in rows and in valuations;
* `Evaluation.Arises.mem_leaves_of_dependsOn`, `Evaluation.Arises.forms_mention` — every form with
  the values of the input mentions what matters;
* `Evaluation.Arises.agrees_of_not_dependsOn`, `Evaluation.Arises.forms_leave_out` — what does not
  matter can be left out;
* `minimal_forms_mention_dependencies` — **the minimal forms mention just the names that matter**.
-/

import TwoLevel.Proofs.Canonicity

namespace TwoLevel

/-! ### Rows that differ in one column -/

section Flips

variable {names : List String} {name other : String} {position : Nat}

/-- The row with the bit of a column flipped. -/
def flipColumn (width position index : Nat) : Nat := index ^^^ 2 ^ (width - position - 1)

theorem flipColumn_lt {width index : Nat} (column : position < width) (below : index < 2 ^ width) :
    flipColumn width position index < 2 ^ width :=
  Nat.xor_lt_two_pow below (Nat.pow_lt_pow_right (by decide) (by omega))

/-- As long as a row fits into a word, flipping a column changes its bit and no other. -/
theorem columnBit_flipColumn {width otherPosition index : Nat} (inWord : width ≤ Word.size)
    (column : position < width) (otherColumn : otherPosition < width) :
    columnBit width otherPosition (flipColumn width position index) =
      (columnBit width otherPosition index ^^ decide (otherPosition = position)) := by
  have place : width - position - 1 = width - otherPosition - 1 ↔ otherPosition = position := by
    omega
  have inShift : width - otherPosition - 1 < Word.size := by omega
  rw [columnBit, columnBit, Word.bit_eq_testBit _ inShift, Word.bit_eq_testBit _ inShift, flipColumn,
    Nat.testBit_xor, Nat.testBit_two_pow, decide_eq_decide.mpr place]

variable (inWord : names.length ≤ Word.size)
include inWord

/-- **Flipping a column changes the value of its name and no other.** -/
theorem rowValuation_flipColumn (different : names.Nodup) (column : names[position]? = some name)
    (index : Nat) (other : String) :
    rowValuation names (flipColumn names.length position index) other =
      (rowValuation names index other ^^ decide (other = name)) := by
  obtain ⟨below, here⟩ := List.getElem?_eq_some_iff.mp column
  by_cases member : other ∈ names
  · obtain ⟨otherPosition, otherBelow, rfl⟩ := List.mem_iff_getElem.mp member
    have same : otherPosition = position ↔ names[otherPosition] = name := by
      rw [← here, different.getElem_inj_iff]
    rw [rowValuation_getElem different otherBelow, rowValuation_getElem different otherBelow,
      columnBit_flipColumn inWord below otherBelow, decide_eq_decide.mpr same]
  · have missing := List.idxOf?_eq_none_iff.mpr member
    have apart : other ≠ name := fun same => member (same ▸ List.mem_of_getElem? column)
    rw [rowValuation, rowValuation, missing, decide_eq_false apart]
    rfl

/-- Valuations that differ in one name of the table have rows that differ in its column. -/
theorem rowOf_eq_flipColumn (different : names.Nodup) (column : names[position]? = some name)
    {first second : String → Bool} (changed : first name ≠ second name)
    (same : ∀ other ∈ names, other ≠ name → first other = second other) :
    rowOf names second = flipColumn names.length position (rowOf names first) := by
  obtain ⟨below, _⟩ := List.getElem?_eq_some_iff.mp column
  rw [← rowOf_rowValuation_of_lt inWord different (flipColumn_lt below (rowOf_lt names first))]
  refine rowOf_congr fun other member => ?_
  rw [rowValuation_flipColumn inWord different column, rowValuation_rowOf inWord first member]
  by_cases here : other = name
  · rw [here, decide_eq_true rfl, Bool.xor_true]
    exact Bool.eq_not_of_ne changed.symm
  · rw [decide_eq_false here, Bool.xor_false]
    exact (same other member here).symm

end Flips

/-! ### Dependence -/

namespace TruthTable

/-- Flipping the bit of the column of the name changes the output of some row. -/
def DependsOn (table : TruthTable) (name : String) : Prop :=
  ∃ position : Fin table.names.length, table.names[position] = name ∧
    ∃ row ∈ table.rows, ∃ flipped ∈ table.rows,
      flipped.index = flipColumn table.width position row.index ∧ flipped.output ≠ row.output

instance (table : TruthTable) (name : String) : Decidable (table.DependsOn name) :=
  inferInstanceAs (Decidable (∃ position : Fin table.names.length, table.names[position] = name ∧
    ∃ row ∈ table.rows, ∃ flipped ∈ table.rows,
      flipped.index = flipColumn table.width position row.index ∧ flipped.output ≠ row.output))

variable {names : List String} {name : String} {expr : Expr} {table : TruthTable}

/-- **A table depends on a name just where two valuations that agree on the other columns give the
expression different values.** -/
theorem dependsOn_iff (narrow : names.length < Word.size) (different : names.Nodup)
    (inside : ∀ name ∈ expr.leaves, name ∈ names) (built : build expr names = .ok table) :
    table.DependsOn name ↔ ∃ first second : String → Bool,
      (∀ other ∈ names, other ≠ name → first other = second other) ∧
        expr.eval first ≠ expr.eval second := by
  have sameNames := names_eq inside built
  subst sameNames
  have inWord := Nat.le_of_lt narrow
  constructor
  · rintro ⟨position, here, row, member, flipped, flippedMember, index, changed⟩
    obtain ⟨_, _, output⟩ := (mem_rows_iff inside built).mp member
    obtain ⟨_, _, flippedOutput⟩ := (mem_rows_iff inside built).mp flippedMember
    rw [width] at index
    have column := List.getElem?_eq_some_iff.mpr ⟨position.isLt, here⟩
    refine ⟨rowValuation table.names flipped.index, rowValuation table.names row.index,
      fun other _ apart => ?_, ?_⟩
    · rw [index, rowValuation_flipColumn inWord different column, decide_eq_false apart, Bool.xor_false]
    · rwa [← output, ← flippedOutput]
  · rintro ⟨first, second, same, changed⟩
    -- the two valuations must differ in the name, and the name must have a column
    have apart : ¬ ∀ other ∈ expr.leaves, first other = second other :=
      fun agree => changed (Expr.eval_congr agree)
    simp only [not_forall] at apart
    obtain ⟨other, member, differ⟩ := apart
    have here : other = name := by
      by_contra elsewhere
      exact differ (same other (inside other member) elsewhere)
    subst here
    obtain ⟨position, below, column⟩ := List.mem_iff_getElem.mp (inside other member)
    have flip := rowOf_eq_flipColumn inWord different
      (List.getElem?_eq_some_iff.mpr ⟨below, column⟩) differ same
    obtain ⟨row, rowMember, index, output⟩ := exists_row_of_valuation narrow inside built first
    obtain ⟨flipped, flippedMember, flippedIndex, flippedOutput⟩ :=
      exists_row_of_valuation narrow inside built second
    refine ⟨⟨position, below⟩, column, row, rowMember, flipped, flippedMember, ?_, ?_⟩
    · rwa [flippedIndex, index]
    · rw [flippedOutput, output]
      exact changed.symm

example : (build (.var "A") ["A", "B"]).map (fun table =>
    (decide (table.DependsOn "A"), decide (table.DependsOn "B"))) = .ok (true, false) := by
  decide

/-- Where the table does not depend on a name, the other names decide the value. -/
theorem eval_eq_of_not_dependsOn (narrow : names.length < Word.size) (different : names.Nodup)
    (inside : ∀ name ∈ expr.leaves, name ∈ names) (built : build expr names = .ok table)
    (independent : ¬ table.DependsOn name) {first second : String → Bool}
    (same : ∀ other ∈ names.filter (fun other => decide (other ≠ name)),
      first other = second other) :
    expr.eval first = expr.eval second := by
  by_contra changed
  refine independent ((dependsOn_iff narrow different inside built).mpr ⟨first, second, ?_, changed⟩)
  exact fun other member apart => same other (List.mem_filter.mpr ⟨member, decide_eq_true apart⟩)

end TruthTable

/-! ### The names of the minimal forms -/

/-- A sum of products mentions only names of the table. -/
theorem Form.sumOfProducts_inside (names : List String) (minimization : Minimization) :
    ∀ name ∈ (Form.sumOfProducts names minimization).expression.leaves, name ∈ names := by
  have within := (@over_chain_terms names .or .and false false true
    (minimization.selected.map Implicant.pattern)).inside
  rwa [List.map_map] at within

/-- A product of sums mentions only names of the table. -/
theorem Form.productOfSums_inside (names : List String) (minimization : Minimization) :
    ∀ name ∈ (Form.productOfSums names minimization).expression.leaves, name ∈ names := by
  rcases Form.expression_productOfSums names minimization with chain | ⟨zero, _⟩
  · rw [chain]
    exact (over_chain_terms _ _ _ _ _ _).inside
  · rw [zero]
    exact fun _ member => nomatch member

namespace Evaluation.Arises

variable {limits : Limits} {text : String} {evaluation : Evaluation} {name : String}

/-- **A form with the values of the input mentions every name that matters.** -/
theorem mem_leaves_of_dependsOn (arises : evaluation.Arises limits text) {form : Expr}
    (inside : ∀ name ∈ form.leaves, name ∈ evaluation.names)
    (values : ∀ valuation, form.eval valuation = evaluation.expr.eval valuation)
    (depends : evaluation.table.DependsOn name) : name ∈ form.leaves := by
  obtain ⟨first, second, same, changed⟩ :=
    (TruthTable.dependsOn_iff arises.narrow (nodup_of_ascending arises.ascending) arises.inside
      arises.built).mp depends
  by_contra missing
  refine changed ?_
  rw [← values, ← values]
  exact Expr.eval_congr fun other member =>
    same other (inside other member) fun here => missing (here ▸ member)

/-- **A name that does not matter can be left out**: the table agrees with the rows over the other
names. -/
theorem agrees_of_not_dependsOn (arises : evaluation.Arises limits text)
    (independent : ¬ evaluation.table.DependsOn name) (output : Bool) :
    Agrees (fun other => decide (other ≠ name)) evaluation.names
      (evaluation.table.indicesWhere output)
      (rowsWhere evaluation.expr (evaluation.names.filter fun other => decide (other ≠ name))
        output) :=
  arises.agrees (fun _ => rfl) (fun _ _ same =>
    TruthTable.eval_eq_of_not_dependsOn arises.narrow (nodup_of_ascending arises.ascending)
      arises.inside arises.built independent same) output

/-- The minimal forms mention every name that matters. -/
theorem forms_mention (arises : evaluation.Arises limits text)
    (depends : evaluation.table.DependsOn name) :
    name ∈ evaluation.sop.expression.leaves ∧ name ∈ evaluation.pos.expression.leaves := by
  constructor
  · refine arises.mem_leaves_of_dependsOn ?_ arises.sop_readsBack.2 depends
    rw [arises.sop_eq]
    exact Form.sumOfProducts_inside _ _
  · refine arises.mem_leaves_of_dependsOn ?_ arises.pos_readsBack.2 depends
    rw [arises.pos_eq]
    exact Form.productOfSums_inside _ _

/-- **The minimal forms leave out a name that does not matter**: they are those over the other
names. -/
theorem forms_leave_out (arises : evaluation.Arises limits text)
    (independent : ¬ evaluation.table.DependsOn name) :
    name ∉ evaluation.sop.expression.leaves ∧ name ∉ evaluation.pos.expression.leaves := by
  let others := evaluation.names.filter fun other => decide (other ≠ name)
  have leftOut : name ∉ others := fun kept => of_decide_eq_true (List.mem_filter.mp kept).2 rfl
  have agrees := arises.agrees_of_not_dependsOn independent
  constructor
  · obtain ⟨narrow, result, _⟩ :=
      Minimization.exists_ofIndices others (rowsWhere evaluation.expr others true) []
    rw [arises.sop_eq, (agrees true).sumOfProducts_eq arises.sopMinimized result]
    exact fun mentioned => leftOut (Form.sumOfProducts_inside _ _ name mentioned)
  · obtain ⟨narrow, result, _⟩ :=
      Minimization.exists_ofIndices others (rowsWhere evaluation.expr others false) []
    rw [arises.pos_eq, (agrees false).productOfSums_eq arises.posMinimized result]
    exact fun mentioned => leftOut (Form.productOfSums_inside _ _ name mentioned)

end Evaluation.Arises

/-- **The minimal forms mention just the names that matter.** For every text that has an evaluation
and every name, the minimal sum of products mentions the name exactly if the name has a column where
flipping the bit changes the output of some row, and so does the minimal product of sums. -/
theorem minimal_forms_mention_dependencies {limits : Limits} {text : String}
    {evaluation : Evaluation} (evaluated : evaluate limits text = .ok evaluation) (name : String) :
    (name ∈ evaluation.sop.expression.leaves ↔ evaluation.table.DependsOn name) ∧
      (name ∈ evaluation.pos.expression.leaves ↔ evaluation.table.DependsOn name) := by
  have arises := evaluate_eq_ok evaluated
  by_cases depends : evaluation.table.DependsOn name
  · obtain ⟨inSum, inProduct⟩ := arises.forms_mention depends
    exact ⟨iff_of_true inSum depends, iff_of_true inProduct depends⟩
  · obtain ⟨notInSum, notInProduct⟩ := arises.forms_leave_out depends
    exact ⟨iff_of_false notInSum depends, iff_of_false notInProduct depends⟩

/-- The second name of the text does not matter, so both forms are the first. -/
theorem minimal_forms_mention_dependencies_absorption :
    ∃ evaluation, evaluate .standard "A·B + A·¬B" = .ok evaluation ∧
      evaluation.names = ["A", "B"] ∧ evaluation.sop.expression = .var "A" ∧
      evaluation.table.DependsOn "A" ∧ ¬ evaluation.table.DependsOn "B" ∧
      "A" ∈ evaluation.pos.expression.leaves ∧ "B" ∉ evaluation.pos.expression.leaves := by
  have minimal : (evaluate .standard "A·B + A·¬B").map (fun evaluation =>
      (evaluation.names, evaluation.sop.expression)) = .ok (["A", "B"], .var "A") := by
    cbv
  obtain ⟨evaluation, evaluated, same⟩ := map_eq_ok_iff.mp minimal
  obtain ⟨names, sop⟩ := Prod.mk.inj same
  obtain ⟨firstSum, firstProduct⟩ := minimal_forms_mention_dependencies evaluated "A"
  obtain ⟨secondSum, secondProduct⟩ := minimal_forms_mention_dependencies evaluated "B"
  rw [sop] at firstSum secondSum
  have first : evaluation.table.DependsOn "A" := firstSum.mp (by decide)
  have second : ¬ evaluation.table.DependsOn "B" := mt secondSum.mpr (by decide)
  exact ⟨evaluation, evaluated, names, sop, first, second, firstProduct.mpr first,
    mt secondProduct.mp second⟩

end TwoLevel
