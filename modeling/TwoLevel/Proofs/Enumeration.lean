/-
**A table enumerates the assignments.**

Over different names, and as long as the number of rows fits into a word, a table has one row for
each way to give every name a value. The row is the number whose bits are the values, the first
name's the highest; its output is the value of the expression, both in the row and under the
assignment that the row keeps. The rows where the expression is true and those where it is false are
listed in ascending order, and make up all rows.

* `Assigns` — an assignment of names, in the one form in which a row keeps it;
* `bijOn_assignment` — **rows and assignments correspond one to one**;
* `TruthTable.Enumerates` — what a table of all assignments is;
* `build_enumerates` — **every expression has such a table** over different names that contain its
  variables;
* `rows_missing_beyond_word` — a table with a number of rows that does not fit into a word.
-/

import TwoLevel.Proofs.RowBits

namespace TwoLevel

/-! ### Assignments -/

section Assignments

variable {names : List String} {assignment : List (String × Bool)}

/-- The value that an assignment gives to a name, and false for a name that it does not have. -/
def assignedValue (assignment : List (String × Bool)) (name : String) : Bool :=
  (assignment.lookup name).getD false

/-- The assignment gives a value to each of the names and to no other, and has them in the order of
their code points, each once. -/
structure Assigns (names : List String) (assignment : List (String × Bool)) : Prop where
  ascending : Ascending compare (assignment.map Prod.fst)
  mem_iff : ∀ name, name ∈ assignment.map Prod.fst ↔ name ∈ names

/-- A pair of an assignment is found by its name. -/
theorem Assigns.lookup_eq (assigns : Assigns names assignment) {pair : String × Bool}
    (member : pair ∈ assignment) : assignment.lookup pair.1 = some pair.2 := by
  have different : (assignment.map Prod.fst).Nodup := nodup_of_ascending assigns.ascending
  obtain ⟨before, after, rfl⟩ := List.append_of_mem member
  refine List.lookup_eq_some_iff.mpr ⟨before, after, rfl, fun earlier earlierMember => ?_⟩
  rw [List.map_append, List.map_cons, List.nodup_append] at different
  have other := different.2.2 earlier.1 (List.mem_map_of_mem earlierMember) pair.1 List.mem_cons_self
  exact bne_iff_ne.mpr other.symm

/-- An assignment is the list of its names with their values. -/
theorem Assigns.eq_map (assigns : Assigns names assignment) :
    assignment = (assignment.map Prod.fst).map fun name => (name, assignedValue assignment name) := by
  rw [List.map_map]
  refine (List.map_id assignment).symm.trans (List.map_congr_left fun pair member => ?_)
  simp [assignedValue, assigns.lookup_eq member]

variable (different : names.Nodup)
include different

/-- A row gives each of its names its value. -/
theorem lookup_rowAssignment (index : Nat) {name : String} (member : name ∈ names) :
    (rowAssignment names index).lookup name = some (rowValuation names index name) := by
  rw [rowAssignment_eq different]
  exact List.lookup_graph _ (mem_sortBy.mpr member)

theorem assignedValue_rowAssignment (index : Nat) {name : String} (member : name ∈ names) :
    assignedValue (rowAssignment names index) name = rowValuation names index name := by
  rw [assignedValue, lookup_rowAssignment different index member]
  rfl

/-- What a row keeps is an assignment of its names. -/
theorem assigns_rowAssignment (index : Nat) : Assigns names (rowAssignment names index) := by
  have keys : (rowAssignment names index).map Prod.fst = sortBy compare names := by
    rw [rowAssignment_eq different, List.map_map]
    exact List.map_id _
  refine ⟨?_, fun name => ?_⟩
  · rw [keys]
    exact ascending_sortBy different
  · rw [keys]
    exact mem_sortBy

/-- A row is determined by the values that it gives to its names. -/
theorem eq_of_rowAssignment {first second : Nat} (firstBelow : first < rowCount names.length)
    (secondBelow : second < rowCount names.length)
    (same : rowAssignment names first = rowAssignment names second) : first = second := by
  refine readRow_injOn firstBelow secondBelow ?_
  calc readRow names.length first
      = rowOf names (rowValuation names first) := (rowOf_rowValuation different first).symm
    _ = rowOf names (rowValuation names second) := rowOf_congr fun name member => by
      rw [← assignedValue_rowAssignment different first member, same,
        assignedValue_rowAssignment different second member]
    _ = readRow names.length second := rowOf_rowValuation different second

/-- As long as a row fits into a word, every assignment of the names is what some row keeps: the row
of its values. -/
theorem rowAssignment_rowOf (inWord : names.length ≤ Word.size)
    (assigns : Assigns names assignment) :
    rowAssignment names (rowOf names (assignedValue assignment)) = assignment := by
  have keys : sortBy compare names = assignment.map Prod.fst :=
    eq_of_ascending (ascending_sortBy different) assigns.ascending fun name =>
      mem_sortBy.trans (assigns.mem_iff name).symm
  rw [rowAssignment_eq different, keys]
  refine Eq.trans (List.map_congr_left fun name member => ?_) assigns.eq_map.symm
  rw [rowValuation_rowOf inWord _ ((assigns.mem_iff name).mp member)]

end Assignments

/-! ### Tables of all assignments -/

/-- The table lists every assignment of the names in one row, with the value of the expression. -/
structure TruthTable.Enumerates (expr : Expr) (names : List String) (table : TruthTable) : Prop where
  names_eq : table.names = names
  length_rows : table.rows.length = 2 ^ names.length
  /-- The rows have the indices from zero on, in this order. -/
  indices_eq : table.rows.map TruthRow.index = List.range (2 ^ names.length)
  /-- A row gives the name of a column the bit of the column, the first column the highest. -/
  bit_eq : ∀ row ∈ table.rows, ∀ position name, names[position]? = some name →
    row.assignment.lookup name = some (row.index.testBit (names.length - 1 - position))
  /-- Each assignment of the names is that of one row. -/
  bijOn : Set.BijOn TruthRow.assignment {row | row ∈ table.rows} {assignment | Assigns names assignment}
  /-- The output is the value in the row, in every build. -/
  evalRow_eq : ∀ row ∈ table.rows, ∀ build : Build,
    expr.evalRowIn build names row.index = some (.ok row.output)
  /-- The output is the value under the assignment. -/
  eval_eq : ∀ row ∈ table.rows, expr.eval (assignedValue row.assignment) = row.output
  minterms_ascending : table.minterms.Pairwise (· < ·)
  maxterms_ascending : table.maxterms.Pairwise (· < ·)
  /-- A row is listed by its output. -/
  mem_minterms_iff : ∀ row ∈ table.rows, row.index ∈ table.minterms ↔ row.output = true
  mem_maxterms_iff : ∀ row ∈ table.rows, row.index ∈ table.maxterms ↔ row.output = false
  /-- Each index is listed once. -/
  partition : (table.minterms ++ table.maxterms).Perm (List.range (2 ^ names.length))

namespace TruthTable

variable {expr : Expr} {names : List String} {table : TruthTable}

section Built

variable (inside : ∀ name ∈ expr.leaves, name ∈ names) (built : build expr names = .ok table)
include inside built

theorem pairwise_indicesWhere (output : Bool) : (table.indicesWhere output).Pairwise (· < ·) := by
  rw [indicesWhere_eq inside built]
  exact List.pairwise_lt_range.filter _

/-- A row is listed where its output is. -/
theorem mem_indicesWhere_iff {row : TruthRow} (member : row ∈ table.rows) (output : Bool) :
    row.index ∈ table.indicesWhere output ↔ row.output = output := by
  obtain ⟨below, _, value⟩ := (mem_rows_iff inside built).mp member
  rw [indicesWhere_eq inside built, List.mem_filter, List.mem_range, beq_iff_eq, ← value]
  exact and_iff_right below

/-- The true rows and the false rows make up all rows. -/
theorem minterms_append_maxterms_perm :
    (table.minterms ++ table.maxterms).Perm (List.range (rowCount names.length)) := by
  rw [minterms, maxterms, indicesWhere_eq inside built, indicesWhere_eq inside built]
  have complement : (fun index => expr.eval (rowValuation names index) == false) =
      fun index => !(expr.eval (rowValuation names index) == true) := by
    funext index
    cases expr.eval (rowValuation names index) <;> rfl
  rw [complement]
  exact List.filter_append_perm _ _

/-- **Rows and assignments correspond one to one**, as long as the number of rows fits into a word. -/
theorem bijOn_assignment (narrow : names.length < Word.size) (different : names.Nodup) :
    Set.BijOn TruthRow.assignment {row | row ∈ table.rows} {assignment | Assigns names assignment} := by
  refine ⟨fun row member => ?_, fun first firstMember second secondMember same => ?_,
    fun assignment assigns => ?_⟩
  · obtain ⟨_, assignment, _⟩ := (mem_rows_iff inside built).mp member
    show Assigns names row.assignment
    rw [assignment]
    exact assigns_rowAssignment different row.index
  · obtain ⟨firstBelow, firstAssignment, firstOutput⟩ := (mem_rows_iff inside built).mp firstMember
    obtain ⟨secondBelow, secondAssignment, secondOutput⟩ := (mem_rows_iff inside built).mp secondMember
    have index : first.index = second.index := by
      apply eq_of_rowAssignment different firstBelow secondBelow
      rw [← firstAssignment, ← secondAssignment, same]
    have output : first.output = second.output := by rw [firstOutput, secondOutput, index]
    cases first
    cases second
    simp only [TruthRow.mk.injEq]
    exact ⟨index, same, output⟩
  · obtain ⟨row, member, index, _⟩ :=
      exists_row_of_valuation narrow inside built (assignedValue assignment)
    refine ⟨row, member, ?_⟩
    rw [((mem_rows_iff inside built).mp member).2.1, index]
    exact rowAssignment_rowOf different (Nat.le_of_lt narrow) assigns

end Built

end TruthTable

/-- **A table enumerates all assignments once, and agrees with direct evaluation.** Over different
names that contain the variables of an expression, and as long as the number of rows fits into a
word, every build has the table of the expression, which lists every assignment of the names. -/
theorem build_enumerates (build : Build) {expr : Expr} {names : List String}
    (narrow : names.length < Word.size) (different : names.Nodup)
    (inside : ∀ name ∈ expr.leaves, name ∈ names) :
    ∃ table, TruthTable.buildIn build expr names = some (.ok table) ∧
      table.Enumerates expr names := by
  obtain ⟨table, built⟩ : ∃ table, TruthTable.build expr names = .ok table :=
    ⟨_, TruthTable.build_eq inside⟩
  have inBuild : TruthTable.buildIn build expr names = some (.ok table) := by
    rw [TruthTable.buildIn_of_reads (build.reads_of_le narrow), built]
  have rows (row : TruthRow) (member : row ∈ table.rows) :=
    (TruthTable.mem_rows_iff inside built).mp member
  have count := rowCount_eq narrow
  have indices := TruthTable.map_index_rows inside built
  refine ⟨table, inBuild, {
    names_eq := TruthTable.names_eq inside built
    length_rows := ?_
    indices_eq := count ▸ indices
    bit_eq := fun row member position name column => ?_
    bijOn := TruthTable.bijOn_assignment inside built narrow different
    evalRow_eq := fun row member anyBuild => ?_
    eval_eq := fun row member => ?_
    minterms_ascending := TruthTable.pairwise_indicesWhere inside built true
    maxterms_ascending := TruthTable.pairwise_indicesWhere inside built false
    mem_minterms_iff := fun row member => TruthTable.mem_indicesWhere_iff inside built member true
    mem_maxterms_iff := fun row member => TruthTable.mem_indicesWhere_iff inside built member false
    partition := count ▸ TruthTable.minterms_append_maxterms_perm inside built }⟩
  · rw [← List.length_map TruthRow.index, indices, List.length_range, count]
  · obtain ⟨below, same⟩ := List.getElem?_eq_some_iff.mp column
    subst same
    rw [(rows row member).2.1, lookup_rowAssignment different _ (List.getElem_mem below),
      rowValuation_getElem different below, columnBit, Nat.sub_right_comm,
      Word.bit_eq_testBit _ (by omega)]
  · rw [Expr.evalRowIn_of_reads (anyBuild.reads_of_le (Nat.le_of_lt narrow)),
      Expr.evalRow_eq inside, (rows row member).2.2]
  · rw [(rows row member).2.1, (rows row member).2.2]
    exact Expr.eval_congr fun name leaf =>
      assignedValue_rowAssignment different row.index (inside name leaf)

/-- The columns need not be sorted, and may have names that the expression does not have. -/
theorem build_enumerates_unsorted_columns :
    let expr : Expr := .nand (.var "A") (.var "b")
    let names := ["b", "_x", "A"]
    names.length < Word.size ∧ names.Nodup ∧ (∀ name ∈ expr.leaves, name ∈ names) ∧
      ∃ table, TruthTable.buildIn .checked expr names = some (.ok table) ∧
        table.Enumerates expr names ∧ table.maxterms = [5, 7] := by
  intro expr names
  have narrow : names.length < Word.size := by decide
  have different : names.Nodup := by decide
  have inside : ∀ name ∈ expr.leaves, name ∈ names := by decide
  obtain ⟨table, built, enumerates⟩ := build_enumerates .checked narrow different inside
  have falseRows : (TruthTable.buildIn .checked expr names).map
      (·.map TruthTable.maxterms) = some (.ok [5, 7]) := by
    cbv
  rw [built] at falseRows
  exact ⟨narrow, different, inside, table, built, enumerates,
    Except.ok.inj (Option.some.inj falseRows)⟩

/-- **Over 64 names the number of rows does not fit into a word.** A checked build stops before the
first row, and a wrapping one has a table of one row. Over 65 names its rows are misread as well: in
row 1 the first of them is true, although only the lowest bit is set. -/
theorem rows_missing_beyond_word :
    (∀ expr : Expr, TruthTable.buildIn .checked expr (numberedNames 64) = none) ∧
      (∃ table, TruthTable.buildIn .wrapping (.const true) (numberedNames 64) = some (.ok table) ∧
        table.rows.length = 1) ∧
      ∃ table, TruthTable.buildIn .wrapping (.var "x0") (numberedNames 65) = some (.ok table) ∧
        ∃ row ∈ table.rows, row.index = 1 ∧ row.output = true ∧
          row.index.testBit (65 - 1 - 0) = false := by
  have wrapping (names : List String) (expr : Expr) :=
    TruthTable.buildIn_of_reads (Build.reads_wrapping (names.length + 1)) expr
  refine ⟨fun expr => ?_, ?_, ?_⟩
  · refine TruthTable.buildIn_of_not_reads ?_ expr
    rw [length_numberedNames]
    decide
  · have built := @TruthTable.build_eq (numberedNames 64) (.const true) fun _ leaf => nomatch leaf
    refine ⟨_, (wrapping _ _).trans (congrArg some built), ?_⟩
    rw [List.length_map, List.length_range, length_numberedNames]
    decide
  · have first : (numberedNames 65).idxOf? "x0" = some 0 := by decide +kernel
    have inside : ∀ name ∈ (Expr.var "x0").leaves, name ∈ numberedNames 65 := by decide +kernel
    have built := TruthTable.build_eq inside
    have below : 1 < rowCount (numberedNames 65).length := by
      rw [length_numberedNames]
      decide
    obtain ⟨row, member, index, output⟩ := TruthTable.exists_row_of_lt inside built below
    refine ⟨_, (wrapping _ _).trans (congrArg some built), row, member, index, ?_, ?_⟩
    · rw [output, Expr.eval, rowValuation, first, length_numberedNames]
      decide
    · rw [index]
      decide

end TwoLevel
