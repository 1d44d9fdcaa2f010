/-
**Rows as valuations.**

A row of a table gives a value to each of its names, and every valuation has its row, so that the
value of an expression in a row is its value under a valuation. A table lists the rows where it is
true and those where it is false. As long as the number of rows fits into a word, these are the rows
of all valuations.

* `rowOf`, `rowValuation` — the row of a valuation, and the valuation of a row;
* `evalRow_eq` — the value in a row is the value under its valuation;
* `rowCount_eq`, `readRow_injOn` — how many rows a table has, and that no two of them are read alike;
* `mem_rows_iff`, `exists_row_of_valuation` — what the rows of a table hold;
* `mem_indicesWhere_rowOf` — the table of an expression lists the row of a valuation where the
  expression has its value.
-/

import TwoLevel.Proofs.Cube
import TwoLevel.TruthTable

namespace TwoLevel

/-! ### The row of a valuation -/

/-- The row that gives the names their values, the first name the highest bit. -/
def rowOf (names : List String) (valuation : String → Bool) : Nat :=
  match names with
  | [] => 0
  | name :: rest => frontBit rest.length (valuation name) (rowOf rest valuation)

/-- The value that a row gives to a name, and false for a name without a column. -/
def rowValuation (names : List String) (index : Nat) (name : String) : Bool :=
  match names.idxOf? name with
  | some position => columnBit names.length position index
  | none => false

variable {names : List String}

theorem rowOf_lt (names : List String) (valuation : String → Bool) :
    rowOf names valuation < 2 ^ names.length := by
  induction names with
  | nil => exact Nat.one_pos
  | cons name rest ih => exact frontBit_lt _ ih

/-- The bit at the place of a column in the row of a valuation is the value of its name. -/
theorem testBit_rowOf (valuation : String → Bool) {position : Nat} {name : String}
    (column : names[position]? = some name) :
    (rowOf names valuation).testBit (names.length - position - 1) = valuation name := by
  induction names generalizing position with
  | nil => cases column
  | cons first rest ih =>
    rw [rowOf, List.length_cons]
    cases position with
    | zero =>
      rw [Nat.sub_zero, Nat.add_sub_cancel, testBit_frontBit_self _ (rowOf_lt rest valuation)]
      rw [List.getElem?_cons_zero] at column
      rw [Option.some.inj column]
    | succ position =>
      rw [List.getElem?_cons_succ] at column
      obtain ⟨below, _⟩ := List.getElem?_eq_some_iff.mp column
      rw [testBit_frontBit_lt _ (rowOf_lt rest valuation) (by omega), ← ih column]
      congr 1
      omega

/-- As long as a row fits into a word, the row of a valuation gives a name of the table its value. -/
theorem rowValuation_rowOf (inWord : names.length ≤ Word.size) (valuation : String → Bool)
    {name : String} (member : name ∈ names) :
    rowValuation names (rowOf names valuation) name = valuation name := by
  rw [rowValuation]
  split
  · next position found =>
    obtain ⟨below, same, _⟩ := List.idxOf?_eq_some_iff.mp found
    rw [columnBit, Word.bit_eq_testBit _ (by omega)]
    exact testBit_rowOf valuation (List.getElem?_eq_some_iff.mpr ⟨below, same⟩)
  · next missing => exact absurd member (List.idxOf?_eq_none_iff.mp missing)

/-- The row of a valuation depends only on the values of its names. -/
theorem rowOf_congr {first second : String → Bool}
    (same : ∀ name ∈ names, first name = second name) : rowOf names first = rowOf names second := by
  induction names with
  | nil => rfl
  | cons name rest ih =>
    rw [rowOf, rowOf, same name List.mem_cons_self,
      ih fun other member => same other (List.mem_cons_of_mem _ member)]

/-- Over different names, a row gives the name of a column the bit of the column. -/
theorem rowValuation_getElem (different : names.Nodup) {position : Nat}
    (column : position < names.length) (index : Nat) :
    rowValuation names index names[position] = columnBit names.length position index := by
  have found : names.idxOf? names[position] = some position := by
    refine List.idxOf?_eq_some_iff.mpr ⟨column, rfl, fun earlier before same => ?_⟩
    exact Nat.ne_of_lt before ((different.getElem_inj_iff).mp same)
  rw [rowValuation, found]

/-- Over different names, the row of the valuation of an index is the row that the index is read
as. -/
theorem rowOf_rowValuation (different : names.Nodup) (index : Nat) :
    rowOf names (rowValuation names index) = readRow names.length index := by
  rw [← Nat.mod_eq_of_lt (rowOf_lt names (rowValuation names index)), readRow_eq_iff]
  intro place low
  have column : names.length - place - 1 < names.length := by omega
  have value := rowValuation_getElem different column index
  have bit := testBit_rowOf (rowValuation names index) (List.getElem?_eq_getElem column)
  have back : names.length - (names.length - place - 1) - 1 = place := by omega
  rwa [value, columnBit, back] at bit

/-- As long as a row fits into a word, it is the row of its valuation. -/
theorem rowOf_rowValuation_of_lt (inWord : names.length ≤ Word.size) (different : names.Nodup)
    {row : Nat} (below : row < 2 ^ names.length) : rowOf names (rowValuation names row) = row := by
  rw [rowOf_rowValuation different, readRow_eq_mod inWord]
  exact Nat.mod_eq_of_lt below

/-! ### Values in rows -/

namespace Expr

variable {expr : Expr}

/-- The value of an expression depends only on the values of its variables. -/
theorem eval_congr {first second : String → Bool}
    (same : ∀ name ∈ expr.leaves, first name = second name) :
    expr.eval first = expr.eval second := by
  induction expr with
  | const value => rfl
  | var name => exact same name (List.mem_singleton.mpr rfl)
  | not operand ih => rw [eval, eval, ih same]
  | binary op left right leftIh rightIh =>
    rw [eval, eval, leftIh fun name member => same name (List.mem_append_left _ member),
      rightIh fun name member => same name (List.mem_append_right _ member)]

/-- **The value in a row is the value under its valuation**, if the table has all variables. -/
theorem evalRow_eq (inside : ∀ name ∈ expr.leaves, name ∈ names) (index : Nat) :
    expr.evalRow names index = .ok (expr.eval (rowValuation names index)) := by
  induction expr with
  | const value => rfl
  | var name =>
    have member := inside name (List.mem_singleton.mpr rfl)
    cases found : names.idxOf? name with
    | some position => rw [evalRow, eval, rowValuation, found]
    | none => exact absurd member (List.idxOf?_eq_none_iff.mp found)
  | not operand ih =>
    rw [evalRow, ih inside]
    rfl
  | binary op left right leftIh rightIh =>
    rw [evalRow, leftIh fun name member => inside name (List.mem_append_left _ member),
      rightIh fun name member => inside name (List.mem_append_right _ member)]
    rfl

theorem eval_rowValuation_rowOf (inWord : names.length ≤ Word.size)
    (inside : ∀ name ∈ expr.leaves, name ∈ names) (valuation : String → Bool) :
    expr.eval (rowValuation names (rowOf names valuation)) = expr.eval valuation :=
  eval_congr fun name member => rowValuation_rowOf inWord valuation (inside name member)

end Expr

/-! ### The number of rows -/

/-- The number of rows is the power of two at the low bits of the width. -/
theorem rowCount_eq_mod (width : Nat) : rowCount width = 2 ^ (width % Word.size) := by
  have bounded : 2 ^ (width % Word.size) < 2 ^ Word.size :=
    Nat.pow_lt_pow_right Nat.one_lt_two (Word.mod_size_lt width)
  rw [← Nat.mod_eq_of_lt bounded, rowCount, Word.power, UInt64.toNat_shiftLeft]
  simp [Word.size, Nat.toUInt64, Nat.shiftLeft_eq]

/-- As long as it fits into a word, the number of rows is that of the valuations. -/
theorem rowCount_eq {width : Nat} (narrow : width < Word.size) : rowCount width = 2 ^ width := by
  rw [rowCount_eq_mod, Nat.mod_eq_of_lt narrow]

theorem rowCount_pos (width : Nat) : 0 < rowCount width := by
  rw [rowCount_eq_mod]
  exact Nat.two_pow_pos _

/-- At every width, different rows of a table are read as different rows. -/
theorem readRow_injOn {width first second : Nat} (firstBelow : first < rowCount width)
    (secondBelow : second < rowCount width) (same : readRow width first = readRow width second) :
    first = second := by
  rw [rowCount_eq_mod] at firstBelow secondBelow
  -- the bits that the number of rows leaves to an index are all among those that are read
  have fewer : width % Word.size ≤ width := Nat.mod_le _ _
  have inWord := Word.mod_size_lt width
  have bits : first % 2 ^ (width % Word.size) = second % 2 ^ (width % Word.size) := by
    refine mod_two_pow_eq_iff.mpr fun place low => ?_
    have read := congrArg (Nat.testBit · place) same
    simp only [testBit_readRow (Nat.lt_of_lt_of_le low fewer),
      Word.bit_eq_testBit _ (Nat.lt_trans low inWord)] at read
    exact read
  rwa [Nat.mod_eq_of_lt firstBelow, Nat.mod_eq_of_lt secondBelow] at bits

/-! ### Tables -/

namespace TruthTable

variable {expr : Expr} {table : TruthTable}

/-- A table over all variables has a row for each index, with the value of the expression there. -/
theorem build_eq (inside : ∀ name ∈ expr.leaves, name ∈ names) :
    build expr names = .ok ⟨names, (List.range (rowCount names.length)).map fun index =>
      ⟨index, rowAssignment names index, expr.eval (rowValuation names index)⟩⟩ := by
  have rows : row expr names = fun index =>
      pure ⟨index, rowAssignment names index, expr.eval (rowValuation names index)⟩ := by
    funext index
    rw [row, Expr.evalRow_eq inside]
    rfl
  rw [build, rows, List.mapM_pure]
  rfl

/-- What a row of a table holds. -/
theorem mem_rows_iff (inside : ∀ name ∈ expr.leaves, name ∈ names)
    (built : build expr names = .ok table) {row : TruthRow} :
    row ∈ table.rows ↔ row.index < rowCount names.length ∧
      row.assignment = rowAssignment names row.index ∧
      row.output = expr.eval (rowValuation names row.index) := by
  rw [build_eq inside] at built
  cases built
  simp only [List.mem_map, List.mem_range]
  constructor
  · rintro ⟨index, below, rfl⟩
    exact ⟨below, rfl, rfl⟩
  · rintro ⟨below, assignment, output⟩
    refine ⟨row.index, below, ?_⟩
    rw [← assignment, ← output]

/-- A table has a row for each index below the number of rows. -/
theorem exists_row_of_lt (inside : ∀ name ∈ expr.leaves, name ∈ names)
    (built : build expr names = .ok table) {index : Nat} (below : index < rowCount names.length) :
    ∃ row ∈ table.rows, row.index = index ∧ row.output = expr.eval (rowValuation names index) :=
  ⟨⟨index, rowAssignment names index, expr.eval (rowValuation names index)⟩,
    (mem_rows_iff inside built).mpr ⟨below, rfl, rfl⟩, rfl, rfl⟩

/-- **As long as the number of rows fits into a word, a table has the row of every valuation**, with
the value of the expression. -/
theorem exists_row_of_valuation (narrow : names.length < Word.size)
    (inside : ∀ name ∈ expr.leaves, name ∈ names) (built : build expr names = .ok table)
    (valuation : String → Bool) :
    ∃ row ∈ table.rows, row.index = rowOf names valuation ∧ row.output = expr.eval valuation := by
  have below : rowOf names valuation < rowCount names.length := by
    rw [rowCount_eq narrow]
    exact rowOf_lt names valuation
  obtain ⟨row, member, index, output⟩ := exists_row_of_lt inside built below
  exact ⟨row, member, index,
    output.trans (Expr.eval_rowValuation_rowOf (Nat.le_of_lt narrow) inside valuation)⟩

/-- The rows of a table are numbered from zero. -/
theorem map_index_rows (inside : ∀ name ∈ expr.leaves, name ∈ names)
    (built : build expr names = .ok table) :
    table.rows.map TruthRow.index = List.range (rowCount names.length) := by
  rw [build_eq inside] at built
  cases built
  rw [List.map_map]
  exact List.map_id _

/-- The rows of a table with an output, ascending. -/
theorem indicesWhere_eq (inside : ∀ name ∈ expr.leaves, name ∈ names)
    (built : build expr names = .ok table) (output : Bool) :
    table.indicesWhere output = (List.range (rowCount names.length)).filter fun index =>
      expr.eval (rowValuation names index) == output := by
  rw [build_eq inside] at built
  cases built
  rw [indicesWhere, List.filter_map, List.map_map]
  exact List.map_id _

theorem names_eq (inside : ∀ name ∈ expr.leaves, name ∈ names)
    (built : build expr names = .ok table) : table.names = names := by
  rw [build_eq inside] at built
  cases built
  rfl

/-- **The table lists the row of a valuation where the expression has its value.** -/
theorem mem_indicesWhere_rowOf (narrow : names.length < Word.size)
    (inside : ∀ name ∈ expr.leaves, name ∈ names) (built : build expr names = .ok table)
    (output : Bool) (valuation : String → Bool) :
    rowOf names valuation ∈ table.indicesWhere output ↔ expr.eval valuation = output := by
  rw [indicesWhere_eq inside built, List.mem_filter, List.mem_range, beq_iff_eq,
    Expr.eval_rowValuation_rowOf (Nat.le_of_lt narrow) inside, rowCount_eq narrow]
  exact and_iff_right (rowOf_lt names valuation)

theorem lt_of_mem_indicesWhere (inside : ∀ name ∈ expr.leaves, name ∈ names)
    (built : build expr names = .ok table) {output : Bool} {index : Nat}
    (member : index ∈ table.indicesWhere output) : index < rowCount names.length := by
  rw [indicesWhere_eq inside built] at member
  exact List.mem_range.mp (List.mem_filter.mp member).1

/-- As long as the number of rows fits into a word, the rows listed are read as themselves. -/
theorem inTable_indicesWhere (narrow : names.length < Word.size)
    (inside : ∀ name ∈ expr.leaves, name ∈ names) (built : build expr names = .ok table)
    (output : Bool) : InTable names.length (table.indicesWhere output) := by
  refine .of_lt (Nat.le_of_lt narrow) fun index member => ?_
  rw [← rowCount_eq narrow]
  exact lt_of_mem_indicesWhere inside built member

end TruthTable

end TwoLevel
