/-
**The order of the bits of a row.**

A row keeps the values of its names sorted by the code points of the names, while the columns of
the table are in the order of names, which puts `a` before `B` and `_` before digits. So the bits
of a row belong to the names by code points, and they stand in the order of the columns just where
the two orders of the names agree.

* `rowBits` — the bits of a row in the order of the columns, the highest first;
* `bits_of_mem_rows` — **the bits of a row are the values of the names by code points**;
* `forall_bits_eq_rowBits_iff` — all rows have their bits in the order of the columns just where the
  columns ascend by code points;
* `bits_follow_columns_iff` — the same for an evaluation and for the cells of its report;
* `bits_not_in_column_order` — a table of two columns where they do not.
-/

import TwoLevel.Proofs.Forms
import TwoLevel.Report

namespace TwoLevel

/-! ### Bits and values -/

section Values

variable {names : List String}

/-- The bits of a row in the order of the columns: the first column has the highest bit. -/
def rowBits (width index : Nat) : List Bool :=
  (List.range width).map fun position => index.testBit (width - 1 - position)

/-- As long as a row fits into a word, the values that it gives to different names are its bits, the
highest first. -/
theorem map_rowValuation (inWord : names.length ≤ Word.size) (different : names.Nodup)
    (index : Nat) :
    names.map (rowValuation names index) = rowBits names.length index := by
  refine List.ext_getElem (by simp [rowBits]) fun position below _ => ?_
  rw [List.length_map] at below
  simp only [rowBits, List.getElem_map, List.getElem_range]
  rw [rowValuation_getElem different below, columnBit, Nat.sub_right_comm,
    Word.bit_eq_testBit _ (by omega)]

/-- The bit of each column is the value of its name. -/
theorem zipIdx_columnBit (different : names.Nodup) (index : Nat) :
    (names.zipIdx.map fun (name, position) => (name, columnBit names.length position index)) =
      names.map fun name => (name, rowValuation names index name) := by
  refine List.ext_getElem (by simp) fun position below _ => ?_
  rw [List.length_map, List.length_zipIdx] at below
  simp only [List.getElem_map, List.getElem_zipIdx, Nat.zero_add]
  rw [rowValuation_getElem different below]

/-- A row keeps the values of its names, sorted by the code points of the names. -/
theorem rowAssignment_eq (different : names.Nodup) (index : Nat) :
    rowAssignment names index =
      (sortBy compare names).map fun name => (name, rowValuation names index name) := by
  have sorted : distinctBy compare names = sortBy compare names :=
    eq_of_ascending (distinctBy_spec names).1 (ascending_sortBy different) fun name =>
      ((distinctBy_spec names).2 name).trans mem_sortBy.symm
  rw [rowAssignment, zipIdx_columnBit different, ← sorted]
  exact distinctBy_map _ (fun _ _ => rfl) names

/-- The values that a row keeps are those of the names by code points. -/
theorem map_snd_rowAssignment (different : names.Nodup) (index : Nat) :
    (rowAssignment names index).map Prod.snd =
      (sortBy compare names).map (rowValuation names index) := by
  rw [rowAssignment_eq different, List.map_map]
  rfl

/-- Lists of names that every valuation maps to the same values are the same. -/
theorem eq_of_map_valuation {left right : List String}
    (same : ∀ valuation : String → Bool, left.map valuation = right.map valuation) :
    left = right := by
  induction left generalizing right with
  | nil => exact (List.map_eq_nil_iff.mp (same fun _ => true).symm).symm
  | cons first rest ih =>
    cases right with
    | nil => exact absurd (same fun _ => true) (List.cons_ne_nil _ _)
    | cons other others =>
      have heads := (List.cons.inj (same fun name => name == other)).1
      have equal : first = other := beq_iff_eq.mp (heads.trans (beq_self_eq_true other))
      rw [equal, ih fun valuation => (List.cons.inj (same valuation)).2]

end Values

/-! ### Rows of a table -/

section Tables

variable {expr : Expr} {names : List String} {table : TruthTable}

/-- The bits of a row of a table are the values of the names by code points. -/
theorem bits_of_mem_rows (different : names.Nodup) (inside : ∀ name ∈ expr.leaves, name ∈ names)
    (built : TruthTable.build expr names = .ok table) {row : TruthRow} (member : row ∈ table.rows) :
    row.bits = (sortBy compare names).map (rowValuation names row.index) := by
  obtain ⟨_, assignment, _⟩ := (TruthTable.mem_rows_iff inside built).mp member
  rw [TruthRow.bits, assignment]
  exact map_snd_rowAssignment different row.index

/-- **All rows have their bits in the order of the columns just where the columns ascend by code
points**, as long as the number of rows fits into a word. If they do not ascend, some row gives
different values to two names that stand in different places. -/
theorem forall_bits_eq_rowBits_iff (narrow : names.length < Word.size) (different : names.Nodup)
    (inside : ∀ name ∈ expr.leaves, name ∈ names)
    (built : TruthTable.build expr names = .ok table) :
    (∀ row ∈ table.rows, row.bits = rowBits names.length row.index) ↔ Ascending compare names := by
  have inWord := Nat.le_of_lt narrow
  constructor
  · intro follow
    have same : sortBy compare names = names := by
      refine eq_of_map_valuation fun valuation => ?_
      obtain ⟨row, member, index, _⟩ :=
        TruthTable.exists_row_of_valuation narrow inside built valuation
      have bits := follow row member
      rw [bits_of_mem_rows different inside built member, ← map_rowValuation inWord different,
        index] at bits
      have values : ∀ name ∈ names, rowValuation names (rowOf names valuation) name = valuation name :=
        fun name => rowValuation_rowOf inWord valuation
      rwa [List.map_congr_left values,
        List.map_congr_left fun name inSorted => values name (mem_sortBy.mp inSorted)] at bits
    exact same ▸ ascending_sortBy different
  · intro ascending row member
    have same : sortBy compare names = names :=
      eq_of_ascending (ascending_sortBy different) ascending fun _ => mem_sortBy
    rw [bits_of_mem_rows different inside built member, same, map_rowValuation inWord different]

end Tables

/-! ### Lines of the report -/

namespace Report

/-- The truth value that a character of a cell writes. -/
def digit? : Char → Option Bool
  | '0' => some false
  | '1' => some true
  | _ => none

/-- The values in the cells of a line can be read off the line. -/
theorem filterMap_digit?_cells (values : List Bool) :
    (cells (values.map bit)).toList.filterMap digit? = values := by
  have single (value : Bool) : (bit value).toList.filterMap digit? = [value] := by
    cases value <;> rfl
  rw [cells, String.toList_intercalate]
  induction values with
  | nil => rfl
  | cons first rest ih =>
    cases rest with
    | nil =>
      rw [List.map_singleton, List.map_singleton, List.intercalate_singleton, single]
    | cons second others =>
      simp only [List.map_cons] at ih ⊢
      rw [List.intercalate_cons_cons, List.filterMap_append, List.filterMap_append, ih, single]
      rfl

/-- Lines with the same cells hold the same values. -/
theorem cells_injective {values others : List Bool} {value other : Bool}
    (same : cells (values.map bit ++ [bit value]) = cells (others.map bit ++ [bit other])) :
    values = others := by
  have joined (values : List Bool) (value : Bool) :
      values.map bit ++ [bit value] = (values ++ [value]).map bit := by
    rw [List.map_append, List.map_singleton]
  rw [joined, joined] at same
  have lists : values ++ [value] = others ++ [other] := by
    rw [← filterMap_digit?_cells (values ++ [value]), same, filterMap_digit?_cells]
  exact (List.append_inj' lists rfl).1

/-- The lines of a table with every value under the header of its name. -/
def alignedLines (names : List String) (table : TruthTable) : List String :=
  let header := cells (names ++ ["F"])
  header :: rule '─' header.length ::
    table.rows.map fun row => cells ((rowBits names.length row.index).map bit ++ [bit row.output])

/-- The lines of a table have every value under the header of its name just where the rows have
their bits in the order of the columns. -/
theorem tableLines_eq_alignedLines_iff {names : List String} {table : TruthTable} :
    tableLines names table = alignedLines names table ↔
      ∀ row ∈ table.rows, row.bits = rowBits names.length row.index := by
  rw [tableLines, alignedLines]
  simp only [List.cons.injEq, true_and]
  rw [List.map_inj_left]
  refine forall₂_congr fun row _ => ⟨cells_injective, fun same => ?_⟩
  rw [same]

end Report

/-! ### Evaluations -/

/-- **When the bits of an evaluation follow its columns.** The bits of every row are the values of
the names by code points. So they are the bits of the row's index, the first column's the highest,
just where the names of the columns ascend by code points too, and just there the report has every
value under the header of its name. -/
theorem bits_follow_columns_iff {limits : Limits} {text : String} {evaluation : Evaluation}
    (evaluated : evaluate limits text = .ok evaluation) :
    (∀ row ∈ evaluation.table.rows,
      row.bits = (sortBy compare evaluation.names).map (rowValuation evaluation.names row.index)) ∧
    ((∀ row ∈ evaluation.table.rows, row.bits = rowBits evaluation.names.length row.index) ↔
      Ascending compare evaluation.names) ∧
    (Report.tableLines evaluation.names evaluation.table =
        Report.alignedLines evaluation.names evaluation.table ↔
      Ascending compare evaluation.names) := by
  have arises := evaluate_eq_ok evaluated
  have different : evaluation.names.Nodup := nodup_of_ascending arises.ascending
  have follow := forall_bits_eq_rowBits_iff arises.narrow different arises.inside arises.built
  exact ⟨fun row => bits_of_mem_rows different arises.inside arises.built, follow,
    Report.tableLines_eq_alignedLines_iff.trans follow⟩

/-- The columns `A` and `B` ascend by code points, so the bits of the rows follow them. -/
theorem bits_follow_columns_iff_capitals :
    ∃ evaluation, evaluate .standard "B A" = .ok evaluation ∧ evaluation.names = ["A", "B"] ∧
      ∀ row ∈ evaluation.table.rows, row.bits = rowBits 2 row.index := by
  have columns : (evaluate .standard "B A").map Evaluation.names = .ok ["A", "B"] := by
    cbv
  obtain ⟨evaluation, evaluated, names⟩ := map_eq_ok_iff.mp columns
  obtain ⟨_, follow, _⟩ := bits_follow_columns_iff evaluated
  rw [names] at follow
  exact ⟨evaluation, evaluated, names, follow.mpr (List.pairwise_pair.mpr (by decide))⟩

/-- **The bits need not follow the columns.** The columns of `a B` are `a` and `B`, but the bits of
its row 1 are those of `B` and `a`. -/
theorem bits_not_in_column_order :
    ∃ evaluation, evaluate .standard "a B" = .ok evaluation ∧ evaluation.names = ["a", "B"] ∧
      ∃ row ∈ evaluation.table.rows, row.index = 1 ∧ row.bits = [true, false] ∧
        rowBits evaluation.names.length row.index = [false, true] := by
  have rows : (evaluate .standard "a B").map (fun evaluation => (evaluation.names,
      evaluation.table.rows.map fun row => (row.index, row.bits))) =
      .ok (["a", "B"], [(0, [false, false]), (1, [true, false]), (2, [false, true]),
        (3, [true, true])]) := by
    cbv
  obtain ⟨evaluation, evaluated, same⟩ := map_eq_ok_iff.mp rows
  obtain ⟨names, bits⟩ := Prod.mk.inj same
  have second : (1, [true, false]) ∈ evaluation.table.rows.map fun row => (row.index, row.bits) := by
    rw [bits]
    exact List.mem_cons_of_mem _ List.mem_cons_self
  obtain ⟨row, member, values⟩ := List.mem_map.mp second
  obtain ⟨index, bits⟩ := Prod.mk.inj values
  refine ⟨evaluation, evaluated, names, row, member, index, bits, ?_⟩
  rw [names, index]
  decide

end TwoLevel
