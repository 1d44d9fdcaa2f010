/-
**Rows over any list of names.**

The names of the columns need not be sorted, may be repeated, and need not contain the variables of
the expression. A variable without a column has no value, and nothing hides that: both operands of a
connective are evaluated before it joins them, the left one first. So the leftmost such variable is
the error, the same in every row, and the table fails as its first row does.

* `Expr.missing?` — the leftmost variable that has no column;
* `FollowsRow` — the valuations that give every name the bit of its first column;
* `evalRow_eq_missing` — **the value in a row**, or the variable without one;
* `build_eq_error_iff` — a table fails as its first row does;
* `rows_over_any_names` — when a row has a value and which, and when a table can be built;
* `first_name_misread_beyond_word` — a row that does not fit into a word.
-/

import TwoLevel.Proofs.Rows

namespace TwoLevel

variable {expr : Expr} {names : List String} {index : Nat}

/-! ### Columns -/

/-- The name has its first column at the position. -/
structure FirstColumn (names : List String) (name : String) (position : Nat) : Prop where
  here : names[position]? = some name
  first : ∀ earlier < position, names[earlier]? ≠ some name

theorem idxOf?_eq_some_iff_firstColumn {name : String} {position : Nat} :
    names.idxOf? name = some position ↔ FirstColumn names name position := by
  rw [List.idxOf?_eq_some_iff]
  constructor
  · rintro ⟨below, same, others⟩
    refine ⟨List.getElem?_eq_some_iff.mpr ⟨below, same⟩, fun earlier before again => ?_⟩
    obtain ⟨_, equal⟩ := List.getElem?_eq_some_iff.mp again
    exact others earlier before equal
  · rintro ⟨here, first⟩
    obtain ⟨below, same⟩ := List.getElem?_eq_some_iff.mp here
    refine ⟨below, same, fun earlier before equal => first earlier before ?_⟩
    exact List.getElem?_eq_some_iff.mpr ⟨Nat.lt_trans before below, equal⟩

/-- The valuation gives every name that is listed the bit of its first column; the first column of
all has the highest bit. -/
def FollowsRow (names : List String) (index : Nat) (valuation : String → Bool) : Prop :=
  ∀ name position, FirstColumn names name position →
    valuation name = index.testBit (names.length - 1 - position)

/-- As long as a row fits into a word, the valuation of a row follows it. -/
theorem followsRow_rowValuation (inWord : names.length ≤ Word.size) (index : Nat) :
    FollowsRow names index (rowValuation names index) := by
  intro name position column
  obtain ⟨below, _⟩ := List.getElem?_eq_some_iff.mp column.here
  rw [rowValuation, idxOf?_eq_some_iff_firstColumn.mpr column, Nat.sub_right_comm]
  exact Word.bit_eq_testBit index (by omega)

/-- The names that are listed have no other values. -/
theorem FollowsRow.eq_rowValuation (inWord : names.length ≤ Word.size) {valuation : String → Bool}
    (follows : FollowsRow names index valuation) {name : String} (listed : name ∈ names) :
    valuation name = rowValuation names index name := by
  cases found : names.idxOf? name with
  | none => exact absurd listed (List.idxOf?_eq_none_iff.mp found)
  | some position =>
    have column := idxOf?_eq_some_iff_firstColumn.mp found
    rw [follows name position column, followsRow_rowValuation inWord index name position column]

/-! ### Variables without a column -/

namespace Expr

/-- The leftmost variable that is not among the names. -/
def missing? (names : List String) (expr : Expr) : Option String :=
  expr.leaves.find? fun name => name ∉ names

theorem missing?_eq_none_iff : expr.missing? names = none ↔ ∀ name ∈ expr.leaves, name ∈ names := by
  simp [missing?]

theorem exists_missing?_iff :
    (∃ name, expr.missing? names = some name) ↔ ∃ name ∈ expr.leaves, name ∉ names := by
  rw [← Option.isSome_iff_exists, missing?, List.find?_isSome]
  simp

/-- The variables of the left operand come first. -/
theorem missing?_binary (op : Connective) (left right : Expr) :
    missing? names (binary op left right) = (left.missing? names).or (right.missing? names) :=
  List.find?_append

/-- **The value in a row**, or the leftmost variable that has none. -/
theorem evalRow_eq_missing (expr : Expr) (names : List String) (index : Nat) :
    expr.evalRow names index =
      match expr.missing? names with
      | some name => .error (.unboundVariable name)
      | none => .ok (expr.eval (rowValuation names index)) := by
  induction expr with
  | const value => rfl
  | var name =>
    cases found : names.idxOf? name with
    | some position =>
      have listed : name ∈ names :=
        List.mem_of_getElem? (idxOf?_eq_some_iff_firstColumn.mp found).here
      simp [missing?, leaves, evalRow, eval, rowValuation, found, listed]
    | none =>
      have unlisted : name ∉ names := List.idxOf?_eq_none_iff.mp found
      simp [missing?, leaves, evalRow, found, unlisted]
  | not operand ih =>
    rw [evalRow, ih, show missing? names (not operand) = operand.missing? names from rfl]
    cases operand.missing? names <;> rfl
  | binary op left right leftIh rightIh =>
    -- The error of the left operand is met first; the right one decides if there is none.
    rw [evalRow, leftIh, rightIh, missing?_binary]
    cases left.missing? names with
    | some name => rfl
    | none => cases right.missing? names <;> rfl

theorem evalRow_eq_error_iff {error : InternalError} :
    expr.evalRow names index = .error error ↔
      ∃ name, expr.missing? names = some name ∧ error = .unboundVariable name := by
  rw [evalRow_eq_missing]
  cases expr.missing? names with
  | none => simp
  | some name => simp [eq_comm]

/-- As long as a row fits into a word, it has the value under every valuation that follows it. -/
theorem evalRow_eq_ok_iff (inWord : names.length ≤ Word.size) {value : Bool} :
    expr.evalRow names index = .ok value ↔ (∀ name ∈ expr.leaves, name ∈ names) ∧
      ∀ valuation, FollowsRow names index valuation → expr.eval valuation = value := by
  rw [← missing?_eq_none_iff, evalRow_eq_missing]
  cases missing : expr.missing? names with
  | some name => simp
  | none =>
    have listed := missing?_eq_none_iff.mp missing
    simp only [Except.ok.injEq, true_and]
    constructor
    · rintro rfl valuation follows
      exact eval_congr fun name leaf => follows.eq_rowValuation inWord (listed name leaf)
    · exact fun agree => agree _ (followsRow_rowValuation inWord index)

end Expr

/-! ### Tables -/

/-- **A table fails as its first row does**: the first row is evaluated first, and all rows fail alike. -/
theorem TruthTable.build_eq_error_iff {error : InternalError} :
    build expr names = .error error ↔ expr.evalRow names 0 = .error error := by
  cases missing : expr.missing? names with
  | none =>
    rw [build_eq (Expr.missing?_eq_none_iff.mp missing), Expr.evalRow_eq_missing, missing]
    exact iff_of_false (nomatch ·) (nomatch ·)
  | some name =>
    have failed : expr.evalRow names 0 = .error (.unboundVariable name) := by
      rw [Expr.evalRow_eq_missing, missing]
    obtain ⟨later, count⟩ := Nat.exists_eq_succ_of_ne_zero (rowCount_pos names.length).ne'
    have rows : List.range (rowCount names.length) = 0 :: (List.range later).map Nat.succ := by
      rw [count, List.range_succ_eq_map]
    have built : build expr names = .error (.unboundVariable name) := by
      rw [build, rows, List.mapM_cons, row, failed]
      rfl
    rw [built, failed, Except.error.injEq, Except.error.injEq]

/-- **Rows over any list of names**, sorted or not, repeated or incomplete, as long as a row fits into
a word; up to this number of names a row is evaluated in every build. It has no value just where a
variable of the expression is not listed, and the error names the leftmost such variable. Otherwise
it has the value under any valuation that gives every listed name the bit of its first column. A
table over the list, as long as the number of its rows fits into a word, fails just where the first
row does, with the same error. -/
theorem rows_over_any_names (build : Build) (expr : Expr) {names : List String}
    (inWord : names.length ≤ Word.size) (index : Nat) :
    (∃ outcome, expr.evalRowIn build names index = some outcome ∧
      ((∃ error, outcome = .error error) ↔ ∃ name ∈ expr.leaves, name ∉ names) ∧
      (∀ error, outcome = .error error ↔
        ∃ name, expr.missing? names = some name ∧ error = .unboundVariable name) ∧
      ∀ value, outcome = .ok value ↔ (∀ name ∈ expr.leaves, name ∈ names) ∧
        ∀ valuation, FollowsRow names index valuation → expr.eval valuation = value) ∧
    (names.length < Word.size → ∃ table, TruthTable.buildIn build expr names = some table ∧
      ∀ error, table = .error error ↔ expr.evalRowIn build names 0 = some (.error error)) := by
  have rows := Expr.evalRowIn_of_reads (build.reads_of_le inWord)
  refine ⟨⟨_, rows index expr, ?_, fun error => Expr.evalRow_eq_error_iff,
    fun value => Expr.evalRow_eq_ok_iff inWord⟩, fun narrow => ?_⟩
  · rw [← Expr.exists_missing?_iff]
    constructor
    · rintro ⟨error, failed⟩
      obtain ⟨name, missing, _⟩ := Expr.evalRow_eq_error_iff.mp failed
      exact ⟨name, missing⟩
    · rintro ⟨name, missing⟩
      exact ⟨_, Expr.evalRow_eq_error_iff.mpr ⟨name, missing, rfl⟩⟩
  · refine ⟨_, TruthTable.buildIn_of_reads (build.reads_of_le narrow) expr, fun error => ?_⟩
    rw [rows 0 expr, Option.some.injEq]
    exact TruthTable.build_eq_error_iff

/-- Of a repeated name the first column counts. -/
theorem rows_over_any_names_repeated :
    ["a", "b", "a"].length ≤ Word.size ∧
      ∃ outcome, (Expr.var "a").evalRowIn .checked ["a", "b", "a"] 4 = some outcome ∧
        outcome = .ok true ∧
        ∀ valuation, FollowsRow ["a", "b", "a"] 4 valuation → valuation "a" = true := by
  have inWord : ["a", "b", "a"].length ≤ Word.size := by decide
  obtain ⟨⟨outcome, evaluated, _, _, values⟩, _⟩ :=
    rows_over_any_names .checked (.var "a") inWord 4
  have value : outcome = .ok true := by
    cases evaluated
    rfl
  exact ⟨inWord, outcome, evaluated, value, ((values true).mp value).2⟩

/-- **Over 65 names the first one has no bit of its own.** In row 1 it is false, but a checked build
stops there, and a wrapping one gives it the bit of the last name. -/
theorem first_name_misread_beyond_word :
    (Expr.var "x0").evalRowIn .checked (numberedNames 65) 1 = none ∧
      (Expr.var "x0").evalRowIn .wrapping (numberedNames 65) 1 = some (.ok true) ∧
      ∀ valuation, FollowsRow (numberedNames 65) 1 valuation →
        (Expr.var "x0").eval valuation = false := by
  have first : (numberedNames 65).idxOf? "x0" = some 0 := by decide +kernel
  refine ⟨?_, ?_, fun valuation follows => ?_⟩
  · rw [Expr.evalRowIn, first, length_numberedNames]
    rfl
  · rw [Expr.evalRowIn, first, length_numberedNames]
    rfl
  · rw [Expr.eval, follows "x0" 0 (idxOf?_eq_some_iff_firstColumn.mp first), length_numberedNames]
    decide

/-- A false operand does not hide a missing variable of the other one. -/
example : (Expr.and (.const false) (.var "x")).evalRow ["y"] 1 = .error (.unboundVariable "x") := rfl

/-- The assignment of a row keeps the last column of a repeated name. -/
example : (rowAssignment ["a", "b", "a"] 4).lookup "a" = some false := by
  decide

end TwoLevel
