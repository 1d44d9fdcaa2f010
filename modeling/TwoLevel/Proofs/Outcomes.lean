/-
**When a text has no evaluation.**

A text is refused for what its grammar or its limits refuse, or because its tree has more names than
a table may have columns; every other text has an evaluation. The engine never contradicts itself:
the names of a tree are the columns of its table, so that every row has a value, and every true or
false row is in a prime implicant, so that both selections cover what they have to.

* `Outcome` — the three ways in which a text can come out under limits;
* `outcome_evaluate` — an evaluation comes out in one of them;
* `evaluation_outcomes` — **which of them it is can be read off the text**, and none is a
  contradiction of the engine.
-/

import TwoLevel.Proofs.Forms

namespace TwoLevel

/-- The columns of a table are as many as the different names in the tree. -/
theorem Expr.length_names (expr : Expr) : expr.names.length = expr.leaves.toFinset.card := by
  have distinct : expr.names.Nodup := nodup_of_ascending expr.ascending_names
  have same : expr.names.toFinset = expr.leaves.toFinset := by
    ext name
    rw [List.mem_toFinset, List.mem_toFinset, Expr.mem_names]
  rw [← List.toFinset_card_of_nodup distinct, same]

/-- How a text can come out under limits. -/
inductive Outcome (limits : Limits) (text : String) : Except Failure Evaluation → Prop where
  /-- The text cannot be read. -/
  | unreadable {error : SyntaxError} (refused : Expr.parse limits.nesting text = .error error) :
    Outcome limits text (.error (.unreadable error))
  /-- The tree has more names than are allowed. -/
  | crowded {expr : Expr} (read : Expr.parse limits.nesting text = .ok expr)
    (many : min limits.variableCount 5 < expr.leaves.toFinset.card) :
    Outcome limits text
      (.error (.tooManyVariables expr.leaves.toFinset.card (min limits.variableCount 5)))
  /-- The tree has an evaluation. -/
  | evaluated {evaluation : Evaluation}
    (read : Expr.parse limits.nesting text = .ok evaluation.expr)
    (few : evaluation.expr.leaves.toFinset.card ≤ min limits.variableCount 5) :
    Outcome limits text (.ok evaluation)

variable {limits : Limits} {text : String}

/-- **A text comes out in one of the three ways.** -/
theorem outcome_evaluate (limits : Limits) (text : String) :
    Outcome limits text (evaluate limits text) := by
  cases read : Expr.parse limits.nesting text with
  | error error =>
    have refused : evaluate limits text = .error (.unreadable error) := by
      rw [evaluate, read]
      rfl
    rw [refused]
    exact .unreadable read
  | ok expr =>
    by_cases many : limits.variableLimit < expr.names.length
    · have refused : evaluate limits text =
          .error (.tooManyVariables expr.names.length limits.variableLimit) := by
        rw [evaluate, read]
        exact if_pos many
      rw [Expr.length_names] at many refused
      rw [refused]
      exact .crowded read many
    · obtain ⟨evaluation, evaluated, rfl⟩ := exists_evaluate read (Nat.le_of_not_lt many)
      rw [Expr.length_names] at many
      rw [evaluated]
      exact .evaluated read (Nat.le_of_not_lt many)

/-- A text is unreadable for the error with which the parser refuses it. -/
theorem evaluate_eq_unreadable_iff {error : SyntaxError} :
    evaluate limits text = .error (.unreadable error) ↔
      Expr.parse limits.nesting text = .error error := by
  have outcome := outcome_evaluate limits text
  constructor
  · intro refused
    rw [refused] at outcome
    cases outcome with
    | unreadable refused => exact refused
  · intro refused
    generalize evaluate limits text = result at outcome
    cases outcome with
    | unreadable other =>
      rw [refused] at other
      rw [Except.error.inj other]
    | crowded read => exact nomatch refused.symm.trans read
    | evaluated read => exact nomatch refused.symm.trans read

/-- A text has too many variables when it is read as a tree with more names than are allowed. -/
theorem evaluate_eq_crowded_iff {count limit : Nat} :
    evaluate limits text = .error (.tooManyVariables count limit) ↔
      ∃ expr, Expr.parse limits.nesting text = .ok expr ∧ limit = min limits.variableCount 5 ∧
        count = expr.leaves.toFinset.card ∧ limit < count := by
  have outcome := outcome_evaluate limits text
  constructor
  · intro refused
    rw [refused] at outcome
    cases outcome with
    | crowded read many => exact ⟨_, read, rfl, rfl, many⟩
  · rintro ⟨expr, read, rfl, rfl, many⟩
    generalize evaluate limits text = result at outcome
    cases outcome with
    | unreadable refused => exact nomatch refused.symm.trans read
    | crowded other =>
      rw [read] at other
      rw [Except.ok.inj other]
    | evaluated other few =>
      rw [read] at other
      rw [Except.ok.inj other] at many
      exact absurd few (Nat.not_le_of_lt many)

/-- A text has an evaluation when it is read as a tree with no more names than are allowed. -/
theorem exists_evaluate_iff {expr : Expr} :
    (∃ evaluation, evaluate limits text = .ok evaluation ∧ evaluation.expr = expr) ↔
      Expr.parse limits.nesting text = .ok expr ∧
        expr.leaves.toFinset.card ≤ min limits.variableCount 5 := by
  constructor
  · rintro ⟨evaluation, evaluated, rfl⟩
    have outcome := outcome_evaluate limits text
    rw [evaluated] at outcome
    cases outcome with
    | evaluated read few => exact ⟨read, few⟩
  · rintro ⟨read, few⟩
    rw [← Expr.length_names] at few
    exact exists_evaluate read few

/-- **The engine never contradicts itself.** -/
theorem evaluate_ne_internal (error : InternalError) :
    evaluate limits text ≠ .error (.internal error) := by
  intro contradicted
  have outcome := outcome_evaluate limits text
  rw [contradicted] at outcome
  cases outcome

/-- **Which outcome a text has can be read off it.** It is unreadable with an error exactly when the
parser refuses it with that error; it has too many variables exactly when its tree has more
different names than the limit, which is never more than five; in every other case it has an
evaluation, of the tree that is read. The engine never contradicts itself. -/
theorem evaluation_outcomes (limits : Limits) (text : String) :
    (∀ error, evaluate limits text = .error (.unreadable error) ↔
      Expr.parse limits.nesting text = .error error) ∧
    (∀ count limit, evaluate limits text = .error (.tooManyVariables count limit) ↔
      ∃ expr, Expr.parse limits.nesting text = .ok expr ∧ limit = min limits.variableCount 5 ∧
        count = expr.leaves.toFinset.card ∧ limit < count) ∧
    (∀ expr, (∃ evaluation, evaluate limits text = .ok evaluation ∧ evaluation.expr = expr) ↔
      Expr.parse limits.nesting text = .ok expr ∧
        expr.leaves.toFinset.card ≤ min limits.variableCount 5) ∧
    ∀ error, evaluate limits text ≠ .error (.internal error) :=
  ⟨fun _ => evaluate_eq_unreadable_iff, fun _ _ => evaluate_eq_crowded_iff,
    fun _ => exists_evaluate_iff, evaluate_ne_internal⟩

end TwoLevel
