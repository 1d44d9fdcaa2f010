/-
**The forms mean the input.**

Each of the four forms of an evaluation is a chain of terms of patterns that make up the true rows
or the false rows, so it has the value of the input under every valuation. Its text is short enough
for the standard limits, and is read back as the form.

* `evaluate_eq_ok_iff` — what the limits decide, and what the tree that is read;
* `Evaluation.Arises` — what an evaluation is made of; `evaluate_eq_ok` finds it in every result,
  and `exists_evaluate` a result for every text that can be read;
* `eval_products`, `eval_clauses` — the value of a sum of products and of a product of sums;
* `Expr.ReadsBack` — the text of a form is read as the form, and the form has the value of the
  input;
* `forms_mean_input` — the texts of all four forms are read, and mean the input.
-/

import Mathlib
import TwoLevel.Evaluation
import TwoLevel.Proofs.Minimality
import TwoLevel.Proofs.NameOrder
import TwoLevel.Proofs.Printing
import TwoLevel.Proofs.Terms

namespace TwoLevel

/-! ### What an evaluation is made of -/

/-- The evaluation is the one of the text: its tree, the table over the names of the tree, and the
two minimizations with their forms. -/
structure Evaluation.Arises (limits : Limits) (text : String) (evaluation : Evaluation) : Prop where
  read : Expr.parse limits.nesting text = .ok evaluation.expr
  names_eq : evaluation.names = evaluation.expr.names
  few : evaluation.names.length ≤ mostVariables
  built : TruthTable.build evaluation.expr evaluation.names = .ok evaluation.table
  sopMinimized : Minimization.ofIndices evaluation.names evaluation.table.minterms [] =
    .ok evaluation.sop.minimization
  posMinimized : Minimization.ofIndices evaluation.names evaluation.table.maxterms [] =
    .ok evaluation.pos.minimization
  sop_eq : evaluation.sop = .sumOfProducts evaluation.names evaluation.sop.minimization
  pos_eq : evaluation.pos = .productOfSums evaluation.names evaluation.pos.minimization

theorem mapError_eq_ok_iff {ε ε' α : Type} {wrap : ε → ε'} {result : Except ε α} {value : α} :
    result.mapError wrap = .ok value ↔ result = .ok value := by
  cases result with
  | error error => exact ⟨(nomatch ·), (nomatch ·)⟩
  | ok other => exact ⟨fun same => by cases same; rfl, fun same => by cases same; rfl⟩

/-- The limits decide whether a text is read and its names are few enough; the tree that is read
decides the rest. -/
theorem evaluate_eq_ok_iff {limits : Limits} {text : String} {evaluation : Evaluation} :
    evaluate limits text = .ok evaluation ↔
      ∃ expr, Expr.parse limits.nesting text = .ok expr ∧
        expr.names.length ≤ limits.variableLimit ∧
        tabulate text expr expr.names = .ok evaluation := by
  rw [evaluate]
  refine bind_eq_ok_iff.trans (exists_congr fun expr => ?_)
  rw [mapError_eq_ok_iff]
  refine and_congr_right fun _ => ?_
  by_cases many : limits.variableLimit < expr.names.length
  · rw [if_pos many]
    exact iff_of_false (nomatch ·) fun few => Nat.not_le_of_lt many few.1
  · rw [if_neg many, mapError_eq_ok_iff]
    exact (and_iff_right (Nat.le_of_not_lt many)).symm

/-- Every evaluation of a text arises from it. -/
theorem evaluate_eq_ok {limits : Limits} {text : String} {evaluation : Evaluation}
    (evaluated : evaluate limits text = .ok evaluation) : evaluation.Arises limits text := by
  obtain ⟨expr, read, few, tabulated⟩ := evaluate_eq_ok_iff.mp evaluated
  obtain ⟨table, built, tabulated⟩ := bind_eq_ok_iff.mp tabulated
  obtain ⟨trueRows, sopMinimized, tabulated⟩ := bind_eq_ok_iff.mp tabulated
  obtain ⟨falseRows, posMinimized, tabulated⟩ := bind_eq_ok_iff.mp tabulated
  cases tabulated
  exact ⟨read, rfl, Nat.le_trans few (Nat.min_le_right _ _), built, sopMinimized, posMinimized, rfl,
    rfl⟩

/-- **A text that can be read has an evaluation**, if it has no more variables than allowed. -/
theorem exists_evaluate {limits : Limits} {text : String} {expr : Expr}
    (read : Expr.parse limits.nesting text = .ok expr)
    (few : expr.names.length ≤ limits.variableLimit) :
    ∃ evaluation, evaluate limits text = .ok evaluation ∧ evaluation.expr = expr := by
  obtain ⟨table, built⟩ : ∃ table, TruthTable.build expr expr.names = .ok table :=
    ⟨_, TruthTable.build_eq fun _ member => Expr.mem_names.mpr member⟩
  obtain ⟨trueRows, sopMinimized, _⟩ := Minimization.exists_ofIndices expr.names table.minterms []
  obtain ⟨falseRows, posMinimized, _⟩ := Minimization.exists_ofIndices expr.names table.maxterms []
  let evaluation : Evaluation := ⟨text, expr, expr.names, table, .sumOfProducts expr.names trueRows,
    .productOfSums expr.names falseRows⟩
  have tabulated : tabulate text expr expr.names = .ok evaluation := by
    rw [tabulate, built]
    show (Minimization.ofIndices expr.names table.minterms []).bind _ = _
    rw [sopMinimized]
    show (Minimization.ofIndices expr.names table.maxterms []).bind _ = _
    rw [posMinimized]
    rfl
  exact ⟨evaluation, evaluate_eq_ok_iff.mpr ⟨expr, read, few, tabulated⟩, rfl⟩

/-! ### The value of a form -/

section Values

variable {names : List String} {target : List Nat} {patterns : List Pattern}

theorem Realizes.any_fits_iff (realizes : Realizes names.length target [] patterns)
    (valuation : String → Bool) :
    patterns.any (fun pattern => pattern.fits (rowOf names valuation)) = true ↔
      rowOf names valuation ∈ target := by
  rw [List.any_eq_true]
  constructor
  · intro ⟨pattern, member, fitting⟩
    have inRows : rowOf names valuation ∈ pattern.rows := by
      rw [Pattern.mem_rows, realizes.length_eq pattern member]
      exact ⟨rowOf_lt names valuation, fitting⟩
    exact (realizes.inside pattern member _ inRows).resolve_right List.not_mem_nil
  · intro member
    obtain ⟨pattern, listed, inRows⟩ := realizes.covers _ member
    exact ⟨pattern, listed, (Pattern.mem_rows.mp inRows).2⟩

/-- A sum of products is true in the rows that one of its patterns fits. -/
theorem eval_sum (width : ∀ pattern ∈ patterns, pattern.length = names.length)
    (valuation : String → Bool) :
    (Expr.chain .or (patterns.map fun pattern => pattern.product names) (.const false)).eval
      valuation = patterns.any fun pattern => pattern.fits (rowOf names valuation) := by
  rw [Expr.eval_chain_or, List.any_map, Bool.eq_iff_iff, List.any_eq_true, List.any_eq_true]
  refine exists_congr fun pattern => and_congr_right fun member => ?_
  show (pattern.product names).eval valuation = true ↔ _
  rw [Pattern.eval_product (width pattern member)]

/-- A product of sums is true in the rows that none of its patterns fits. -/
theorem eval_clauseProduct (width : ∀ pattern ∈ patterns, pattern.length = names.length)
    (valuation : String → Bool) :
    (Expr.chain .and (patterns.map fun pattern => pattern.complementedClause names)
      (.const true)).eval valuation =
        !patterns.any fun pattern => pattern.fits (rowOf names valuation) := by
  rw [Expr.eval_chain_and, List.all_map, List.not_any_eq_all_not, Bool.eq_iff_iff,
    List.all_eq_true, List.all_eq_true]
  refine forall₂_congr fun pattern member => ?_
  show (pattern.complementedClause names).eval valuation = true ↔ _
  rw [Pattern.eval_complementedClause (width pattern member)]

/-- **A sum of products is true in the rows its patterns make up.** -/
theorem eval_products (realizes : Realizes names.length target [] patterns)
    (valuation : String → Bool) :
    (Expr.chain .or (patterns.map fun pattern => pattern.product names) (.const false)).eval
      valuation = true ↔ rowOf names valuation ∈ target := by
  rw [eval_sum realizes.length_eq, realizes.any_fits_iff]

/-- **A product of sums is false in the rows its patterns make up.** -/
theorem eval_clauses (realizes : Realizes names.length target [] patterns)
    (valuation : String → Bool) :
    (Expr.chain .and (patterns.map fun pattern => pattern.complementedClause names)
      (.const true)).eval valuation = true ↔ rowOf names valuation ∉ target := by
  rw [eval_clauseProduct realizes.length_eq, ← realizes.any_fits_iff, Bool.not_eq_true',
    Bool.not_eq_true]

/-- A product of sums is the chain of its clauses, or `0` because one of them is. -/
theorem Form.expression_productOfSums (names : List String) (minimization : Minimization) :
    (Form.productOfSums names minimization).expression =
        Expr.chain .and ((minimization.selected.map Implicant.pattern).map fun pattern =>
          pattern.complementedClause names) (.const true) ∨
      (Form.productOfSums names minimization).expression = .const false ∧
        .const false ∈ (minimization.selected.map Implicant.pattern).map fun pattern =>
          pattern.complementedClause names := by
  rw [List.map_map, Form.productOfSums]
  dsimp only
  split
  · next found => exact .inr ⟨rfl, List.contains_iff_mem.mp found⟩
  · exact .inl rfl

/-- A product of sums has the value of the chain of its clauses. -/
theorem Form.eval_productOfSums (names : List String) (minimization : Minimization)
    (valuation : String → Bool) :
    (Form.productOfSums names minimization).expression.eval valuation =
      (Expr.chain .and ((minimization.selected.map Implicant.pattern).map fun pattern =>
        pattern.complementedClause names) (.const true)).eval valuation := by
  rcases Form.expression_productOfSums names minimization with chain | ⟨zero, clause⟩
  · rw [chain]
  · rw [zero, Expr.eval_chain_and]
    exact (List.all_eq_false.mpr ⟨_, clause, Bool.false_ne_true⟩).symm

end Values

/-! ### Canonical forms -/

namespace TruthTable

variable {names : List String} {expr : Expr} {table : TruthTable}

/-- Where the value of an expression is that of the table's row for every valuation, it is the
value of the input. -/
theorem eval_eq (narrow : names.length < Word.size) (inside : ∀ name ∈ expr.leaves, name ∈ names)
    (built : build expr names = .ok table) {form : Expr} {valuation : String → Bool}
    (value : form.eval valuation = true ↔ rowOf names valuation ∈ table.minterms) :
    form.eval valuation = expr.eval valuation := by
  rw [Bool.eq_iff_iff, value]
  exact mem_indicesWhere_rowOf narrow inside built true valuation

theorem not_mem_maxterms_iff (narrow : names.length < Word.size)
    (inside : ∀ name ∈ expr.leaves, name ∈ names) (built : build expr names = .ok table)
    (valuation : String → Bool) :
    rowOf names valuation ∉ table.maxterms ↔ rowOf names valuation ∈ table.minterms := by
  rw [minterms, maxterms, mem_indicesWhere_rowOf narrow inside built,
    mem_indicesWhere_rowOf narrow inside built, Bool.not_eq_false]

/-- The canonical disjunction is the sum of the full products of the true rows. -/
theorem dnf_eq (inside : ∀ name ∈ expr.leaves, name ∈ names)
    (built : build expr names = .ok table) :
    table.dnf = Expr.chain .or ((table.minterms.map (Pattern.ofIndex names.length)).map
      fun pattern => pattern.product names) (.const false) := by
  rw [dnf, width, names_eq inside built, List.map_map]
  rfl

/-- The canonical conjunction is the product of the full clauses of the false rows. -/
theorem cnf_eq (inside : ∀ name ∈ expr.leaves, name ∈ names)
    (built : build expr names = .ok table) :
    table.cnf = Expr.chain .and ((table.maxterms.map (Pattern.ofIndex names.length)).map
      fun pattern => pattern.complementedClause names) (.const true) := by
  rw [cnf, width, names_eq inside built, List.map_map]
  rfl

/-- The full patterns of the rows with an output are a sum of products for them. -/
theorem realizes_indicesWhere (narrow : names.length < Word.size)
    (inside : ∀ name ∈ expr.leaves, name ∈ names) (built : build expr names = .ok table)
    (output : Bool) :
    Realizes names.length (table.indicesWhere output) []
      ((table.indicesWhere output).map (Pattern.ofIndex names.length)) :=
  realizes_ofIndex (inTable_indicesWhere narrow inside built output)

end TruthTable

/-! ### Reading the forms back -/

/-- What the standard limits leave to a text whose parentheses and NOTs nest at most twice as deep
as its tree is high. -/
theorem parse_of_over {names : List String} {bound : Nat} {expr : Expr}
    (named : ∀ name ∈ names, IsName name) (within : expr.Over names bound) (small : bound ≤ 128) :
    Expr.parse defaultNesting expr.render = .ok expr := by
  refine parse_render (fun name member => named name (within.inside name member)) ?_ ?_
  · have deep := expr.depth_le
    have low := within.low
    rw [defaultNesting]
    omega
  · exact Nat.le_trans within.low (Nat.le_trans small (by decide))

/-- The chain of the terms of some patterns is no higher than it has terms and names. -/
theorem over_chain_terms {names : List String} (op inner : Connective) (complement empty value : Bool)
    (patterns : List Pattern) :
    Expr.Over names (1 + names.length + patterns.length)
      (Expr.chain op (patterns.map fun pattern =>
        Expr.chain inner (pattern.literals complement names) (.const value)) (.const empty)) := by
  have terms : ∀ term ∈ patterns.map fun pattern =>
      Expr.chain inner (pattern.literals complement names) (.const value),
      Expr.Over names (1 + names.length) term := by
    intro term member
    obtain ⟨pattern, _, rfl⟩ := List.mem_map.mp member
    exact Pattern.over_terms inner complement value pattern
  have chained := Expr.over_chain op terms (Expr.over_const empty)
  rwa [List.length_map] at chained

/-- The text of the form is read as the form, which has the value of the input under every
valuation. -/
def Expr.ReadsBack (form input : Expr) : Prop :=
  Expr.parse defaultNesting form.render = .ok form ∧
    ∀ valuation, form.eval valuation = input.eval valuation

namespace Evaluation.Arises

variable {limits : Limits} {text : String} {evaluation : Evaluation}

theorem inside (arises : evaluation.Arises limits text) :
    ∀ name ∈ evaluation.expr.leaves, name ∈ evaluation.names := by
  rw [arises.names_eq]
  exact fun name => Expr.mem_names.mpr

theorem named (arises : evaluation.Arises limits text) : ∀ name ∈ evaluation.names, IsName name := by
  rw [arises.names_eq]
  exact fun name member => isName_of_parse arises.read name (Expr.mem_names.mp member)

/-- The names of an evaluation ascend. -/
theorem ascending (arises : evaluation.Arises limits text) :
    Ascending compareNames evaluation.names :=
  arises.names_eq ▸ evaluation.expr.ascending_names

/-- The number of rows fits into a word. -/
theorem narrow (arises : evaluation.Arises limits text) : evaluation.names.length < Word.size :=
  Nat.lt_of_le_of_lt arises.few (by decide)

theorem inTable (arises : evaluation.Arises limits text) (output : Bool) :
    InTable evaluation.names.length (evaluation.table.indicesWhere output ++ []) := by
  rw [List.append_nil]
  exact TruthTable.inTable_indicesWhere arises.narrow arises.inside arises.built output

/-- A table has at most 32 rows. -/
theorem length_indicesWhere_le (arises : evaluation.Arises limits text) (output : Bool) :
    (evaluation.table.indicesWhere output).length ≤ 32 := by
  rw [TruthTable.indicesWhere_eq arises.inside arises.built]
  refine Nat.le_trans (List.length_filter_le _ _) ?_
  rw [List.length_range, rowCount_eq arises.narrow]
  exact Nat.pow_le_pow_right (by decide) arises.few

/-- Five names and the patterns for at most 32 rows make a low tree. -/
theorem bound_le (arises : evaluation.Arises limits text) {patterns : List Pattern} {output : Bool}
    (few : patterns.length ≤ (evaluation.table.indicesWhere output).length) :
    1 + evaluation.names.length + patterns.length ≤ 128 := by
  have names : evaluation.names.length ≤ 5 := arises.few
  have rows := arises.length_indicesWhere_le output
  omega

/-! ### The four forms -/

/-- A sum of products for the true rows is read back, and has the value of the input. -/
theorem sum_readsBack (arises : evaluation.Arises limits text) {patterns : List Pattern}
    (realizes : Realizes evaluation.names.length evaluation.table.minterms [] patterns)
    (few : patterns.length ≤ evaluation.table.minterms.length) :
    (Expr.chain .or (patterns.map fun pattern => pattern.product evaluation.names)
      (.const false)).ReadsBack evaluation.expr :=
  ⟨parse_of_over arises.named (over_chain_terms _ _ _ _ _ patterns) (arises.bound_le few),
    fun valuation =>
      TruthTable.eval_eq arises.narrow arises.inside arises.built
        (eval_products realizes valuation)⟩

/-- A product of sums for the false rows is read back, and has the value of the input. -/
theorem product_readsBack (arises : evaluation.Arises limits text) {patterns : List Pattern}
    (realizes : Realizes evaluation.names.length evaluation.table.maxterms [] patterns)
    (few : patterns.length ≤ evaluation.table.maxterms.length) :
    (Expr.chain .and (patterns.map fun pattern => pattern.complementedClause evaluation.names)
      (.const true)).ReadsBack evaluation.expr :=
  ⟨parse_of_over arises.named (over_chain_terms _ _ _ _ _ patterns) (arises.bound_le few),
    fun valuation => TruthTable.eval_eq arises.narrow arises.inside arises.built
      ((eval_clauses realizes valuation).trans
        (TruthTable.not_mem_maxterms_iff arises.narrow arises.inside arises.built valuation))⟩

theorem sop_readsBack (arises : evaluation.Arises limits text) :
    evaluation.sop.expression.ReadsBack evaluation.expr := by
  have few := Minimization.length_selected_le arises.sopMinimized (arises.inTable true)
  have readsBack := arises.sum_readsBack
    (Minimization.realizes arises.sopMinimized (arises.inTable true)) (by rwa [List.length_map])
  rw [List.map_map] at readsBack
  rw [arises.sop_eq]
  exact readsBack

theorem pos_readsBack (arises : evaluation.Arises limits text) :
    evaluation.pos.expression.ReadsBack evaluation.expr := by
  have few := Minimization.length_selected_le arises.posMinimized (arises.inTable false)
  have readsBack := arises.product_readsBack
    (Minimization.realizes arises.posMinimized (arises.inTable false)) (by rwa [List.length_map])
  rw [arises.pos_eq]
  refine ⟨?_, fun valuation => ?_⟩
  · rcases Form.expression_productOfSums evaluation.names evaluation.pos.minimization with
      chain | ⟨zero, _⟩
    · rw [chain]
      exact readsBack.1
    · rw [zero]
      have within : Expr.Over evaluation.names 0 (.const false) := Expr.over_const false
      exact parse_of_over arises.named within (by decide)
  · rw [Form.eval_productOfSums]
    exact readsBack.2 valuation

theorem dnf_readsBack (arises : evaluation.Arises limits text) :
    evaluation.table.dnf.ReadsBack evaluation.expr := by
  rw [TruthTable.dnf_eq arises.inside arises.built]
  exact arises.sum_readsBack (TruthTable.realizes_indicesWhere arises.narrow arises.inside arises.built true)
    (Nat.le_of_eq (List.length_map _))

theorem cnf_readsBack (arises : evaluation.Arises limits text) :
    evaluation.table.cnf.ReadsBack evaluation.expr := by
  rw [TruthTable.cnf_eq arises.inside arises.built]
  exact arises.product_readsBack
    (TruthTable.realizes_indicesWhere arises.narrow arises.inside arises.built false)
    (Nat.le_of_eq (List.length_map _))

end Evaluation.Arises

/-- **All four forms mean the input.** For every text and all limits, the texts of the minimal and
of the canonical forms are read under the standard limits; the trees read are the forms, and under
every valuation of the names each of them has the value of the input. -/
theorem forms_mean_input {limits : Limits} {text : String} {evaluation : Evaluation}
    (evaluated : evaluate limits text = .ok evaluation) :
    Expr.parse defaultNesting evaluation.minimalSop = .ok evaluation.sop.expression ∧
      Expr.parse defaultNesting evaluation.minimalPos = .ok evaluation.pos.expression ∧
      Expr.parse defaultNesting evaluation.canonicalDnf = .ok evaluation.table.dnf ∧
      Expr.parse defaultNesting evaluation.canonicalCnf = .ok evaluation.table.cnf ∧
      ∀ valuation,
        evaluation.sop.expression.eval valuation = evaluation.expr.eval valuation ∧
        evaluation.pos.expression.eval valuation = evaluation.expr.eval valuation ∧
        evaluation.table.dnf.eval valuation = evaluation.expr.eval valuation ∧
        evaluation.table.cnf.eval valuation = evaluation.expr.eval valuation := by
  have arises := evaluate_eq_ok evaluated
  obtain ⟨sopRead, sopValue⟩ := arises.sop_readsBack
  obtain ⟨posRead, posValue⟩ := arises.pos_readsBack
  obtain ⟨dnfRead, dnfValue⟩ := arises.dnf_readsBack
  obtain ⟨cnfRead, cnfValue⟩ := arises.cnf_readsBack
  exact ⟨sopRead, posRead, dnfRead, cnfRead, fun valuation =>
    ⟨sopValue valuation, posValue valuation, dnfValue valuation, cnfValue valuation⟩⟩

/-- A name negated twice: its minimal sum is the name, which is read back with the same values. -/
theorem forms_mean_input_double_negation :
    ∃ evaluation, evaluate .standard "A''" = .ok evaluation ∧
      evaluation.minimalSop = "A" ∧
      Expr.parse defaultNesting "A" = .ok evaluation.sop.expression ∧
      ∀ valuation, evaluation.sop.expression.eval valuation = evaluation.expr.eval valuation := by
  have minimal : (evaluate .standard "A''").map Evaluation.minimalSop = .ok "A" := by
    cbv
  obtain ⟨evaluation, evaluated, written⟩ := map_eq_ok_iff.mp minimal
  obtain ⟨read, _, _, _, values⟩ := forms_mean_input evaluated
  rw [written] at read
  exact ⟨evaluation, evaluated, written, read, fun valuation => (values valuation).1⟩

end TwoLevel
