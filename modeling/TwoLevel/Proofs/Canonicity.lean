/-
**The minimal forms are canonical.**

Two texts of one function may mention different names, but the function depends only on the names
they have in common. Over these it has one minimization, and every name that does not matter only
widens its patterns: the selection keeps its positions, and the forms keep their terms.

* `mem_patterns_primes_iff`, `ascending_patterns_primes` — the patterns of the prime implicants are
  the prime cubes in ascending order;
* `Agrees.carries`, `Agrees.patterns_selected_eq` — a minimization over more names selects the
  widened patterns;
* `eval_eq_of_common` — equal functions depend only on the names in common;
* `minimal_forms_canonical` — texts of one function have the same minimal forms.
-/

import TwoLevel.Proofs.Forms
import TwoLevel.Proofs.Transport
import TwoLevel.Proofs.Widening

namespace TwoLevel

/-! ### The patterns of the prime implicants -/

section Patterns

variable {width : Nat} {target : List Nat}

/-- The patterns of the prime implicants are the prime cubes. -/
theorem mem_patterns_primes_iff {pattern : Pattern} :
    pattern ∈ (PrimeSearch.ofIndices width target []).primes.map Implicant.pattern ↔
      PrimeCube width (readRows width target) pattern := by
  rw [List.mem_map]
  constructor
  · rintro ⟨implicant, found, rfl⟩
    have prime := prime_of_mem_primes found
    rwa [List.append_nil] at prime
  · intro prime
    have admissible : Admissible width target pattern := ⟨prime.length_eq, prime.inside⟩
    obtain ⟨index, member, fitting⟩ := admissible.exists_index
    rw [← List.append_nil target] at prime
    obtain ⟨implicant, found, same, _⟩ := exists_mem_primes prime member fitting
    exact ⟨implicant, found, same⟩

/-- Prime implicants of rows that are read as themselves are determined by their patterns. -/
theorem eq_of_pattern_eq (inTable : InTable width target) {first second : Implicant}
    (firstFound : first ∈ (PrimeSearch.ofIndices width target []).primes)
    (secondFound : second ∈ (PrimeSearch.ofIndices width target []).primes)
    (same : first.pattern = second.pattern) : first = second := by
  have nonempty := ne_nil_of_mem_primes firstFound
  have inTable : InTable width (target ++ []) := by rwa [List.append_nil]
  obtain ⟨firstPrime, _, firstGathers⟩ := (mem_primes_iff nonempty).mp firstFound
  obtain ⟨_, _, secondGathers⟩ := (mem_primes_iff nonempty).mp secondFound
  exact firstGathers.eq_of_pattern_of_inTable secondGathers firstPrime.length_eq inTable same

/-- **The patterns of the prime implicants are strictly ascending.** -/
theorem ascending_patterns_primes (inTable : InTable width target) :
    Ascending compare
      ((PrimeSearch.ofIndices width target []).primes.map Implicant.pattern) := by
  refine List.pairwise_map.mpr ((ascending_primes width target []).imp_of_mem ?_)
  intro first second firstIn secondIn below
  rcases Ordering.then_eq_lt.mp below with less | ⟨equal, less⟩
  · exact less
  · have same := eq_of_pattern_eq inTable firstIn secondIn (Std.LawfulEqOrd.eq_of_compare equal)
    rw [same] at less
    exact absurd less (Std.OrientedCmp.not_lt_of_lt less)

/-- Which prime implicants cover a target row can be told from their patterns. -/
theorem map_covers_primes (inTable : InTable width target) {index : Nat}
    (member : index ∈ target) :
    ((PrimeSearch.ofIndices width target []).primes.map fun implicant => implicant.covers index) =
      ((PrimeSearch.ofIndices width target []).primes.map Implicant.pattern).map fun pattern =>
        pattern.fits index := by
  have inTable : InTable width (target ++ []) := by rwa [List.append_nil]
  rw [List.map_map]
  exact List.map_congr_left fun implicant found =>
    Bool.eq_iff_iff.mpr (covers_iff_fits inTable found member)

end Patterns

/-! ### Minimizations over more names -/

namespace Agrees

open Pattern

variable {keep : String → Bool} {names : List String} {wide narrow : List Nat}

/-- The patterns of the prime implicants have a position for each name kept. -/
theorem aligned_of_mem {pattern : Pattern}
    (member : pattern ∈
      (PrimeSearch.ofIndices (names.filter keep).length narrow []).primes.map Implicant.pattern) :
    Aligned keep names pattern :=
  aligned_iff.mpr (mem_patterns_primes_iff.mp member).length_eq

theorem patterns_primes_eq (agrees : Agrees keep names wide narrow) :
    (PrimeSearch.ofIndices names.length wide []).primes.map Implicant.pattern =
      ((PrimeSearch.ofIndices (names.filter keep).length narrow []).primes.map
        Implicant.pattern).map (widen keep names) := by
  refine eq_of_ascending (ascending_patterns_primes agrees.wideTable) ?_ fun pattern => ?_
  · refine List.pairwise_map.mpr
      ((ascending_patterns_primes agrees.narrowTable).imp_of_mem ?_)
    intro first second firstIn secondIn below
    have width := (mem_patterns_primes_iff.mp secondIn).length_eq.trans
      (mem_patterns_primes_iff.mp firstIn).length_eq.symm
    rwa [compare_widen (aligned_of_mem firstIn) width]
  · rw [mem_patterns_primes_iff, agrees.primeCube_wide_iff, List.mem_map]
    simp only [mem_patterns_primes_iff]

/-- **The prime implicants over more names carry over** those over the names kept. -/
theorem carries (agrees : Agrees keep names wide narrow) :
    Carries (PrimeSearch.ofIndices (names.filter keep).length narrow []).primes
      (PrimeSearch.ofIndices names.length wide []).primes (.ofList narrow) (.ofList wide)
      (widen keep names) (narrowRow keep names) (widenRow keep names) where
  patterns_eq := agrees.patterns_primes_eq
  covering_eq row inRows := by
    have member := IndexSet.mem_ofList.mp inRows
    refine covering_congr ?_
    rw [map_covers_primes agrees.wideTable member,
      map_covers_primes agrees.narrowTable (agrees.narrowRow_mem member),
      agrees.patterns_primes_eq, List.map_map]
    refine List.map_congr_left fun pattern found => ?_
    have value := fits_widen (aligned_of_mem found) (rowValuation names row)
    rwa [rowOf_rowValuation agrees.different, agrees.wideTable row member] at value
  down_mem row inRows :=
    IndexSet.mem_ofList.mpr (agrees.narrowRow_mem (IndexSet.mem_ofList.mp inRows))
  up_mem row inRows :=
    IndexSet.mem_ofList.mpr (agrees.widenRow_mem (IndexSet.mem_ofList.mp inRows))
  down_up row inRows :=
    narrowRow_widenRow agrees.inWord agrees.different
      (agrees.narrowTable.lt (IndexSet.mem_ofList.mp inRows))
  up_down_le row inRows :=
    widenRow_narrowRow_le agrees.inWord agrees.different
      (agrees.wideTable.lt (IndexSet.mem_ofList.mp inRows))
  up_lt _ _ second inRows less :=
    widenRow_lt agrees.inWord agrees.different less
      (agrees.narrowTable.lt (IndexSet.mem_ofList.mp inRows))
  compare_change first firstIn second secondIn :=
    compare_widen (aligned_of_mem firstIn)
      ((mem_patterns_primes_iff.mp secondIn).length_eq.trans
        (mem_patterns_primes_iff.mp firstIn).length_eq.symm)
  literalCount_change pattern member := literalCount_widen (aligned_of_mem member)

variable {wideResult narrowResult : Minimization}

/-- **A minimization over more names selects the widened patterns.** -/
theorem patterns_selected_eq (agrees : Agrees keep names wide narrow)
    (wideMinimized : Minimization.ofIndices names wide [] = .ok wideResult)
    (narrowMinimized : Minimization.ofIndices (names.filter keep) narrow [] = .ok narrowResult) :
    wideResult.selected.map Implicant.pattern =
      (narrowResult.selected.map Implicant.pattern).map (widen keep names) := by
  obtain ⟨wideSelection, wideSelects, wideSame⟩ := Minimization.exists_selection wideMinimized
  obtain ⟨narrowSelection, narrowSelects, narrowSame⟩ :=
    Minimization.exists_selection narrowMinimized
  rw [wideSame, narrowSame]
  exact agrees.carries.patterns_selected_eq (ascending_primes _ _ _) (ascending_primes _ _ _)
    narrowSelects wideSelects

/-- The terms of the selected patterns are the same, whatever is made of their literals. -/
theorem map_selected_eq (agrees : Agrees keep names wide narrow)
    (wideMinimized : Minimization.ofIndices names wide [] = .ok wideResult)
    (narrowMinimized : Minimization.ofIndices (names.filter keep) narrow [] = .ok narrowResult)
    (complement : Bool) (term : List Expr → Expr) :
    (wideResult.selected.map fun implicant => term (implicant.pattern.literals complement names)) =
      narrowResult.selected.map fun implicant =>
        term (implicant.pattern.literals complement (names.filter keep)) := by
  have patterns := agrees.patterns_selected_eq wideMinimized narrowMinimized
  have terms := congrArg
    (List.map fun pattern : Pattern => term (pattern.literals complement names)) patterns
  rw [List.map_map, List.map_map, List.map_map] at terms
  refine terms.trans (List.map_congr_left fun implicant selected => ?_)
  have realizes := Minimization.realizes narrowMinimized
    (by rw [List.append_nil]; exact agrees.narrowTable)
  have aligned := aligned_iff.mpr
    (realizes.length_eq implicant.pattern (List.mem_map_of_mem selected))
  exact congrArg term (literals_widen aligned complement)

theorem sumOfProducts_eq (agrees : Agrees keep names wide narrow)
    (wideMinimized : Minimization.ofIndices names wide [] = .ok wideResult)
    (narrowMinimized : Minimization.ofIndices (names.filter keep) narrow [] = .ok narrowResult) :
    (Form.sumOfProducts names wideResult).expression =
      (Form.sumOfProducts (names.filter keep) narrowResult).expression := by
  have products : (wideResult.selected.map fun implicant => implicant.product names) =
      narrowResult.selected.map fun implicant => implicant.product (names.filter keep) :=
    agrees.map_selected_eq wideMinimized narrowMinimized false fun literals =>
      Expr.chain .and literals (.const true)
  rw [Form.sumOfProducts, Form.sumOfProducts, products]

theorem productOfSums_eq (agrees : Agrees keep names wide narrow)
    (wideMinimized : Minimization.ofIndices names wide [] = .ok wideResult)
    (narrowMinimized : Minimization.ofIndices (names.filter keep) narrow [] = .ok narrowResult) :
    (Form.productOfSums names wideResult).expression =
      (Form.productOfSums (names.filter keep) narrowResult).expression := by
  have clauses : (wideResult.selected.map fun implicant => implicant.complementedClause names) =
      narrowResult.selected.map fun implicant =>
        implicant.complementedClause (names.filter keep) :=
    agrees.map_selected_eq wideMinimized narrowMinimized true fun literals =>
      Expr.chain .or literals (.const false)
  rw [Form.productOfSums, Form.productOfSums, clauses]

end Agrees

/-! ### Texts of one function -/

/-- **Equal functions depend only on the names in common.** -/
theorem eval_eq_of_common {expr other : Expr} {names : List String}
    (equivalent : ∀ valuation, expr.eval valuation = other.eval valuation)
    (common : ∀ name ∈ expr.leaves, name ∈ other.leaves → name ∈ names)
    {first second : String → Bool} (same : ∀ name ∈ names, first name = second name) :
    expr.eval first = expr.eval second := by
  let mixed : String → Bool := fun name => if name ∈ expr.leaves then first name else second name
  calc expr.eval first = expr.eval mixed :=
        Expr.eval_congr fun name member => (if_pos member).symm
    _ = other.eval mixed := equivalent mixed
    _ = other.eval second := by
        refine Expr.eval_congr fun name inOther => ?_
        by_cases inside : name ∈ expr.leaves
        · exact (if_pos inside).trans (same name (common name inside inOther))
        · exact if_neg inside
    _ = expr.eval second := (equivalent second).symm

/-- The rows over some of the names where the expression has the value, if it depends only on
these. -/
def rowsWhere (expr : Expr) (names : List String) (output : Bool) : List Nat :=
  (List.range (2 ^ names.length)).filter fun row => expr.eval (rowValuation names row) == output

/-- Two evaluations list their common names in the same order. -/
theorem Evaluation.Arises.common_names {limits otherLimits : Limits} {text otherText : String}
    {evaluation other : Evaluation} (arises : evaluation.Arises limits text)
    (otherArises : other.Arises otherLimits otherText) :
    evaluation.names.filter (fun name => decide (name ∈ other.names)) =
      other.names.filter fun name => decide (name ∈ evaluation.names) := by
  refine eq_of_ascending (arises.ascending.filter _) (otherArises.ascending.filter _) fun name => ?_
  simp only [List.mem_filter, decide_eq_true_eq]
  exact and_comm

/-- **The table of an expression agrees with the rows over the names that it depends on.** -/
theorem Evaluation.Arises.agrees {limits : Limits} {text : String} {evaluation : Evaluation}
    (arises : evaluation.Arises limits text) {expr : Expr} {keep : String → Bool}
    (equivalent : ∀ valuation, evaluation.expr.eval valuation = expr.eval valuation)
    (depends : ∀ first second : String → Bool,
      (∀ name ∈ evaluation.names.filter keep, first name = second name) →
        expr.eval first = expr.eval second) (output : Bool) :
    Agrees keep evaluation.names (evaluation.table.indicesWhere output)
      (rowsWhere expr (evaluation.names.filter keep) output) where
  different := nodup_of_ascending arises.ascending
  inWord := Nat.le_of_lt arises.narrow
  wideTable := TruthTable.inTable_indicesWhere arises.narrow arises.inside arises.built output
  narrowTable := .of_lt (length_filter_le_size (Nat.le_of_lt arises.narrow)) fun _ member =>
    List.mem_range.mp (List.mem_filter.mp member).1
  mem_iff valuation := by
    have narrowWord := @length_filter_le_size keep _ (Nat.le_of_lt arises.narrow)
    rw [TruthTable.mem_indicesWhere_rowOf arises.narrow arises.inside arises.built, rowsWhere,
      List.mem_filter, List.mem_range, beq_iff_eq, and_iff_right (rowOf_lt _ _),
      equivalent valuation]
    rw [depends _ valuation fun name member => rowValuation_rowOf narrowWord valuation member]

/-- **The minimal forms are canonical.** Whatever the texts and the limits, if two texts have
evaluations and their trees have the same value under every valuation of the names, then the
evaluations have the same minimal sum of products and the same minimal product of sums. -/
theorem minimal_forms_canonical {limits otherLimits : Limits} {text otherText : String}
    {evaluation otherEvaluation : Evaluation} (evaluated : evaluate limits text = .ok evaluation)
    (otherEvaluated : evaluate otherLimits otherText = .ok otherEvaluation)
    (equivalent : ∀ valuation,
      evaluation.expr.eval valuation = otherEvaluation.expr.eval valuation) :
    evaluation.minimalSop = otherEvaluation.minimalSop ∧
      evaluation.minimalPos = otherEvaluation.minimalPos := by
  have arises := evaluate_eq_ok evaluated
  have otherArises := evaluate_eq_ok otherEvaluated
  let keep : String → Bool := fun name => decide (name ∈ otherEvaluation.names)
  let otherKeep : String → Bool := fun name => decide (name ∈ evaluation.names)
  have common : evaluation.names.filter keep = otherEvaluation.names.filter otherKeep :=
    arises.common_names otherArises
  have depends : ∀ first second : String → Bool,
      (∀ name ∈ evaluation.names.filter keep, first name = second name) →
        evaluation.expr.eval first = evaluation.expr.eval second := by
    refine fun first second => eval_eq_of_common equivalent fun name inside inOther => ?_
    exact List.mem_filter.mpr
      ⟨arises.inside name inside, decide_eq_true (otherArises.inside name inOther)⟩
  have agrees := arises.agrees (fun _ => rfl) depends
  have otherAgrees := otherArises.agrees (fun valuation => (equivalent valuation).symm)
    (common ▸ depends)
  have minimized : ∀ output, ∃ narrow, Minimization.ofIndices (evaluation.names.filter keep)
      (rowsWhere evaluation.expr (evaluation.names.filter keep) output) [] = .ok narrow := by
    intro output
    obtain ⟨narrow, result, _⟩ := Minimization.exists_ofIndices _ _ _
    exact ⟨narrow, result⟩
  have sop : evaluation.sop.expression = otherEvaluation.sop.expression := by
    obtain ⟨narrow, result⟩ := minimized true
    rw [arises.sop_eq, otherArises.sop_eq, (agrees true).sumOfProducts_eq arises.sopMinimized result]
    rw [common] at result ⊢
    rw [(otherAgrees true).sumOfProducts_eq otherArises.sopMinimized result]
  have pos : evaluation.pos.expression = otherEvaluation.pos.expression := by
    obtain ⟨narrow, result⟩ := minimized false
    rw [arises.pos_eq, otherArises.pos_eq,
      (agrees false).productOfSums_eq arises.posMinimized result]
    rw [common] at result ⊢
    rw [(otherAgrees false).productOfSums_eq otherArises.posMinimized result]
  exact ⟨congrArg Expr.render sop, congrArg Expr.render pos⟩

/-- A name, and the name with a second one that does not matter. -/
theorem minimal_forms_canonical_absorption :
    ∃ evaluation otherEvaluation, evaluate .standard "A" = .ok evaluation ∧
      evaluate .standard "A + A·B" = .ok otherEvaluation ∧
      evaluation.minimalSop = otherEvaluation.minimalSop ∧
      evaluation.minimalPos = otherEvaluation.minimalPos := by
  have short : (evaluate .standard "A").map Evaluation.expr = .ok (.var "A") := by
    cbv
  have long : (evaluate .standard "A + A·B").map Evaluation.expr =
      .ok (.or (.var "A") (.and (.var "A") (.var "B"))) := by
    cbv
  obtain ⟨evaluation, evaluated, expr⟩ := map_eq_ok_iff.mp short
  obtain ⟨otherEvaluation, otherEvaluated, otherExpr⟩ := map_eq_ok_iff.mp long
  refine ⟨evaluation, otherEvaluation, evaluated, otherEvaluated, ?_⟩
  refine minimal_forms_canonical evaluated otherEvaluated fun valuation => ?_
  rw [expr, otherExpr]
  show valuation "A" = (valuation "A" || (valuation "A" && valuation "B"))
  cases valuation "A" <;> rfl

end TwoLevel
