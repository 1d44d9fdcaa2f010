/-
**A minimization covers its target and no foreign row.**

Whatever the indices are, repeated or beyond the table, a minimization has a result. It selects
different prime implicants, which together were made from all target rows and from no row but those
given; its chart tells for each prime implicant which target rows it was made from.

* `mintermsOf` — the rows that some implicants were made from, all together;
* `Minimization.chart_eq`, `covers_spec` — the chart is that of the prime implicants, and a line of
  it lists the target rows that its implicant was made from;
* `mintermsOf_subset`, `subset_mintermsOf_selected` — prime implicants were made from no foreign row,
  and the selected ones from all target rows;
* `Minimization.ofIndicesIn_eq_none_iff` — in which build a minimization stops;
* `minimization_covers_exactly` — else the result exists and covers the target and nothing foreign.
-/

import Mathlib.Data.Finset.Union
import TwoLevel.Proofs.Chains
import TwoLevel.Proofs.Minimality

namespace TwoLevel

/-- The rows that the implicants were made from. -/
def mintermsOf (implicants : List Implicant) : Finset Nat :=
  implicants.toFinset.biUnion fun implicant => implicant.minterms.toList.toFinset

theorem mem_mintermsOf {implicants : List Implicant} {index : Nat} :
    index ∈ mintermsOf implicants ↔ ∃ implicant ∈ implicants, index ∈ implicant.minterms := by
  simp only [mintermsOf, Finset.mem_biUnion, List.mem_toFinset, IndexSet.mem_toList]

/-! ### The chart -/

theorem map_implicant_chart (implicants : List Implicant) (target : List Nat) (names : List String) :
    (chart implicants target names).map ChartRow.implicant = implicants := by
  rw [chart, List.map_map]
  exact List.map_id _

/-- A line of a chart lists the target rows that its implicant was made from, ascending. -/
theorem covers_spec {implicants : List Implicant} {target : List Nat} {names : List String}
    {row : ChartRow} (member : row ∈ chart implicants target names) :
    row.covers.Pairwise (· < ·) ∧
      ∀ index, index ∈ row.covers ↔ index ∈ row.implicant.minterms ∧ index ∈ target := by
  obtain ⟨implicant, _, rfl⟩ := List.mem_map.mp member
  refine ⟨implicant.minterms.ascending.filter _, fun index => ?_⟩
  rw [List.mem_filter, List.contains_iff_mem, IndexSet.mem_toList]

namespace Minimization

variable {names : List String} {target dontCare : List Nat} {minimization : Minimization}

/-- The chart of a minimization is the one of its prime implicants. -/
theorem chart_eq (result : ofIndices names target dontCare = .ok minimization) :
    minimization.chart = TwoLevel.chart minimization.primes target names := by
  unfold ofIndices ofSearch at result
  split at result
  · obtain ⟨selection, _, made⟩ := bind_eq_ok_iff.mp result
    cases made
    rfl
  · cases result
    rfl
  · cases result
    rfl

/-! ### Where a minimization stops -/

/-- A minimization that does not stop is the one of every build. -/
theorem ofIndicesIn_of_ne_none {build : Build}
    (runs : ofIndicesIn build names target dontCare ≠ none) :
    ofIndicesIn build names target dontCare = some (ofIndices names target dontCare) := by
  by_cases empty : target = []
  · subst empty
    rfl
  · refine ofIndicesIn_of_reads (Decidable.not_not.mp fun stops => runs ?_) target dontCare
    exact ofIndicesIn_of_not_reads stops empty dontCare

/-- **A minimization stops only in a checked build**, for more variables than a word has bits and
with a target. -/
theorem ofIndicesIn_eq_none_iff (build : Build) (names : List String) (target dontCare : List Nat) :
    ofIndicesIn build names target dontCare = none ↔
      build = .checked ∧ Word.size < names.length ∧ target ≠ [] := by
  by_cases empty : target = []
  · subst empty
    exact iff_of_false (Option.some_ne_none _) fun stops => stops.2.2 rfl
  · rw [← and_assoc, ← Build.not_reads_iff, and_iff_left empty]
    refine ⟨fun stops reads => ?_, fun stops => ofIndicesIn_of_not_reads stops empty dontCare⟩
    rw [ofIndicesIn_of_reads reads] at stops
    cases stops

end Minimization

/-! ### The rows of prime implicants -/

section Rows

variable {width : Nat} {target dontCare : List Nat}

/-- A prime implicant was made from a target row, and from no row but those given. -/
theorem minterms_of_mem_primes {implicant : Implicant}
    (found : implicant ∈ (PrimeSearch.ofIndices width target dontCare).primes) :
    (∃ index ∈ target, index ∈ implicant.minterms) ∧
      ∀ index ∈ implicant.minterms, index ∈ target ∨ index ∈ dontCare := by
  obtain ⟨_, meets, gathers⟩ := (mem_primes_iff (ne_nil_of_mem_primes found)).mp found
  exact ⟨meets, fun index held => List.mem_append.mp (gathers.fits held).1⟩

/-- Prime implicants together were made from no row but those given. -/
theorem mintermsOf_subset {implicants : List Implicant}
    (found : ∀ implicant ∈ implicants,
      implicant ∈ (PrimeSearch.ofIndices width target dontCare).primes) :
    mintermsOf implicants ⊆ target.toFinset ∪ dontCare.toFinset := by
  intro index member
  obtain ⟨implicant, listed, held⟩ := mem_mintermsOf.mp member
  rw [Finset.mem_union, List.mem_toFinset, List.mem_toFinset]
  exact (minterms_of_mem_primes (found implicant listed)).2 index held

/-- The selected implicants together were made from all target rows. -/
theorem subset_mintermsOf_selected {implicants : List Implicant} {selection : Selection}
    (selects : Selection.ofTarget implicants target = .ok selection) :
    target.toFinset ⊆ mintermsOf selection.selected := by
  intro index member
  obtain ⟨implicant, chosen, held⟩ :=
    Selection.covers_selected selects (List.mem_toFinset.mp member)
  exact mem_mintermsOf.mpr ⟨implicant, chosen, of_decide_eq_true held⟩

end Rows

/-- **A minimization covers its target and no foreign row.** It stops only in a checked build, for
more variables than a word has bits and with a target. Else, whatever the indices are, there is a
result. Its selected implicants are different prime implicants; the rows they were made from are all
target rows, and else only rows that may also be covered. Every prime implicant was made from a
target row, and the chart lists the prime implicants in their order, each with exactly the target
rows it was made from, ascending. -/
theorem minimization_covers_exactly (build : Build) (names : List String)
    (target dontCare : List Nat) :
    (Minimization.ofIndicesIn build names target dontCare = none ↔
      build = .checked ∧ Word.size < names.length ∧ target ≠ []) ∧
    (¬ (build = .checked ∧ Word.size < names.length ∧ target ≠ []) → ∃ minimization,
      Minimization.ofIndicesIn build names target dontCare = some (.ok minimization) ∧
      (∀ implicant ∈ minimization.selected, implicant ∈ minimization.primes) ∧
      minimization.selected.Nodup ∧
      target.toFinset ⊆ mintermsOf minimization.selected ∧
      mintermsOf minimization.selected ⊆ target.toFinset ∪ dontCare.toFinset ∧
      (dontCare.toFinset ⊆ target.toFinset →
        mintermsOf minimization.selected = target.toFinset) ∧
      (∀ prime ∈ minimization.primes, ∃ index ∈ target, index ∈ prime.minterms) ∧
      minimization.chart.map ChartRow.implicant = minimization.primes ∧
      ∀ row ∈ minimization.chart, row.covers.Pairwise (· < ·) ∧
        ∀ index, index ∈ row.covers ↔ index ∈ row.implicant.minterms ∧ index ∈ target) := by
  have stops := Minimization.ofIndicesIn_eq_none_iff build names target dontCare
  refine ⟨stops, fun runs => ?_⟩
  obtain ⟨minimization, result, primes, selection, selects, same⟩ :=
    Minimization.exists_ofIndices names target dontCare
  have made := Minimization.ofIndicesIn_of_ne_none (mt stops.mp runs)
  have chart := Minimization.chart_eq result
  have selected : ∀ implicant ∈ minimization.selected, implicant ∈ minimization.primes := by
    rw [same]
    exact fun implicant => Selection.mem_of_mem_selected selects
  have distinct : minimization.primes.Nodup := by
    rw [primes]
    exact nodup_of_ascending (ascending_primes _ _ _)
  have covers : target.toFinset ⊆ mintermsOf minimization.selected :=
    same ▸ subset_mintermsOf_selected selects
  have inside : mintermsOf minimization.selected ⊆ target.toFinset ∪ dontCare.toFinset :=
    mintermsOf_subset fun implicant chosen => primes ▸ selected implicant chosen
  refine ⟨minimization, made.trans (congrArg some result), selected, ?_, covers, inside,
    fun nothingMore => ?_, ?_, ?_, ?_⟩
  · rw [same]
    exact Selection.nodup_selected selects distinct
  · exact (inside.trans (Finset.union_subset (Finset.Subset.refl _) nothingMore)).antisymm covers
  · exact fun prime found => (minterms_of_mem_primes (primes ▸ found)).1
  · rw [chart, map_implicant_chart]
  · exact fun row member => covers_spec (chart ▸ member)

/-- A repeated index beyond the two rows of a table, of which one may also be covered. -/
theorem minimization_covers_exactly_beyond_table :
    ¬ (Build.checked = .checked ∧ Word.size < ["A"].length ∧ [5, 0, 5] ≠ ([] : List Nat)) ∧
      ∃ minimization,
        Minimization.ofIndicesIn .checked ["A"] [5, 0, 5] [5] = some (.ok minimization) ∧
        mintermsOf minimization.selected = {0, 5} := by
  have runs : ¬ (Build.checked = .checked ∧ Word.size < ["A"].length ∧ [5, 0, 5] ≠ []) := by
    decide
  obtain ⟨minimization, result, _, _, _, _, exact, _⟩ :=
    (minimization_covers_exactly .checked ["A"] [5, 0, 5] [5]).2 runs
  exact ⟨runs, minimization, result, (exact (by decide)).trans (by decide)⟩

/-- **Over 65 variables a checked build does not minimize** the row 1. -/
theorem minimization_stops_beyond_word :
    (numberedNames 65).length = 65 ∧
      Minimization.ofIndicesIn .checked (numberedNames 65) [1] [] = none := by
  refine ⟨length_numberedNames 65, Minimization.ofIndicesIn_of_not_reads ?_ (List.cons_ne_nil _ _) []⟩
  rw [length_numberedNames]
  decide

end TwoLevel
