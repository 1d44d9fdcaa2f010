/-
**A minimization depends only on the sets of its rows.**

The order of the rows, their repetitions and the overlaps between the target rows and those that may
also be covered do not matter: the search starts from the ascending list of all rows, and the
selection and the chart ask only which rows are in the target. A single row takes the shortcut or,
when it is given twice, the passes; both find the same.

* `IndexSet.ofList_congr` — lists with the same numbers make the same set;
* `primes_congr`, `Selection.ofTarget_congr`, `chart_congr` — each part depends only on the sets;
* `Minimization.ofIndices_congr` — where neither search takes the shortcut the minimizations are the
  same, with all their steps;
* `minimization_depends_on_sets` — the whole, also across the shortcut.
-/

import TwoLevel.Derivation
import TwoLevel.Proofs.CoveredRows

namespace TwoLevel

/-- Lists with the same numbers make the same set. -/
theorem IndexSet.ofList_congr {first second : List Nat} (same : first.toFinset = second.toFinset) :
    IndexSet.ofList first = IndexSet.ofList second := by
  refine IndexSet.ext fun number => ?_
  rw [IndexSet.mem_ofList, IndexSet.mem_ofList, ← List.mem_toFinset, same, List.mem_toFinset]

section Parts

variable {target dontCare otherTarget otherDontCare : List Nat}

/-- The implicants of single rows depend only on the set of all rows. -/
theorem seeds_congr (width : Nat)
    (sameRows : target.toFinset ∪ dontCare.toFinset =
      otherTarget.toFinset ∪ otherDontCare.toFinset) :
    PrimeSearch.seeds width target dontCare =
      PrimeSearch.seeds width otherTarget otherDontCare := by
  unfold PrimeSearch.seeds
  rw [← List.toFinset_append, ← List.toFinset_append] at sameRows
  rw [IndexSet.ofList_congr sameRows]

/-- One target is empty exactly when the other is. -/
theorem eq_nil_congr (sameTarget : target.toFinset = otherTarget.toFinset) :
    target = [] ↔ otherTarget = [] := by
  rw [← List.toFinset_eq_empty_iff, sameTarget, List.toFinset_eq_empty_iff]

/-- **The prime implicants depend only on the sets of rows**, whichever way they are found. -/
theorem primes_congr (width : Nat) (sameTarget : target.toFinset = otherTarget.toFinset)
    (sameRows : target.toFinset ∪ dontCare.toFinset =
      otherTarget.toFinset ∪ otherDontCare.toFinset) :
    (PrimeSearch.ofIndices width target dontCare).primes =
      (PrimeSearch.ofIndices width otherTarget otherDontCare).primes := by
  by_cases empty : target = []
  · rw [empty, (eq_nil_congr sameTarget).mp empty]
    rfl
  · have otherNonempty := mt (eq_nil_congr sameTarget).mpr empty
    rw [primes_ofIndices width dontCare empty,
      primes_ofIndices width otherDontCare otherNonempty,
      IndexSet.ofList_congr sameTarget, seeds_congr width sameRows]

/-- Away from the shortcut the whole search depends only on the sets of rows. -/
theorem search_congr (width : Nat) (sameTarget : target.toFinset = otherTarget.toFinset)
    (sameRows : target.toFinset ∪ dontCare.toFinset =
      otherTarget.toFinset ∪ otherDontCare.toFinset)
    (notLone : ¬ LoneRow target dontCare) (otherNotLone : ¬ LoneRow otherTarget otherDontCare) :
    PrimeSearch.ofIndices width target dontCare =
      PrimeSearch.ofIndices width otherTarget otherDontCare := by
  by_cases empty : target = []
  · rw [empty, (eq_nil_congr sameTarget).mp empty]
    rfl
  · have otherNonempty := mt (eq_nil_congr sameTarget).mpr empty
    rw [ofIndices_eq_merging width empty notLone,
      ofIndices_eq_merging width otherNonempty otherNotLone,
      IndexSet.ofList_congr sameTarget, seeds_congr width sameRows]

/-- **A selection depends only on the set of target rows**, where these can be covered. -/
theorem Selection.ofTarget_congr {implicants : List Implicant}
    (sameTarget : target.toFinset = otherTarget.toFinset)
    (coverable : ∀ index ∈ target, ∃ implicant ∈ implicants, implicant.covers index = true) :
    Selection.ofTarget implicants target = Selection.ofTarget implicants otherTarget := by
  have otherCoverable : ∀ index ∈ otherTarget,
      ∃ implicant ∈ implicants, implicant.covers index = true := by
    intro index member
    rw [← List.mem_toFinset, ← sameTarget, List.mem_toFinset] at member
    exact coverable index member
  unfold Selection.ofTarget
  rw [find_uncovered_eq_none coverable, find_uncovered_eq_none otherCoverable,
    IndexSet.ofList_congr sameTarget]

/-- A chart depends only on the set of target rows. -/
theorem chart_congr (implicants : List Implicant) (names : List String)
    (sameTarget : target.toFinset = otherTarget.toFinset) :
    chart implicants target names = chart implicants otherTarget names := by
  have contains : target.contains = otherTarget.contains := by
    funext index
    rw [Bool.eq_iff_iff, List.contains_iff_mem, List.contains_iff_mem, ← List.mem_toFinset,
      sameTarget, List.mem_toFinset]
  unfold chart
  simp only [contains]

/-- **Away from the shortcut a minimization depends only on the sets of rows**, its steps
included. -/
theorem Minimization.ofIndices_congr (names : List String)
    (sameTarget : target.toFinset = otherTarget.toFinset)
    (sameRows : target.toFinset ∪ dontCare.toFinset =
      otherTarget.toFinset ∪ otherDontCare.toFinset)
    (notLone : ¬ LoneRow target dontCare) (otherNotLone : ¬ LoneRow otherTarget otherDontCare) :
    Minimization.ofIndices names target dontCare =
      Minimization.ofIndices names otherTarget otherDontCare := by
  have search := search_congr names.length sameTarget sameRows notLone otherNotLone
  have selects := Selection.ofTarget_congr sameTarget (primes_cover names.length target dontCare)
  unfold Minimization.ofIndices Minimization.ofSearch
  rw [← search]
  simp only [selects, chart_congr _ names sameTarget]

end Parts

/-- **A minimization depends only on the sets of its rows.** For two presentations of the same target
rows, and of the same rows in all, the prime implicants, the selected implicants and the chart are
the same, also where one of them takes the shortcut for a single row and the other the passes. If
neither takes it, the steps are the same too. -/
theorem minimization_depends_on_sets (names : List String)
    {target dontCare otherTarget otherDontCare : List Nat}
    (sameTarget : target.toFinset = otherTarget.toFinset)
    (sameRows : target.toFinset ∪ dontCare.toFinset =
      otherTarget.toFinset ∪ otherDontCare.toFinset) :
    ∃ minimization other,
      Minimization.ofIndices names target dontCare = .ok minimization ∧
      Minimization.ofIndices names otherTarget otherDontCare = .ok other ∧
      minimization.primes = other.primes ∧
      minimization.selected = other.selected ∧
      minimization.chart = other.chart ∧
      (¬ LoneRow target dontCare → ¬ LoneRow otherTarget otherDontCare →
        minimization.steps = other.steps) := by
  obtain ⟨minimization, result, primes, selection, selects, selected⟩ :=
    Minimization.exists_ofIndices names target dontCare
  obtain ⟨other, otherResult, otherPrimes, otherSelection, otherSelects, otherSelected⟩ :=
    Minimization.exists_ofIndices names otherTarget otherDontCare
  have samePrimes : minimization.primes = other.primes := by
    rw [primes, otherPrimes]
    exact primes_congr names.length sameTarget sameRows
  refine ⟨minimization, other, result, otherResult, samePrimes, ?_, ?_, fun notLone otherNotLone => ?_⟩
  · rw [Selection.ofTarget_congr sameTarget (Selection.coverable_of_ofTarget selects), samePrimes,
      otherSelects] at selects
    cases selects
    rw [selected, otherSelected]
  · rw [Minimization.chart_eq result, Minimization.chart_eq otherResult, samePrimes,
      chart_congr _ names sameTarget]
  · rw [Minimization.ofIndices_congr names sameTarget sameRows notLone otherNotLone,
      otherResult] at result
    cases result
    rfl

/-- One row beyond the table, given once and given twice: the shortcut finds what the passes find. -/
theorem minimization_depends_on_sets_repeated_row :
    (PrimeSearch.ofIndices 1 [5] []).isSingle = true ∧
      (PrimeSearch.ofIndices 1 [5, 5] []).isSingle = false ∧
      ∃ minimization other, Minimization.ofIndices ["A"] [5] [] = .ok minimization ∧
        Minimization.ofIndices ["A"] [5, 5] [] = .ok other ∧
        minimization.primes = other.primes ∧ minimization.selected = other.selected ∧
        minimization.chart = other.chart := by
  obtain ⟨minimization, other, result, otherResult, primes, selected, chart, _⟩ :=
    @minimization_depends_on_sets ["A"] [5] [] [5, 5] [] (by decide) (by decide)
  exact ⟨rfl, rfl, minimization, other, result, otherResult, primes, selected, chart⟩

end TwoLevel
