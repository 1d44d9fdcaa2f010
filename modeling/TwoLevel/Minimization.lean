/-
**Two-level minimization.**

The prime implicants of the target rows, a smallest selection of them that covers the target, and
the chart that lists for each prime implicant the target rows it covers.

* `Minimization.ofIndices`: the minimization for target rows and rows that may also be covered;
* `Minimization.ofIndicesIn`: the same in a build that may stop at a shift.
-/

import TwoLevel.Covering
import TwoLevel.Implicant.Term
import TwoLevel.Primes

namespace TwoLevel

/-- A line of the chart: an implicant, its product, and the target rows it covers, ascending. -/
structure ChartRow where
  implicant : Implicant
  term : String
  covers : List Nat
  deriving DecidableEq, Inhabited

/-- The chart of a list of implicants. -/
def chart (implicants : List Implicant) (target : List Nat) (names : List String) : List ChartRow :=
  implicants.map fun implicant =>
    ⟨implicant, implicant.term names,
      implicant.minterms.toList.filter fun index => target.contains index⟩

/-- The outcome of a minimization. A single row without others needs no selection. -/
structure Minimization where
  search : PrimeSearch
  selection? : Option Selection
  chart : List ChartRow
  deriving DecidableEq, Inhabited

namespace Minimization

/-- The minimization that a search for the implicants of the target leads to. -/
def ofSearch (names : List String) (target : List Nat) (search : PrimeSearch) :
    Except InternalError Minimization := do
  match search with
  | .merging _ _ =>
    let selection ← Selection.ofTarget search.primes target
    return ⟨search, some selection, TwoLevel.chart search.primes target names⟩
  | .nothing | .single _ _ =>
    return ⟨search, none, TwoLevel.chart search.primes target names⟩

/-- The minimization over the rows of a table with the names as columns. -/
def ofIndices (names : List String) (target dontCare : List Nat) :
    Except InternalError Minimization :=
  ofSearch names target (.ofIndices names.length target dontCare)

/-- The minimization in a build, if no shift stops the program. -/
def ofIndicesIn (build : Build) (names : List String) (target dontCare : List Nat) :
    Option (Except InternalError Minimization) := do
  let search ← PrimeSearch.ofIndicesIn build names.length target dontCare
  return ofSearch names target search

/-- Where a build reads rows over the names, it makes the minimization. -/
theorem ofIndicesIn_of_reads {build : Build} {names : List String}
    (reads : build.Reads names.length) (target dontCare : List Nat) :
    ofIndicesIn build names target dontCare = some (ofIndices names target dontCare) := by
  rw [ofIndicesIn, PrimeSearch.ofIndicesIn_of_reads reads]
  rfl

/-- Where it does not, it stops, if there is a target. -/
theorem ofIndicesIn_of_not_reads {build : Build} {names : List String}
    (stops : ¬ build.Reads names.length) {target : List Nat} (nonempty : target ≠ [])
    (dontCare : List Nat) : ofIndicesIn build names target dontCare = none := by
  rw [ofIndicesIn, PrimeSearch.ofIndicesIn_of_not_reads stops nonempty]
  rfl

/-- The prime implicants. -/
def primes (minimization : Minimization) : List Implicant := minimization.search.primes

/-- The selected implicants. -/
def selected (minimization : Minimization) : List Implicant :=
  match minimization.selection? with
  | some selection => selection.selected
  | none => minimization.primes

end Minimization

end TwoLevel
