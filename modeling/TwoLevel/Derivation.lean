/-
**Derivations.**

A minimization as a list of steps, and the sentence for each step.

* `PrimeSearch.steps`, `Selection.steps`, `Minimization.steps`: the steps taken;
* `Step.render`: the sentence, with terms written over a list of names.
-/

import TwoLevel.Minimization

namespace TwoLevel

/-- A step of a minimization. -/
inductive Step where
  /-- The only row is its own term. -/
  | single (index : Nat) (term : Implicant)
  /-- The implicants of single rows by their number of ones. -/
  | grouped (groups : List (Nat × List Implicant))
  /-- Two implicants merged in a pass. -/
  | merged (pass : Nat) (merge : Merge)
  /-- An implicant that alone covers a row. -/
  | essential (implicant : Implicant) (index : Nat)
  /-- The implicants chosen for the rows that no essential one covers. -/
  | completed (chosen : List Implicant)
  deriving DecidableEq, Inhabited

/-- The steps of a pass. -/
def MergePass.steps (pass : MergePass) : List Step := pass.merges.map (.merged pass.number)

/-- The steps of a search: the groups of the first pass, then every merge. -/
def PrimeSearch.steps : PrimeSearch → List Step
  | nothing => []
  | single index implicant => [.single index implicant]
  | merging _ passes =>
    (passes.head?.map fun pass => Step.grouped (groupByOnes pass.inputs)).toList
      ++ passes.flatMap MergePass.steps

/-- The steps of a selection: the essential implicants, then the others if there are any. -/
def Selection.steps (selection : Selection) : List Step :=
  selection.essential.map (fun essential => .essential essential.implicant essential.index)
    ++ (selection.completion?.map fun completion => Step.completed completion.chosen).toList

/-- The steps of a minimization. -/
def Minimization.steps (minimization : Minimization) : List Step :=
  minimization.search.steps ++ minimization.selection?.elim [] Selection.steps

/-- The numbers with commas between them. -/
def renderIndices (indices : List Nat) : String := ", ".intercalate (indices.map toString)

/-- An implicant with the rows it was made from. -/
def Implicant.renderWithIndices (implicant : Implicant) : String :=
  implicant.pattern.render ++ " [" ++ renderIndices implicant.minterms.toList ++ "]"

/-- A group of implicants and their number of ones. -/
def renderGroup (group : Nat × List Implicant) : String :=
  toString group.1 ++ ": " ++ "; ".intercalate (group.2.map Implicant.renderWithIndices)

/-- The sentence for a step. -/
def Step.render (names : List String) : Step → String
  | single index term =>
    "Single minterm " ++ toString index ++ " results in term " ++ term.term names ++ "."
  | grouped groups =>
    "Grouped terms by number of ones: " ++ " | ".intercalate (groups.map renderGroup) ++ "."
  | merged pass merge =>
    "Iteration " ++ toString pass ++ ": Combined " ++ merge.left.pattern.render ++ " and "
      ++ merge.right.pattern.render ++ " → " ++ merge.merged.pattern.render ++ " (Adjacency Law)."
  | essential implicant index =>
    "Essential prime implicant " ++ implicant.term names ++ " covers minterm " ++ toString index
      ++ "."
  | completed chosen =>
    "Selected additional implicants via Petrick's method: "
      ++ ", ".intercalate (chosen.map fun implicant => implicant.term names) ++ "."

end TwoLevel
