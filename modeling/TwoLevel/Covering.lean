/-
**Selecting a cover.**

Out of a list of implicants a smallest part that covers every target row. An implicant that alone
covers some row is essential. The rows that no essential one covers are clauses over the positions
of the implicants, and of the minimal sets that meet all of them the best is taken: it has the
fewest implicants, then the fewest literals, then the least sorted patterns. Of equally good ones it
is the first in the order of sets.

* `coverRank`: what decides between two covers;
* `Selection.ofTarget`: the selection, or the first row of the target that nothing covers;
* `Selection.selected`: the essential implicants by the first row each alone covers, then the chosen
  ones in the order of implicants, unless their positions have been selected before.
-/

import TwoLevel.Failure
import TwoLevel.HittingSet
import TwoLevel.Implicant.Basic

namespace TwoLevel

/-- The positions of the implicants that cover a row, ascending. -/
def covering (implicants : List Implicant) (index : Nat) : List Nat :=
  implicants.zipIdx.filterMap fun (implicant, position) =>
    if implicant.covers index then some position else none

/-- The implicants at the positions of a set. -/
def implicantsAt (implicants : List Implicant) (positions : List Nat) : List Implicant :=
  positions.filterMap fun position => implicants[position]?

/-- The implicants at the positions of a set, each with its position. -/
def placedAt (implicants : List Implicant) (positions : List Nat) : List (Nat × Implicant) :=
  positions.filterMap fun position =>
    implicants[position]?.map fun implicant => (position, implicant)

/-- An implicant that alone covers a row: the least such row, and its position. -/
structure Essential where
  position : Nat
  implicant : Implicant
  index : Nat
  deriving DecidableEq, Inhabited

/-- The first of the entries for each position. -/
def firstOfPosition : List Essential → List Essential
  | [] => []
  | first :: rest =>
    first :: (firstOfPosition rest).filter fun essential => essential.position ≠ first.position

/-- The implicants that alone cover one of the rows, by the least such row. -/
def essentials (implicants : List Implicant) (target : IndexSet) : List Essential :=
  firstOfPosition <| target.toList.filterMap fun index =>
    match covering implicants index with
    | [position] => implicants[position]?.map fun implicant => ⟨position, implicant, index⟩
    | _ => none

/-- What decides between two covers, the first field that differs. -/
structure CoverRank where
  size : Nat
  literals : Nat
  patterns : List Pattern
  deriving DecidableEq, Inhabited

instance : Ord CoverRank := ⟨fun left right =>
  (compare left.size right.size).then <|
  (compare left.literals right.literals).then (compare left.patterns right.patterns)⟩

/-- The rank of the cover by the implicants at the positions of a set. -/
def coverRank (implicants : List Implicant) (positions : IndexSet) : CoverRank :=
  let members := implicantsAt implicants positions.toList
  { size := positions.size
    literals := members.foldr (fun implicant total => implicant.literalCount + total) 0
    patterns := sortBy compare (members.map Implicant.pattern) }

/-- The best cover of the rows that no essential implicant covers: its implicants in their order, as
the step shows them, and its positions in the order of the implicants there, as they are added. -/
structure Completion where
  candidates : List IndexSet
  best : IndexSet
  chosen : List Implicant
  added : List (Nat × Implicant)
  deriving DecidableEq, Inhabited

namespace Completion

/-- The first of the best among the minimal sets that meet all clauses. -/
def ofClauses (implicants : List Implicant) (clauses : List (List Nat)) : Completion :=
  let candidates := hittingSets clauses
  let ranked := candidates.map fun positions => (coverRank implicants positions, positions)
  let best := (leastBy? (compareOn Prod.fst) ranked).elim ∅ Prod.snd
  ⟨candidates, best, sortBy compare (implicantsAt implicants best.toList),
    sortBy (compareOn Prod.snd) (placedAt implicants best.toList)⟩

end Completion

/-- A selection of implicants: the essential ones and, if they leave rows uncovered, others. -/
structure Selection where
  essential : List Essential
  completion? : Option Completion
  deriving DecidableEq, Inhabited

namespace Selection

/-- The rows that no essential implicant covers, ascending. -/
def remaining (essential : List Essential) (target : IndexSet) : List Nat :=
  target.toList.filter fun index => !essential.any fun entry => entry.implicant.covers index

/-- The selection for a list of target rows. -/
def ofTarget (implicants : List Implicant) (target : List Nat) : Except InternalError Selection :=
  match target.find? fun index => !implicants.any fun implicant => implicant.covers index with
  | some index => .error (.uncoverableIndex index)
  | none =>
    let rows := IndexSet.ofList target
    let essential := essentials implicants rows
    match remaining essential rows with
    | [] => .ok ⟨essential, none⟩
    | left => .ok ⟨essential, some (.ofClauses implicants (left.map (covering implicants)))⟩

/-- Add an implicant unless its position has been selected before. -/
def addPosition (placed : List (Nat × Implicant)) (entry : Nat × Implicant) :
    List (Nat × Implicant) :=
  if placed.any fun earlier => earlier.1 = entry.1 then placed else placed ++ [entry]

/-- The selected implicants, each with its position: the essential ones, and then the others of the
completion. -/
def placed (selection : Selection) : List (Nat × Implicant) :=
  (selection.completion?.elim [] Completion.added).foldl addPosition
    (selection.essential.map fun entry => (entry.position, entry.implicant))

/-- The selected implicants. -/
def selected (selection : Selection) : List Implicant := selection.placed.map Prod.snd

end Selection

end TwoLevel
