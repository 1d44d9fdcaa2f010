/-
**Implicants.**

An implicant is a pattern together with the row indices it was made from. Merging two implicants
merges their patterns and unites their indices.

* `Implicant.ofIndex`, `Implicant.merge?`: how implicants arise;
* `Implicant.ofIndexIn`: the first of these in a build that may stop at a shift;
* `Implicant.covers`: the indices it was made from;
* the order: by pattern, then by the indices.
-/

import TwoLevel.IndexSet
import TwoLevel.Pattern

namespace TwoLevel

/-- A pattern with the row indices it was made from. -/
structure Implicant where
  pattern : Pattern
  minterms : IndexSet
  deriving DecidableEq, Inhabited

namespace Implicant

/-- Implicants are ordered by pattern and then by the indices. -/
instance : Ord Implicant := ⟨fun left right =>
  (compare left.pattern right.pattern).then (compare left.minterms right.minterms)⟩

/-- The implicant of one row; an index beyond the width fixes the bits that the width has. -/
def ofIndex (width index : Nat) : Implicant :=
  ⟨.ofIndex width index, .singleton index⟩

/-- The implicant of one row in a build, if no shift stops the program. -/
def ofIndexIn (build : Build) (width index : Nat) : Option Implicant := do
  let pattern ← Pattern.ofIndexIn build width index
  return ⟨pattern, .singleton index⟩

/-- Whether an index is one that the implicant was made from. -/
def covers (implicant : Implicant) (index : Nat) : Bool := index ∈ implicant.minterms

/-- The number of bits fixed to one. -/
def ones (implicant : Implicant) : Nat := implicant.pattern.ones

/-- The number of bits fixed. -/
def literalCount (implicant : Implicant) : Nat := implicant.pattern.literalCount

/-- Merge the patterns, if they can be merged, and unite the indices. -/
def merge? (left right : Implicant) : Option Implicant :=
  (left.pattern.merge? right.pattern).map (⟨·, left.minterms.union right.minterms⟩)

/-- Take over the indices of another implicant. -/
def takeOver (implicant other : Implicant) : Implicant :=
  { implicant with minterms := implicant.minterms.union other.minterms }

theorem ofIndexIn_of_reads {build : Build} {width : Nat} (reads : build.Reads width)
    (index : Nat) : ofIndexIn build width index = some (ofIndex width index) := by
  rw [ofIndexIn, Pattern.ofIndexIn_of_reads reads]
  rfl

theorem ofIndexIn_of_not_reads {build : Build} {width : Nat} (stops : ¬ build.Reads width)
    (index : Nat) : ofIndexIn build width index = none := by
  rw [ofIndexIn, Pattern.ofIndexIn_of_not_reads stops]
  rfl

theorem literalCount_merge {left right merged : Implicant}
    (joined : left.merge? right = some merged) :
    merged.literalCount + 1 = left.literalCount := by
  obtain ⟨pattern, patternJoined, rfl⟩ := Option.map_eq_some_iff.mp joined
  exact Pattern.literalCount_merge patternJoined

end Implicant

end TwoLevel
