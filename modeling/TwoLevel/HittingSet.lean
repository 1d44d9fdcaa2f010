/-
**Minimal hitting sets.**

A product is a set of positions; a clause is a list of positions of which one has to be taken. The
clauses are multiplied out one after the other, and after each a product that contains another one
is dropped, so that what remains are the minimal sets that meet every clause.

* `multiply`: the ways to make a product meet a clause;
* `minimalSets`: the products that contain no other one, each once, in the order of sets;
* `hittingSets`: the products left when all clauses are multiplied out.
-/

import TwoLevel.IndexSet

namespace TwoLevel

/-- The ways to make a product meet a clause: itself if it does, else with one more position. -/
def multiply (clause : List Nat) (product : IndexSet) : List IndexSet :=
  if clause.any fun position => position ∈ product then [product]
  else clause.map product.insert

/-- The products from the smallest to the largest. -/
def bySize (products : List IndexSet) : List IndexSet :=
  (IndexSet.ofList (products.map IndexSet.size)).toList.flatMap fun size =>
    products.filter fun product => product.size = size

/-- Keep a product unless it contains one that has been kept. -/
def keepUnlessContaining (kept : List IndexSet) (product : IndexSet) : List IndexSet :=
  if kept.any fun smaller => smaller.subset product then kept else product :: kept

/-- The products that contain no other one, in the order of sets. Going from the smallest on, a
product can only contain products that have been met before. -/
def minimalSets (products : List IndexSet) : List IndexSet :=
  sortBy compare ((bySize products).foldl keepUnlessContaining [])

/-- The minimal sets that meet every clause. -/
def hittingSets (clauses : List (List Nat)) : List IndexSet :=
  clauses.foldl (fun products clause => minimalSets (products.flatMap (multiply clause))) [∅]

end TwoLevel
