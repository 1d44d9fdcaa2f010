/-
**Prime implicants.**

The search starts from the implicants of single rows. A pass merges each implicant with those that
have one more bit fixed to one, and its results, one for each pattern, go into the next pass. Those
that no pass merges are prime; the ones without a target row are of no use and are dropped.

* `MergePass`: one pass, with its merges in order, what it hands on and what it leaves unmerged;
* `usedMarks`: which implicants a pass has used, by their positions;
* `mostLiterals_outputs_lt`: each pass fixes fewer bits than the one before, so the passes end;
* `PrimeSearch.ofIndices`: the whole search; a single target row without others needs no pass;
* `PrimeSearch.ofIndicesIn`: the same in a build that may stop at a shift; `ofIndicesIn_of_reads` and
  `ofIndicesIn_of_not_reads` say when it does.
-/

import TwoLevel.Implicant.Basic

namespace TwoLevel

/-- The members of a list by a number that each has, ascending; within a group in the order given. -/
def groupBy {α : Type} (number : α → Nat) (members : List α) : List (Nat × List α) :=
  (IndexSet.ofList (members.map number)).toList.map fun shared =>
    (shared, members.filter fun member => number member = shared)

/-- The implicants by their number of ones. -/
def groupByOnes (implicants : List Implicant) : List (Nat × List Implicant) :=
  groupBy Implicant.ones implicants

/-- Two implicants that have been merged, the one with fewer ones on the left. -/
structure Merge where
  left : Implicant
  right : Implicant
  merged : Implicant
  deriving DecidableEq, Inhabited

/-- A merge and the positions of the two implicants in the list. -/
structure PlacedMerge where
  left : Nat
  right : Nat
  merge : Merge
  deriving DecidableEq, Inhabited

/-- The merges of each implicant with those that have one more one. -/
def placedMerges (implicants : List Implicant) : List PlacedMerge :=
  (groupBy (fun entry => entry.1.ones) implicants.zipIdx).flatMap fun (ones, lower) =>
    let upper := implicants.zipIdx.filter fun entry => entry.1.ones = ones + 1
    lower.flatMap fun left => upper.filterMap fun right =>
      (left.1.merge? right.1).map fun merged => ⟨left.2, right.2, ⟨left.1, right.1, merged⟩⟩

/-- The merges without the positions, as they are recorded. -/
def mergesOf (implicants : List Implicant) : List Merge :=
  (placedMerges implicants).map PlacedMerge.merge

/-- Mark the two positions of a merge. -/
def markUsed (marked : List Bool) (placed : PlacedMerge) : List Bool :=
  (marked.set placed.left true).set placed.right true

/-- For each position of a list whether a merge has used the implicant there. -/
def usedMarks (implicants : List Implicant) : List Bool :=
  (placedMerges implicants).foldl markUsed (List.replicate implicants.length false)

/-- Add an implicant to a list with one for each pattern: the one of its pattern takes over its
indices. -/
def addByPattern (implicants : List Implicant) (implicant : Implicant) : List Implicant :=
  match implicants with
  | [] => [implicant]
  | first :: rest =>
    if first.pattern = implicant.pattern then first.takeOver implicant :: rest
    else first :: addByPattern rest implicant

/-- One implicant for each pattern, in the order of first appearance, with all the indices. -/
def gatherByPattern (implicants : List Implicant) : List Implicant :=
  implicants.foldl addByPattern []

/-- One pass over the implicants: its number, what goes in, what is merged, and which of the inputs
the merges have used. -/
structure MergePass where
  number : Nat
  inputs : List Implicant
  merges : List Merge
  used : List Bool
  deriving DecidableEq, Inhabited

namespace MergePass

/-- The pass over a list of implicants. -/
def ofInputs (number : Nat) (implicants : List Implicant) : MergePass :=
  ⟨number, implicants, mergesOf implicants, usedMarks implicants⟩

/-- What the pass hands on. -/
def outputs (pass : MergePass) : List Implicant := gatherByPattern (pass.merges.map Merge.merged)

/-- What the pass leaves unmerged. -/
def unmerged (pass : MergePass) : List Implicant :=
  ((pass.inputs.zip pass.used).filter fun entry => !entry.2).map Prod.fst

end MergePass

/-! ### The passes end -/

/-- The greatest number of bits that one of the implicants fixes. -/
def mostLiterals : List Implicant → Nat
  | [] => 0
  | first :: rest => max first.literalCount (mostLiterals rest)

theorem literalCount_le_mostLiterals {implicant : Implicant} {implicants : List Implicant}
    (member : implicant ∈ implicants) : implicant.literalCount ≤ mostLiterals implicants := by
  induction implicants with
  | nil => simp at member
  | cons first rest ih =>
    rw [mostLiterals]
    rcases List.mem_cons.mp member with rfl | later
    · exact Nat.le_max_left _ _
    · exact Nat.le_trans (ih later) (Nat.le_max_right _ _)

theorem mostLiterals_lt {bound : Nat} {implicants : List Implicant} (nonempty : implicants ≠ [])
    (below : ∀ implicant ∈ implicants, implicant.literalCount < bound) :
    mostLiterals implicants < bound := by
  induction implicants with
  | nil => exact absurd rfl nonempty
  | cons first rest ih =>
    rw [mostLiterals, Nat.max_lt]
    refine ⟨below first List.mem_cons_self, ?_⟩
    cases rest with
    | nil => exact Nat.lt_of_le_of_lt (Nat.zero_le _) (below first List.mem_cons_self)
    | cons second others =>
      exact ih (List.cons_ne_nil _ _) fun implicant member =>
        below implicant (List.mem_cons_of_mem _ member)

theorem exists_pattern_of_mem_addByPattern {implicants : List Implicant} {new implicant : Implicant}
    (member : implicant ∈ addByPattern implicants new) :
    ∃ source, (source = new ∨ source ∈ implicants) ∧ source.pattern = implicant.pattern := by
  induction implicants with
  | nil => exact ⟨new, .inl rfl, by rw [List.mem_singleton.mp member]⟩
  | cons first rest ih =>
    rw [addByPattern] at member
    split at member
    · rcases List.mem_cons.mp member with rfl | later
      · exact ⟨first, .inr List.mem_cons_self, rfl⟩
      · exact ⟨implicant, .inr (List.mem_cons_of_mem _ later), rfl⟩
    · rcases List.mem_cons.mp member with rfl | later
      · exact ⟨implicant, .inr List.mem_cons_self, rfl⟩
      · obtain ⟨source, origin, same⟩ := ih later
        exact ⟨source, origin.imp_right (List.mem_cons_of_mem _), same⟩

theorem exists_pattern_of_mem_gatherByPattern {implicants : List Implicant} {implicant : Implicant}
    (member : implicant ∈ gatherByPattern implicants) :
    ∃ source ∈ implicants, source.pattern = implicant.pattern := by
  suffices general : ∀ start, implicant ∈ implicants.foldl addByPattern start →
      ∃ source, (source ∈ start ∨ source ∈ implicants) ∧ source.pattern = implicant.pattern by
    obtain ⟨source, origin, same⟩ := general [] member
    exact ⟨source, origin.resolve_left List.not_mem_nil, same⟩
  clear member
  induction implicants with
  | nil => exact fun start member => ⟨implicant, .inl member, rfl⟩
  | cons first rest ih =>
    intro start member
    obtain ⟨source, origin, same⟩ := ih _ member
    rcases origin with early | late
    · obtain ⟨earlier, earlierOrigin, earlierSame⟩ := exists_pattern_of_mem_addByPattern early
      refine ⟨earlier, ?_, earlierSame.trans same⟩
      rcases earlierOrigin with rfl | started
      · exact .inr List.mem_cons_self
      · exact .inl started
    · exact ⟨source, .inr (List.mem_cons_of_mem _ late), same⟩

/-- **The merges are those of two implicants of the list**, the second with one more one. -/
theorem mem_placedMerges_iff {placed : PlacedMerge} {implicants : List Implicant} :
    placed ∈ placedMerges implicants ↔ implicants[placed.left]? = some placed.merge.left ∧
      implicants[placed.right]? = some placed.merge.right ∧
      placed.merge.right.ones = placed.merge.left.ones + 1 ∧
      placed.merge.left.merge? placed.merge.right = some placed.merge.merged := by
  simp only [placedMerges, groupBy, List.mem_flatMap, List.mem_map, List.mem_filterMap,
    Option.map_eq_some_iff]
  constructor
  · rintro ⟨_, ⟨number, _, rfl⟩, left, lower, right, upper, merged, joined, rfl⟩
    simp only [List.mem_filter, decide_eq_true_eq, List.mem_zipIdx_iff_getElem?] at lower upper
    exact ⟨lower.1, upper.1, by rw [lower.2, upper.2], joined⟩
  · rintro ⟨leftHere, rightHere, oneMore, joined⟩
    have leftIn : (placed.merge.left, placed.left) ∈ implicants.zipIdx :=
      List.mem_zipIdx_iff_getElem?.mpr leftHere
    have rightIn : (placed.merge.right, placed.right) ∈ implicants.zipIdx :=
      List.mem_zipIdx_iff_getElem?.mpr rightHere
    refine ⟨_, ⟨placed.merge.left.ones, IndexSet.mem_toList.mpr (IndexSet.mem_ofList.mpr
      (List.mem_map.mpr ⟨_, leftIn, rfl⟩)), rfl⟩, (placed.merge.left, placed.left), ?_,
      (placed.merge.right, placed.right), ?_, placed.merge.merged, joined, rfl⟩
    · exact List.mem_filter.mpr ⟨leftIn, decide_eq_true rfl⟩
    · exact List.mem_filter.mpr ⟨rightIn, decide_eq_true oneMore⟩

theorem mem_mergesOf {merge : Merge} {implicants : List Implicant}
    (member : merge ∈ mergesOf implicants) :
    merge.left ∈ implicants ∧ merge.left.merge? merge.right = some merge.merged := by
  obtain ⟨placed, placedIn, rfl⟩ := List.mem_map.mp member
  obtain ⟨leftHere, _, _, joined⟩ := mem_placedMerges_iff.mp placedIn
  exact ⟨List.mem_of_getElem? leftHere, joined⟩

/-- What a pass hands on fixes fewer bits than what went in. -/
theorem mostLiterals_outputs_lt {number : Nat} {implicants : List Implicant}
    (more : (MergePass.ofInputs number implicants).outputs ≠ []) :
    mostLiterals (MergePass.ofInputs number implicants).outputs < mostLiterals implicants := by
  refine mostLiterals_lt more fun implicant member => ?_
  obtain ⟨source, origin, same⟩ := exists_pattern_of_mem_gatherByPattern member
  obtain ⟨merge, merged, rfl⟩ := List.mem_map.mp origin
  obtain ⟨input, joined⟩ := mem_mergesOf merged
  have fewer := Implicant.literalCount_merge joined
  have bounded := literalCount_le_mostLiterals input
  rw [Implicant.literalCount, ← same]
  exact Nat.lt_of_lt_of_le (Nat.lt_of_lt_of_eq (Nat.lt_succ_self _) fewer) bounded

/-- The passes from a list of implicants on, up to the first that hands nothing on. -/
def passesFrom (number : Nat) (implicants : List Implicant) : List MergePass :=
  let pass := MergePass.ofInputs number implicants
  if more : pass.outputs = [] then [pass]
  else pass :: passesFrom (number + 1) pass.outputs
termination_by mostLiterals implicants
decreasing_by exact mostLiterals_outputs_lt more

/-! ### The search -/

/-- A search for prime implicants. -/
inductive PrimeSearch where
  /-- There is no target row. -/
  | nothing
  /-- There is one target row and no other row: its implicant is the only prime one. -/
  | single (index : Nat) (implicant : Implicant)
  /-- The passes from the implicants of single rows on. -/
  | merging (target : IndexSet) (passes : List MergePass)
  deriving DecidableEq, Inhabited

namespace PrimeSearch

/-- The implicants of the rows of two lists, ascending by the index. -/
def seeds (width : Nat) (target dontCare : List Nat) : List Implicant :=
  (IndexSet.ofList (target ++ dontCare)).toList.map (Implicant.ofIndex width)

/-- The search for the implicants of target rows, which may also cover the rows of `dontCare`. -/
def ofIndices (width : Nat) (target dontCare : List Nat) : PrimeSearch :=
  match target, dontCare with
  | [], _ => nothing
  | [index], [] => single index (.ofIndex width index)
  | target, dontCare => merging (.ofList target) (passesFrom 1 (seeds width target dontCare))

/-- The implicants of single rows in a build, if no shift stops the program. -/
def seedsIn (build : Build) (width : Nat) (target dontCare : List Nat) : Option (List Implicant) :=
  (IndexSet.ofList (target ++ dontCare)).toList.mapM (Implicant.ofIndexIn build width)

/-- The search in a build, if no shift stops the program. -/
def ofIndicesIn (build : Build) (width : Nat) (target dontCare : List Nat) : Option PrimeSearch :=
  match target, dontCare with
  | [], _ => some nothing
  | [index], [] => do
    let implicant ← Implicant.ofIndexIn build width index
    return single index implicant
  | target, dontCare => do
    let seeds ← seedsIn build width target dontCare
    return merging (.ofList target) (passesFrom 1 seeds)

/-- The prime implicants that cover a target row, in the order of implicants. -/
def primes : PrimeSearch → List Implicant
  | nothing => []
  | single _ implicant => [implicant]
  | merging target passes =>
    sortBy compare
      ((passes.flatMap MergePass.unmerged).filter fun prime => prime.minterms.meets target)

/-- Whether the search needed no pass because there was one row only. -/
def isSingle : PrimeSearch → Bool
  | single _ _ => true
  | nothing | merging _ _ => false

/-! ### Searches in a build -/

section Builds

variable {build : Build} {width : Nat}

theorem seedsIn_of_reads (reads : build.Reads width) (target dontCare : List Nat) :
    seedsIn build width target dontCare = some (seeds width target dontCare) := by
  have every : Implicant.ofIndexIn build width = fun index => some (.ofIndex width index) :=
    funext (Implicant.ofIndexIn_of_reads reads)
  rw [seedsIn, every]
  exact List.mapM_pure

/-- Where a build reads rows of the width, it makes the search. -/
theorem ofIndicesIn_of_reads (reads : build.Reads width) (target dontCare : List Nat) :
    ofIndicesIn build width target dontCare = some (ofIndices width target dontCare) := by
  unfold ofIndicesIn ofIndices
  split
  · rfl
  · rw [Implicant.ofIndexIn_of_reads reads]
    rfl
  · rw [seedsIn_of_reads reads]
    rfl

/-- Where it does not, it stops at the first row, if there is a target. -/
theorem ofIndicesIn_of_not_reads (stops : ¬ build.Reads width) {target : List Nat}
    (nonempty : target ≠ []) (dontCare : List Nat) :
    ofIndicesIn build width target dontCare = none := by
  have seeds : seedsIn build width target dontCare = none := by
    obtain ⟨index, member⟩ := List.exists_mem_of_ne_nil target nonempty
    have listed : index ∈ (IndexSet.ofList (target ++ dontCare)).toList :=
      IndexSet.mem_toList.mpr (IndexSet.mem_ofList.mpr (List.mem_append_left _ member))
    rw [seedsIn]
    cases rows : (IndexSet.ofList (target ++ dontCare)).toList with
    | nil => rw [rows] at listed; cases listed
    | cons first rest => rw [List.mapM_cons, Implicant.ofIndexIn_of_not_reads stops]; rfl
  unfold ofIndicesIn
  split
  · exact absurd rfl nonempty
  · rw [Implicant.ofIndexIn_of_not_reads stops]
    rfl
  · rw [seeds]
    rfl

end Builds

end PrimeSearch

end TwoLevel
