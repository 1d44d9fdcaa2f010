/-
**The steps of a selection determine the cover.**

A selection is traced in two parts. Each essential implicant has a step of its own, with the least row
that it alone covers; one more step, if rows are left open, names the implicants that complete them.
Nothing is said twice and nothing is left out: the cover can be read off the steps, and it is made of
the positions that the steps stand for, each taken once.

* `Step.taken` — the implicants that a step takes into the cover;
* `positionsInOrder`, `implicantsAt_positionsInOrder` — positions sorted by their implicants are the
  sorted implicants, also where implicants are repeated;
* `SelectionRecord` — what the steps record, fact by fact;
* `selectionRecord` — **the steps of every selection are such a record**;
* `exists_selection_steps`, `exists_lone_steps` — a minimization only puts the steps of its search in
  front, and its shortcut has steps of its own;
* `steps_determine_cover` — the whole.
-/

import Mathlib.Order.Bounds.Basic
import TwoLevel.Proofs.MergeTrace
import TwoLevel.Proofs.Reordering

namespace TwoLevel

/-- The implicants that a step takes into the cover. -/
def Step.taken : Step → List Implicant
  | single _ term => [term]
  | grouped _ | merged _ _ => []
  | essential implicant _ => [implicant]
  | completed chosen => chosen

/-! ### Positions in the order of their implicants -/

/-- The implicant at a position of the list. -/
def implicantAt (implicants : List Implicant) (position : Nat) : Implicant :=
  implicants[position]?.getD default

/-- The positions of a set in the order of the implicants there; of equal implicants the one with the
smaller position comes first. -/
def positionsInOrder (implicants : List Implicant) (set : IndexSet) : List Nat :=
  sortBy (compareOn (implicantAt implicants)) set.toList

section Positions

variable {implicants : List Implicant} {set : IndexSet}

theorem mem_positionsInOrder {position : Nat} :
    position ∈ positionsInOrder implicants set ↔ position ∈ set :=
  mem_sortBy

/-- Positions of the list have their implicants one by one. -/
theorem implicantsAt_eq_map {positions : List Nat}
    (bounded : ∀ position ∈ positions, position < implicants.length) :
    implicantsAt implicants positions = positions.map (implicantAt implicants) := by
  unfold implicantsAt
  rw [← List.filterMap_eq_map]
  refine List.filterMap_congr fun position member => ?_
  have here := List.getElem?_eq_getElem (bounded position member)
  simp [implicantAt, here]

/-- **Sorting positions by their implicants sorts the implicants.** -/
theorem implicantsAt_positionsInOrder
    (bounded : ∀ position ∈ set, position < implicants.length) :
    implicantsAt implicants (positionsInOrder implicants set) =
      sortBy compare (implicantsAt implicants set.toList) := by
  rw [implicantsAt_eq_map fun position member => bounded position (mem_positionsInOrder.mp member),
    implicantsAt_eq_map bounded]
  exact (sortBy_map (implicantAt implicants) fun _ _ _ _ => rfl).symm

theorem nodup_positionsInOrder : (positionsInOrder implicants set).Nodup :=
  (perm_sortBy _ _).nodup_iff.mpr (IndexSet.nodup_toList set)

end Positions

/-! ### The record of a selection -/

/-- What the steps of a selection record: the essential entries, and the positions that a completing
step adds, in the order of the implicants there. -/
structure SelectionRecord (implicants : List Implicant) (target : List Nat) (selection : Selection)
    (essential : List Essential) (added? : Option (List Nat)) : Prop where
  /-- The steps are those of the essential entries and then at most one that completes them. -/
  steps_eq : selection.steps =
    essential.map (fun entry => .essential entry.implicant entry.index) ++
      (added?.map fun added => Step.completed (implicantsAt implicants added)).toList
  /-- An entry is a position that alone covers target rows, with the least of these rows. -/
  mem_essential_iff : ∀ entry, entry ∈ essential ↔
    implicants[entry.position]? = some entry.implicant ∧
      IsLeast {row | row ∈ target ∧ OnlyCovers implicants entry.position row} entry.index
  /-- No position has two entries. -/
  nodup_essential : (essential.map Essential.position).Nodup
  ascending : essential.Pairwise fun first second => first.index < second.index
  /-- A step completes the essential ones exactly if they leave a target row open. -/
  isSome_added_iff : added?.isSome = true ↔
    ∃ row ∈ target, ∀ entry ∈ essential, ¬ CoversAt implicants entry.position row
  sorted : ∀ added ∈ added?,
    (implicantsAt implicants added).Pairwise fun first second => (compare first second).isLE
  /-- The completing step adds positions of the list that are not essential, each once. -/
  added_new : ∀ added ∈ added?, added.Nodup ∧ ∀ position ∈ added,
    position < implicants.length ∧ position ∉ essential.map Essential.position
  /-- The cover is what the steps take into it. -/
  selected_eq : selection.selected = selection.steps.flatMap Step.taken
  /-- It holds the implicants at the essential positions and then those at the added ones. -/
  selected_at : selection.selected =
    implicantsAt implicants (essential.map Essential.position ++ added?.getD [])

section Record

variable {implicants : List Implicant} {target : List Nat} {selection : Selection}

/-- **A selection takes the implicants of its steps.** -/
theorem Selection.selected_eq_taken (selects : Selection.ofTarget implicants target = .ok selection) :
    selection.selected = selection.steps.flatMap Step.taken := by
  have entries : ((essentials implicants (.ofList target)).map fun entry =>
      Step.essential entry.implicant entry.index).flatMap Step.taken =
        (essentials implicants (.ofList target)).map Essential.implicant := by
    rw [List.flatMap_map]
    exact List.flatMap_pure_eq_map _ _
  rw [selected_eq selects, eq_of_ofTarget selects, steps, List.flatMap_append, entries]
  split
  · next nothing =>
    rw [completion, openClauses, nothing]
    rfl
  · simp [Step.taken]

/-- An essential entry is a position that alone covers target rows, with the least of these rows. -/
theorem mem_essentials_iff_isLeast {entry : Essential} :
    entry ∈ essentials implicants (.ofList target) ↔
      implicants[entry.position]? = some entry.implicant ∧
        IsLeast {row | row ∈ target ∧ OnlyCovers implicants entry.position row} entry.index := by
  rw [mem_essentials_iff, alone_iff]
  simp only [IndexSet.mem_ofList, covering_eq_singleton_iff, IsLeast, mem_lowerBounds,
    Set.mem_ofPred_eq, and_imp]
  constructor
  · rintro ⟨⟨inTarget, only, here⟩, least⟩
    exact ⟨here, ⟨inTarget, only⟩, least⟩
  · rintro ⟨here, ⟨inTarget, only⟩, least⟩
    exact ⟨⟨inTarget, only, here⟩, least⟩

/-- An entry covers the rows that its position covers. -/
theorem coversAt_position_iff {entry : Essential} {row : Nat}
    (here : implicants[entry.position]? = some entry.implicant) :
    CoversAt implicants entry.position row ↔ entry.implicant.covers row = true := by
  unfold CoversAt
  rw [here]
  constructor
  · rintro ⟨implicant, same, covers⟩
    cases same
    exact covers
  · exact fun covers => ⟨entry.implicant, rfl, covers⟩

/-- Rows are left open exactly if no essential position covers some target row. -/
theorem remaining_ne_nil_iff :
    Selection.remaining (essentials implicants (.ofList target)) (.ofList target) ≠ [] ↔
      ∃ row ∈ target, ∀ entry ∈ essentials implicants (.ofList target),
        ¬ CoversAt implicants entry.position row := by
  rw [ne_eq, List.eq_nil_iff_forall_not_mem, not_forall_not]
  refine exists_congr fun row => ?_
  rw [Selection.mem_remaining_iff, IndexSet.mem_ofList]
  refine and_congr_right fun _ => forall₂_congr fun entry member => not_congr ?_
  exact (coversAt_position_iff (mem_essentials_iff_isLeast.mp member).1).symm

/-- The positions that complete the essential ones, if these leave rows open. -/
def addedPositions? (implicants : List Implicant) (target : IndexSet) : Option (List Nat) :=
  if Selection.remaining (essentials implicants target) target = [] then none
  else some (positionsInOrder implicants (completion implicants target).best)

theorem isSome_addedPositions?_iff {rows : IndexSet} :
    (addedPositions? implicants rows).isSome = true ↔
      Selection.remaining (essentials implicants rows) rows ≠ [] := by
  unfold addedPositions?
  split <;> simp [*]

theorem eq_of_mem_addedPositions? {rows : IndexSet} {added : List Nat}
    (found : added ∈ addedPositions? implicants rows) :
    added = positionsInOrder implicants (completion implicants rows).best := by
  unfold addedPositions? at found
  split at found
  · cases found
  · cases found
    rfl

/-- The implicants at the added positions are the chosen ones. -/
theorem chosen_eq_implicantsAt
    (coverable : ∀ index ∈ target, ∃ implicant ∈ implicants, implicant.covers index = true) :
    (completion implicants (.ofList target)).chosen =
      implicantsAt implicants
        (positionsInOrder implicants (completion implicants (.ofList target)).best) :=
  (implicantsAt_positionsInOrder fun _ => lt_length_of_mem_best coverable).symm

/-- **The steps of every selection are a record of it.** -/
theorem selectionRecord (selects : Selection.ofTarget implicants target = .ok selection) :
    SelectionRecord implicants target selection (essentials implicants (.ofList target))
      (addedPositions? implicants (.ofList target)) where
  steps_eq := by
    have chosen := chosen_eq_implicantsAt (Selection.coverable_of_ofTarget selects)
    rw [Selection.eq_of_ofTarget selects, addedPositions?]
    split
    · rfl
    · rw [Option.map_some, ← chosen]
      rfl
  mem_essential_iff _ := mem_essentials_iff_isLeast
  nodup_essential := nodup_positions_essentials
  ascending := pairwise_essentials
  isSome_added_iff := isSome_addedPositions?_iff.trans remaining_ne_nil_iff
  sorted added found := by
    rw [eq_of_mem_addedPositions? found,
      ← chosen_eq_implicantsAt (Selection.coverable_of_ofTarget selects)]
    exact pairwise_sortBy _
  added_new added found := by
    have coverable := Selection.coverable_of_ofTarget selects
    rw [eq_of_mem_addedPositions? found]
    refine ⟨nodup_positionsInOrder, fun position member => ?_⟩
    have chosen := mem_positionsInOrder.mp member
    exact ⟨lt_length_of_mem_best coverable chosen,
      Selection.not_essential_of_mem_best coverable chosen⟩
  selected_eq := Selection.selected_eq_taken selects
  selected_at := by
    have chosen := chosen_eq_implicantsAt (Selection.coverable_of_ofTarget selects)
    rw [implicantsAt, List.filterMap_append, ← implicantsAt, ← implicantsAt,
      implicantsAt_essentials, Selection.selected_eq selects, addedPositions?]
    split
    · next nothing =>
      rw [completion, openClauses, nothing]
      rfl
    · rw [chosen]
      rfl

end Record

/-! ### The record of a minimization -/

section Minimizations

variable {names : List String} {target dontCare : List Nat} {minimization : Minimization}

/-- Away from the shortcut the steps of a search are its groups and merges. -/
theorem steps_ofIndices_cases {width : Nat} (notLone : ¬ LoneRow target dontCare) {step : Step}
    (member : step ∈ (PrimeSearch.ofIndices width target dontCare).steps) :
    (∃ groups, step = .grouped groups) ∨ ∃ pass merge, step = .merged pass merge := by
  by_cases empty : target = []
  · subst empty
    cases member
  · rw [ofIndices_eq_merging width empty notLone, steps_merging, List.mem_cons, List.mem_map] at member
    rcases member with rfl | ⟨entry, _, rfl⟩
    · exact .inl ⟨_, rfl⟩
    · exact .inr ⟨_, _, rfl⟩

/-- Groups and merges take nothing into the cover. -/
theorem flatMap_taken_ofIndices (width : Nat) (notLone : ¬ LoneRow target dontCare) :
    (PrimeSearch.ofIndices width target dontCare).steps.flatMap Step.taken = [] := by
  refine List.flatMap_eq_nil_iff.mpr fun step member => ?_
  rcases steps_ofIndices_cases notLone member with ⟨groups, rfl⟩ | ⟨pass, merge, rfl⟩ <;> rfl

/-- **Away from the shortcut a minimization puts the steps of its search in front of those of the
selection**, and selects what the selection does. -/
theorem exists_selection_steps (names : List String) (notLone : ¬ LoneRow target dontCare) :
    ∃ minimization selection, Minimization.ofIndices names target dontCare = .ok minimization ∧
      Selection.ofTarget minimization.primes target = .ok selection ∧
      minimization.steps =
        (PrimeSearch.ofIndices names.length target dontCare).steps ++ selection.steps ∧
      minimization.selected = selection.selected := by
  by_cases empty : target = []
  · subst empty
    exact ⟨_, ⟨[], none⟩, rfl, rfl, rfl, rfl⟩
  · obtain ⟨selection, selects, _⟩ :=
      Selection.exists_ofTarget (primes_cover names.length target dontCare)
    have search := ofIndices_eq_merging names.length empty notLone
    exact ⟨_, selection, Minimization.ofIndices_merging search selects, selects, rfl, rfl⟩

/-- The shortcut takes the one implicant of its only step. -/
theorem exists_lone_steps (names : List String) (lone : LoneRow target dontCare) :
    ∃ minimization, Minimization.ofIndices names target dontCare = .ok minimization ∧
      minimization.selected = minimization.steps.flatMap Step.taken := by
  obtain ⟨one, rfl⟩ := lone
  obtain ⟨index, rfl⟩ := List.length_eq_one_iff.mp one
  exact ⟨_, rfl, rfl⟩

end Minimizations

/-- **The steps of a selection determine the cover.** Whatever the implicants and the target rows are,
a selection has one step for each position that alone covers a target row, with the least such row and
in the order of these rows, and then one step more exactly if a target row is left open, with sorted
implicants at other positions; the cover is what the steps take into it, in their order. So it is for
every minimization; away from the shortcut for a single row, its steps are the groups and merges of
its search, unchanged, and then the steps of the selection from its prime implicants. -/
theorem steps_determine_cover :
    (∀ implicants target selection, Selection.ofTarget implicants target = .ok selection →
      ∃ essential added?, SelectionRecord implicants target selection essential added?) ∧
    ∀ names target dontCare, ∃ minimization,
      Minimization.ofIndices names target dontCare = .ok minimization ∧
      minimization.selected = minimization.steps.flatMap Step.taken ∧
      (¬ LoneRow target dontCare → ∃ searching selection,
        Selection.ofTarget minimization.primes target = .ok selection ∧
        minimization.steps = searching ++ selection.steps ∧
        minimization.selected = selection.selected ∧
        searching = (PrimeSearch.ofIndices names.length target dontCare).steps ∧
        ∀ step ∈ searching,
          (∃ groups, step = .grouped groups) ∨ ∃ pass merge, step = .merged pass merge) := by
  refine ⟨fun implicants target selection selects => ⟨_, _, selectionRecord selects⟩, ?_⟩
  intro names target dontCare
  by_cases lone : LoneRow target dontCare
  · obtain ⟨minimization, result, taken⟩ := exists_lone_steps names lone
    exact ⟨minimization, result, taken, fun notLone => absurd lone notLone⟩
  · obtain ⟨minimization, selection, result, selects, steps, selected⟩ :=
      exists_selection_steps names lone
    have taken : minimization.selected = minimization.steps.flatMap Step.taken := by
      rw [selected, Selection.selected_eq_taken selects, steps, List.flatMap_append,
        flatMap_taken_ofIndices names.length lone, List.nil_append]
    exact ⟨minimization, result, taken, fun notLone => ⟨_, selection, selects, steps, selected, rfl,
      fun step => steps_ofIndices_cases notLone⟩⟩

/-- An implicant for two rows and, twice, one for the two others. -/
def repeatedHalf : List Implicant :=
  [⟨[.zero, .dash], .ofList [0, 1]⟩, ⟨[.one, .dash], .ofList [2, 3]⟩,
    ⟨[.one, .dash], .ofList [2, 3]⟩]

/-- The first implicant is essential; of the equal ones none is, and one of them completes it. -/
theorem steps_determine_cover_repeated_half :
    ∃ selection essential added?,
      Selection.ofTarget repeatedHalf [3, 1, 0, 2] = .ok selection ∧
      selection.steps = [.essential ⟨[.zero, .dash], .ofList [0, 1]⟩ 0,
        .completed [⟨[.one, .dash], .ofList [2, 3]⟩]] ∧
      SelectionRecord repeatedHalf [3, 1, 0, 2] selection essential added? := by
  obtain ⟨records, _⟩ := steps_determine_cover
  have traced : (Selection.ofTarget repeatedHalf [3, 1, 0, 2]).map Selection.steps =
      .ok [.essential ⟨[.zero, .dash], .ofList [0, 1]⟩ 0,
        .completed [⟨[.one, .dash], .ofList [2, 3]⟩]] := rfl
  obtain ⟨selection, selects, steps⟩ := map_eq_ok_iff.mp traced
  obtain ⟨essential, added?, record⟩ := records repeatedHalf [3, 1, 0, 2] selection selects
  exact ⟨selection, essential, added?, selects, steps, record⟩

end TwoLevel
