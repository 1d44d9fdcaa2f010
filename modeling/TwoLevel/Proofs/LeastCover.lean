/-
**The selection from any list of implicants.**

The implicants need not be prime or different, and the target may list its rows in any order. A
selection fails just where some target row cannot be covered, and reports the first such row. Else
it consists of the positions that alone cover a target row, in the order of the least such rows, and
of one more set of positions: of all sets that cover the rows left open, the one of least rank, and
of several with this rank the one with the least positions.

* `CoversAt`, `OnlyCovers`, `IsEssential` — which positions cover a row, and which are essential;
* `Completes` — a set of positions covers what the essential ones leave open;
* `completes_iff_hits` — these are the sets that meet all clauses;
* `SelectsLeast` — what a selection consists of, fact by fact;
* `selection_of_least_rank` — **when a selection fails, and what it is otherwise**.
-/

import TwoLevel.Proofs.Selection

namespace TwoLevel

/-! ### Essential positions -/

/-- The implicant at the position covers the row. -/
def CoversAt (implicants : List Implicant) (position index : Nat) : Prop :=
  ∃ implicant, implicants[position]? = some implicant ∧ implicant.covers index = true

/-- The implicant at the position covers the row, and that at no other position does. -/
def OnlyCovers (implicants : List Implicant) (position index : Nat) : Prop :=
  ∀ other, CoversAt implicants other index ↔ other = position

/-- The implicant at the position alone covers some target row. -/
def IsEssential (implicants : List Implicant) (target : List Nat) (position : Nat) : Prop :=
  ∃ index ∈ target, OnlyCovers implicants position index

section Essentials

variable {implicants : List Implicant} {target : List Nat} {position index : Nat}

theorem CoversAt.lt_length (covers : CoversAt implicants position index) :
    position < implicants.length := by
  obtain ⟨implicant, here, _⟩ := covers
  exact (List.getElem?_eq_some_iff.mp here).1

theorem exists_coversAt_iff :
    (∃ position, CoversAt implicants position index) ↔
      ∃ implicant ∈ implicants, implicant.covers index = true := by
  constructor
  · rintro ⟨position, implicant, here, covers⟩
    exact ⟨implicant, List.mem_of_getElem? here, covers⟩
  · rintro ⟨implicant, member, covers⟩
    obtain ⟨position, here⟩ := List.mem_iff_getElem?.mp member
    exact ⟨position, implicant, here, covers⟩

/-- The positions that cover a row are listed in ascending order. -/
theorem pairwise_covering (implicants : List Implicant) (index : Nat) :
    (covering implicants index).Pairwise (· < ·) := by
  unfold covering
  refine List.pairwise_filterMap.mpr (List.pairwise_iff_getElem.mpr ?_)
  intro first second _ _ before position found other otherFound
  simp only [List.getElem_zipIdx, Option.ite_none_right_eq_some, Option.some.injEq] at found otherFound
  omega

/-- A row has one position for a clause exactly if only that one covers it. -/
theorem covering_eq_singleton_iff :
    covering implicants index = [position] ↔ OnlyCovers implicants position index := by
  constructor
  · intro alone other
    unfold CoversAt
    rw [← mem_covering_iff, alone, List.mem_singleton]
  · intro only
    refine IndexSet.ascending_ext (pairwise_covering implicants index)
      (List.pairwise_singleton _ position) fun other => ?_
    rw [mem_covering_iff, List.mem_singleton]
    exact only other

theorem alone_iff {entry : Essential} :
    Alone implicants (.ofList target) entry ↔ entry.index ∈ target ∧
      OnlyCovers implicants entry.position entry.index ∧
        implicants[entry.position]? = some entry.implicant := by
  unfold Alone
  rw [IndexSet.mem_ofList, covering_eq_singleton_iff]

/-- **The entries of the essential implicants have the essential positions.** -/
theorem mem_positions_essentials_iff :
    position ∈ (essentials implicants (.ofList target)).map Essential.position ↔
      IsEssential implicants target position := by
  constructor
  · intro member
    obtain ⟨entry, found, rfl⟩ := List.mem_map.mp member
    obtain ⟨inTarget, only, _⟩ := alone_iff.mp (mem_essentials_iff.mp found).1
    exact ⟨entry.index, inTarget, only⟩
  · intro essential
    -- the entry has the least of the rows that the position alone covers
    classical
    obtain ⟨inTarget, only⟩ := Nat.find_spec essential
    obtain ⟨implicant, here, _⟩ := (only position).mpr rfl
    refine List.mem_map.mpr ⟨⟨position, implicant, Nat.find essential⟩, ?_, rfl⟩
    refine mem_essentials_iff.mpr ⟨alone_iff.mpr ⟨inTarget, only, here⟩, fun row inRows alone => ?_⟩
    exact Nat.find_min' essential ⟨IndexSet.mem_ofList.mp inRows, covering_eq_singleton_iff.mp alone⟩

/-- The essential positions stand in the order of the least rows that each alone covers. -/
theorem pairwise_positions_essentials :
    ((essentials implicants (.ofList target)).map Essential.position).Pairwise fun first second =>
      ∃ row ∈ target, OnlyCovers implicants first row ∧
        ∀ other ∈ target, OnlyCovers implicants second other → row < other := by
  refine List.pairwise_map.mpr (pairwise_essentials.imp_of_mem ?_)
  intro first second firstIn secondIn before
  obtain ⟨firstAlone, _⟩ := mem_essentials_iff.mp firstIn
  obtain ⟨_, secondLeast⟩ := mem_essentials_iff.mp secondIn
  obtain ⟨inTarget, only, _⟩ := alone_iff.mp firstAlone
  refine ⟨first.index, inTarget, only, fun other otherIn otherOnly => ?_⟩
  exact Nat.lt_of_lt_of_le before (secondLeast other (IndexSet.mem_ofList.mpr otherIn)
    (covering_eq_singleton_iff.mpr otherOnly))

end Essentials

/-! ### Completing sets -/

/-- The set of positions covers every target row that no essential position covers. -/
def Completes (implicants : List Implicant) (target : List Nat) (set : IndexSet) : Prop :=
  ∀ index ∈ target,
    (∀ position, IsEssential implicants target position → ¬ CoversAt implicants position index) →
      ∃ position ∈ set, CoversAt implicants position index

section Completing

variable {implicants : List Implicant} {target : List Nat} {set : IndexSet}

/-- **The completing sets are those that meet all clauses.** -/
theorem completes_iff_hits :
    Completes implicants target set ↔ Hits (openClauses implicants (.ofList target)) set := by
  simp only [Completes, Selection.hits_openClauses_iff, Selection.mem_remaining_iff_positions,
    mem_positions_essentials_iff, IndexSet.mem_ofList, mem_covering_iff, and_imp]
  refine forall₂_congr fun index _ => forall_congr' fun _ => exists_congr fun position => ?_
  exact and_comm

/-- The completion has only positions of the list. -/
theorem lt_length_of_mem_best
    (coverable : ∀ index ∈ target, ∃ implicant ∈ implicants, implicant.covers index = true)
    {position : Nat} (chosen : position ∈ (completion implicants (.ofList target)).best) :
    position < implicants.length := by
  obtain ⟨clause, clauseIn, inClause⟩ :=
    Completion.exists_clause_of_mem_best (Selection.exists_hits coverable) chosen
  obtain ⟨index, _, rfl⟩ := List.mem_map.mp clauseIn
  exact CoversAt.lt_length (mem_covering_iff.mp inClause)

/-- A completing set that is not the completion is greater. -/
theorem completion_lt (completes : Completes implicants target set)
    (different : set ≠ (completion implicants (.ofList target)).best) :
    coverOrder implicants (completion implicants (.ofList target)).best set = .lt := by
  have hits := completes_iff_hits.mp completes
  obtain ⟨_, least⟩ := Completion.best_spec implicants ⟨set, hits⟩
  exact lt_of_isLE_of_ne (least set hits) different.symm

end Completing

/-! ### The selection -/

/-- What a selection consists of: the implicants at the essential positions, and those at the
positions of a completing set in the order of implicants. Every other completing set has a greater
rank or, with an equal one, greater positions, and no set of positions that covers the target costs
less than the whole. -/
structure SelectsLeast (implicants : List Implicant) (target : List Nat) (selected : List Implicant)
    (essential : List Nat) (rest : IndexSet) : Prop where
  selected_eq : ∃ chosen, selected = implicantsAt implicants essential ++ chosen ∧
    chosen.Perm (implicantsAt implicants rest.toList) ∧
    chosen.Pairwise fun first second => (compare first second).isLE
  mem_essential_iff : ∀ position, position ∈ essential ↔ IsEssential implicants target position
  byLeastRow : essential.Pairwise fun first second =>
    ∃ row ∈ target, OnlyCovers implicants first row ∧
      ∀ other ∈ target, OnlyCovers implicants second other → row < other
  lt_length : ∀ position ∈ rest, position < implicants.length
  disjoint : ∀ position ∈ rest, ¬ IsEssential implicants target position
  completes : Completes implicants target rest
  least : ∀ set, Completes implicants target set → set ≠ rest →
    coverOrder implicants rest set = .lt
  cost_le : ∀ set : IndexSet,
    (∀ index ∈ target, ∃ position ∈ set, CoversAt implicants position index) →
      cost (selected.map Implicant.pattern) ≤
        toLex (set.size, literalTotal (patternsAt implicants set.toList))

section Selects

variable {implicants : List Implicant} {target : List Nat}

/-- The selection fails exactly where a target row cannot be covered, with the first such row. -/
theorem ofTarget_eq_error_iff {error : InternalError} :
    Selection.ofTarget implicants target = .error error ↔
      ∃ before index after, target = before ++ index :: after ∧
        (∀ row ∈ before, ∃ position, CoversAt implicants position row) ∧
        (¬ ∃ position, CoversAt implicants position index) ∧ error = .uncoverableIndex index := by
  have uncovered : ∀ row, (!implicants.any fun implicant => implicant.covers row) = true ↔
      ¬ ∃ position, CoversAt implicants position row := by
    intro row
    rw [exists_coversAt_iff, Bool.not_eq_true', Bool.eq_false_iff, ne_eq, List.any_eq_true]
  constructor
  · intro fails
    rw [Selection.ofTarget] at fails
    split at fails
    · next index found =>
      obtain ⟨bare, before, after, split, earlier⟩ := List.find?_eq_some_iff_append.mp found
      cases fails
      refine ⟨before, index, after, split, fun row member => ?_, (uncovered index).mp bare, rfl⟩
      exact not_not.mp (mt (uncovered row).mpr (by simpa using earlier row member))
    · simp only at fails
      split at fails <;> cases fails
  · rintro ⟨before, index, after, split, earlier, bare, rfl⟩
    have found : (target.find? fun row => !implicants.any fun implicant => implicant.covers row) =
        some index := by
      refine List.find?_eq_some_iff_append.mpr
        ⟨(uncovered index).mpr bare, before, after, split, fun row member => ?_⟩
      rw [Bool.not_eq_true', Bool.eq_false_iff, ne_eq, uncovered, not_not]
      exact earlier row member
    rw [Selection.ofTarget, found]

theorem selectsLeast {selection : Selection}
    (selects : Selection.ofTarget implicants target = .ok selection) :
    SelectsLeast implicants target selection.selected
      ((essentials implicants (.ofList target)).map Essential.position)
      (completion implicants (.ofList target)).best where
  selected_eq := by
    refine ⟨(completion implicants (.ofList target)).chosen, ?_, perm_sortBy _ _, pairwise_sortBy _⟩
    rw [implicantsAt_essentials]
    exact Selection.selected_eq selects
  mem_essential_iff _ := mem_positions_essentials_iff
  byLeastRow := pairwise_positions_essentials
  lt_length _ := lt_length_of_mem_best (Selection.coverable_of_ofTarget selects)
  disjoint position chosen essential :=
    Selection.not_essential_of_mem_best (Selection.coverable_of_ofTarget selects) chosen
      (mem_positions_essentials_iff.mpr essential)
  completes := completes_iff_hits.mpr (Completion.best_spec implicants
    (Selection.exists_hits (Selection.coverable_of_ofTarget selects))).1
  least _ := completion_lt
  cost_le set covers := by
    refine Selection.cost_selected_le selects fun index member => ?_
    obtain ⟨position, inSet, coversAt⟩ := covers index member
    exact ⟨position, mem_covering_iff.mpr coversAt, inSet⟩

end Selects

/-- **When a selection fails, and what it is otherwise.** It fails exactly if some target row cannot
be covered, with the first such row of the target. Else it consists of the essential implicants, in
the order of the least rows that each alone covers, and of the implicants at the one completing set
of positions that has the least number of positions, then of literals, then sorted patterns, then
positions. So it has the fewest implicants, and of equally many the fewest literals, of all sets of
positions that cover the target. -/
theorem selection_of_least_rank (implicants : List Implicant) (target : List Nat) :
    (∀ error, Selection.ofTarget implicants target = .error error ↔
      ∃ before index after, target = before ++ index :: after ∧
        (∀ row ∈ before, ∃ position, CoversAt implicants position row) ∧
        (¬ ∃ position, CoversAt implicants position index) ∧ error = .uncoverableIndex index) ∧
    ((∀ index ∈ target, ∃ position, CoversAt implicants position index) →
      ∃ selection essential rest, Selection.ofTarget implicants target = .ok selection ∧
        SelectsLeast implicants target selection.selected essential rest) := by
  refine ⟨fun error => ofTarget_eq_error_iff, fun coverable => ?_⟩
  obtain ⟨selection, selects, _⟩ := Selection.exists_ofTarget fun index member =>
    exists_coversAt_iff.mp (coverable index member)
  exact ⟨selection, _, _, selects, selectsLeast selects⟩

end TwoLevel
