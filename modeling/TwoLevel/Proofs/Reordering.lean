/-
**A selection does not depend on the order of the implicants.**

A selection counts positions, and these change with the order of the list. But if the patterns are all
different, a set of positions is a set of implicants, and what the selection asks about it are the
implicants alone: which rows they cover, how many they are, how many literals they have, and their
sorted patterns. So the essential implicants and the completion can be described without any
position, and the description is the same for every order.

* `CoversAlone`, `mem_shownEssentials_iff` — the essential implicants, by implicant;
* `InOrder`, `orderRank` — a covering part of the implicants in their order, and its rank;
* `coverRank_eq` — the rank of a set of positions is that of the implicants there;
* `chosen_least`, `eq_of_leastInOrder` — the completion is the one covering part of least rank;
* `selection_of_perm` — **the selection, its steps and its failure in any order**.
-/

import TwoLevel.Proofs.LeastCover
import TwoLevel.Proofs.SameRows

namespace TwoLevel

/-! ### Essential implicants without positions -/

/-- Of the implicants of the list just this one covers the row. -/
def CoversAlone (implicants : List Implicant) (implicant : Implicant) (index : Nat) : Prop :=
  ∀ other, (other ∈ implicants ∧ other.covers index = true) ↔ other = implicant

/-- The essential implicants with the least row that each alone covers. -/
def shownEssentials (implicants : List Implicant) (target : IndexSet) : List (Implicant × Nat) :=
  (essentials implicants target).map fun entry => (entry.implicant, entry.index)

section Essentials

variable {implicants permuted : List Implicant} {target : IndexSet} {implicant : Implicant}
  {position index : Nat}

/-- Among different implicants, only one position covers a row if only one implicant does. -/
theorem onlyCovers_iff (distinct : implicants.Nodup)
    (here : implicants[position]? = some implicant) :
    OnlyCovers implicants position index ↔ CoversAlone implicants implicant index := by
  obtain ⟨bound, same⟩ := List.getElem?_eq_some_iff.mp here
  constructor
  · intro only other
    constructor
    · rintro ⟨member, covers⟩
      obtain ⟨place, there⟩ := List.mem_iff_getElem?.mp member
      rw [(only place).mp ⟨other, there, covers⟩, here] at there
      exact (Option.some.inj there).symm
    · rintro rfl
      obtain ⟨found, there, covers⟩ := (only position).mpr rfl
      rw [here] at there
      cases there
      exact ⟨List.mem_of_getElem? here, covers⟩
  · intro alone other
    constructor
    · rintro ⟨found, there, covers⟩
      obtain ⟨otherBound, otherSame⟩ := List.getElem?_eq_some_iff.mp there
      have equal := (alone found).mp ⟨List.mem_of_getElem? there, covers⟩
      exact distinct.getElem_inj_iff.mp (otherSame.trans (equal.trans same.symm))
    · rintro rfl
      exact ⟨implicant, here, ((alone implicant).mpr rfl).2⟩

/-- **The essential implicants without positions**, each with the least row that it alone covers. -/
theorem mem_shownEssentials_iff (distinct : implicants.Nodup) :
    (implicant, index) ∈ shownEssentials implicants target ↔
      index ∈ target ∧ CoversAlone implicants implicant index ∧
        ∀ row ∈ target, CoversAlone implicants implicant row → index ≤ row := by
  constructor
  · intro member
    obtain ⟨entry, found, same⟩ := List.mem_map.mp member
    cases same
    obtain ⟨⟨inTarget, alone, here⟩, least⟩ := mem_essentials_iff.mp found
    simp only [covering_eq_singleton_iff, onlyCovers_iff distinct here] at alone least
    exact ⟨inTarget, alone, least⟩
  · rintro ⟨inTarget, alone, least⟩
    obtain ⟨place, here⟩ := List.mem_iff_getElem?.mp ((alone implicant).mpr rfl).1
    refine List.mem_map.mpr ⟨⟨place, implicant, index⟩, mem_essentials_iff.mpr ?_, rfl⟩
    simp only [Alone, covering_eq_singleton_iff, onlyCovers_iff distinct here]
    exact ⟨⟨inTarget, alone, here⟩, least⟩

theorem CoversAlone.perm (permutes : permuted.Perm implicants) :
    CoversAlone permuted implicant index ↔ CoversAlone implicants implicant index := by
  unfold CoversAlone
  simp only [permutes.mem_iff]

/-- **The same implicants are essential, for the same rows, in any order of the list.** -/
theorem shownEssentials_perm (permutes : permuted.Perm implicants) (distinct : implicants.Nodup)
    (target : IndexSet) : shownEssentials permuted target = shownEssentials implicants target := by
  have antisymm : Std.Antisymm fun first second : Implicant × Nat => first.2 < second.2 :=
    ⟨fun _ _ below above => absurd above (Nat.lt_asymm below)⟩
  have irrefl : Std.Irrefl fun first second : Implicant × Nat => first.2 < second.2 :=
    ⟨fun _ => Nat.lt_irrefl _⟩
  refine List.Pairwise.eq_of_mem_iff (r := fun first second : Implicant × Nat => first.2 < second.2)
    (List.pairwise_map.mpr pairwise_essentials) (List.pairwise_map.mpr pairwise_essentials) ?_
  rintro ⟨implicant, index⟩
  rw [mem_shownEssentials_iff (permutes.nodup_iff.mpr distinct),
    mem_shownEssentials_iff distinct]
  simp only [CoversAlone.perm permutes]

/-- The rows left open depend only on the essential implicants. -/
theorem remaining_eq_filter (implicants : List Implicant) (target : IndexSet) :
    Selection.remaining (essentials implicants target) target =
      target.toList.filter fun index =>
        !(shownEssentials implicants target).any fun entry => entry.1.covers index := by
  unfold Selection.remaining shownEssentials
  simp only [List.any_map]
  rfl

end Essentials

/-! ### Completions without positions -/

/-- Some of the implicants, in their order, which together cover the rows. -/
structure InOrder (implicants : List Implicant) (rows : List Nat) (chosen : List Implicant) : Prop where
  ascending : Ascending compare chosen
  member : ∀ implicant ∈ chosen, implicant ∈ implicants
  covers : ∀ row ∈ rows, ∃ implicant ∈ chosen, implicant.covers row = true

/-- The rank of implicants in their order. -/
def orderRank (chosen : List Implicant) : CoverRank where
  size := chosen.length
  literals := literalTotal (chosen.map Implicant.pattern)
  patterns := chosen.map Implicant.pattern

/-- The implicants cover the rows in their order, at the least rank. -/
def LeastInOrder (implicants : List Implicant) (rows : List Nat) (chosen : List Implicant) : Prop :=
  InOrder implicants rows chosen ∧ ∀ other, InOrder implicants rows other →
    (compare (orderRank chosen) (orderRank other)).isLE

section Completions

variable {implicants permuted : List Implicant} {rows : List Nat} {chosen other : List Implicant}

theorem InOrder.perm (permutes : permuted.Perm implicants) :
    InOrder permuted rows chosen ↔ InOrder implicants rows chosen :=
  ⟨fun inOrder => ⟨inOrder.ascending, fun implicant member =>
      permutes.mem_iff.mp (inOrder.member implicant member), inOrder.covers⟩,
    fun inOrder => ⟨inOrder.ascending, fun implicant member =>
      permutes.mem_iff.mpr (inOrder.member implicant member), inOrder.covers⟩⟩

theorem LeastInOrder.perm (permutes : permuted.Perm implicants) :
    LeastInOrder permuted rows chosen ↔ LeastInOrder implicants rows chosen := by
  unfold LeastInOrder
  simp only [InOrder.perm permutes]

/-- **Different patterns leave no tie**: only one covering part has the least rank. -/
theorem eq_of_leastInOrder (distinct : (implicants.map Implicant.pattern).Nodup)
    (least : LeastInOrder implicants rows chosen) (otherLeast : LeastInOrder implicants rows other) :
    chosen = other := by
  have equal := Std.OrientedCmp.isLE_antisymm (least.2 other otherLeast.1)
    (otherLeast.2 chosen least.1)
  have patterns : chosen.map Implicant.pattern = other.map Implicant.pattern :=
    Std.LawfulEqOrd.eq_of_compare
      (Ordering.then_eq_eq.mp (Ordering.then_eq_eq.mp equal).2).2
  have inside : ∀ {first second : List Implicant}, InOrder implicants rows first →
      InOrder implicants rows second →
      first.map Implicant.pattern = second.map Implicant.pattern →
      ∀ implicant ∈ first, implicant ∈ second := by
    intro first second firstInOrder secondInOrder same implicant member
    have inPatterns := List.mem_map_of_mem (f := Implicant.pattern) member
    rw [same] at inPatterns
    obtain ⟨found, foundIn, samePattern⟩ := List.mem_map.mp inPatterns
    have equal := List.inj_on_of_nodup_map distinct (secondInOrder.member found foundIn)
      (firstInOrder.member implicant member) samePattern
    exact equal ▸ foundIn
  exact eq_of_ascending least.1.ascending otherLeast.1.ascending fun implicant =>
    ⟨inside least.1 otherLeast.1 patterns implicant,
      inside otherLeast.1 least.1 patterns.symm implicant⟩

/-- Implicants with different patterns are ordered as their patterns are. -/
theorem compare_pattern_eq (distinct : (implicants.map Implicant.pattern).Nodup)
    {first second : Implicant} (firstIn : first ∈ implicants) (secondIn : second ∈ implicants) :
    compare first.pattern second.pattern = compare first second := by
  show _ = (compare first.pattern second.pattern).then (compare first.minterms second.minterms)
  cases order : compare first.pattern second.pattern with
  | lt => rfl
  | gt => rfl
  | eq =>
    have same := List.inj_on_of_nodup_map distinct firstIn secondIn
      (Std.LawfulEqOrd.eq_of_compare order)
    have equal : compare second.minterms second.minterms = .eq := Std.ReflCmp.compare_self
    rw [same]
    exact equal.symm

theorem mem_implicantsAt {positions : List Nat} {implicant : Implicant} :
    implicant ∈ implicantsAt implicants positions ↔
      ∃ position ∈ positions, implicants[position]? = some implicant :=
  List.mem_filterMap

/-- Positions of the list have as many implicants. -/
theorem length_implicantsAt {positions : List Nat}
    (bounded : ∀ position ∈ positions, position < implicants.length) :
    (implicantsAt implicants positions).length = positions.length := by
  induction positions with
  | nil => rfl
  | cons first rest ih =>
    have here := List.getElem?_eq_getElem (bounded first List.mem_cons_self)
    rw [implicantsAt, List.filterMap_cons, here]
    exact congrArg Nat.succ (ih fun position later => bounded position (List.mem_cons_of_mem _ later))

/-- **The rank of a set is that of its implicants in their order.** -/
theorem coverRank_eq (distinct : (implicants.map Implicant.pattern).Nodup) {set : IndexSet}
    (bounded : ∀ position ∈ set, position < implicants.length) :
    coverRank implicants set =
      orderRank (sortBy compare (implicantsAt implicants set.toList)) := by
  have sorted : sortBy compare (patternsAt implicants set.toList) =
      (sortBy compare (implicantsAt implicants set.toList)).map Implicant.pattern := by
    refine sortBy_map Implicant.pattern fun first firstIn second secondIn => ?_
    obtain ⟨_, _, firstHere⟩ := mem_implicantsAt.mp firstIn
    obtain ⟨_, _, secondHere⟩ := mem_implicantsAt.mp secondIn
    exact compare_pattern_eq distinct (List.mem_of_getElem? firstHere)
      (List.mem_of_getElem? secondHere)
  have permuted := perm_sortBy compare (implicantsAt implicants set.toList)
  have size : set.size = (sortBy compare (implicantsAt implicants set.toList)).length :=
    (length_implicantsAt bounded).symm.trans permuted.length_eq.symm
  have literals : (coverRank implicants set).literals =
      literalTotal ((sortBy compare (implicantsAt implicants set.toList)).map Implicant.pattern) :=
    (coverRank_literals implicants set).trans
      (literalTotal_perm (permuted.map Implicant.pattern)).symm
  exact CoverRank.mk.injEq .. ▸ ⟨size, literals, sorted⟩

/-- The positions of implicants. -/
def positionsOf (implicants chosen : List Implicant) : IndexSet :=
  .ofList (chosen.map fun implicant => implicants.idxOf implicant)

theorem mem_implicantsAt_positionsOf (inside : ∀ implicant ∈ chosen, implicant ∈ implicants)
    {implicant : Implicant} :
    implicant ∈ implicantsAt implicants (positionsOf implicants chosen).toList ↔
      implicant ∈ chosen := by
  rw [mem_implicantsAt]
  constructor
  · rintro ⟨position, held, here⟩
    obtain ⟨found, member, rfl⟩ := List.mem_map.mp (IndexSet.mem_ofList.mp held)
    rw [List.getElem?_idxOf (inside found member)] at here
    cases here
    exact member
  · intro member
    exact ⟨_, IndexSet.mem_ofList.mpr (List.mem_map_of_mem member),
      List.getElem?_idxOf (inside implicant member)⟩

/-- Implicants in their order are found again from their positions. -/
theorem sortBy_implicantsAt_positionsOf (distinct : implicants.Nodup)
    (inOrder : InOrder implicants rows chosen) :
    sortBy compare (implicantsAt implicants (positionsOf implicants chosen).toList) = chosen := by
  have ascending : Ascending compare
      (sortBy compare (implicantsAt implicants (positionsOf implicants chosen).toList)) :=
    ascending_sortBy (nodup_implicantsAt distinct (IndexSet.nodup_toList _))
  refine eq_of_ascending ascending inOrder.ascending ?_
  intro implicant
  rw [mem_sortBy, mem_implicantsAt_positionsOf inOrder.member]

/-- The chosen implicants are those at the positions of the least set. -/
theorem mem_chosen_iff {target : List Nat} {implicant : Implicant} :
    implicant ∈ (completion implicants (.ofList target)).chosen ↔
      ∃ position ∈ (completion implicants (.ofList target)).best,
        implicants[position]? = some implicant := by
  unfold completion Completion.ofClauses
  rw [mem_sortBy, mem_implicantsAt]
  rfl

/-- The chosen implicants cover the rows that are left, in their order. -/
theorem inOrder_chosen {target : List Nat} (different : implicants.Nodup)
    (coverable : ∀ index ∈ target, ∃ implicant ∈ implicants, implicant.covers index = true) :
    InOrder implicants
      (Selection.remaining (essentials implicants (.ofList target)) (.ofList target))
      (completion implicants (.ofList target)).chosen := by
  have hits := (Completion.best_spec implicants (Selection.exists_hits coverable)).1
  refine ⟨ascending_sortBy (nodup_implicantsAt different (IndexSet.nodup_toList _)), ?_, ?_⟩
  · intro implicant member
    obtain ⟨position, _, here⟩ := mem_chosen_iff.mp member
    exact List.mem_of_getElem? here
  · intro row left
    obtain ⟨position, covering, held⟩ := Selection.hits_openClauses_iff.mp hits row left
    obtain ⟨implicant, here, covers⟩ := mem_covering_iff.mp covering
    exact ⟨implicant, mem_chosen_iff.mpr ⟨position, held, here⟩, covers⟩

/-- Implicants that cover the rows that are left have positions that hit all open clauses. -/
theorem hits_positionsOf {target : List Nat} (inOrder : InOrder implicants
      (Selection.remaining (essentials implicants (.ofList target)) (.ofList target)) chosen) :
    Hits (openClauses implicants (.ofList target)) (positionsOf implicants chosen) := by
  refine Selection.hits_openClauses_iff.mpr fun row left => ?_
  obtain ⟨implicant, member, covers⟩ := inOrder.covers row left
  obtain ⟨position, held, here⟩ :=
    mem_implicantsAt.mp ((mem_implicantsAt_positionsOf inOrder.member).mpr member)
  exact ⟨position, mem_covering_iff.mpr ⟨implicant, here, covers⟩, held⟩

theorem lt_length_of_mem_positionsOf (inOrder : InOrder implicants rows chosen) {position : Nat}
    (held : position ∈ positionsOf implicants chosen) : position < implicants.length := by
  obtain ⟨implicant, member, rfl⟩ := List.mem_map.mp (IndexSet.mem_ofList.mp held)
  exact List.idxOf_lt_length_of_mem (inOrder.member implicant member)

/-- **The completion is the covering part of least rank**, in the order of implicants. -/
theorem chosen_least {target : List Nat} (distinct : (implicants.map Implicant.pattern).Nodup)
    (coverable : ∀ index ∈ target, ∃ implicant ∈ implicants, implicant.covers index = true) :
    LeastInOrder implicants
      (Selection.remaining (essentials implicants (.ofList target)) (.ofList target))
      (completion implicants (.ofList target)).chosen := by
  have different : implicants.Nodup := distinct.of_map _
  have least := (Completion.best_spec implicants (Selection.exists_hits coverable)).2
  refine ⟨inOrder_chosen different coverable, fun other inOrder => ?_⟩
  have ranks : (compare (coverRank implicants (completion implicants (.ofList target)).best)
      (coverRank implicants (positionsOf implicants other))).isLE :=
    rank_isLE_of_coverOrder (least _ (hits_positionsOf inOrder))
  rw [coverRank_eq distinct fun position => lt_length_of_mem_positionsOf inOrder,
    sortBy_implicantsAt_positionsOf different inOrder,
    coverRank_eq distinct fun position => lt_length_of_mem_best coverable] at ranks
  exact ranks

end Completions

/-! ### The selection -/

section Selections

variable {implicants permuted : List Implicant} {target otherTarget : List Nat}
  {selection : Selection}

/-- A selection has a completion if the essential implicants leave rows open. -/
theorem Selection.eq_of_ofTarget (selects : Selection.ofTarget implicants target = .ok selection) :
    selection = ⟨essentials implicants (.ofList target),
      if remaining (essentials implicants (.ofList target)) (.ofList target) = [] then none
      else some (completion implicants (.ofList target))⟩ := by
  rw [ofTarget, find_uncovered_eq_none (coverable_of_ofTarget selects)] at selects
  simp only at selects
  split at selects
  · next nothing =>
    cases selects
    rw [if_pos nothing]
  · next some =>
    cases selects
    rw [if_neg some]
    rfl

/-- The selected implicants and the steps are functions of the essential implicants without their
positions and of the completion. -/
theorem Selection.shown_eq (selects : Selection.ofTarget implicants target = .ok selection) :
    selection.selected = (shownEssentials implicants (.ofList target)).map Prod.fst ++
      (completion implicants (.ofList target)).chosen ∧
    selection.steps = (shownEssentials implicants (.ofList target)).map
        (fun entry => .essential entry.1 entry.2) ++
      if remaining (essentials implicants (.ofList target)) (.ofList target) = [] then []
      else [.completed (completion implicants (.ofList target)).chosen] := by
  constructor
  · rw [selected_eq selects, shownEssentials, List.map_map]
    rfl
  · rw [eq_of_ofTarget selects, steps, shownEssentials, List.map_map]
    split <;> rfl

/-- **Reordered implicants have the same essential implicants and the same completion.** -/
theorem chosen_perm (permutes : permuted.Perm implicants)
    (distinct : (implicants.map Implicant.pattern).Nodup)
    (coverable : ∀ index ∈ target, ∃ implicant ∈ implicants, implicant.covers index = true) :
    (completion permuted (.ofList target)).chosen =
      (completion implicants (.ofList target)).chosen := by
  have permutedCoverable : ∀ index ∈ target,
      ∃ implicant ∈ permuted, implicant.covers index = true := by
    simpa only [permutes.mem_iff] using coverable
  have permutedLeast := chosen_least ((permutes.map Implicant.pattern).nodup_iff.mpr distinct)
    permutedCoverable
  rw [remaining_eq_filter, shownEssentials_perm permutes (distinct.of_map _),
    ← remaining_eq_filter, LeastInOrder.perm permutes] at permutedLeast
  exact eq_of_leastInOrder distinct permutedLeast (chosen_least distinct coverable)

/-- **The same target fails in any order of the implicants**, with the same error. -/
theorem ofTarget_error_perm (permutes : permuted.Perm implicants) (target : List Nat)
    (error : InternalError) : Selection.ofTarget permuted target = .error error ↔
      Selection.ofTarget implicants target = .error error := by
  simp only [ofTarget_eq_error_iff, exists_coversAt_iff, permutes.mem_iff]

end Selections

/-- **A selection depends neither on the order of the implicants nor on that of the target rows.**
If the patterns are all different, and if the rows of one target have a selection, then those of any
target with the same rows have one from the implicants in any other order, with the same implicants
selected in the same order and with the same steps. A target that has none has none in any other
order either, and the same row is reported. -/
theorem selection_of_perm {implicants permuted : List Implicant}
    (distinct : (implicants.map Implicant.pattern).Nodup) (permutes : permuted.Perm implicants) :
    (∀ target otherTarget selection, target.toFinset = otherTarget.toFinset →
      Selection.ofTarget implicants target = .ok selection →
        ∃ other, Selection.ofTarget permuted otherTarget = .ok other ∧
          other.selected = selection.selected ∧ other.steps = selection.steps) ∧
    ∀ target error, Selection.ofTarget permuted target = .error error ↔
      Selection.ofTarget implicants target = .error error := by
  refine ⟨fun target otherTarget selection sameRows selects => ?_, ofTarget_error_perm permutes⟩
  have coverable := Selection.coverable_of_ofTarget selects
  have otherCoverable : ∀ index ∈ otherTarget,
      ∃ implicant ∈ permuted, implicant.covers index = true := by
    intro index member
    rw [← List.mem_toFinset, ← sameRows, List.mem_toFinset] at member
    simpa only [permutes.mem_iff] using coverable index member
  obtain ⟨other, otherSelects, _⟩ := Selection.exists_ofTarget otherCoverable
  obtain ⟨selected, steps⟩ := Selection.shown_eq selects
  obtain ⟨otherSelected, otherSteps⟩ := Selection.shown_eq otherSelects
  refine ⟨other, otherSelects, ?_⟩
  rw [selected, steps, otherSelected, otherSteps, remaining_eq_filter, remaining_eq_filter,
    ← IndexSet.ofList_congr sameRows, shownEssentials_perm permutes (distinct.of_map _),
    chosen_perm permutes distinct coverable]
  exact ⟨rfl, rfl⟩

/-- The four implicants of two rows each around the table of two names: none of them is essential,
and two opposite ones complete each other. -/
def fourCycle : List Implicant :=
  [⟨[.zero, .dash], .ofList [0, 1]⟩, ⟨[.dash, .one], .ofList [1, 3]⟩,
    ⟨[.one, .dash], .ofList [2, 3]⟩, ⟨[.dash, .zero], .ofList [0, 2]⟩]

/-- The cycle in the other direction, and the target turned around with a row repeated. -/
theorem selection_of_perm_four_cycle :
    (fourCycle.map Implicant.pattern).Nodup ∧ fourCycle.reverse.Perm fourCycle ∧
      (∃ selection other, Selection.ofTarget fourCycle [0, 1, 2, 3] = .ok selection ∧
        Selection.ofTarget fourCycle.reverse [3, 2, 1, 0, 0] = .ok other ∧
        other.selected = selection.selected ∧ other.steps = selection.steps) ∧
      Selection.ofTarget fourCycle [0, 7, 5] = .error (.uncoverableIndex 7) ∧
      Selection.ofTarget fourCycle.reverse [0, 7, 5] = .error (.uncoverableIndex 7) := by
  have distinct : (fourCycle.map Implicant.pattern).Nodup := by decide
  have permutes : fourCycle.reverse.Perm fourCycle := List.reverse_perm fourCycle
  obtain ⟨sameSelection, sameError⟩ := selection_of_perm distinct permutes
  have fails : Selection.ofTarget fourCycle [0, 7, 5] = .error (.uncoverableIndex 7) := rfl
  refine ⟨distinct, permutes, ?_, fails, (sameError _ _).mpr fails⟩
  have covered : ∀ index ∈ [0, 1, 2, 3], ∃ implicant ∈ fourCycle, implicant.covers index = true := by
    decide
  obtain ⟨selection, selects, _⟩ := Selection.exists_ofTarget covered
  obtain ⟨other, otherSelects, selected, steps⟩ :=
    sameSelection [0, 1, 2, 3] [3, 2, 1, 0, 0] selection (by decide) selects
  exact ⟨selection, other, selects, otherSelects, selected, steps⟩

end TwoLevel
