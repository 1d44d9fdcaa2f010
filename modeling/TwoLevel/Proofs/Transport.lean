/-
**Selections carried over.**

A selection looks at the rows only through what covers them, and at the implicants only through the
order and the literals of their patterns. Where another table has the same coverings in an order
that respects the least row for each of them, and patterns that compare and count alike, the
selection there has the implicants at the same positions.

* `Carries` — the other table with its implicants, and its rows up from and down to those of the
  first;
* `positions_essentials_eq`, `best_eq` — the essential positions and the best completion are the
  same;
* `patterns_selected_eq` — **the selected patterns are those of the first selection, changed**.
-/

import TwoLevel.Proofs.Selection

namespace TwoLevel

/-! ### Selections by position -/

section Positions

variable {implicants : List Implicant} {target : IndexSet}

/-- The patterns at positions are found among the patterns of all implicants. -/
theorem patternsAt_eq (implicants : List Implicant) (positions : List Nat) :
    patternsAt implicants positions =
      positions.filterMap fun position => (implicants.map Implicant.pattern)[position]? := by
  rw [patternsAt, implicantsAt, List.map_filterMap]
  simp only [List.getElem?_map]

/-- Which positions cover a row depends only on which implicants cover it, in their order. -/
theorem covering_congr {other : List Implicant} {row otherRow : Nat}
    (same : (other.map fun implicant => implicant.covers otherRow) =
      implicants.map fun implicant => implicant.covers row) :
    covering other otherRow = covering implicants row := by
  have general : ∀ (members : List Implicant) (index : Nat), covering members index =
      ((members.map fun implicant => implicant.covers index).zipIdx.filterMap fun entry =>
        if entry.1 then some entry.2 else none) := by
    intro members index
    rw [covering, List.zipIdx_map, List.filterMap_map]
    rfl
  rw [general, general, same]

/-- The least row that a position alone covers, for the essential positions. -/
theorem mem_essentialRows_iff {index position : Nat} :
    (index, position) ∈ (essentials implicants target).map (fun entry => (entry.index, entry.position)) ↔
      index ∈ target ∧ covering implicants index = [position] ∧
        ∀ row ∈ target, covering implicants row = [position] → index ≤ row := by
  constructor
  · intro member
    obtain ⟨entry, found, same⟩ := List.mem_map.mp member
    cases same
    obtain ⟨⟨inTarget, alone, _⟩, least⟩ := mem_essentials_iff.mp found
    exact ⟨inTarget, alone, least⟩
  · intro ⟨inTarget, alone, least⟩
    have covers : position ∈ covering implicants index := by
      rw [alone]
      exact List.mem_singleton.mpr rfl
    obtain ⟨implicant, found, _⟩ := mem_covering_iff.mp covers
    exact List.mem_map.mpr ⟨⟨position, implicant, index⟩,
      mem_essentials_iff.mpr ⟨⟨inTarget, alone, found⟩, least⟩, rfl⟩

/-- Implicants in ascending order are chosen in the order of their positions. -/
theorem chosen_eq (ascending : Ascending compare implicants) :
    (completion implicants target).chosen =
      implicantsAt implicants (completion implicants target).best.toList := by
  have inOrder : Ascending compare
      (implicantsAt implicants (completion implicants target).best.toList) := by
    refine List.pairwise_filterMap.mpr ((IndexSet.ascending _).imp ?_)
    intro first second below implicant here other there
    obtain ⟨firstBound, rfl⟩ := List.getElem?_eq_some_iff.mp here
    obtain ⟨secondBound, rfl⟩ := List.getElem?_eq_some_iff.mp there
    exact List.pairwise_iff_getElem.mp ascending first second firstBound secondBound below
  exact eq_of_ascending (ascending_sortBy (nodup_of_ascending inOrder)) inOrder fun implicant =>
    (perm_sortBy compare _).mem_iff

end Positions

/-! ### The other table -/

/-- The carried implicants cover the rows of another table as the implicants cover those of the
first, and their patterns compare and count alike. `down` gives the row of the first table for a row
of the other, and `up` the least row of the other for a row of the first. -/
structure Carries (implicants carried : List Implicant) (rows otherRows : IndexSet)
    (change : Pattern → Pattern) (down up : Nat → Nat) : Prop where
  patterns_eq : carried.map Implicant.pattern = (implicants.map Implicant.pattern).map change
  covering_eq : ∀ row ∈ otherRows, covering carried row = covering implicants (down row)
  down_mem : ∀ row ∈ otherRows, down row ∈ rows
  up_mem : ∀ row ∈ rows, up row ∈ otherRows
  down_up : ∀ row ∈ rows, down (up row) = row
  up_down_le : ∀ row ∈ otherRows, up (down row) ≤ row
  up_lt : ∀ first ∈ rows, ∀ second ∈ rows, first < second → up first < up second
  compare_change : ∀ first ∈ implicants.map Implicant.pattern,
    ∀ second ∈ implicants.map Implicant.pattern,
      compare (change first) (change second) = compare first second
  literalCount_change : ∀ pattern ∈ implicants.map Implicant.pattern,
    (change pattern).literalCount = pattern.literalCount

/-- Lists of values that compare alike compare alike. -/
theorem compare_map {α β : Type} [Ord α] [Ord β] {f : α → β} {first second : List α}
    (alike : ∀ left ∈ first, ∀ right ∈ second, compare (f left) (f right) = compare left right) :
    compare (first.map f) (second.map f) = compare first second := by
  induction first generalizing second with
  | nil => cases second <;> rfl
  | cons left lefts ih =>
    cases second with
    | nil => rfl
    | cons right rights =>
      rw [List.map_cons, List.map_cons, List.compare_cons_cons, List.compare_cons_cons,
        alike left List.mem_cons_self right List.mem_cons_self,
        ih fun one oneIn other otherIn =>
          alike one (List.mem_cons_of_mem _ oneIn) other (List.mem_cons_of_mem _ otherIn)]

namespace Carries

variable {implicants carried : List Implicant} {rows otherRows : IndexSet}
  {change : Pattern → Pattern} {down up : Nat → Nat}

theorem mem_patterns {positions : List Nat} {pattern : Pattern}
    (member : pattern ∈ patternsAt implicants positions) :
    pattern ∈ implicants.map Implicant.pattern := by
  rw [patternsAt_eq] at member
  obtain ⟨position, _, found⟩ := List.mem_filterMap.mp member
  exact List.mem_of_getElem? found

theorem patternsAt_carried (carries : Carries implicants carried rows otherRows change down up)
    (positions : List Nat) :
    patternsAt carried positions = (patternsAt implicants positions).map change := by
  rw [patternsAt_eq, patternsAt_eq, carries.patterns_eq, List.map_filterMap]
  simp only [List.getElem?_map]

/-- A row is the least one that a position alone covers in the other table when it is the least row
up from such a row of the first. -/
theorem mem_essentialRows_iff (carries : Carries implicants carried rows otherRows change down up)
    {index position : Nat} :
    (index, position) ∈ (essentials carried otherRows).map
        (fun entry => (entry.index, entry.position)) ↔
      ∃ row, (row, position) ∈ (essentials implicants rows).map
        (fun entry => (entry.index, entry.position)) ∧ up row = index := by
  simp only [TwoLevel.mem_essentialRows_iff]
  have covering_up : ∀ row ∈ rows, covering carried (up row) = covering implicants row := by
    intro row inRows
    rw [carries.covering_eq _ (carries.up_mem row inRows), carries.down_up row inRows]
  constructor
  · rintro ⟨inOther, alone, least⟩
    rw [carries.covering_eq index inOther] at alone
    have below := carries.down_mem index inOther
    have same : up (down index) = index := by
      refine Nat.le_antisymm (carries.up_down_le index inOther) (least _ (carries.up_mem _ below) ?_)
      rw [covering_up _ below, alone]
    refine ⟨down index, ⟨below, alone, fun row inRows rowAlone => ?_⟩, same⟩
    by_contra less
    have lower := carries.up_lt row inRows (down index) below (Nat.lt_of_not_le less)
    rw [same] at lower
    refine absurd (least (up row) (carries.up_mem row inRows) ?_) (Nat.not_le_of_lt lower)
    rw [covering_up row inRows, rowAlone]
  · rintro ⟨row, ⟨inRows, alone, least⟩, rfl⟩
    refine ⟨carries.up_mem row inRows, (covering_up row inRows).trans alone,
      fun other inOther otherAlone => ?_⟩
    rw [carries.covering_eq other inOther] at otherAlone
    have below := carries.down_mem other inOther
    refine Nat.le_trans ?_ (carries.up_down_le other inOther)
    rcases Nat.lt_or_eq_of_le (least _ below otherAlone) with less | same
    · exact Nat.le_of_lt (carries.up_lt row inRows _ below less)
    · rw [← same]

theorem essentialRows_eq (carries : Carries implicants carried rows otherRows change down up) :
    (essentials carried otherRows).map (fun entry => (entry.index, entry.position)) =
      ((essentials implicants rows).map fun entry => (entry.index, entry.position)).map
        fun entry => (up entry.1, entry.2) := by
  have antisymm : Std.Antisymm fun first second : Nat × Nat => first.1 < second.1 :=
    ⟨fun _ _ below above => absurd above (Nat.lt_asymm below)⟩
  have irrefl : Std.Irrefl fun first second : Nat × Nat => first.1 < second.1 :=
    ⟨fun _ => Nat.lt_irrefl _⟩
  refine List.Pairwise.eq_of_mem_iff (r := fun first second : Nat × Nat => first.1 < second.1)
    ?_ ?_ fun entry => ?_
  · exact List.pairwise_map.mpr pairwise_essentials
  · rw [List.map_map]
    refine List.pairwise_map.mpr (pairwise_essentials.imp_of_mem ?_)
    intro first second firstIn secondIn less
    exact carries.up_lt _ (mem_essentials_iff.mp firstIn).1.1 _ (mem_essentials_iff.mp secondIn).1.1
      less
  · obtain ⟨index, position⟩ := entry
    rw [carries.mem_essentialRows_iff]
    constructor
    · rintro ⟨row, member, rfl⟩
      exact List.mem_map.mpr ⟨(row, position), member, rfl⟩
    · intro member
      obtain ⟨⟨row, other⟩, found, same⟩ := List.mem_map.mp member
      cases same
      exact ⟨row, found, rfl⟩

/-- **The same positions are essential, in the same order.** -/
theorem positions_essentials_eq
    (carries : Carries implicants carried rows otherRows change down up) :
    (essentials carried otherRows).map Essential.position =
      (essentials implicants rows).map Essential.position := by
  have positions := congrArg (List.map Prod.snd) carries.essentialRows_eq
  rw [List.map_map, List.map_map, List.map_map] at positions
  exact positions

theorem hits_iff (carries : Carries implicants carried rows otherRows change down up)
    {set : IndexSet} :
    Hits (openClauses carried otherRows) set ↔ Hits (openClauses implicants rows) set := by
  rw [Selection.hits_openClauses_iff, Selection.hits_openClauses_iff]
  constructor
  · intro hits row left
    obtain ⟨inRows, uncovered⟩ := Selection.mem_remaining_iff_positions.mp left
    have same : covering carried (up row) = covering implicants row := by
      rw [carries.covering_eq _ (carries.up_mem row inRows), carries.down_up row inRows]
    rw [← same]
    refine hits (up row) (Selection.mem_remaining_iff_positions.mpr ⟨carries.up_mem row inRows, ?_⟩)
    rwa [carries.positions_essentials_eq, same]
  · intro hits row left
    obtain ⟨inRows, uncovered⟩ := Selection.mem_remaining_iff_positions.mp left
    rw [carries.positions_essentials_eq] at uncovered
    rw [carries.covering_eq row inRows] at uncovered ⊢
    exact hits (down row) (Selection.mem_remaining_iff_positions.mpr ⟨carries.down_mem row inRows, uncovered⟩)

/-- Sets of positions have the same rank in both tables, as far as comparisons tell. -/
theorem compare_coverRank (carries : Carries implicants carried rows otherRows change down up)
    (first second : IndexSet) :
    compare (coverRank carried first) (coverRank carried second) =
      compare (coverRank implicants first) (coverRank implicants second) := by
  have literals : ∀ set : IndexSet,
      (coverRank carried set).literals = (coverRank implicants set).literals := by
    intro set
    rw [coverRank_literals, coverRank_literals, carries.patternsAt_carried, literalTotal,
      literalTotal, List.map_map]
    exact congrArg List.sum (List.map_congr_left fun pattern member =>
      carries.literalCount_change pattern (mem_patterns member))
  have patterns : ∀ set : IndexSet, (coverRank carried set).patterns =
      (coverRank implicants set).patterns.map change := by
    intro set
    show sortBy compare (patternsAt carried set.toList) = _
    rw [carries.patternsAt_carried]
    exact sortBy_map change fun one oneIn other otherIn =>
      carries.compare_change one (mem_patterns oneIn) other (mem_patterns otherIn)
  have inPatterns : ∀ {set : IndexSet} {pattern : Pattern},
      pattern ∈ (coverRank implicants set).patterns →
        pattern ∈ implicants.map Implicant.pattern :=
    fun member => mem_patterns ((perm_sortBy compare _).mem_iff.mp member)
  have order : compare (coverRank carried first).patterns (coverRank carried second).patterns =
      compare (coverRank implicants first).patterns (coverRank implicants second).patterns := by
    rw [patterns, patterns]
    exact compare_map fun one oneIn other otherIn =>
      carries.compare_change one (inPatterns oneIn) other (inPatterns otherIn)
  show (compare first.size second.size).then ((compare _ _).then (compare _ _)) = _
  rw [literals, literals, order]
  rfl

theorem coverOrder_eq (carries : Carries implicants carried rows otherRows change down up)
    (first second : IndexSet) :
    coverOrder carried first second = coverOrder implicants first second := by
  rw [coverOrder, coverOrder, carries.compare_coverRank]

/-- **The best completion is the same set of positions.** -/
theorem best_eq (carries : Carries implicants carried rows otherRows change down up)
    (possible : ∃ set, Hits (openClauses implicants rows) set) :
    (completion carried otherRows).best = (completion implicants rows).best := by
  obtain ⟨hits, least⟩ := Completion.best_spec implicants possible
  refine Completion.eq_best_of_spec (carries.hits_iff.mpr hits) fun other otherHits => ?_
  rw [carries.coverOrder_eq]
  exact least other (carries.hits_iff.mp otherHits)

/-- **The selected patterns are those of the first selection, changed**, where both tables list their
implicants in order. -/
theorem patterns_selected_eq {target otherTarget : List Nat} {selection otherSelection : Selection}
    (carries : Carries implicants carried (.ofList target) (.ofList otherTarget) change down up)
    (ascending : Ascending compare implicants) (carriedAscending : Ascending compare carried)
    (selects : Selection.ofTarget implicants target = .ok selection)
    (otherSelects : Selection.ofTarget carried otherTarget = .ok otherSelection) :
    otherSelection.selected.map Implicant.pattern =
      (selection.selected.map Implicant.pattern).map change := by
  have parts : ∀ {members : List Implicant} {wanted : List Nat} {chosen : Selection},
      Ascending compare members → Selection.ofTarget members wanted = .ok chosen →
      chosen.selected.map Implicant.pattern =
        patternsAt members ((essentials members (.ofList wanted)).map Essential.position) ++
          patternsAt members (completion members (.ofList wanted)).best.toList := by
    intro members wanted chosen inOrder chooses
    rw [Selection.selected_eq chooses, chosen_eq inOrder, List.map_append, patternsAt, patternsAt,
      implicantsAt_essentials]
  have possible := Selection.exists_hits (Selection.coverable_of_ofTarget selects)
  rw [parts ascending selects, parts carriedAscending otherSelects, carries.positions_essentials_eq,
    carries.best_eq possible, carries.patternsAt_carried, carries.patternsAt_carried,
    List.map_append]

end Carries

end TwoLevel
