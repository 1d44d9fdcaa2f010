/-
**The selection is a cheapest cover.**

Among all sets of positions that cover the target, the selected implicants are the fewest, and of
equally many they have the fewest literals.

* `mem_essentials_iff`, `pairwise_essentials` — the essential implicants are those that alone cover
  a row, each with the least such row, in the order of these rows;
* `coverOrder_of_leastBy` — the first cover of the best rank is the least in the order of covers;
* `Completion.best_spec`, `Completion.eq_best_of_spec` — the completion is *the* least set that meets
  all clauses;
* `Selection.foldl_addPosition`, `Selection.selected_eq` — no position is left out because it has been
  selected before;
* `Selection.exists_ofTarget` — where every row can be covered there is a selection;
* `Selection.covers_selected`, `Selection.cost_selected_le` — **it covers the target, at the least
  cost**: every cover contains the essential positions, and the rest of it meets the clauses of the
  rows that these leave.
-/

import Mathlib.Algebra.GroupWithZero.Nat
import Mathlib.Algebra.Order.BigOperators.Group.List
import Mathlib.Algebra.Order.Group.Nat
import Mathlib.Data.Prod.Lex
import TwoLevel.Proofs.Comparisons
import TwoLevel.Proofs.HittingSets

namespace TwoLevel

/-! ### Positions and the implicants at them -/

theorem mem_covering_iff {implicants : List Implicant} {index position : Nat} :
    position ∈ covering implicants index ↔
      ∃ implicant, implicants[position]? = some implicant ∧ implicant.covers index = true := by
  simp only [covering, List.mem_filterMap, Option.ite_none_right_eq_some, Option.some.injEq,
    Prod.exists, List.mem_zipIdx_iff_getElem?]
  constructor
  · rintro ⟨implicant, _, found, covers, rfl⟩
    exact ⟨implicant, found, covers⟩
  · rintro ⟨implicant, found, covers⟩
    exact ⟨implicant, position, found, covers, rfl⟩

/-- The number of literals of the patterns. -/
def literalTotal (patterns : List Pattern) : Nat := (patterns.map Pattern.literalCount).sum

/-- The cost of a sum of products: the number of terms, and then the number of literals. -/
def cost (patterns : List Pattern) : Nat ×ₗ Nat := toLex (patterns.length, literalTotal patterns)

/-- What costs no more has no more terms. -/
theorem length_le_of_cost_le {first second : List Pattern} (cheaper : cost first ≤ cost second) :
    first.length ≤ second.length := by
  rw [cost, cost, Prod.Lex.toLex_le_toLex] at cheaper
  rcases cheaper with fewer | same
  · exact Nat.le_of_lt fewer
  · exact Nat.le_of_eq same.1

theorem literalTotal_append (first second : List Pattern) :
    literalTotal (first ++ second) = literalTotal first + literalTotal second := by
  rw [literalTotal, List.map_append, List.sum_append, literalTotal, literalTotal]

theorem literalTotal_perm {first second : List Pattern} (permuted : first.Perm second) :
    literalTotal first = literalTotal second :=
  (permuted.map Pattern.literalCount).sum_eq

/-- The patterns of the implicants at the positions. -/
def patternsAt (implicants : List Implicant) (positions : List Nat) : List Pattern :=
  (implicantsAt implicants positions).map Implicant.pattern

theorem patternsAt_perm {implicants : List Implicant} {first second : List Nat}
    (permuted : first.Perm second) :
    (patternsAt implicants first).Perm (patternsAt implicants second) :=
  (permuted.filterMap _).map _

theorem patternsAt_append (implicants : List Implicant) (first second : List Nat) :
    patternsAt implicants (first ++ second) =
      patternsAt implicants first ++ patternsAt implicants second := by
  rw [patternsAt, implicantsAt, List.filterMap_append, List.map_append]
  rfl

theorem patternsAt_cons {implicants : List Implicant} {implicant : Implicant} {position : Nat}
    (here : implicants[position]? = some implicant) (positions : List Nat) :
    patternsAt implicants (position :: positions) =
      implicant.pattern :: patternsAt implicants positions := by
  rw [patternsAt, implicantsAt, List.filterMap_cons, here]
  rfl

/-- Different implicants stand at different positions. -/
theorem nodup_implicantsAt {implicants : List Implicant} {positions : List Nat}
    (distinct : implicants.Nodup) (nodup : positions.Nodup) :
    (implicantsAt implicants positions).Nodup := by
  unfold implicantsAt
  refine nodup.filterMap ?_
  intro first second implicant firstHere secondHere
  obtain ⟨firstBound, firstSame⟩ := List.getElem?_eq_some_iff.mp firstHere
  obtain ⟨secondBound, secondSame⟩ := List.getElem?_eq_some_iff.mp secondHere
  exact distinct.getElem_inj_iff.mp (firstSame.trans secondSame.symm)

/-- Fewer positions have fewer literals. -/
theorem literalTotal_patternsAt_le {implicants : List Implicant} {first second : List Nat}
    (inside : first.Subperm second) :
    literalTotal (patternsAt implicants first) ≤ literalTotal (patternsAt implicants second) := by
  obtain ⟨sublist, permuted, smaller⟩ := inside
  rw [← literalTotal_perm (patternsAt_perm permuted)]
  exact (((smaller.filterMap _).map _).map _).sum_le_sum fun _ _ => Nat.zero_le _

theorem coverRank_literals (implicants : List Implicant) (positions : IndexSet) :
    (coverRank implicants positions).literals =
      literalTotal (patternsAt implicants positions.toList) := by
  have total : ∀ members : List Implicant,
      members.foldr (fun implicant total => implicant.literalCount + total) 0 =
        literalTotal (members.map Implicant.pattern) := by
    intro members
    induction members with
    | nil => rfl
    | cons first rest ih =>
      rw [List.foldr_cons, ih, literalTotal, literalTotal, List.map_cons, List.map_cons,
        List.sum_cons]
      rfl
  exact total _

/-! ### Essential implicants -/

/-- The entry names a row of the target that the implicant at its position alone covers. -/
def Alone (implicants : List Implicant) (target : IndexSet) (entry : Essential) : Prop :=
  entry.index ∈ target ∧ covering implicants entry.index = [entry.position] ∧
    implicants[entry.position]? = some entry.implicant

theorem firstOfPosition_sublist (entries : List Essential) :
    (firstOfPosition entries).Sublist entries := by
  induction entries with
  | nil => exact .slnil
  | cons first rest ih => exact (List.filter_sublist.trans ih).cons_cons first

/-- Of entries with growing rows, the first for each position is the one with the least row. -/
theorem mem_firstOfPosition_iff {entries : List Essential}
    (growing : entries.Pairwise fun first second => first.index < second.index) {entry : Essential} :
    entry ∈ firstOfPosition entries ↔ entry ∈ entries ∧
      ∀ other ∈ entries, other.position = entry.position → entry.index ≤ other.index := by
  induction entries with
  | nil => simp [firstOfPosition]
  | cons first rest ih =>
    obtain ⟨firstLeast, restGrowing⟩ := List.pairwise_cons.mp growing
    rw [firstOfPosition, List.mem_cons, List.mem_filter, ih restGrowing, decide_eq_true_eq]
    constructor
    · rintro (rfl | ⟨⟨inRest, least⟩, different⟩)
      · refine ⟨List.mem_cons_self, fun other member _ => ?_⟩
        rcases List.mem_cons.mp member with rfl | later
        · exact Nat.le_refl _
        · exact Nat.le_of_lt (firstLeast other later)
      · refine ⟨List.mem_cons_of_mem _ inRest, fun other member same => ?_⟩
        rcases List.mem_cons.mp member with rfl | later
        · exact absurd same.symm different
        · exact least other later same
    · rintro ⟨member, least⟩
      rcases List.mem_cons.mp member with isFirst | inRest
      · exact .inl isFirst
      · refine .inr ⟨⟨inRest, fun other later => least other (List.mem_cons_of_mem _ later)⟩, ?_⟩
        intro same
        exact absurd (least first List.mem_cons_self same.symm)
          (Nat.not_le_of_lt (firstLeast entry inRest))

theorem nodup_positions_firstOfPosition (entries : List Essential) :
    ((firstOfPosition entries).map Essential.position).Nodup := by
  induction entries with
  | nil => exact List.nodup_nil
  | cons first rest ih =>
    rw [firstOfPosition, List.map_cons, List.nodup_cons]
    refine ⟨fun member => ?_, ih.sublist (List.filter_sublist.map _)⟩
    obtain ⟨entry, kept, same⟩ := List.mem_map.mp member
    exact absurd same (of_decide_eq_true (List.mem_filter.mp kept).2)

section Essentials

variable {implicants : List Implicant} {target : IndexSet}

/-- The entry of a row that one implicant alone covers. -/
def essentialAt? (implicants : List Implicant) (index : Nat) : Option Essential :=
  match covering implicants index with
  | [position] => implicants[position]?.map fun implicant => ⟨position, implicant, index⟩
  | _ => none

theorem essentialAt_eq_some_iff {index : Nat} {entry : Essential} :
    essentialAt? implicants index = some entry ↔ entry.index = index ∧
      covering implicants index = [entry.position] ∧
        implicants[entry.position]? = some entry.implicant := by
  rw [essentialAt?]
  constructor
  · intro made
    split at made
    · next position alone =>
      obtain ⟨implicant, found, rfl⟩ := Option.map_eq_some_iff.mp made
      exact ⟨rfl, alone, found⟩
    · cases made
  · rintro ⟨rfl, alone, found⟩
    rw [alone]
    simp only [found, Option.map_some]

theorem essentials_eq : essentials implicants target =
    firstOfPosition (target.toList.filterMap (essentialAt? implicants)) := rfl

theorem mem_essentialsAt_iff {entry : Essential} :
    entry ∈ target.toList.filterMap (essentialAt? implicants) ↔ Alone implicants target entry := by
  simp only [List.mem_filterMap, essentialAt_eq_some_iff]
  constructor
  · rintro ⟨_, member, rfl, alone⟩
    exact ⟨member, alone⟩
  · exact fun alone => ⟨entry.index, alone.1, rfl, alone.2⟩

theorem pairwise_essentialsAt : (target.toList.filterMap (essentialAt? implicants)).Pairwise
    fun first second => first.index < second.index := by
  refine List.pairwise_filterMap.mpr (target.ascending.imp ?_)
  intro first second below firstEntry firstMade secondEntry secondMade
  rw [(essentialAt_eq_some_iff.mp firstMade).1, (essentialAt_eq_some_iff.mp secondMade).1]
  exact below

/-- **The essential implicants are those that alone cover a row, each with the least such row.** -/
theorem mem_essentials_iff {entry : Essential} :
    entry ∈ essentials implicants target ↔ Alone implicants target entry ∧
      ∀ index ∈ target, covering implicants index = [entry.position] → entry.index ≤ index := by
  rw [essentials_eq, mem_firstOfPosition_iff pairwise_essentialsAt, mem_essentialsAt_iff]
  refine and_congr_right fun alone => ⟨fun least index member same => ?_, fun least other found same => ?_⟩
  · exact least ⟨entry.position, entry.implicant, index⟩
      (mem_essentialsAt_iff.mpr ⟨member, same, alone.2.2⟩) rfl
  · obtain ⟨member, otherAlone, _⟩ := mem_essentialsAt_iff.mp found
    exact least other.index member (same ▸ otherAlone)

/-- The essential implicants stand in the order of their rows. -/
theorem pairwise_essentials :
    (essentials implicants target).Pairwise fun first second => first.index < second.index :=
  pairwise_essentialsAt.sublist (firstOfPosition_sublist _)

theorem nodup_positions_essentials :
    ((essentials implicants target).map Essential.position).Nodup :=
  nodup_positions_firstOfPosition _

/-- The implicants of the entries are those at their positions. -/
theorem implicantsAt_essentials :
    implicantsAt implicants ((essentials implicants target).map Essential.position) =
      (essentials implicants target).map Essential.implicant := by
  rw [implicantsAt, List.filterMap_map, ← List.filterMap_eq_map]
  exact List.filterMap_congr fun entry member => (mem_essentials_iff.mp member).1.2.2

end Essentials

/-! ### The best completion -/

/-- A cover that is at most another one has at most its cost. -/
theorem cost_le_of_coverOrder {implicants : List Implicant} {first second : IndexSet}
    (below : (coverOrder implicants first second).isLE) :
    first.size < second.size ∨ first.size = second.size ∧
      literalTotal (patternsAt implicants first.toList) ≤
        literalTotal (patternsAt implicants second.toList) := by
  have keys : ((compare first.size second.size).then
      ((compare (coverRank implicants first).literals (coverRank implicants second).literals).then
        (compare (coverRank implicants first).patterns
          (coverRank implicants second).patterns))).isLE := rank_isLE_of_coverOrder below
  rw [Ordering.isLE_then_iff_and, Nat.isLE_compare, Nat.compare_eq_lt, Ordering.isLE_then_iff_and,
    Nat.isLE_compare, coverRank_literals, coverRank_literals] at keys
  rcases keys with ⟨atMost, smaller | ⟨literals, _⟩⟩
  · exact .inl smaller
  · exact (Nat.lt_or_eq_of_le atMost).imp_right fun same => ⟨same, literals⟩

/-- A part of a set is at most the set. -/
theorem coverOrder_of_subset (implicants : List Implicant) {smaller set : IndexSet}
    (inside : smaller ⊆ set) : (coverOrder implicants smaller set).isLE := by
  by_cases same : smaller = set
  · rw [same]
    exact Std.ReflCmp.isLE_rfl
  · have fewer : smaller.size < set.size := by
      refine Nat.lt_of_le_of_ne (IndexSet.size_le_of_subset inside) fun sizes => same ?_
      exact IndexSet.eq_of_subset_of_size_le inside sizes.ge
    have decided : coverOrder implicants smaller set = .lt :=
      coverOrder_eq_lt_iff.mpr (.inl (CoverRank.compare_eq_lt_iff.mpr (.inl fewer)))
    rw [decided]
    rfl

/-- The products are in the order of sets. -/
theorem ascending_hittingSets (clauses : List (List Nat)) :
    Ascending compare (hittingSets clauses) := by
  cases clauses using List.reverseRecOn with
  | nil => exact List.pairwise_singleton _ _
  | append_singleton earlier last =>
    rw [hittingSets, List.foldl_append]
    exact ascending_sortBy ((perm_sortBy _ _).nodup_iff.mp (nodup_minimalSets _))

/-- **The first cover of the best rank is the least one**, in a list that has the covers in the order
of sets. -/
theorem coverOrder_of_leastBy {implicants : List Implicant} {candidates : List IndexSet}
    {entry : CoverRank × IndexSet} (ascending : Ascending compare candidates)
    (found : leastBy? (compareOn Prod.fst)
      (candidates.map fun positions => (coverRank implicants positions, positions)) = some entry) :
    entry.2 ∈ candidates ∧ ∀ other ∈ candidates, (coverOrder implicants entry.2 other).isLE := by
  obtain ⟨_, least⟩ := leastBy_spec found
  obtain ⟨before, after, split, earlier⟩ := exists_append_of_leastBy found
  obtain ⟨smaller, others, rfl, rfl, atEntry⟩ := List.map_eq_append_iff.mp split
  obtain ⟨best, greater, rfl, rfl, rfl⟩ := List.map_eq_cons_iff.mp atEntry
  refine ⟨List.mem_append_right _ List.mem_cons_self, fun other member => ?_⟩
  have ranks : (compare (coverRank implicants best) (coverRank implicants other)).isLE :=
    least _ (List.mem_map_of_mem member)
  rcases List.mem_append.mp member with inSmaller | later
  · have decided : compare (coverRank implicants best) (coverRank implicants other) = .lt :=
      earlier _ (List.mem_map_of_mem inSmaller)
    exact Ordering.isLE_then_iff_and.mpr ⟨ranks, .inl decided⟩
  · rcases List.mem_cons.mp later with rfl | inGreater
    · exact Std.ReflCmp.isLE_rfl
    · have sets := (List.pairwise_cons.mp (List.pairwise_append.mp ascending).2.1).1 other inGreater
      refine Ordering.isLE_then_iff_and.mpr ⟨ranks, .inr ?_⟩
      rw [sets]
      rfl

namespace Completion

variable {implicants : List Implicant} {clauses : List (List Nat)}

/-- **The completion meets all clauses and is the least of all sets that do.** -/
theorem best_spec (implicants : List Implicant) (possible : ∃ set, Hits clauses set) :
    Hits clauses (ofClauses implicants clauses).best ∧ ∀ set, Hits clauses set →
      (coverOrder implicants (ofClauses implicants clauses).best set).isLE := by
  have minimal := minimalFamily_hittingSets clauses
  cases found : leastBy? (compareOn Prod.fst)
      ((hittingSets clauses).map fun positions => (coverRank implicants positions, positions)) with
  | none =>
    obtain ⟨set, hits⟩ := possible
    obtain ⟨smaller, member, _⟩ := minimal.below set hits
    rw [leastBy_eq_none_iff, List.map_eq_nil_iff] at found
    rw [found] at member
    cases member
  | some entry =>
    have best : (ofClauses implicants clauses).best = entry.2 := by
      rw [ofClauses]
      simp only [found, Option.elim_some]
    obtain ⟨listed, least⟩ := coverOrder_of_leastBy (ascending_hittingSets clauses) found
    rw [best]
    refine ⟨minimal.sound entry.2 listed, fun set hits => ?_⟩
    obtain ⟨smaller, smallerIn, inside⟩ := minimal.below set hits
    exact Std.TransCmp.isLE_trans (least smaller smallerIn) (coverOrder_of_subset implicants inside)

/-- No smaller part of the completion meets all clauses. -/
theorem best_minimal {smaller : IndexSet} (hits : Hits clauses smaller)
    (inside : smaller ⊆ (ofClauses implicants clauses).best) :
    smaller = (ofClauses implicants clauses).best := by
  have least := cost_le_of_coverOrder ((best_spec implicants ⟨smaller, hits⟩).2 smaller hits)
  refine IndexSet.eq_of_subset_of_size_le inside ?_
  rcases least with fewer | same
  · exact Nat.le_of_lt fewer
  · exact Nat.le_of_eq same.1

/-- **The completion holds only positions of the clauses**: without any other it meets them too. -/
theorem exists_clause_of_mem_best (possible : ∃ set, Hits clauses set) {position : Nat}
    (member : position ∈ (ofClauses implicants clauses).best) :
    ∃ clause ∈ clauses, position ∈ clause := by
  by_contra foreign
  let rest : IndexSet :=
    .ofList ((ofClauses implicants clauses).best.toList.filter (· ≠ position))
  have mem_rest : ∀ other, other ∈ rest ↔
      other ∈ (ofClauses implicants clauses).best ∧ other ≠ position := by
    intro other
    rw [IndexSet.mem_ofList, List.mem_filter, decide_eq_true_eq, IndexSet.mem_toList]
  have hits : Hits clauses rest := by
    intro clause clauseIn
    obtain ⟨other, inClause, held⟩ := (best_spec implicants possible).1 clause clauseIn
    refine ⟨other, inClause, (mem_rest other).mpr ⟨held, fun same => ?_⟩⟩
    exact foreign ⟨clause, clauseIn, same ▸ inClause⟩
  have same : rest = (ofClauses implicants clauses).best :=
    best_minimal hits fun other inRest => ((mem_rest other).mp inRest).1
  exact ((mem_rest position).mp (same ▸ member)).2 rfl

/-- **Only the completion is the least.** -/
theorem eq_best_of_spec {set : IndexSet} (hits : Hits clauses set)
    (least : ∀ other, Hits clauses other → (coverOrder implicants set other).isLE) :
    (ofClauses implicants clauses).best = set := by
  obtain ⟨bestHits, bestLeast⟩ := best_spec implicants ⟨set, hits⟩
  exact Std.LawfulEqCmp.eq_of_compare
    (Std.OrientedCmp.isLE_antisymm (bestLeast set hits) (least _ bestHits))

theorem mem_placedAt {positions : List Nat} {entry : Nat × Implicant} :
    entry ∈ placedAt implicants positions ↔
      entry.1 ∈ positions ∧ implicants[entry.1]? = some entry.2 := by
  simp only [placedAt, List.mem_filterMap, Option.map_eq_some_iff]
  constructor
  · rintro ⟨position, member, implicant, here, rfl⟩
    exact ⟨member, here⟩
  · exact fun ⟨member, here⟩ => ⟨entry.1, member, entry.2, here, rfl⟩

theorem map_snd_placedAt (implicants : List Implicant) (positions : List Nat) :
    (placedAt implicants positions).map Prod.snd = implicantsAt implicants positions := by
  simp [placedAt, implicantsAt, List.map_filterMap, Option.map_map, Function.comp_def]

theorem nodup_placedAt {positions : List Nat} (distinct : positions.Nodup) :
    ((placedAt implicants positions).map Prod.fst).Nodup := by
  rw [placedAt, List.map_filterMap]
  refine distinct.filterMap fun first second position firstHere secondHere => ?_
  obtain ⟨_, found, rfl⟩ := Option.map_eq_some_iff.mp firstHere
  obtain ⟨_, _, rfl⟩ := Option.map_eq_some_iff.mp found
  obtain ⟨_, found, same⟩ := Option.map_eq_some_iff.mp secondHere
  obtain ⟨_, _, rfl⟩ := Option.map_eq_some_iff.mp found
  exact same.symm

/-- **The positions are added in the order in which the step shows their implicants.** -/
theorem map_snd_added (implicants : List Implicant) (clauses : List (List Nat)) :
    (ofClauses implicants clauses).added.map Prod.snd = (ofClauses implicants clauses).chosen := by
  show _ = sortBy compare (implicantsAt implicants (ofClauses implicants clauses).best.toList)
  rw [← map_snd_placedAt]
  exact (sortBy_map Prod.snd fun _ _ _ _ => rfl).symm

theorem mem_added {entry : Nat × Implicant} :
    entry ∈ (ofClauses implicants clauses).added ↔
      entry.1 ∈ (ofClauses implicants clauses).best ∧ implicants[entry.1]? = some entry.2 :=
  mem_sortBy.trans mem_placedAt

theorem nodup_added (implicants : List Implicant) (clauses : List (List Nat)) :
    ((ofClauses implicants clauses).added.map Prod.fst).Nodup :=
  ((perm_sortBy _ _).map Prod.fst).nodup_iff.mpr (nodup_placedAt (IndexSet.nodup_toList _))

end Completion

/-! ### The selection -/

/-- The clauses of the rows that no essential implicant covers. -/
def openClauses (implicants : List Implicant) (target : IndexSet) : List (List Nat) :=
  (Selection.remaining (essentials implicants target) target).map (covering implicants)

/-- The best completion of the essential implicants. -/
def completion (implicants : List Implicant) (target : IndexSet) : Completion :=
  .ofClauses implicants (openClauses implicants target)

namespace Selection

variable {implicants : List Implicant} {target : List Nat}

theorem mem_remaining_iff {essential : List Essential} {rows : IndexSet} {index : Nat} :
    index ∈ remaining essential rows ↔
      index ∈ rows ∧ ∀ entry ∈ essential, ¬ entry.implicant.covers index = true := by
  simp only [remaining, List.mem_filter, Bool.not_eq_true', List.any_eq_false]
  rfl

/-- A row is left open when no essential position covers it. -/
theorem mem_remaining_iff_positions {rows : IndexSet} {index : Nat} :
    index ∈ remaining (essentials implicants rows) rows ↔ index ∈ rows ∧
      ∀ position ∈ (essentials implicants rows).map Essential.position,
        position ∉ covering implicants index := by
  rw [mem_remaining_iff, List.forall_mem_map]
  refine and_congr_right fun _ => forall₂_congr fun entry found => not_congr ?_
  have here := (mem_essentials_iff.mp found).1.2.2
  rw [mem_covering_iff, here]
  exact ⟨fun covers => ⟨entry.implicant, rfl, covers⟩,
    fun ⟨_, same, covers⟩ => Option.some.inj same ▸ covers⟩

/-- No row of a target that can be covered is reported. -/
theorem find_uncovered_eq_none
    (coverable : ∀ index ∈ target, ∃ implicant ∈ implicants, implicant.covers index = true) :
    (target.find? fun index => !implicants.any fun implicant => implicant.covers index) = none := by
  refine List.find?_eq_none.mpr fun index member => ?_
  rw [Bool.not_eq_true', Bool.not_eq_false, List.any_eq_true]
  exact coverable index member

theorem hits_openClauses_iff {rows : IndexSet} {set : IndexSet} :
    Hits (openClauses implicants rows) set ↔
      ∀ index ∈ remaining (essentials implicants rows) rows,
        ∃ position ∈ covering implicants index, position ∈ set := by
  simp only [Hits, openClauses, List.forall_mem_map]

/-- Where every row can be covered, all positions together meet all clauses. -/
theorem exists_hits
    (coverable : ∀ index ∈ target, ∃ implicant ∈ implicants, implicant.covers index = true) :
    ∃ set, Hits (openClauses implicants (.ofList target)) set := by
  refine ⟨.ofList (List.range implicants.length), hits_openClauses_iff.mpr fun index left => ?_⟩
  obtain ⟨implicant, member, covers⟩ :=
    coverable index (IndexSet.mem_ofList.mp (mem_remaining_iff.mp left).1)
  obtain ⟨position, found⟩ := List.mem_iff_getElem?.mp member
  refine ⟨position, mem_covering_iff.mpr ⟨implicant, found, covers⟩, IndexSet.mem_ofList.mpr ?_⟩
  exact List.mem_range.mpr (List.getElem?_eq_some_iff.mp found).1

/-- **The chosen positions are not essential**: a clause is what covers a row that no essential
position covers. -/
theorem not_essential_of_mem_best
    (coverable : ∀ index ∈ target, ∃ implicant ∈ implicants, implicant.covers index = true)
    {position : Nat} (chosen : position ∈ (completion implicants (.ofList target)).best) :
    position ∉ (essentials implicants (.ofList target)).map Essential.position := by
  intro essential
  obtain ⟨clause, clauseIn, inClause⟩ :=
    Completion.exists_clause_of_mem_best (exists_hits coverable) chosen
  obtain ⟨index, left, rfl⟩ := List.mem_map.mp clauseIn
  exact (mem_remaining_iff_positions.mp left).2 position essential inClause

/-- Entries at new and different positions are all added. -/
theorem foldl_addPosition {placed entries : List (Nat × Implicant)}
    (distinct : (entries.map Prod.fst).Nodup)
    (new : ∀ entry ∈ entries, entry.1 ∉ placed.map Prod.fst) :
    entries.foldl addPosition placed = placed ++ entries := by
  induction entries generalizing placed with
  | nil => exact (List.append_nil placed).symm
  | cons first rest ih =>
    obtain ⟨firstNew, restDistinct⟩ := List.nodup_cons.mp distinct
    have here : addPosition placed first = placed ++ [first] := by
      refine if_neg fun selected => new first List.mem_cons_self ?_
      obtain ⟨earlier, member, same⟩ := List.any_eq_true.mp selected
      exact List.mem_map.mpr ⟨earlier, member, of_decide_eq_true same⟩
    rw [List.foldl_cons, here, ih restDistinct, List.append_assoc, List.singleton_append]
    intro entry member
    rw [List.map_append, List.mem_append, not_or]
    refine ⟨new entry (List.mem_cons_of_mem _ member), fun same => firstNew ?_⟩
    rw [List.map_singleton, List.mem_singleton] at same
    exact same ▸ List.mem_map_of_mem member

/-- A completion that adds new and different positions is added as a whole. -/
theorem selected_some {essential : List Essential} {completion : Completion}
    (distinct : (completion.added.map Prod.fst).Nodup)
    (new : ∀ entry ∈ completion.added, entry.1 ∉ essential.map Essential.position) :
    selected ⟨essential, some completion⟩ =
      essential.map Essential.implicant ++ completion.added.map Prod.snd := by
  let placed := essential.map fun entry => (entry.position, entry.implicant)
  have fresh : ∀ entry ∈ completion.added, entry.1 ∉ placed.map Prod.fst := by
    rw [List.map_map]
    exact new
  have added := foldl_addPosition distinct fresh
  show (completion.added.foldl addPosition placed).map Prod.snd = _
  rw [added, List.map_append, List.map_map]
  rfl

/-- **Where every row can be covered there is a selection**: the essential implicants, and then the
best completion in the order of implicants. -/
theorem exists_ofTarget
    (coverable : ∀ index ∈ target, ∃ implicant ∈ implicants, implicant.covers index = true) :
    ∃ selection, ofTarget implicants target = .ok selection ∧
      selection.selected = (essentials implicants (.ofList target)).map Essential.implicant ++
        (completion implicants (.ofList target)).chosen := by
  rw [ofTarget, find_uncovered_eq_none coverable]
  simp only
  split
  · next nothing =>
    refine ⟨_, rfl, ?_⟩
    rw [completion, openClauses, nothing]
    exact (List.map_map ..).trans (List.append_nil _).symm
  · refine ⟨_, rfl, ?_⟩
    refine (selected_some (Completion.nodup_added _ _) fun entry member => ?_).trans ?_
    · exact not_essential_of_mem_best coverable (Completion.mem_added.mp member).1
    · rw [Completion.map_snd_added]
      rfl

/-- A target that has a selection can be covered. -/
theorem coverable_of_ofTarget {selection : Selection}
    (selects : ofTarget implicants target = .ok selection) :
    ∀ index ∈ target, ∃ implicant ∈ implicants, implicant.covers index = true := by
  rw [ofTarget] at selects
  split at selects
  · cases selects
  · next none =>
    intro index member
    have covered := List.find?_eq_none.mp none index member
    rwa [Bool.not_eq_true', Bool.not_eq_false, List.any_eq_true] at covered

theorem selected_eq {selection : Selection}
    (selects : ofTarget implicants target = .ok selection) :
    selection.selected = (essentials implicants (.ofList target)).map Essential.implicant ++
      (completion implicants (.ofList target)).chosen := by
  obtain ⟨other, otherSelects, same⟩ := exists_ofTarget (coverable_of_ofTarget selects)
  rw [selects] at otherSelects
  cases otherSelects
  exact same

/-- The selected implicants are those at the essential positions and at the chosen ones. -/
theorem selected_perm {selection : Selection}
    (selects : ofTarget implicants target = .ok selection) :
    selection.selected.Perm (implicantsAt implicants
      ((essentials implicants (.ofList target)).map Essential.position ++
        (completion implicants (.ofList target)).best.toList)) := by
  rw [selected_eq selects, implicantsAt, List.filterMap_append, ← implicantsAt, ← implicantsAt,
    implicantsAt_essentials]
  exact (perm_sortBy _ _).append_left _

/-- The essential and the chosen positions are all different. -/
theorem nodup_positions
    (coverable : ∀ index ∈ target, ∃ implicant ∈ implicants, implicant.covers index = true) :
    ((essentials implicants (.ofList target)).map Essential.position ++
      (completion implicants (.ofList target)).best.toList).Nodup := by
  refine List.nodup_append.mpr ⟨nodup_positions_essentials, IndexSet.nodup_toList _, ?_⟩
  rintro position essential _ chosen rfl
  exact not_essential_of_mem_best coverable chosen essential

/-- **No implicant is selected twice.** -/
theorem nodup_selected {selection : Selection}
    (selects : ofTarget implicants target = .ok selection) (distinct : implicants.Nodup) :
    selection.selected.Nodup := by
  rw [(selected_perm selects).nodup_iff]
  exact nodup_implicantsAt distinct (nodup_positions (coverable_of_ofTarget selects))

/-- Only implicants of the list are selected. -/
theorem mem_of_mem_selected {selection : Selection}
    (selects : ofTarget implicants target = .ok selection) {implicant : Implicant}
    (member : implicant ∈ selection.selected) : implicant ∈ implicants := by
  obtain ⟨position, _, found⟩ := List.mem_filterMap.mp ((selected_perm selects).mem_iff.mp member)
  exact List.mem_of_getElem? found

/-- **The selected implicants cover the target.** -/
theorem covers_selected {selection : Selection}
    (selects : ofTarget implicants target = .ok selection) {index : Nat} (member : index ∈ target) :
    ∃ implicant ∈ selection.selected, implicant.covers index = true := by
  have coverable := coverable_of_ofTarget selects
  by_cases left : index ∈ remaining (essentials implicants (.ofList target)) (.ofList target)
  · obtain ⟨position, covering, chosen⟩ := hits_openClauses_iff.mp
      (Completion.best_spec implicants (exists_hits coverable)).1 index left
    obtain ⟨implicant, found, covers⟩ := mem_covering_iff.mp covering
    refine ⟨implicant, (selected_perm selects).mem_iff.mpr (List.mem_filterMap.mpr ?_), covers⟩
    exact ⟨position, List.mem_append_right _ chosen, found⟩
  · rw [mem_remaining_iff, not_and, IndexSet.mem_ofList] at left
    have essential := left member
    simp only [not_forall, not_not, exists_prop] at essential
    obtain ⟨entry, entryIn, covers⟩ := essential
    refine ⟨entry.implicant, ?_, covers⟩
    rw [selected_eq selects]
    exact List.mem_append_left _ (List.mem_map_of_mem entryIn)

/-- Every set of positions that covers the target contains the essential positions. -/
theorem essential_mem_of_covers {rows set : IndexSet}
    (covers : ∀ index ∈ rows, ∃ position ∈ covering implicants index, position ∈ set)
    {position : Nat} (member : position ∈ (essentials implicants rows).map Essential.position) :
    position ∈ set := by
  obtain ⟨entry, entryIn, rfl⟩ := List.mem_map.mp member
  obtain ⟨inRows, alone, _⟩ := (mem_essentials_iff.mp entryIn).1
  obtain ⟨position, covering, inSet⟩ := covers entry.index inRows
  rw [alone, List.mem_singleton] at covering
  exact covering ▸ inSet

/-- The positions of a set that are not essential. -/
def unessential (implicants : List Implicant) (rows set : IndexSet) : IndexSet :=
  .ofList (set.toList.filter (· ∉ (essentials implicants rows).map Essential.position))

theorem mem_unessential {rows set : IndexSet} {position : Nat} :
    position ∈ unessential implicants rows set ↔
      position ∈ set ∧ position ∉ (essentials implicants rows).map Essential.position := by
  rw [unessential, IndexSet.mem_ofList, List.mem_filter, decide_eq_true_eq, IndexSet.mem_toList]

/-- A set that covers the target consists of the essential positions and the rest of it. -/
theorem perm_essential_append {rows set : IndexSet}
    (covers : ∀ index ∈ rows, ∃ position ∈ covering implicants index, position ∈ set) :
    ((essentials implicants rows).map Essential.position ++
      (unessential implicants rows set).toList).Perm set.toList := by
  refine (List.perm_ext_iff_of_nodup ?_ set.nodup_toList).mpr fun position => ?_
  · refine List.nodup_append.mpr ⟨nodup_positions_essentials, IndexSet.nodup_toList _, ?_⟩
    rintro position essential _ other rfl
    exact (mem_unessential.mp other).2 essential
  · rw [List.mem_append, IndexSet.mem_toList, IndexSet.mem_toList, mem_unessential]
    by_cases essential : position ∈ (essentials implicants rows).map Essential.position
    · exact iff_of_true (.inl essential) (essential_mem_of_covers covers essential)
    · simp only [essential, false_or, not_false_eq_true, and_true]

/-- The rest of a set that covers the target meets all clauses. -/
theorem hits_unessential {rows set : IndexSet}
    (covers : ∀ index ∈ rows, ∃ position ∈ covering implicants index, position ∈ set) :
    Hits (openClauses implicants rows) (unessential implicants rows set) := by
  refine hits_openClauses_iff.mpr fun index left => ?_
  obtain ⟨inRows, uncovered⟩ := mem_remaining_iff_positions.mp left
  obtain ⟨position, covering, inSet⟩ := covers index inRows
  -- an essential position that covers the row would leave no clause for it
  exact ⟨position, covering,
    mem_unessential.mpr ⟨inSet, fun essential => uncovered position essential covering⟩⟩

/-- The selected implicants are no more than the essential and the chosen positions. -/
theorem length_selected_le {selection : Selection}
    (selects : ofTarget implicants target = .ok selection) :
    selection.selected.length ≤
      ((essentials implicants (.ofList target)).map Essential.position).length +
        (completion implicants (.ofList target)).best.size := by
  rw [(selected_perm selects).length_eq]
  refine (List.length_filterMap_le _ _).trans (le_of_eq ?_)
  exact List.length_append

theorem literalTotal_selected {selection : Selection}
    (selects : ofTarget implicants target = .ok selection) :
    literalTotal (selection.selected.map Implicant.pattern) =
      literalTotal (patternsAt implicants
          ((essentials implicants (.ofList target)).map Essential.position)) +
        literalTotal (patternsAt implicants
          (completion implicants (.ofList target)).best.toList) := by
  rw [literalTotal_perm ((selected_perm selects).map Implicant.pattern), ← literalTotal_append,
    ← patternsAt_append]
  rfl

/-- The chosen positions are at most as many as those of any set that meets all clauses, and with as
many or fewer literals if they are as many. -/
theorem completion_least {selection : Selection}
    (selects : ofTarget implicants target = .ok selection) {other : IndexSet}
    (hits : Hits (openClauses implicants (.ofList target)) other) :
    (completion implicants (.ofList target)).best.size < other.size ∨
      (completion implicants (.ofList target)).best.size = other.size ∧
        literalTotal (patternsAt implicants
            (completion implicants (.ofList target)).best.toList) ≤
          literalTotal (patternsAt implicants other.toList) := by
  exact cost_le_of_coverOrder ((Completion.best_spec implicants
    (exists_hits (coverable_of_ofTarget selects))).2 other hits)

/-- **The selected implicants cost at most as much as those of any set of positions that covers the
target**: the essential positions are in every such set, and the rest of it meets all clauses. -/
theorem cost_selected_le {selection : Selection}
    (selects : ofTarget implicants target = .ok selection) {set : IndexSet}
    (covers : ∀ index ∈ target, ∃ position ∈ covering implicants index, position ∈ set) :
    cost (selection.selected.map Implicant.pattern) ≤
      toLex (set.size, literalTotal (patternsAt implicants set.toList)) := by
  have coversRows : ∀ index ∈ IndexSet.ofList target,
      ∃ position ∈ covering implicants index, position ∈ set :=
    fun index inRows => covers index (IndexSet.mem_ofList.mp inRows)
  have least := completion_least selects (hits_unessential coversRows)
  have parts := perm_essential_append coversRows
  have setSize : set.size =
      ((essentials implicants (.ofList target)).map Essential.position).length +
        (unessential implicants (.ofList target) set).size := by
    rw [IndexSet.size, ← parts.length_eq, List.length_append]
    rfl
  have setLiterals : literalTotal (patternsAt implicants set.toList) =
      literalTotal (patternsAt implicants
          ((essentials implicants (.ofList target)).map Essential.position)) +
        literalTotal (patternsAt implicants
          (unessential implicants (.ofList target) set).toList) := by
    rw [← literalTotal_perm (patternsAt_perm parts), patternsAt_append, literalTotal_append]
  have selectedLength := length_selected_le selects
  rw [cost, Prod.Lex.toLex_le_toLex, List.length_map, literalTotal_selected selects, setSize,
    setLiterals]
  simp only
  omega

end Selection

end TwoLevel
