/-
**Multiplying out the clauses leaves the minimal hitting sets.**

* `MinimalFamily` — the sets of a list are the minimal ones with a property: each has it, below
  every set that has it there is one of the list, and none contains another;
* `minimalFamily_minimalSets` — absorption keeps the minimal ones of a list of products;
* `minimalFamily_hittingSets` — **what is left when all clauses are multiplied out are the minimal
  sets that meet every clause**, whatever the order and repetition of the clauses;
* `hittingSets_exact` — so membership is minimality, for both, and nothing is listed twice.
-/

import Mathlib.Data.List.Induction
import Mathlib.Data.List.Perm.Subperm
import TwoLevel.HittingSet

namespace TwoLevel

namespace IndexSet

instance : HasSubset IndexSet := ⟨fun left right => ∀ number ∈ left, number ∈ right⟩

variable {first second third : IndexSet}

theorem subset_refl (set : IndexSet) : set ⊆ set := fun _ member => member

theorem subset_trans (left : first ⊆ second) (right : second ⊆ third) : first ⊆ third :=
  fun number member => right number (left number member)

theorem subset_antisymm (there : first ⊆ second) (back : second ⊆ first) : first = second :=
  ext fun number => ⟨there number, back number⟩

theorem nodup_toList (set : IndexSet) : set.toList.Nodup := set.ascending.imp Nat.ne_of_lt

theorem size_le_of_subset (inside : first ⊆ second) : first.size ≤ second.size :=
  (List.subperm_of_subset first.nodup_toList inside).length_le

/-- A set inside one that is not larger is the same set. -/
theorem eq_of_subset_of_size_le (inside : first ⊆ second) (notLarger : second.size ≤ first.size) :
    first = second := by
  have permuted := (List.subperm_of_subset first.nodup_toList inside).perm_of_length_le notLarger
  exact ext fun number => permuted.mem_iff

end IndexSet

/-! ### Families of minimal sets -/

/-- The sets of a list are the minimal ones with a property. -/
structure MinimalFamily (property : IndexSet → Prop) (family : List IndexSet) : Prop where
  sound : ∀ set ∈ family, property set
  below : ∀ set, property set → ∃ smaller ∈ family, smaller ⊆ set
  antichain : ∀ first ∈ family, ∀ second ∈ family, first ⊆ second → first = second

namespace MinimalFamily

variable {property larger : IndexSet → Prop} {family : List IndexSet}

/-- A set is in the list exactly when it has the property and contains no other set that has it. -/
theorem mem_iff (minimal : MinimalFamily property family) {set : IndexSet} :
    set ∈ family ↔ property set ∧ ∀ smaller, property smaller → smaller ⊆ set → smaller = set := by
  constructor
  · refine fun member => ⟨minimal.sound set member, fun smaller holds inside => ?_⟩
    obtain ⟨least, leastIn, leastInside⟩ := minimal.below smaller holds
    have same := minimal.antichain least leastIn set member (IndexSet.subset_trans leastInside inside)
    exact IndexSet.subset_antisymm inside (same ▸ leastInside)
  · rintro ⟨holds, least⟩
    obtain ⟨smaller, smallerIn, inside⟩ := minimal.below set holds
    rwa [← least smaller (minimal.sound smaller smallerIn) inside]

/-- The order of the list makes no difference. -/
theorem perm (minimal : MinimalFamily property family) {reordered : List IndexSet}
    (permutes : reordered.Perm family) : MinimalFamily property reordered := by
  refine ⟨fun set member => minimal.sound set (permutes.mem_iff.mp member), fun set holds => ?_,
    fun first firstIn second secondIn =>
      minimal.antichain first (permutes.mem_iff.mp firstIn) second (permutes.mem_iff.mp secondIn)⟩
  obtain ⟨smaller, smallerIn, inside⟩ := minimal.below set holds
  exact ⟨smaller, permutes.mem_iff.mpr smallerIn, inside⟩

/-- A weaker property has the same minimal sets if below every set that has it there is one with
the stronger property. -/
theorem weaken (minimal : MinimalFamily property family)
    (weaker : ∀ set, property set → larger set)
    (refined : ∀ set, larger set → ∃ smaller, property smaller ∧ smaller ⊆ set) :
    MinimalFamily larger family := by
  refine ⟨fun set member => weaker set (minimal.sound set member), fun set holds => ?_,
    minimal.antichain⟩
  obtain ⟨middle, middleHolds, middleInside⟩ := refined set holds
  obtain ⟨smaller, smallerIn, inside⟩ := minimal.below middle middleHolds
  exact ⟨smaller, smallerIn, IndexSet.subset_trans inside middleInside⟩

/-- A last set that is at least as large as all others, and contains none of the minimal ones, is
minimal too. -/
theorem cons {earlier : List IndexSet} {last : IndexSet}
    (minimal : MinimalFamily (· ∈ earlier) family)
    (largest : ∀ set ∈ earlier, set.size ≤ last.size)
    (containsNone : ∀ kept ∈ family, ¬ kept ⊆ last) :
    MinimalFamily (· ∈ earlier ++ [last]) (last :: family) := by
  refine ⟨fun set member => ?_, fun set member => ?_, ?_⟩
  · rcases List.mem_cons.mp member with rfl | kept
    · exact List.mem_append_right _ (List.mem_singleton.mpr rfl)
    · exact List.mem_append_left _ (minimal.sound set kept)
  · rcases List.mem_append.mp member with before | isLast
    · obtain ⟨smaller, smallerIn, inside⟩ := minimal.below set before
      exact ⟨smaller, List.mem_cons_of_mem _ smallerIn, inside⟩
    · rw [List.mem_singleton.mp isLast]
      exact ⟨last, List.mem_cons_self, IndexSet.subset_refl last⟩
  · intro first firstIn second secondIn inside
    rcases List.mem_cons.mp firstIn with rfl | firstKept
    · rcases List.mem_cons.mp secondIn with rfl | secondKept
      · rfl
      · exact IndexSet.eq_of_subset_of_size_le inside
          (largest second (minimal.sound second secondKept))
    · rcases List.mem_cons.mp secondIn with rfl | secondKept
      · exact absurd inside (containsNone first firstKept)
      · exact minimal.antichain first firstKept second secondKept inside

end MinimalFamily

/-! ### Absorption -/

theorem mem_bySize {product : IndexSet} {products : List IndexSet} :
    product ∈ bySize products ↔ product ∈ products := by
  simp only [bySize, List.mem_flatMap, List.mem_filter, decide_eq_true_eq]
  constructor
  · rintro ⟨_, _, member, _⟩
    exact member
  · intro member
    exact ⟨product.size, IndexSet.mem_ofList.mpr (List.mem_map_of_mem member), member, rfl⟩

theorem pairwise_bySize (products : List IndexSet) :
    (bySize products).Pairwise fun first second => first.size ≤ second.size := by
  refine List.pairwise_flatMap.mpr ⟨fun size _ => ?_, ?_⟩
  · refine List.pairwise_of_forall_mem_list fun first firstIn second secondIn => ?_
    simp only [List.mem_filter, decide_eq_true_eq] at firstIn secondIn
    exact Nat.le_of_eq (firstIn.2.trans secondIn.2.symm)
  · refine (IndexSet.ofList _).ascending.imp fun smaller first firstIn second secondIn => ?_
    simp only [List.mem_filter, decide_eq_true_eq] at firstIn secondIn
    rw [firstIn.2, secondIn.2]
    exact Nat.le_of_lt smaller

/-- Going through products of growing size, keeping those that contain none kept before leaves the
minimal ones. -/
theorem minimalFamily_foldl {products : List IndexSet}
    (growing : products.Pairwise fun first second => first.size ≤ second.size) :
    MinimalFamily (· ∈ products) (products.foldl keepUnlessContaining []) := by
  induction products using List.reverseRecOn with
  | nil => exact ⟨fun _ member => member, fun _ member => absurd member List.not_mem_nil, by simp⟩
  | append_singleton earlier last ih =>
    obtain ⟨earlierGrowing, _, lastLargest⟩ := List.pairwise_append.mp growing
    have minimal := ih earlierGrowing
    rw [List.foldl_append, List.foldl_cons, List.foldl_nil, keepUnlessContaining]
    split
    · next contained =>
      obtain ⟨smaller, smallerIn, inside⟩ := List.any_eq_true.mp contained
      refine minimal.weaken (fun set member => List.mem_append_left _ member) fun set member => ?_
      rcases List.mem_append.mp member with before | isLast
      · exact ⟨set, before, IndexSet.subset_refl set⟩
      · rw [List.mem_singleton.mp isLast]
        exact ⟨smaller, minimal.sound smaller smallerIn, IndexSet.subset_iff.mp inside⟩
    · next free =>
      refine minimal.cons (fun set member => ?_) fun kept keptIn inside => ?_
      · exact lastLargest set member last (List.mem_singleton.mpr rfl)
      · exact free (List.any_eq_true.mpr ⟨kept, keptIn, IndexSet.subset_iff.mpr inside⟩)

/-- **Absorption keeps the minimal products.** -/
theorem minimalFamily_minimalSets (products : List IndexSet) :
    MinimalFamily (· ∈ products) (minimalSets products) :=
  ((minimalFamily_foldl (pairwise_bySize products)).perm (perm_sortBy _ _)).weaken
    (fun _ => mem_bySize.mp)
    fun set member => ⟨set, mem_bySize.mpr member, IndexSet.subset_refl set⟩

/-! ### Multiplying out -/

/-- A set of positions meets every clause. -/
def Hits (clauses : List (List Nat)) (set : IndexSet) : Prop :=
  ∀ clause ∈ clauses, ∃ position ∈ clause, position ∈ set

theorem Hits.mono {clauses : List (List Nat)} {first second : IndexSet} (hits : Hits clauses first)
    (inside : first ⊆ second) : Hits clauses second := by
  intro clause member
  obtain ⟨position, inClause, held⟩ := hits clause member
  exact ⟨position, inClause, inside position held⟩

/-- What multiplying by a clause gives contains the product and meets the clause. -/
theorem multiply_sound {clause : List Nat} {product extended : IndexSet}
    (member : extended ∈ multiply clause product) :
    product ⊆ extended ∧ ∃ position ∈ clause, position ∈ extended := by
  rw [multiply] at member
  split at member
  · next met =>
    rw [List.mem_singleton.mp member]
    obtain ⟨position, inClause, held⟩ := List.any_eq_true.mp met
    exact ⟨IndexSet.subset_refl product, position, inClause, of_decide_eq_true held⟩
  · obtain ⟨position, inClause, rfl⟩ := List.mem_map.mp member
    exact ⟨fun number held => IndexSet.mem_insert.mpr (.inr held), position, inClause,
      IndexSet.mem_insert.mpr (.inl rfl)⟩

/-- A set that contains the product and meets the clause contains one of the results. -/
theorem exists_multiply_subset {clause : List Nat} {product set : IndexSet} (inside : product ⊆ set)
    (met : ∃ position ∈ clause, position ∈ set) : ∃ extended ∈ multiply clause product,
      extended ⊆ set := by
  rw [multiply]
  split
  · exact ⟨product, List.mem_singleton.mpr rfl, inside⟩
  · obtain ⟨position, inClause, held⟩ := met
    refine ⟨_, List.mem_map_of_mem inClause, fun number member => ?_⟩
    rcases IndexSet.mem_insert.mp member with rfl | old
    · exact held
    · exact inside number old

/-- **What is left when all clauses are multiplied out are the minimal hitting sets.** -/
theorem minimalFamily_hittingSets (clauses : List (List Nat)) :
    MinimalFamily (Hits clauses) (hittingSets clauses) := by
  induction clauses using List.reverseRecOn with
  | nil =>
    refine ⟨fun _ _ _ member => absurd member List.not_mem_nil, fun set _ =>
      ⟨∅, List.mem_singleton.mpr rfl, fun number member => ?_⟩, ?_⟩
    · exact absurd member (IndexSet.not_mem_empty number)
    · intro first firstIn second secondIn _
      rw [List.mem_singleton.mp firstIn, List.mem_singleton.mp secondIn]
  | append_singleton earlier last ih =>
    have step : hittingSets (earlier ++ [last]) =
        minimalSets ((hittingSets earlier).flatMap (multiply last)) := by
      rw [hittingSets, List.foldl_append]
      rfl
    rw [step]
    refine (minimalFamily_minimalSets _).weaken (fun set member => ?_) fun set hits => ?_
    · obtain ⟨product, productIn, multiplied⟩ := List.mem_flatMap.mp member
      obtain ⟨inside, met⟩ := multiply_sound multiplied
      intro clause clauseIn
      rcases List.mem_append.mp clauseIn with before | isLast
      · exact (ih.sound product productIn).mono inside clause before
      · rw [List.mem_singleton.mp isLast]
        exact met
    · have hitsEarlier : Hits earlier set :=
        fun clause before => hits clause (List.mem_append_left _ before)
      have met := hits last (List.mem_append_right _ (List.mem_singleton.mpr rfl))
      obtain ⟨product, productIn, inside⟩ := ih.below set hitsEarlier
      obtain ⟨extended, extendedIn, extendedInside⟩ := exists_multiply_subset inside met
      exact ⟨extended, List.mem_flatMap.mpr ⟨product, productIn, extendedIn⟩, extendedInside⟩

/-! ### Exactly the minimal sets -/

/-- The set has the property, and no other set inside it has it. -/
def IsMinimal (property : IndexSet → Prop) (set : IndexSet) : Prop :=
  property set ∧ ∀ smaller, property smaller → smaller ⊆ set → smaller = set

/-- What is added contains no set that was kept before, so it is not one of them. -/
theorem nodup_keepUnlessContaining {kept : List IndexSet} (distinct : kept.Nodup)
    (product : IndexSet) : (keepUnlessContaining kept product).Nodup := by
  rw [keepUnlessContaining]
  split
  · exact distinct
  · next free =>
    refine List.nodup_cons.mpr ⟨fun member => free (List.any_eq_true.mpr ⟨product, member, ?_⟩),
      distinct⟩
    exact IndexSet.subset_iff.mpr (IndexSet.subset_refl product)

/-- Absorption keeps no product twice. -/
theorem nodup_minimalSets (products : List IndexSet) : (minimalSets products).Nodup := by
  rw [minimalSets, (perm_sortBy _ _).nodup_iff]
  generalize bySize products = growing
  induction growing using List.reverseRecOn with
  | nil => exact List.nodup_nil
  | append_singleton earlier last ih =>
    rw [List.foldl_append]
    exact nodup_keepUnlessContaining ih last

theorem nodup_hittingSets (clauses : List (List Nat)) : (hittingSets clauses).Nodup := by
  cases clauses using List.reverseRecOn with
  | nil =>
    show [(∅ : IndexSet)].Nodup
    simp
  | append_singleton earlier last =>
    rw [hittingSets, List.foldl_append]
    exact nodup_minimalSets _

/-- Clauses that are met by the same sets have the same hitting sets. -/
theorem hittingSets_perm {first second : List (List Nat)}
    (same : ∀ set, Hits first set ↔ Hits second set) :
    (hittingSets first).Perm (hittingSets second) := by
  refine (List.perm_ext_iff_of_nodup (nodup_hittingSets first) (nodup_hittingSets second)).mpr ?_
  intro set
  rw [(minimalFamily_hittingSets first).mem_iff, (minimalFamily_hittingSets second).mem_iff]
  simp only [same]

/-- **The products are exactly the irredundant covers.** For every list of clauses, the products left
when all are multiplied out are the minimal sets that meet every clause, each once; none of them
contains another, and they depend neither on the order of the clauses nor on how often one is
listed. Absorption leaves of every list of products exactly the minimal ones, each once. -/
theorem hittingSets_exact :
    (∀ clauses : List (List Nat),
      (∀ set, set ∈ hittingSets clauses ↔ IsMinimal (Hits clauses) set) ∧
      (hittingSets clauses).Nodup ∧
      (∀ first ∈ hittingSets clauses, ∀ second ∈ hittingSets clauses, first ⊆ second →
        first = second) ∧
      ∀ others : List (List Nat), (∀ clause, clause ∈ others ↔ clause ∈ clauses) →
        (hittingSets others).Perm (hittingSets clauses)) ∧
    ∀ products : List IndexSet,
      (∀ set, set ∈ minimalSets products ↔ IsMinimal (· ∈ products) set) ∧
      (minimalSets products).Nodup := by
  constructor
  · intro clauses
    have minimal := minimalFamily_hittingSets clauses
    refine ⟨fun set => minimal.mem_iff, nodup_hittingSets clauses, minimal.antichain, ?_⟩
    intro others same
    apply hittingSets_perm
    intro set
    simp only [Hits, same]
  · intro products
    exact ⟨fun set => (minimalFamily_minimalSets products).mem_iff, nodup_minimalSets products⟩

/-- The clauses of a cycle of four positions: two opposite positions meet them all, and the order of
the clauses and a repeated one make no difference. -/
theorem hittingSets_exact_four_cycle :
    let cycle : List (List Nat) := [[0, 1], [1, 2], [2, 3], [3, 0]]
    IsMinimal (Hits cycle) (.ofList [0, 2]) ∧ ¬ IsMinimal (Hits cycle) (.ofList [0, 1, 2]) ∧
      (hittingSets [[2, 3], [1, 2], [2, 3], [3, 0], [0, 1]]).Perm (hittingSets cycle) := by
  intro cycle
  obtain ⟨exact, _⟩ := hittingSets_exact
  obtain ⟨mem_iff, _, _, independent⟩ := exact cycle
  refine ⟨(mem_iff _).mp (by decide), fun minimal => ?_, independent _ fun clause => ?_⟩
  · exact absurd ((mem_iff _).mpr minimal) (by decide)
  · simp only [cycle, List.mem_cons]
    tauto

end TwoLevel
