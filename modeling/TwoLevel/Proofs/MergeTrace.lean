/-
**The trace of a search is a complete and exact record.**

The steps of a search by passes are the groups of the first pass and then all merges. Below the
number of rows, the groups list every row once, and every cube inside the rows is merged once from
each of its pairs of halves, in the pass with the number of its free positions.

* `flatMap_groupByOnes_perm`, `nodup_mergesOf` — groups and merges name nothing twice;
* `Level.mem_numberedMerges_iff` — which merges the passes record, and in which pass, **the run** to
  the step `Level.mem_merges_iff`;
* `filter_merges_perm` — the merges that give a cube join each pair of its halves once;
* `shown_iff`, `never_merged_iff` — what the trace shows are the cubes inside the rows, and what it
  never merges are the prime ones;
* `MergeTrace`, `merge_trace_exact` — the whole record;
* `no_merge_beyond_word` — a merge that is missing where a row does not fit into a word.
-/

import Mathlib.Data.Finset.Lattice.Lemmas
import Mathlib.Data.List.Dedup
import TwoLevel.Derivation
import TwoLevel.Proofs.PrimeImplicants

namespace TwoLevel

/-! ### The groups of the first pass -/

section Groups

variable {implicants : List Implicant}

/-- The groups stand in the order of their numbers of ones. -/
theorem pairwise_groupByOnes (implicants : List Implicant) :
    (groupByOnes implicants).Pairwise fun first second => first.1 < second.1 := by
  unfold groupByOnes groupBy
  exact List.pairwise_map.mpr (IndexSet.ascending _)

/-- Each implicant is in the group of its number of ones. -/
theorem mem_group_iff {group : Nat × List Implicant} (member : group ∈ groupByOnes implicants)
    {implicant : Implicant} :
    implicant ∈ group.2 ↔ implicant ∈ implicants ∧ implicant.ones = group.1 := by
  obtain ⟨ones, _, rfl⟩ := List.mem_map.mp member
  simp only [List.mem_filter, decide_eq_true_eq]

theorem nodup_group (distinct : implicants.Nodup) {group : Nat × List Implicant}
    (member : group ∈ groupByOnes implicants) : group.2.Nodup := by
  obtain ⟨ones, _, rfl⟩ := List.mem_map.mp member
  exact distinct.filter _

/-- **The groups hold each implicant once.** -/
theorem flatMap_groupByOnes_perm (distinct : implicants.Nodup) :
    ((groupByOnes implicants).flatMap Prod.snd).Perm implicants := by
  refine (List.perm_ext_iff_of_nodup ?_ distinct).mpr fun implicant => ?_
  · refine List.nodup_flatMap.mpr ⟨fun group member => nodup_group distinct member, ?_⟩
    refine (pairwise_groupByOnes implicants).imp_of_mem fun firstIn secondIn below => ?_
    refine List.disjoint_left.mpr fun implicant inFirst inSecond => ?_
    have firstOnes := ((mem_group_iff firstIn).mp inFirst).2
    have secondOnes := ((mem_group_iff secondIn).mp inSecond).2
    omega
  · rw [List.mem_flatMap]
    constructor
    · rintro ⟨group, member, inGroup⟩
      exact ((mem_group_iff member).mp inGroup).1
    · intro member
      have listed : (implicant.ones, implicants.filter fun other => other.ones = implicant.ones) ∈
          groupByOnes implicants :=
        List.mem_map.mpr ⟨implicant.ones, IndexSet.mem_toList.mpr
          (IndexSet.mem_ofList.mpr (List.mem_map_of_mem member)), rfl⟩
      exact ⟨_, listed, (mem_group_iff listed).mpr ⟨member, rfl⟩⟩

end Groups

/-! ### The merges of a pass -/

theorem groupBy_map {α β : Type} (number : α → Nat) (change : β → α) (members : List β) :
    groupBy number (members.map change) =
      (groupBy (number ∘ change) members).map fun group => (group.1, group.2.map change) := by
  unfold groupBy
  simp only [List.map_map, List.filter_map]
  rfl

/-- The recorded merges are those of the implicants, whatever their positions. -/
theorem mergesOf_eq (implicants : List Implicant) :
    mergesOf implicants = (groupByOnes implicants).flatMap fun group =>
      group.2.flatMap fun left =>
        (implicants.filter fun implicant => implicant.ones = group.1 + 1).filterMap fun right =>
          (left.merge? right).map fun merged => ⟨left, right, merged⟩ := by
  have values : implicants = implicants.zipIdx.map Prod.fst :=
    (List.zipIdx_map_fst 0 implicants).symm
  conv_rhs => rw [values]
  rw [groupByOnes, groupBy_map, List.flatMap_map, mergesOf, placedMerges, List.map_flatMap]
  refine List.flatMap_congr fun group _ => ?_
  rw [List.map_flatMap, List.flatMap_map]
  refine List.flatMap_congr fun left _ => ?_
  rw [List.map_filterMap, List.filter_map, List.filterMap_map]
  refine List.filterMap_congr fun right _ => ?_
  rw [Option.map_map]
  rfl

section Partners

variable {left : Implicant} {partners : List Implicant}

/-- The merges of an implicant with its partners have it on the left. -/
theorem left_eq_of_mem_filterMap {merge : Merge}
    (member : merge ∈ partners.filterMap fun right =>
      (left.merge? right).map fun merged => (⟨left, right, merged⟩ : Merge)) :
    merge.left = left := by
  obtain ⟨right, _, made⟩ := List.mem_filterMap.mp member
  obtain ⟨_, _, rfl⟩ := Option.map_eq_some_iff.mp made
  rfl

/-- An implicant is merged at most once with each partner. -/
theorem nodup_filterMap_merge (distinct : partners.Nodup) :
    (partners.filterMap fun right =>
      (left.merge? right).map fun merged => (⟨left, right, merged⟩ : Merge)).Nodup := by
  refine distinct.filterMap ?_
  intro first second merge firstMade secondMade
  obtain ⟨_, _, rfl⟩ := Option.map_eq_some_iff.mp firstMade
  obtain ⟨_, _, same⟩ := Option.map_eq_some_iff.mp secondMade
  exact (congrArg Merge.right same).symm

end Partners

/-- **Different implicants are merged at most once with each other.** -/
theorem nodup_mergesOf {implicants : List Implicant} (distinct : implicants.Nodup) :
    (mergesOf implicants).Nodup := by
  rw [mergesOf_eq]
  -- merges differ in the group of the left implicant, then in the left one, then in the right one
  refine List.nodup_flatMap.mpr ⟨fun group member => List.nodup_flatMap.mpr ⟨?_, ?_⟩, ?_⟩
  · exact fun left _ => nodup_filterMap_merge (distinct.filter _)
  · refine (nodup_group distinct member).imp fun different => ?_
    refine List.disjoint_left.mpr fun merge inFirst inSecond => different ?_
    rw [← left_eq_of_mem_filterMap inFirst, left_eq_of_mem_filterMap inSecond]
  · refine (pairwise_groupByOnes implicants).imp_of_mem fun firstIn secondIn below => ?_
    refine List.disjoint_left.mpr fun merge inFirst inSecond => ?_
    obtain ⟨first, firstMember, firstMade⟩ := List.mem_flatMap.mp inFirst
    obtain ⟨second, secondMember, secondMade⟩ := List.mem_flatMap.mp inSecond
    have firstOnes := ((mem_group_iff firstIn).mp firstMember).2
    have secondOnes := ((mem_group_iff secondIn).mp secondMember).2
    rw [← left_eq_of_mem_filterMap firstMade] at firstOnes
    rw [← left_eq_of_mem_filterMap secondMade] at secondOnes
    omega

/-! ### The merges of a run -/

/-- The merges of the passes, each with the number of its pass. -/
def numberedMerges (passes : List MergePass) : List (Nat × Merge) :=
  passes.flatMap fun pass => pass.merges.map fun merge => (pass.number, merge)

/-- The steps of the passes are their merges. -/
theorem flatMap_steps (passes : List MergePass) :
    passes.flatMap MergePass.steps =
      (numberedMerges passes).map fun entry => Step.merged entry.1 entry.2 := by
  unfold numberedMerges
  rw [List.map_flatMap]
  simp only [List.map_map]
  rfl

theorem mem_numbered_iff {number : Nat} {merges : List Merge} {entry : Nat × Merge} :
    entry ∈ merges.map (fun merge => (number, merge)) ↔ entry.1 = number ∧ entry.2 ∈ merges := by
  rw [List.mem_map]
  constructor
  · rintro ⟨merge, member, rfl⟩
    exact ⟨rfl, member⟩
  · rintro ⟨rfl, member⟩
    exact ⟨entry.2, member, rfl⟩

theorem nodup_numbered (number : Nat) {merges : List Merge} (distinct : merges.Nodup) :
    (merges.map fun merge => (number, merge)).Nodup :=
  distinct.map fun _ _ same => congrArg Prod.snd same

/-- The passes of a run are numbered from its first number on. -/
theorem number_le_of_mem_numberedMerges {number : Nat} {implicants : List Implicant}
    {entry : Nat × Merge} (member : entry ∈ numberedMerges (passesFrom number implicants)) :
    number ≤ entry.1 := by
  induction number, implicants using passesFrom.induct with
  | case1 number implicants pass last =>
    rw [passesFrom, dif_pos last, numberedMerges, List.flatMap_singleton, mem_numbered_iff] at member
    exact member.1.ge
  | case2 number implicants pass more ih =>
    rw [passesFrom, dif_neg more, numberedMerges, List.flatMap_cons, List.mem_append,
      mem_numbered_iff] at member
    rcases member with ⟨here, _⟩ | later
    · exact here.ge
    · exact Nat.le_of_succ_le (ih later)

/-- The numbers of the passes never decrease. -/
theorem pairwise_numberedMerges (number : Nat) (implicants : List Implicant) :
    (numberedMerges (passesFrom number implicants)).Pairwise fun first second =>
      first.1 ≤ second.1 := by
  induction number, implicants using passesFrom.induct with
  | case1 number implicants pass last =>
    rw [passesFrom, dif_pos last, numberedMerges, List.flatMap_singleton]
    exact List.pairwise_map.mpr (List.pairwise_of_forall fun _ _ => Nat.le_refl _)
  | case2 number implicants pass more ih =>
    rw [passesFrom, dif_neg more, numberedMerges, List.flatMap_cons]
    refine List.pairwise_append.mpr ⟨?_, ih, fun first here second later => ?_⟩
    · exact List.pairwise_map.mpr (List.pairwise_of_forall fun _ _ => Nat.le_refl _)
    · have above := number_le_of_mem_numberedMerges later
      have same : first.1 = number := (mem_numbered_iff.mp here).1
      omega

namespace Level

variable {width dashes : Nat} {indices : List Nat} {implicants : List Implicant}

/-- **The run**: from a level on, the passes merge the halves of all cubes with more free positions,
each in the pass that is as many passes later as the cube has more of them. -/
theorem mem_numberedMerges_iff (level : Level width indices dashes implicants) (number : Nat)
    {entry : Nat × Merge} :
    entry ∈ numberedMerges (passesFrom number implicants) ↔
      Joins width indices entry.2 ∧ dashes < entry.2.merged.pattern.dashes ∧
        entry.1 + dashes + 1 = number + entry.2.merged.pattern.dashes := by
  induction number, implicants using passesFrom.induct generalizing dashes
  case case1 number implicants pass last =>
    have final := level.outputs number
    rw [last] at final
    rw [passesFrom, dif_pos last, numberedMerges, List.flatMap_singleton, mem_numbered_iff]
    show entry.1 = number ∧ entry.2 ∈ mergesOf implicants ↔ _
    rw [level.mem_merges_iff]
    constructor
    · rintro ⟨same, joins, count⟩
      exact ⟨joins, by omega, by omega⟩
    · rintro ⟨joins, more, _⟩
      have few := final.dashes_lt_of_nil joins.admissible
      omega
  case case2 number implicants pass more ih =>
    rw [passesFrom, dif_neg more, numberedMerges, List.flatMap_cons, List.mem_append,
      mem_numbered_iff, ← numberedMerges, ih (level.outputs number)]
    show entry.1 = number ∧ entry.2 ∈ mergesOf implicants ∨ _ ↔ _
    rw [level.mem_merges_iff]
    constructor
    · rintro (⟨same, joins, count⟩ | ⟨joins, above, same⟩)
      · exact ⟨joins, by omega, by omega⟩
      · exact ⟨joins, by omega, by omega⟩
    · rintro ⟨joins, above, same⟩
      by_cases next : entry.2.merged.pattern.dashes = dashes + 1
      · exact .inl ⟨by omega, joins, next⟩
      · exact .inr ⟨joins, by omega, by omega⟩

/-- **From single rows on, a cube is merged in the pass with the number of its free positions.** -/
theorem mem_numberedMerges_one_iff (level : Level width indices 0 implicants)
    {entry : Nat × Merge} :
    entry ∈ numberedMerges (passesFrom 1 implicants) ↔
      Joins width indices entry.2 ∧ entry.1 = entry.2.merged.pattern.dashes := by
  rw [level.mem_numberedMerges_iff]
  refine and_congr_right fun joins => ?_
  have counts := joins.halves.dashes_eq
  omega

theorem mem_numberedMerges_of_joins (level : Level width indices 0 implicants) {merge : Merge}
    (joins : Joins width indices merge) :
    (merge.merged.pattern.dashes, merge) ∈ numberedMerges (passesFrom 1 implicants) :=
  level.mem_numberedMerges_one_iff.mpr ⟨joins, rfl⟩

/-- No merge is recorded twice. -/
theorem nodup_numberedMerges (level : Level width indices dashes implicants) (number : Nat) :
    (numberedMerges (passesFrom number implicants)).Nodup := by
  induction number, implicants using passesFrom.induct generalizing dashes
  case case1 number implicants pass last =>
    rw [passesFrom, dif_pos last, numberedMerges, List.flatMap_singleton]
    exact nodup_numbered number (nodup_mergesOf level.nodup)
  case case2 number implicants pass more ih =>
    rw [passesFrom, dif_neg more, numberedMerges, List.flatMap_cons]
    refine List.nodup_append.mpr ⟨nodup_numbered number (nodup_mergesOf level.nodup),
      ih (level.outputs number), ?_⟩
    rintro entry here _ later rfl
    have same : entry.1 = number := (mem_numbered_iff.mp here).1
    have above := number_le_of_mem_numberedMerges later
    omega

end Level

/-! ### Rows that are read as themselves -/

/-- The halves of an admissible cube are joined by a merge. -/
theorem exists_joins_of_halves {width : Nat} {indices : List Nat} {lower upper whole : Pattern}
    (admissible : Admissible width indices whole) (halves : Pattern.Halves lower upper whole) :
    ∃ merge, Joins width indices merge ∧ merge.left.pattern = lower ∧
      merge.right.pattern = upper ∧ merge.merged.pattern = whole := by
  have within := Pattern.within_of_halves halves
  obtain ⟨left, rfl, leftGathers⟩ := (admissible.of_within within.1).exists_implicant
  obtain ⟨right, rfl, rightGathers⟩ := (admissible.of_within within.2).exists_implicant
  obtain ⟨merge, joins, rfl, rfl, same⟩ := exists_joins admissible halves leftGathers rightGathers
  exact ⟨merge, joins, rfl, rfl, same⟩

section InTable

variable {width : Nat} {indices : List Nat}

/-- If the indices are read as themselves, the implicant of an admissible cube holds exactly its rows. -/
theorem mem_minterms_iff_rows (inTable : InTable width indices)
    {implicant : Implicant} (admissible : Admissible width indices implicant.pattern)
    (gathers : Gathers (readRow width) indices implicant) {index : Nat} :
    index ∈ implicant.minterms ↔ index ∈ implicant.pattern.rows := by
  rw [gathers.mem_iff_of_inTable admissible.length_eq inTable, Pattern.mem_rows, admissible.length_eq]
  constructor
  · rintro ⟨member, fitting⟩
    exact ⟨inTable.lt member, fitting⟩
  · rintro ⟨below, fitting⟩
    have inside := admissible.inside (Pattern.mem_rows.mpr ⟨admissible.length_eq ▸ below, fitting⟩)
    rw [inTable.readRows_eq, List.mem_toFinset] at inside
    exact ⟨inside, fitting⟩

/-- What is merged holds what it has to. -/
theorem Joins.gathers (inTable : InTable width indices) {merge : Merge}
    (joins : Joins width indices merge) : Gathers (readRow width) indices merge.merged := by
  have counts := joins.halves.dashes_eq
  refine .inl ⟨Pattern.dashes_pos_iff.mp (by omega), fun index => ?_⟩
  rw [joins.minterms_eq, IndexSet.mem_union,
    joins.left_gathers.mem_iff_of_inTable joins.left_admissible.length_eq inTable,
    joins.right_gathers.mem_iff_of_inTable joins.right_admissible.length_eq inTable, ← and_or_left,
    joins.halves.fits_eq, Bool.or_eq_true]
  exact and_congr_right fun member => by rw [inTable index member]

/-- A merge is determined by the halves that it joins. -/
theorem Joins.eq_of_halves (inTable : InTable width indices) {merge other : Merge}
    (joins : Joins width indices merge) (otherJoins : Joins width indices other)
    (sameLeft : merge.left.pattern = other.left.pattern)
    (sameRight : merge.right.pattern = other.right.pattern) : merge = other := by
  have left := joins.left_gathers.eq_of_pattern_of_inTable otherJoins.left_gathers
    joins.left_admissible.length_eq inTable sameLeft
  have right := joins.right_gathers.eq_of_pattern_of_inTable otherJoins.right_gathers
    joins.right_admissible.length_eq inTable sameRight
  have merged := joins.merge_eq_some
  rw [left, right, otherJoins.merge_eq_some, Option.some.injEq] at merged
  cases merge
  cases other
  cases left
  cases right
  cases merged
  rfl

/-- **Each pair of halves is merged once.** The merges that give an admissible cube join the pairs
of its halves, each pair once. -/
theorem filter_merges_perm (inTable : InTable width indices)
    {implicants : List Implicant} (level : Level width indices 0 implicants) {cube : Pattern}
    (admissible : Admissible width indices cube) :
    (((numberedMerges (passesFrom 1 implicants)).filter fun entry =>
        entry.2.merged.pattern = cube).map fun entry =>
          (entry.2.left.pattern, entry.2.right.pattern)).Perm cube.halves := by
  refine (List.perm_ext_iff_of_nodup ?_ cube.nodup_halves).mpr fun ⟨lower, upper⟩ => ?_
  · refine List.Nodup.map_on ?_ ((level.nodup_numberedMerges 1).filter _)
    rintro ⟨firstNumber, first⟩ firstIn ⟨secondNumber, second⟩ secondIn same
    simp only [List.mem_filter, level.mem_numberedMerges_one_iff, decide_eq_true_eq]
      at firstIn secondIn
    obtain ⟨⟨firstJoins, rfl⟩, _⟩ := firstIn
    obtain ⟨⟨secondJoins, rfl⟩, _⟩ := secondIn
    cases firstJoins.eq_of_halves inTable secondJoins (congrArg Prod.fst same)
      (congrArg Prod.snd same)
    rfl
  · rw [Pattern.mem_halves_iff, List.mem_map]
    constructor
    · rintro ⟨⟨number, merge⟩, member, same⟩
      simp only [List.mem_filter, level.mem_numberedMerges_one_iff, decide_eq_true_eq] at member
      obtain ⟨⟨joins, _⟩, rfl⟩ := member
      cases same
      exact joins.halves
    · intro halves
      obtain ⟨merge, joins, rfl, rfl, rfl⟩ := exists_joins_of_halves admissible halves
      have recorded := level.mem_numberedMerges_of_joins joins
      exact ⟨_, List.mem_filter.mpr ⟨recorded, decide_eq_true rfl⟩, rfl⟩

end InTable

/-! ### What the trace shows -/

/-- The rows, each as the implicant of a single row, stand once in the groups. -/
theorem perm_groups (width : Nat) (target dontCare : List Nat) :
    ((groupByOnes (PrimeSearch.seeds width target dontCare)).flatMap Prod.snd).Perm
      ((target ++ dontCare).dedup.map (Implicant.ofIndex width)) := by
  refine (flatMap_groupByOnes_perm (Level.seeds width target dontCare).nodup).trans ?_
  refine List.Perm.map _ ((List.perm_ext_iff_of_nodup ?_ (List.nodup_dedup _)).mpr fun index => ?_)
  · exact (IndexSet.ofList _).ascending.imp Nat.ne_of_lt
  · rw [IndexSet.mem_toList, IndexSet.mem_ofList, List.mem_dedup]

section Primes

variable {width : Nat} {target dontCare : List Nat}

/-- The implicants in the groups or among the results of merges are those of the admissible cubes. -/
theorem shown_iff (inTable : InTable width (target ++ dontCare))
    {implicant : Implicant} :
    ((∃ group ∈ groupByOnes (PrimeSearch.seeds width target dontCare), implicant ∈ group.2) ∨
        ∃ entry ∈ numberedMerges (passesFrom 1 (PrimeSearch.seeds width target dontCare)),
          entry.2.merged = implicant) ↔
      Admissible width (target ++ dontCare) implicant.pattern ∧
        Gathers (readRow width) (target ++ dontCare) implicant := by
  have level := Level.seeds width target dontCare
  rw [← List.mem_flatMap, (flatMap_groupByOnes_perm level.nodup).mem_iff, level.mem_iff]
  constructor
  · rintro (⟨admissible, _, gathers⟩ | ⟨entry, member, rfl⟩)
    · exact ⟨admissible, gathers⟩
    · have joins := (level.mem_numberedMerges_one_iff.mp member).1
      exact ⟨joins.admissible, joins.gathers inTable⟩
  · rintro ⟨admissible, gathers⟩
    by_cases free : .dash ∈ implicant.pattern
    · obtain ⟨lower, upper, halves⟩ := Pattern.exists_halves_of_dash free
      obtain ⟨merge, joins, _, _, same⟩ := exists_joins_of_halves admissible halves
      have recorded := level.mem_numberedMerges_of_joins joins
      exact .inr ⟨_, recorded, (joins.gathers inTable).eq_of_pattern gathers (same ▸ free) same⟩
    · exact .inl ⟨admissible, List.count_eq_zero.mpr free, gathers⟩

/-- An implicant of an admissible cube is never merged exactly when its cube is prime. -/
theorem never_merged_iff {implicant : Implicant} (admissible : Admissible width (target ++ dontCare) implicant.pattern)
    (gathers : Gathers (readRow width) (target ++ dontCare) implicant) :
    (∀ entry ∈ numberedMerges (passesFrom 1 (PrimeSearch.seeds width target dontCare)),
        entry.2.left ≠ implicant ∧ entry.2.right ≠ implicant) ↔
      PrimeCube width (readRows width (target ++ dontCare)) implicant.pattern := by
  have level := Level.seeds width target dontCare
  rw [primeCube_iff_not_joined admissible gathers]
  constructor
  · exact fun unmerged merge joins => unmerged _ (level.mem_numberedMerges_of_joins joins)
  · exact fun never entry member => never _ (level.mem_numberedMerges_one_iff.mp member).1

/-- **The prime implicants are what the trace shows and never merges**, if it has a target row. -/
theorem mem_primes_iff_unmerged (nonempty : target ≠ [])
    (inTable : InTable width (target ++ dontCare)) {implicant : Implicant} :
    implicant ∈ (PrimeSearch.ofIndices width target dontCare).primes ↔
      ((∃ group ∈ groupByOnes (PrimeSearch.seeds width target dontCare), implicant ∈ group.2) ∨
        ∃ entry ∈ numberedMerges (passesFrom 1 (PrimeSearch.seeds width target dontCare)),
          entry.2.merged = implicant) ∧
      (∀ entry ∈ numberedMerges (passesFrom 1 (PrimeSearch.seeds width target dontCare)),
        entry.2.left ≠ implicant ∧ entry.2.right ≠ implicant) ∧
      ∃ index ∈ target, index ∈ implicant.minterms := by
  rw [mem_primes_iff nonempty, shown_iff inTable]
  constructor
  · rintro ⟨prime, meets, gathers⟩
    have admissible : Admissible width (target ++ dontCare) implicant.pattern :=
      ⟨prime.length_eq, prime.inside⟩
    exact ⟨⟨admissible, gathers⟩, (never_merged_iff admissible gathers).mpr prime, meets⟩
  · rintro ⟨⟨admissible, gathers⟩, unmerged, meets⟩
    exact ⟨(never_merged_iff admissible gathers).mp unmerged, meets, gathers⟩

end Primes

/-! ### The whole record -/

/-- A cube of a table with as many columns as given, of whose rows all are in the set. -/
structure CubeInside (width : Nat) (rows : Finset Nat) (cube : Pattern) : Prop where
  length_eq : cube.length = width
  rows_subset : cube.rows ⊆ rows

/-- If the indices are read as themselves, the cubes inside the rows are the admissible ones. -/
theorem cubeInside_iff {width : Nat} {target dontCare : List Nat}
    (inTable : InTable width (target ++ dontCare)) {cube : Pattern} :
    CubeInside width (target.toFinset ∪ dontCare.toFinset) cube ↔
      Admissible width (target ++ dontCare) cube := by
  rw [← List.toFinset_append, ← inTable.readRows_eq]
  exact ⟨fun inside => ⟨inside.length_eq, inside.rows_subset⟩,
    fun admissible => ⟨admissible.length_eq, admissible.inside⟩⟩

/-- **What the trace of a search records**: the groups of its first step, and its merges with the
numbers of their passes. -/
structure MergeTrace (width : Nat) (target dontCare : List Nat) (primes : List Implicant)
    (groups : List (Nat × List Implicant)) (merges : List (Nat × Merge)) : Prop where
  /-- The groups stand in strictly ascending order of their numbers of ones. -/
  ascending : groups.Pairwise fun first second => first.1 < second.1
  /-- An implicant stands in the group of its number of ones. -/
  grouped : ∀ group ∈ groups, ∀ implicant ∈ group.2, implicant.ones = group.1
  /-- Each row stands in the groups once, as the implicant of its full pattern. -/
  listed : (groups.flatMap Prod.snd).Perm
    ((target ++ dontCare).dedup.map (Implicant.ofIndex width))
  /-- The numbers of the passes never decrease. -/
  ordered : merges.Pairwise fun first second => first.1 ≤ second.1
  /-- Every merge gives a cube inside the rows. -/
  inside : ∀ entry ∈ merges,
    CubeInside width (target.toFinset ∪ dontCare.toFinset) entry.2.merged.pattern
  /-- The pass of a merge is the number of free positions of its cube. -/
  number_eq : ∀ entry ∈ merges, entry.1 = entry.2.merged.pattern.dashes
  /-- Every merge joins the two halves of its cube, on the left the one with fewer ones. -/
  joined : ∀ entry ∈ merges,
    Pattern.Halves entry.2.left.pattern entry.2.right.pattern entry.2.merged.pattern ∧
    entry.2.left.ones < entry.2.right.ones ∧
    entry.2.left.merge? entry.2.right = some entry.2.merged
  /-- The implicants of a merge hold exactly the rows of their cubes. -/
  holds_rows : ∀ entry ∈ merges, ∀ implicant ∈ [entry.2.left, entry.2.right, entry.2.merged],
    ∀ index, index ∈ implicant.minterms ↔ index ∈ implicant.pattern.rows
  /-- The merges that give a cube inside the rows join each pair of its halves once. -/
  halved : ∀ cube, CubeInside width (target.toFinset ∪ dontCare.toFinset) cube →
    ((merges.filter fun entry => entry.2.merged.pattern = cube).map fun entry =>
      (entry.2.left.pattern, entry.2.right.pattern)).Perm cube.halves
  /-- Every cube inside the rows is merged as often as it has free positions. -/
  counted : ∀ cube, CubeInside width (target.toFinset ∪ dontCare.toFinset) cube →
    merges.countP (fun entry => entry.2.merged.pattern = cube) = cube.dashes
  /-- The prime implicants are those that the trace shows and never merges, and that have a target
  row. -/
  primes_iff : ∀ implicant, implicant ∈ primes ↔
    ((∃ group ∈ groups, implicant ∈ group.2) ∨
      ∃ entry ∈ merges, entry.2.merged = implicant) ∧
    (∀ entry ∈ merges, entry.2.left ≠ implicant ∧ entry.2.right ≠ implicant) ∧
    ∃ index ∈ target, index ∈ implicant.minterms

section Record

variable {width : Nat} {target dontCare : List Nat}

/-- The implicants of a merge hold exactly the rows of their cubes. -/
theorem Joins.holds_rows (inTable : InTable width (target ++ dontCare)) {merge : Merge}
    (joins : Joins width (target ++ dontCare) merge) :
    ∀ implicant ∈ [merge.left, merge.right, merge.merged],
      ∀ index, index ∈ implicant.minterms ↔ index ∈ implicant.pattern.rows := by
  intro implicant member index
  simp only [List.mem_cons, List.not_mem_nil, or_false] at member
  rcases member with rfl | rfl | rfl
  · exact mem_minterms_iff_rows inTable joins.left_admissible joins.left_gathers
  · exact mem_minterms_iff_rows inTable joins.right_admissible joins.right_gathers
  · exact mem_minterms_iff_rows inTable joins.admissible (joins.gathers inTable)

/-- Every cube inside the rows is merged as often as it has free positions. -/
theorem countP_merges (inTable : InTable width (target ++ dontCare)) {cube : Pattern}
    (admissible : Admissible width (target ++ dontCare) cube) :
    (numberedMerges (passesFrom 1 (PrimeSearch.seeds width target dontCare))).countP
      (fun entry => entry.2.merged.pattern = cube) = cube.dashes := by
  have pairs := filter_merges_perm inTable (Level.seeds width target dontCare) admissible
  rw [List.countP_eq_length_filter, ← Pattern.length_halves, ← pairs.length_eq, List.length_map]

/-- The groups and the merges of the passes are what the trace has to record. -/
theorem mergeTrace_passes (nonempty : target ≠ [])
    (inTable : InTable width (target ++ dontCare)) :
    MergeTrace width target dontCare (PrimeSearch.ofIndices width target dontCare).primes
      (groupByOnes (PrimeSearch.seeds width target dontCare))
      (numberedMerges (passesFrom 1 (PrimeSearch.seeds width target dontCare))) := by
  have level := Level.seeds width target dontCare
  have recorded : ∀ entry ∈ numberedMerges (passesFrom 1 (PrimeSearch.seeds width target dontCare)),
      Joins width (target ++ dontCare) entry.2 ∧ entry.1 = entry.2.merged.pattern.dashes :=
    fun entry member => level.mem_numberedMerges_one_iff.mp member
  refine ⟨pairwise_groupByOnes _, ?_, perm_groups width target dontCare, pairwise_numberedMerges 1 _,
    ?_, ?_, ?_, ?_, ?_, ?_, ?_⟩
  · exact fun group member implicant inGroup => ((mem_group_iff member).mp inGroup).2
  · exact fun entry member => (cubeInside_iff inTable).mpr (recorded entry member).1.admissible
  · exact fun entry member => (recorded entry member).2
  · intro entry member
    obtain ⟨joins, _⟩ := recorded entry member
    have count : entry.2.right.ones = entry.2.left.ones + 1 := joins.halves.ones_eq
    exact ⟨joins.halves, by omega, joins.merge_eq_some⟩
  · exact fun entry member => (recorded entry member).1.holds_rows inTable
  · exact fun cube inside => filter_merges_perm inTable level ((cubeInside_iff inTable).mp inside)
  · exact fun cube inside => countP_merges inTable ((cubeInside_iff inTable).mp inside)
  · exact fun implicant => mem_primes_iff_unmerged nonempty inTable

/-- The steps of a search by passes are the groups of its first pass and then all its merges. -/
theorem steps_merging (target : IndexSet) (implicants : List Implicant) :
    (PrimeSearch.merging target (passesFrom 1 implicants)).steps =
      .grouped (groupByOnes implicants) ::
        (numberedMerges (passesFrom 1 implicants)).map fun entry => .merged entry.1 entry.2 := by
  have head : (passesFrom 1 implicants).head? = some (MergePass.ofInputs 1 implicants) := by
    rw [passesFrom]
    split <;> rfl
  rw [PrimeSearch.steps, head, flatMap_steps]
  rfl

end Record

/-- **The trace of a search is a complete and exact record**, as long as a row fits into a word. Up to
this width a search stops in no build. Away from the shortcut for a single row, the steps of a search
with a target below the number of rows are its groups and then its merges. The groups list each row
once. Every cube inside the rows with free positions is merged as often as it has them, once from
each pair of its halves and in the pass with the number of them; there are no other merges. The prime
implicants are what the trace shows and never merges, if it has a target row. -/
theorem merge_trace_exact (build : Build) {width : Nat} (inWord : width ≤ Word.size)
    {target dontCare : List Nat} (nonempty : target ≠ []) (notLone : ¬ LoneRow target dontCare)
    (inRange : ∀ index ∈ target ++ dontCare, index < 2 ^ width) :
    ∃ search groups merges,
      PrimeSearch.ofIndicesIn build width target dontCare = some search ∧
      search.steps = .grouped groups :: merges.map (fun entry => .merged entry.1 entry.2) ∧
      MergeTrace width target dontCare search.primes groups merges := by
  have made := PrimeSearch.ofIndicesIn_of_reads (build.reads_of_le inWord) target dontCare
  refine ⟨_, _, _, made, ?_, mergeTrace_passes nonempty (.of_lt inWord inRange)⟩
  rw [ofIndices_eq_merging width nonempty notLone]
  exact steps_merging _ _

/-- Two rows of a table with one column, and the merge of both. -/
theorem merge_trace_exact_two_rows :
    [0] ≠ ([] : List Nat) ∧ ¬ LoneRow [0] [1] ∧ (∀ index ∈ [0] ++ [1], index < 2 ^ 1) ∧
      ∃ search groups merges,
        PrimeSearch.ofIndicesIn .checked 1 [0] [1] = some search ∧
        search.steps = .grouped groups :: merges.map (fun entry => .merged entry.1 entry.2) ∧
        MergeTrace 1 [0] [1] search.primes groups merges := by
  have notLone : ¬ LoneRow [0] [1] := fun lone => List.cons_ne_nil 1 [] lone.2
  exact ⟨by decide, notLone, by decide,
    merge_trace_exact .checked (by decide) (by decide) notLone (by decide)⟩

/-- A row that fits zeros and one free bit below them is one of the first two. -/
theorem lt_two_of_fits_zeros {zeros row : Nat} (below : row < 2 ^ (zeros + 1))
    (fits : Pattern.fits (List.replicate zeros .zero ++ [.dash]) row = true) : row < 2 := by
  induction zeros with
  | zero => exact below
  | succ zeros ih =>
    rw [List.replicate_succ, List.cons_append, Pattern.fits_cons, Bool.and_eq_true, Trit.admits,
      Bool.not_eq_true', List.length_append, List.length_replicate, List.length_singleton] at fits
    refine ih (Nat.lt_pow_two_of_testBit row fun place high => ?_) fits.2
    rcases Nat.eq_or_lt_of_le high with rfl | higher
    · exact fits.1
    · exact Nat.testBit_lt_two_pow (Nat.lt_of_lt_of_le below (Nat.pow_le_pow_right Nat.two_pos higher))

/-- **Over 65 columns the rows 0 and 1 are not merged.** They are the two rows of a cube with a free
position. A checked build stops, and a wrapping one finds two patterns that differ at both ends. -/
theorem no_merge_beyond_word :
    PrimeSearch.ofIndicesIn .checked 65 [0, 1] [] = none ∧
      CubeInside 65 ([0, 1].toFinset ∪ [].toFinset) (List.replicate 64 .zero ++ [.dash]) ∧
      ∃ search, PrimeSearch.ofIndicesIn .wrapping 65 [0, 1] [] = some search ∧
        ∀ step ∈ search.steps, ∃ groups, step = .grouped groups := by
  have stops : ¬ Build.checked.Reads 65 := by decide
  refine ⟨PrimeSearch.ofIndicesIn_of_not_reads stops (List.cons_ne_nil _ _) [],
    ⟨rfl, fun row inRows => ?_⟩, _,
    PrimeSearch.ofIndicesIn_of_reads (Build.reads_wrapping 65) [0, 1] [], fun step member => ?_⟩
  · obtain ⟨below, fits⟩ := Pattern.mem_rows.mp inRows
    have low := lt_two_of_fits_zeros below fits
    rw [Finset.mem_union, List.mem_toFinset]
    refine .inl ?_
    rw [List.mem_cons, List.mem_singleton]
    omega
  · have noMerges : mergesOf (PrimeSearch.seeds 65 [0, 1] []) = [] := by decide
    have last : (MergePass.ofInputs 1 (PrimeSearch.seeds 65 [0, 1] [])).outputs = [] := by
      rw [MergePass.ofInputs, noMerges]
      rfl
    have nothing : numberedMerges (passesFrom 1 (PrimeSearch.seeds 65 [0, 1] [])) = [] := by
      rw [passesFrom, dif_pos last, numberedMerges, List.flatMap_singleton, MergePass.ofInputs,
        noMerges]
      rfl
    rw [ofIndices_eq_merging 65 (List.cons_ne_nil _ _) (fun lone => by cases lone.1), steps_merging,
      nothing] at member
    exact ⟨_, List.mem_singleton.mp member⟩

end TwoLevel
