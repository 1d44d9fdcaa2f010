/-
**What each merge pass holds.**

The passes of the search climb through the cubes by their number of free positions. What goes into
a pass are all the admissible cubes with one number of free positions, each with the indices it was
made from (`Level`):

* `usedMarks_eq`, `unmerged_eq_filter` — the marks that a pass sets by position agree with its trace;
* `Joins` — what a merge joins; `primeCube_iff_not_joined` says that the prime cubes are those whose
  implicants no merge joins;
* `Level.seeds` — the implicants of single rows are the level without free positions;
* `Level.mem_merges_iff`, `Level.holds_merges` — the merges of a level join the halves of the cubes
  of the next level, and hold exactly the next level;
* `Level.outputs` — **the step**: a pass over one level hands on the next one;
* `Level.mem_unmerged_iff` — what a pass leaves unmerged are the prime cubes of its level;
* `Level.mem_passesFrom_iff`, `Level.nodup_passesFrom` — **the run**: together the passes leave
  unmerged every prime cube from the first level on, and nothing twice.

Merging looks only at neighbouring groups of ones and keeps one implicant for each pattern; neither
loses anything, since the halves of a cube differ by one one, and since an implicant with a free
position is determined by its pattern (`Gathers.eq_of_pattern`).
-/

import TwoLevel.Primes
import TwoLevel.Proofs.Cube

namespace TwoLevel

/-! ### Admissible and prime cubes -/

/-- A pattern of the width whose cube holds only rows that the indices stand for. -/
structure Admissible (width : Nat) (indices : List Nat) (pattern : Pattern) : Prop where
  length_eq : pattern.length = width
  inside : pattern.rows ⊆ readRows width indices

/-- A cube inside a set of rows that is contained in no larger cube inside the set. -/
structure PrimeCube (width : Nat) (rows : Finset Nat) (pattern : Pattern) : Prop where
  length_eq : pattern.length = width
  inside : pattern.rows ⊆ rows
  maximal : ∀ larger : Pattern, larger.length = width → pattern.rows ⊂ larger.rows →
    ¬ larger.rows ⊆ rows

namespace Admissible

variable {width : Nat} {indices : List Nat} {pattern : Pattern}

/-- Every row of an admissible cube is one that an index stands for. -/
theorem exists_index_of_fits (admissible : Admissible width indices pattern) {row : Nat}
    (fitting : pattern.fits row = true) :
    ∃ index ∈ indices, readRow width index = row % 2 ^ width := by
  rw [← Pattern.mod_mem_rows, admissible.length_eq] at fitting
  exact mem_readRows.mp (admissible.inside fitting)

/-- An admissible cube holds one of the indices. -/
theorem exists_index (admissible : Admissible width indices pattern) :
    ∃ index ∈ indices, pattern.fits (readRow width index) = true := by
  obtain ⟨row, fitting⟩ := pattern.exists_fits
  obtain ⟨index, member, same⟩ := admissible.exists_index_of_fits fitting
  refine ⟨index, member, ?_⟩
  rw [same, ← admissible.length_eq, Pattern.fits_mod, fitting]

theorem of_within {inner outer : Pattern} (admissible : Admissible width indices outer)
    (within : Pattern.Within inner outer) : Admissible width indices inner :=
  ⟨within.length_eq.trans admissible.length_eq,
    ((Pattern.rows_subset_iff within.length_eq).mpr within).trans admissible.inside⟩

/-- The cube that two admissible halves make up is admissible. -/
theorem whole {lower upper whole : Pattern} (halves : Pattern.Halves lower upper whole)
    (lowerAdmissible : Admissible width indices lower)
    (upperAdmissible : Admissible width indices upper) : Admissible width indices whole := by
  have lengths := halves.length_eq
  refine ⟨lengths.1.symm.trans lowerAdmissible.length_eq, fun row member => ?_⟩
  rw [Pattern.mem_rows, halves.fits_eq, Bool.or_eq_true] at member
  rcases member.2 with fitting | fitting
  · exact lowerAdmissible.inside (Pattern.mem_rows.mpr ⟨lengths.1 ▸ member.1, fitting⟩)
  · exact upperAdmissible.inside (Pattern.mem_rows.mpr ⟨lengths.2 ▸ member.1, fitting⟩)

theorem ofIndex {index : Nat} (member : index ∈ indices) :
    Admissible width indices (.ofIndex width index) := by
  refine ⟨Pattern.length_ofIndex width index, fun row inRows => ?_⟩
  rw [Pattern.mem_rows, Pattern.length_ofIndex, Pattern.fits_ofIndex_iff] at inRows
  refine mem_readRows.mpr ⟨index, member, ?_⟩
  rw [← inRows.2, Nat.mod_eq_of_lt inRows.1]

/-- Below an admissible cube there is one with any smaller number of free positions. -/
theorem exists_dashes (admissible : Admissible width indices pattern) {dashes : Nat}
    (fewer : dashes ≤ pattern.dashes) :
    ∃ inner, Admissible width indices inner ∧ inner.dashes = dashes := by
  obtain ⟨surplus, total⟩ := Nat.exists_eq_add_of_le fewer
  induction surplus generalizing pattern with
  | zero => exact ⟨pattern, admissible, total⟩
  | succ surplus ih =>
    have free : 0 < pattern.dashes := by omega
    obtain ⟨lower, upper, halves⟩ :=
      Pattern.exists_halves_of_dash (Pattern.dashes_pos_iff.mp free)
    have count := halves.dashes_eq.1
    exact ih (admissible.of_within (Pattern.within_of_halves halves).1) (by omega) (by omega)

end Admissible

namespace PrimeCube

variable {width : Nat} {rows : Finset Nat} {pattern : Pattern}

/-- A cube inside the set around a prime cube is the prime cube itself. -/
theorem eq_of_within (prime : PrimeCube width rows pattern) {larger : Pattern}
    (within : Pattern.Within pattern larger) (inside : larger.rows ⊆ rows) : pattern = larger := by
  by_contra different
  refine prime.maximal larger (within.length_eq.symm.trans prime.length_eq) ?_ inside
  refine ⟨(Pattern.rows_subset_iff within.length_eq).mpr within, fun back => different ?_⟩
  exact within.antisymm ((Pattern.rows_subset_iff within.length_eq.symm).mp back)

end PrimeCube

/-- A cube is prime exactly when it is admissible and lies in no other admissible cube. -/
theorem primeCube_iff_eq_of_within {width : Nat} {indices : List Nat} {pattern : Pattern} :
    PrimeCube width (readRows width indices) pattern ↔ Admissible width indices pattern ∧
      ∀ larger, Admissible width indices larger → Pattern.Within pattern larger →
        pattern = larger := by
  constructor
  · exact fun prime => ⟨⟨prime.length_eq, prime.inside⟩, fun larger admissible within =>
      prime.eq_of_within within admissible.inside⟩
  · rintro ⟨admissible, least⟩
    refine ⟨admissible.length_eq, admissible.inside, fun larger width' proper inside => ?_⟩
    have within :=
      (Pattern.rows_subset_iff (admissible.length_eq.trans width'.symm)).mp proper.1
    rw [least larger ⟨width', inside⟩ within] at proper
    exact proper.2 (Finset.Subset.refl _)

/-- **A cube is prime exactly when it is admissible and no admissible cube is its other half.** -/
theorem primeCube_iff {width : Nat} {indices : List Nat} {pattern : Pattern} :
    PrimeCube width (readRows width indices) pattern ↔
      Admissible width indices pattern ∧ ∀ other whole, Admissible width indices other →
        ¬ (Pattern.Halves pattern other whole ∨ Pattern.Halves other pattern whole) := by
  constructor
  · intro prime
    have admissible : Admissible width indices pattern := ⟨prime.length_eq, prime.inside⟩
    refine ⟨admissible, fun other whole otherAdmissible => ?_⟩
    rintro (halves | halves)
    · have same := prime.eq_of_within (Pattern.within_of_halves halves).1
        (Admissible.whole halves admissible otherAdmissible).inside
      have count := halves.dashes_eq.1
      rw [same] at count
      omega
    · have same := prime.eq_of_within (Pattern.within_of_halves halves).2
        (Admissible.whole halves otherAdmissible admissible).inside
      have count := halves.dashes_eq.2
      rw [same] at count
      omega
  · rintro ⟨admissible, unmerged⟩
    refine ⟨admissible.length_eq, admissible.inside, fun larger width' proper inside => ?_⟩
    have lengths : pattern.length = larger.length := admissible.length_eq.trans width'.symm
    have within := (Pattern.rows_subset_iff lengths).mp proper.1
    have different : pattern ≠ larger := fun same => proper.2 (same ▸ Finset.Subset.refl _)
    obtain ⟨other, whole, halves, wholeWithin⟩ := Pattern.exists_halves_of_within within different
    have largerAdmissible : Admissible width indices larger := ⟨width', inside⟩
    have otherWithin : Pattern.Within other whole :=
      halves.elim (fun up => (Pattern.within_of_halves up).2)
        fun down => (Pattern.within_of_halves down).1
    exact unmerged other whole (largerAdmissible.of_within (otherWithin.trans wholeWithin)) halves

/-- Around every admissible cube there is a prime cube. -/
theorem Admissible.exists_primeCube {width : Nat} {indices : List Nat} {pattern : Pattern}
    (admissible : Admissible width indices pattern) :
    ∃ prime, PrimeCube width (readRows width indices) prime ∧ Pattern.Within pattern prime := by
  have bounded : pattern.dashes ≤ width := by
    rw [← admissible.length_eq]
    exact List.count_le_length
  obtain ⟨fixed, total⟩ := Nat.exists_eq_add_of_le bounded
  induction fixed using Nat.strongRecOn generalizing pattern with
  | ind fixed ih =>
    by_cases prime : PrimeCube width (readRows width indices) pattern
    · exact ⟨pattern, prime, Pattern.Within.refl pattern⟩
    · rw [primeCube_iff, and_iff_right admissible] at prime
      simp only [not_forall, not_not, exists_prop] at prime
      obtain ⟨other, whole, otherAdmissible, halves⟩ := prime
      have step : Admissible width indices whole ∧ Pattern.Within pattern whole ∧
          whole.dashes = pattern.dashes + 1 := by
        rcases halves with up | down
        · exact ⟨.whole up admissible otherAdmissible, (Pattern.within_of_halves up).1,
            up.dashes_eq.1⟩
        · exact ⟨.whole down otherAdmissible admissible, (Pattern.within_of_halves down).2,
            down.dashes_eq.2⟩
      obtain ⟨wholeAdmissible, within, count⟩ := step
      have wholeBounded : whole.dashes ≤ width := by
        rw [← wholeAdmissible.length_eq]
        exact List.count_le_length
      obtain ⟨left, leftTotal⟩ := Nat.exists_eq_add_of_le wholeBounded
      obtain ⟨prime, isPrime, around⟩ :=
        ih left (by omega) wholeAdmissible wholeBounded leftTotal
      exact ⟨prime, isPrime, within.trans around⟩

/-! ### One implicant for each pattern -/

/-- One of the implicants has the pattern and was made from the index, among others. -/
def Holds (implicants : List Implicant) (pattern : Pattern) (index : Nat) : Prop :=
  ∃ implicant ∈ implicants, implicant.pattern = pattern ∧ index ∈ implicant.minterms

theorem holds_addByPattern {implicants : List Implicant} {new : Implicant} {pattern : Pattern}
    {index : Nat} :
    Holds (addByPattern implicants new) pattern index ↔
      Holds implicants pattern index ∨ new.pattern = pattern ∧ index ∈ new.minterms := by
  induction implicants with
  | nil => simp [Holds, addByPattern]
  | cons first rest ih =>
    rw [addByPattern]
    split
    · next same =>
      simp only [Holds, List.exists_mem_cons_iff, Implicant.takeOver, IndexSet.mem_union, same]
      rw [and_or_left, or_right_comm]
    · simp only [Holds, List.exists_mem_cons_iff] at ih ⊢
      rw [ih, or_assoc]

theorem map_pattern_addByPattern (implicants : List Implicant) (new : Implicant) :
    (addByPattern implicants new).map Implicant.pattern =
      if new.pattern ∈ implicants.map Implicant.pattern then implicants.map Implicant.pattern
      else implicants.map Implicant.pattern ++ [new.pattern] := by
  induction implicants with
  | nil => rfl
  | cons first rest ih =>
    rw [addByPattern]
    split
    · next same => rw [if_pos (by simp [same])]; rfl
    · next different =>
      have head : ¬ new.pattern = first.pattern := fun same => different same.symm
      rw [List.map_cons, ih, List.map_cons]
      simp only [List.mem_cons, or_iff_right head]
      split <;> rfl

/-- **Gathering keeps one implicant for each pattern, with all the indices.** -/
theorem gatherByPattern_spec (implicants : List Implicant) :
    ((gatherByPattern implicants).map Implicant.pattern).Nodup ∧ ∀ pattern index,
      Holds (gatherByPattern implicants) pattern index ↔ Holds implicants pattern index := by
  induction implicants using List.reverseRecOn with
  | nil => exact ⟨List.nodup_nil, fun _ _ => Iff.rfl⟩
  | append_singleton earlier last ih =>
    have step : gatherByPattern (earlier ++ [last]) =
        addByPattern (gatherByPattern earlier) last := by
      rw [gatherByPattern, List.foldl_append]
      rfl
    rw [step, map_pattern_addByPattern]
    refine ⟨?_, fun pattern index => ?_⟩
    · split
      · exact ih.1
      · next fresh =>
        refine List.nodup_append.mpr ⟨ih.1, List.nodup_singleton _, ?_⟩
        intro old oldMember new newMember same
        rw [List.mem_singleton.mp newMember] at same
        exact fresh (same ▸ oldMember)
    · rw [holds_addByPattern, ih.2]
      simp only [Holds, List.mem_append, List.mem_singleton, or_and_right, exists_or,
        exists_eq_left]

/-! ### The merges of a pass -/

theorem mem_mergesOf_iff {merge : Merge} {implicants : List Implicant} :
    merge ∈ mergesOf implicants ↔
      merge.left ∈ implicants ∧ merge.right ∈ implicants ∧
        Pattern.Halves merge.left.pattern merge.right.pattern merge.merged.pattern ∧
        merge.merged.minterms = merge.left.minterms.union merge.right.minterms := by
  rw [mergesOf, List.mem_map]
  constructor
  · rintro ⟨placed, placedIn, rfl⟩
    obtain ⟨leftHere, rightHere, oneMore, joined⟩ := mem_placedMerges_iff.mp placedIn
    obtain ⟨patternJoined, indices⟩ := Implicant.merge_eq_some_iff.mp joined
    refine ⟨List.mem_of_getElem? leftHere, List.mem_of_getElem? rightHere, ?_, indices⟩
    rcases Pattern.merge_eq_some_iff.mp patternJoined with halves | halves
    · exact halves
    · -- the halves are never found the other way round: the right one has more ones
      have count : placed.merge.left.ones = placed.merge.right.ones + 1 := halves.ones_eq
      omega
  · rintro ⟨leftIn, rightIn, halves, indices⟩
    obtain ⟨left, leftHere⟩ := List.mem_iff_getElem?.mp leftIn
    obtain ⟨right, rightHere⟩ := List.mem_iff_getElem?.mp rightIn
    exact ⟨⟨left, right, merge⟩, mem_placedMerges_iff.mpr ⟨leftHere, rightHere, halves.ones_eq,
      Implicant.merge_eq_some_iff.mpr ⟨Pattern.merge_of_halves halves, indices⟩⟩, rfl⟩

/-! ### The marks of a pass -/

theorem getElem?_set_true (marked : List Bool) (here position : Nat) :
    (marked.set here true)[position]? =
      marked[position]?.map fun used => used || here = position := by
  rw [List.getElem?_set]
  by_cases same : here = position
  · subst same
    by_cases below : here < marked.length
    · simp [below]
    · simp [below]
  · simp [same]

/-- A position is marked once one of the merges has used it. -/
theorem getElem?_foldl_markUsed (merges : List PlacedMerge) (marked : List Bool) (position : Nat) :
    (merges.foldl markUsed marked)[position]? = marked[position]?.map fun used =>
      used || merges.any fun placed => placed.left = position || placed.right = position := by
  induction merges generalizing marked with
  | nil => simp
  | cons first rest ih =>
    rw [List.foldl_cons, ih, markUsed, getElem?_set_true, getElem?_set_true, Option.map_map,
      Option.map_map]
    congr 1
    funext used
    simp only [Function.comp_apply, List.any_cons, Bool.or_assoc]

/-- A merge has used a position exactly if a recorded merge names the implicant there: equal
implicants at other positions are merged with the same ones. -/
theorem any_placedMerges_iff {implicants : List Implicant} {implicant : Implicant} {position : Nat}
    (here : implicants[position]? = some implicant) :
    (∃ placed ∈ placedMerges implicants, placed.left = position ∨ placed.right = position) ↔
      ∃ merge ∈ mergesOf implicants, merge.left = implicant ∨ merge.right = implicant := by
  constructor
  · rintro ⟨placed, placedIn, used⟩
    obtain ⟨left, right, _⟩ := mem_placedMerges_iff.mp placedIn
    refine ⟨placed.merge, List.mem_map_of_mem placedIn, used.imp ?_ ?_⟩
    · rintro rfl
      exact Option.some.inj (left.symm.trans here)
    · rintro rfl
      exact Option.some.inj (right.symm.trans here)
  · rintro ⟨merge, member, used⟩
    obtain ⟨placed, placedIn, rfl⟩ := List.mem_map.mp member
    obtain ⟨left, right, oneMore, joined⟩ := mem_placedMerges_iff.mp placedIn
    rcases used with same | same
    · exact ⟨⟨position, placed.right, placed.merge⟩,
        mem_placedMerges_iff.mpr ⟨same ▸ here, right, oneMore, joined⟩, .inl rfl⟩
    · exact ⟨⟨placed.left, position, placed.merge⟩,
        mem_placedMerges_iff.mpr ⟨left, same ▸ here, oneMore, joined⟩, .inr rfl⟩

/-- **The marks agree with the trace**: an implicant is marked where a recorded merge names it. -/
theorem usedMarks_eq (implicants : List Implicant) :
    usedMarks implicants = implicants.map fun implicant => (mergesOf implicants).any fun merge =>
      merge.left = implicant || merge.right = implicant := by
  refine List.ext_getElem? fun position => ?_
  rw [usedMarks, getElem?_foldl_markUsed, List.getElem?_map, List.getElem?_replicate]
  by_cases below : position < implicants.length
  · have here := List.getElem?_eq_getElem below
    rw [if_pos below, here, Option.map_some, Option.map_some, Bool.false_or]
    refine congrArg some (Bool.eq_iff_iff.mpr ?_)
    simpa only [List.any_eq_true, Bool.or_eq_true, decide_eq_true_eq] using
      any_placedMerges_iff here
  · rw [if_neg below, List.getElem?_eq_none (Nat.le_of_not_lt below)]
    rfl

theorem map_fst_filter_zip_map {α : Type} (test : α → Bool) (members : List α) :
    ((members.zip (members.map test)).filter fun entry => !entry.2).map Prod.fst =
      members.filter fun member => !test member := by
  induction members with
  | nil => rfl
  | cons first rest ih =>
    rw [List.map_cons, List.zip_cons_cons, List.filter_cons, List.filter_cons, ← ih]
    cases test first <;> rfl

/-- **What a pass leaves unmerged is what its trace never merges.** -/
theorem unmerged_eq_filter (number : Nat) (implicants : List Implicant) :
    (MergePass.ofInputs number implicants).unmerged = implicants.filter fun implicant =>
      !(mergesOf implicants).any fun merge => merge.left = implicant || merge.right = implicant := by
  rw [MergePass.ofInputs, MergePass.unmerged, usedMarks_eq]
  exact map_fst_filter_zip_map _ _

/-! ### The indices of an implicant -/

/-- The indices an implicant has to hold, if each index stands for a row: with a free position all
those whose rows it fits, without one a single one of them. -/
def Gathers (row : Nat → Nat) (indices : List Nat) (implicant : Implicant) : Prop :=
  (.dash ∈ implicant.pattern ∧ ∀ index,
      index ∈ implicant.minterms ↔ index ∈ indices ∧ implicant.pattern.fits (row index) = true) ∨
    .dash ∉ implicant.pattern ∧ ∃ index ∈ indices,
      implicant.pattern.fits (row index) = true ∧ implicant.minterms = .singleton index

theorem Gathers.fits {row : Nat → Nat} {indices : List Nat} {implicant : Implicant}
    (gathers : Gathers row indices implicant) {index : Nat} (member : index ∈ implicant.minterms) :
    index ∈ indices ∧ implicant.pattern.fits (row index) = true := by
  rcases gathers with ⟨_, all⟩ | ⟨_, only, onlyIn, fitting, same⟩
  · exact (all index).mp member
  · rw [same, IndexSet.mem_singleton] at member
    exact member ▸ ⟨onlyIn, fitting⟩

/-- An implicant with a free position is determined by its pattern. -/
theorem Gathers.eq_of_pattern {row : Nat → Nat} {indices : List Nat} {first second : Implicant}
    (firstGathers : Gathers row indices first) (secondGathers : Gathers row indices second)
    (free : .dash ∈ first.pattern) (same : first.pattern = second.pattern) : first = second := by
  rcases firstGathers with ⟨_, firstAll⟩ | ⟨fixed, _⟩
  · rcases secondGathers with ⟨_, secondAll⟩ | ⟨fixed, _⟩
    · cases first
      cases second
      cases same
      congr 1
      exact IndexSet.ext fun index => (firstAll index).trans (secondAll index).symm
    · exact absurd (same ▸ free) fixed
  · exact absurd free fixed

/-- If the indices are read as themselves, those held are those that the pattern fits. -/
theorem Gathers.mem_iff_of_inTable {width : Nat} {indices : List Nat} {implicant : Implicant}
    (gathers : Gathers (readRow width) indices implicant)
    (length_eq : implicant.pattern.length = width) (inTable : InTable width indices) {index : Nat} :
    index ∈ implicant.minterms ↔ index ∈ indices ∧ implicant.pattern.fits index = true := by
  constructor
  · intro held
    obtain ⟨member, fitting⟩ := gathers.fits held
    exact ⟨member, inTable index member ▸ fitting⟩
  · rintro ⟨member, fitting⟩
    rcases gathers with ⟨_, all⟩ | ⟨fixed, only, onlyIn, onlyFitting, same⟩
    · exact (all index).mpr ⟨member, (inTable index member).symm ▸ fitting⟩
    · have noDash : implicant.pattern.dashes = 0 := by
        rw [← Nat.le_zero, ← Nat.not_lt, Pattern.dashes_pos_iff]
        exact fixed
      have full : implicant.pattern = .ofIndex width only := by
        rw [← length_eq] at onlyFitting ⊢
        exact Pattern.eq_ofIndex_of_fits noDash onlyFitting fun _ low => testBit_readRow low only
      rw [full, Pattern.fits_ofIndex_iff, inTable only onlyIn,
        Nat.mod_eq_of_lt (inTable.lt member)] at fitting
      rw [same, fitting]
      exact IndexSet.mem_singleton.mpr rfl

/-- If the indices are read as themselves, an implicant is determined by its pattern. -/
theorem Gathers.eq_of_pattern_of_inTable {width : Nat} {indices : List Nat}
    {first second : Implicant} (firstGathers : Gathers (readRow width) indices first)
    (secondGathers : Gathers (readRow width) indices second)
    (length_eq : first.pattern.length = width) (inTable : InTable width indices)
    (same : first.pattern = second.pattern) : first = second := by
  have minterms : first.minterms = second.minterms := by
    refine IndexSet.ext fun index => ?_
    rw [firstGathers.mem_iff_of_inTable length_eq inTable,
      secondGathers.mem_iff_of_inTable (same ▸ length_eq) inTable, same]
  cases first
  cases second
  cases same
  cases minterms
  rfl

/-- For each cube and each index whose row it fits there is an implicant that holds what it has
to. -/
theorem exists_gathers {row : Nat → Nat} {indices : List Nat} {pattern : Pattern} {index : Nat}
    (member : index ∈ indices) (fitting : pattern.fits (row index) = true) :
    ∃ implicant : Implicant, implicant.pattern = pattern ∧ Gathers row indices implicant ∧
      index ∈ implicant.minterms := by
  by_cases free : .dash ∈ pattern
  · refine ⟨⟨pattern, .ofList (indices.filter fun other => pattern.fits (row other))⟩, rfl,
      .inl ⟨free, fun other => ?_⟩, ?_⟩
    · rw [IndexSet.mem_ofList, List.mem_filter]
    · exact IndexSet.mem_ofList.mpr (List.mem_filter.mpr ⟨member, fitting⟩)
  · exact ⟨⟨pattern, .singleton index⟩, rfl, .inr ⟨free, index, member, fitting, rfl⟩,
      IndexSet.mem_singleton.mpr rfl⟩

/-- An admissible cube has an implicant that holds what it has to. -/
theorem Admissible.exists_implicant {width : Nat} {indices : List Nat} {pattern : Pattern}
    (admissible : Admissible width indices pattern) :
    ∃ implicant : Implicant, implicant.pattern = pattern ∧ Gathers (readRow width) indices implicant := by
  obtain ⟨index, member, fitting⟩ := admissible.exists_index
  obtain ⟨implicant, same, gathers, _⟩ := exists_gathers member fitting
  exact ⟨implicant, same, gathers⟩

/-! ### Joins -/

/-- What a merge joins: two implicants that hold what they have to, the halves of an admissible
cube. -/
structure Joins (width : Nat) (indices : List Nat) (merge : Merge) : Prop where
  admissible : Admissible width indices merge.merged.pattern
  halves : Pattern.Halves merge.left.pattern merge.right.pattern merge.merged.pattern
  left_gathers : Gathers (readRow width) indices merge.left
  right_gathers : Gathers (readRow width) indices merge.right
  minterms_eq : merge.merged.minterms = merge.left.minterms.union merge.right.minterms

namespace Joins

variable {width : Nat} {indices : List Nat} {merge other : Merge}

/-- The result is what merging the two gives. -/
theorem merge_eq_some (joins : Joins width indices merge) :
    merge.left.merge? merge.right = some merge.merged :=
  Implicant.merge_eq_some_iff.mpr ⟨Pattern.merge_of_halves joins.halves, joins.minterms_eq⟩

theorem left_admissible (joins : Joins width indices merge) :
    Admissible width indices merge.left.pattern :=
  joins.admissible.of_within (Pattern.within_of_halves joins.halves).1

theorem right_admissible (joins : Joins width indices merge) :
    Admissible width indices merge.right.pattern :=
  joins.admissible.of_within (Pattern.within_of_halves joins.halves).2

end Joins

/-- Two implicants whose patterns are the halves of an admissible cube are joined by a merge. -/
theorem exists_joins {width : Nat} {indices : List Nat} {left right : Implicant} {whole : Pattern}
    (admissible : Admissible width indices whole)
    (halves : Pattern.Halves left.pattern right.pattern whole) (leftGathers : Gathers (readRow width) indices left)
    (rightGathers : Gathers (readRow width) indices right) :
    ∃ merge, Joins width indices merge ∧ merge.left = left ∧ merge.right = right ∧
      merge.merged.pattern = whole :=
  ⟨⟨left, right, ⟨whole, left.minterms.union right.minterms⟩⟩,
    ⟨admissible, halves, leftGathers, rightGathers, rfl⟩, rfl, rfl, rfl⟩

/-- **A cube is prime exactly when no merge joins its implicant.** -/
theorem primeCube_iff_not_joined {width : Nat} {indices : List Nat} {implicant : Implicant}
    (admissible : Admissible width indices implicant.pattern) (gathers : Gathers (readRow width) indices implicant) :
    PrimeCube width (readRows width indices) implicant.pattern ↔
      ∀ merge, Joins width indices merge → merge.left ≠ implicant ∧ merge.right ≠ implicant := by
  rw [primeCube_iff, and_iff_right admissible]
  constructor
  · intro prime merge joins
    constructor
    · rintro rfl
      exact prime _ _ joins.right_admissible (.inl joins.halves)
    · rintro rfl
      exact prime _ _ joins.left_admissible (.inr joins.halves)
  · intro never other whole otherAdmissible halves
    obtain ⟨partner, rfl, partnerGathers⟩ := otherAdmissible.exists_implicant
    rcases halves with up | down
    · obtain ⟨merge, joins, same, _⟩ :=
        exists_joins (.whole up admissible otherAdmissible) up gathers partnerGathers
      exact (never merge joins).1 same
    · obtain ⟨merge, joins, _, same, _⟩ :=
        exists_joins (.whole down otherAdmissible admissible) down partnerGathers gathers
      exact (never merge joins).2 same

/-! ### The levels -/

/-- **The implicants of one level**: each admissible cube with the number of free positions given,
with the indices it has to hold, and none twice. -/
structure Level (width : Nat) (indices : List Nat) (dashes : Nat) (implicants : List Implicant) :
    Prop where
  mem_iff : ∀ implicant, implicant ∈ implicants ↔
    Admissible width indices implicant.pattern ∧ implicant.pattern.dashes = dashes ∧
      Gathers (readRow width) indices implicant
  nodup : implicants.Nodup

namespace Level

variable {width dashes : Nat} {indices : List Nat} {implicants : List Implicant}

/-- In a level, an index is held by some implicant of each cube that it fits. -/
theorem holds_iff (level : Level width indices dashes implicants) {pattern : Pattern}
    {index : Nat} :
    Holds implicants pattern index ↔
      (Admissible width indices pattern ∧ pattern.dashes = dashes) ∧
        index ∈ indices ∧ pattern.fits (readRow width index) = true := by
  constructor
  · rintro ⟨implicant, member, rfl, held⟩
    obtain ⟨admissible, count, gathers⟩ := (level.mem_iff implicant).mp member
    exact ⟨⟨admissible, count⟩, gathers.fits held⟩
  · rintro ⟨⟨admissible, count⟩, member, fitting⟩
    obtain ⟨implicant, rfl, gathers, held⟩ := exists_gathers member fitting
    exact ⟨implicant, (level.mem_iff implicant).mpr ⟨admissible, count, gathers⟩, rfl, held⟩

/-- Each admissible cube of the level has an implicant. -/
theorem exists_mem (level : Level width indices dashes implicants) {pattern : Pattern}
    (admissible : Admissible width indices pattern) (count : pattern.dashes = dashes) :
    ∃ implicant ∈ implicants, implicant.pattern = pattern := by
  obtain ⟨index, member, fitting⟩ := admissible.exists_index
  obtain ⟨implicant, inLevel, same, _⟩ :=
    level.holds_iff.mpr ⟨⟨admissible, count⟩, member, fitting⟩
  exact ⟨implicant, inLevel, same⟩

/-- **The implicants of single rows are the level without free positions.** -/
theorem seeds (width : Nat) (target dontCare : List Nat) :
    Level width (target ++ dontCare) 0 (PrimeSearch.seeds width target dontCare) := by
  refine ⟨fun implicant => ?_, ?_⟩
  · rw [PrimeSearch.seeds, List.mem_map]
    constructor
    · rintro ⟨index, member, rfl⟩
      have listed := IndexSet.mem_ofList.mp (IndexSet.mem_toList.mp member)
      have fixed := Pattern.dashes_ofIndex width index
      refine ⟨.ofIndex listed, fixed, .inr ⟨fun free => ?_, index, listed,
        Pattern.fits_ofIndex width index, rfl⟩⟩
      exact absurd fixed (Nat.pos_iff_ne_zero.mp (Pattern.dashes_pos_iff.mpr free))
    · rintro ⟨admissible, fixed, ⟨free, _⟩ | ⟨_, index, listed, fitting, same⟩⟩
      · exact absurd fixed (Nat.pos_iff_ne_zero.mp (Pattern.dashes_pos_iff.mpr free))
      · refine ⟨index, IndexSet.mem_toList.mpr (IndexSet.mem_ofList.mpr listed), ?_⟩
        have full := Pattern.eq_ofIndex_of_fits fixed fitting fun place low =>
          testBit_readRow (admissible.length_eq ▸ low) index
        rw [Implicant.ofIndex, ← same, ← admissible.length_eq, ← full]
  · refine List.Nodup.map_on (fun first _ second _ same => ?_)
      ((IndexSet.ofList _).ascending.imp Nat.ne_of_lt)
    have minterms := congrArg Implicant.minterms same
    exact IndexSet.mem_singleton.mp
      ((congrArg (first ∈ ·) minterms).mp (IndexSet.mem_singleton.mpr rfl))

/-- Halves of an admissible cube are on the level below it, and if the cube holds an index then so
does one of them. -/
theorem exists_halves (level : Level width indices dashes implicants) {lower upper whole : Pattern}
    (halves : Pattern.Halves lower upper whole) (admissible : Admissible width indices whole)
    (count : whole.dashes = dashes + 1) {index : Nat} (member : index ∈ indices)
    (fitting : whole.fits (readRow width index) = true) :
    ∃ left ∈ implicants, ∃ right ∈ implicants, left.pattern = lower ∧ right.pattern = upper ∧
      (index ∈ left.minterms ∨ index ∈ right.minterms) := by
  have within := Pattern.within_of_halves halves
  have lowerAdmissible := admissible.of_within within.1
  have upperAdmissible := admissible.of_within within.2
  have lowerCount : lower.dashes = dashes := Nat.succ.inj (halves.dashes_eq.1.symm.trans count)
  have upperCount : upper.dashes = dashes := Nat.succ.inj (halves.dashes_eq.2.symm.trans count)
  -- one half fits the index; of the other any implicant will do
  rw [halves.fits_eq, Bool.or_eq_true] at fitting
  rcases fitting with inLower | inUpper
  · obtain ⟨left, leftIn, leftSame, held⟩ :=
      level.holds_iff.mpr ⟨⟨lowerAdmissible, lowerCount⟩, member, inLower⟩
    obtain ⟨right, rightIn, rightSame⟩ := level.exists_mem upperAdmissible upperCount
    exact ⟨left, leftIn, right, rightIn, leftSame, rightSame, .inl held⟩
  · obtain ⟨right, rightIn, rightSame, held⟩ :=
      level.holds_iff.mpr ⟨⟨upperAdmissible, upperCount⟩, member, inUpper⟩
    obtain ⟨left, leftIn, leftSame⟩ := level.exists_mem lowerAdmissible lowerCount
    exact ⟨left, leftIn, right, rightIn, leftSame, rightSame, .inr held⟩

/-- **The step**: a pass over a level merges the halves of the cubes of the next level. -/
theorem mem_merges_iff (level : Level width indices dashes implicants) {merge : Merge} :
    merge ∈ mergesOf implicants ↔
      Joins width indices merge ∧ merge.merged.pattern.dashes = dashes + 1 := by
  rw [mem_mergesOf_iff, level.mem_iff, level.mem_iff]
  constructor
  · rintro ⟨⟨leftAdmissible, leftCount, leftGathers⟩, ⟨rightAdmissible, _, rightGathers⟩, halves, same⟩
    refine ⟨⟨.whole halves leftAdmissible rightAdmissible, halves, leftGathers, rightGathers, same⟩, ?_⟩
    rw [halves.dashes_eq.1, leftCount]
  · rintro ⟨joins, count⟩
    have counts := joins.halves.dashes_eq
    exact ⟨⟨joins.left_admissible, by omega, joins.left_gathers⟩,
      ⟨joins.right_admissible, by omega, joins.right_gathers⟩, joins.halves, joins.minterms_eq⟩

/-- The merges of a level hold exactly the next level. -/
theorem holds_merges (level : Level width indices dashes implicants) {pattern : Pattern}
    {index : Nat} :
    Holds ((mergesOf implicants).map Merge.merged) pattern index ↔
      (Admissible width indices pattern ∧ pattern.dashes = dashes + 1) ∧
        index ∈ indices ∧ pattern.fits (readRow width index) = true := by
  constructor
  · rintro ⟨_, mergedIn, rfl, held⟩
    obtain ⟨merge, member, rfl⟩ := List.mem_map.mp mergedIn
    obtain ⟨joins, count⟩ := level.mem_merges_iff.mp member
    refine ⟨⟨joins.admissible, count⟩, ?_⟩
    rw [joins.halves.fits_eq, Bool.or_eq_true]
    rw [joins.minterms_eq, IndexSet.mem_union] at held
    rcases held with inLeft | inRight
    · exact ⟨(joins.left_gathers.fits inLeft).1, .inl (joins.left_gathers.fits inLeft).2⟩
    · exact ⟨(joins.right_gathers.fits inRight).1, .inr (joins.right_gathers.fits inRight).2⟩
  · rintro ⟨⟨admissible, count⟩, member, fitting⟩
    have free : .dash ∈ pattern := Pattern.dashes_pos_iff.mp (by omega)
    obtain ⟨lower, upper, halves⟩ := Pattern.exists_halves_of_dash free
    obtain ⟨left, leftIn, right, rightIn, rfl, rfl, held⟩ :=
      level.exists_halves halves admissible count member fitting
    refine ⟨⟨pattern, left.minterms.union right.minterms⟩, List.mem_map.mpr
      ⟨⟨left, right, _⟩, mem_mergesOf_iff.mpr ⟨leftIn, rightIn, halves, rfl⟩, rfl⟩, rfl, ?_⟩
    exact IndexSet.mem_union.mpr held

theorem holds_outputs (level : Level width indices dashes implicants) (number : Nat)
    {pattern : Pattern} {index : Nat} :
    Holds (MergePass.ofInputs number implicants).outputs pattern index ↔
      (Admissible width indices pattern ∧ pattern.dashes = dashes + 1) ∧
        index ∈ indices ∧ pattern.fits (readRow width index) = true :=
  ((gatherByPattern_spec ((mergesOf implicants).map Merge.merged)).2 pattern index).trans
    level.holds_merges

/-- The implicants that a pass hands on are cubes with one more free position, and gather their
indices. -/
theorem output_spec (level : Level width indices dashes implicants) (number : Nat)
    {implicant : Implicant} (member : implicant ∈ (MergePass.ofInputs number implicants).outputs) :
    (Admissible width indices implicant.pattern ∧ implicant.pattern.dashes = dashes + 1) ∧
      Gathers (readRow width) indices implicant := by
  obtain ⟨distinct, _⟩ := gatherByPattern_spec ((mergesOf implicants).map Merge.merged)
  have only : ∀ index, Holds (MergePass.ofInputs number implicants).outputs implicant.pattern
      index ↔ index ∈ implicant.minterms := by
    refine fun index => ⟨?_, fun held => ⟨implicant, member, rfl, held⟩⟩
    rintro ⟨other, otherIn, same, held⟩
    rwa [List.inj_on_of_nodup_map distinct otherIn member same] at held
  obtain ⟨source, sourceIn, same⟩ := exists_pattern_of_mem_gatherByPattern member
  obtain ⟨merge, mergeIn, rfl⟩ := List.mem_map.mp sourceIn
  obtain ⟨joins, count⟩ := level.mem_merges_iff.mp mergeIn
  have admissible := joins.admissible
  rw [same] at admissible count
  refine ⟨⟨admissible, count⟩, .inl ⟨Pattern.dashes_pos_iff.mp (by omega), fun index => ?_⟩⟩
  rw [← only, level.holds_outputs]
  exact and_iff_right ⟨admissible, count⟩

/-- **The step**: a pass over a level hands on the next level. -/
theorem outputs (level : Level width indices dashes implicants) (number : Nat) :
    Level width indices (dashes + 1) (MergePass.ofInputs number implicants).outputs := by
  obtain ⟨distinct, _⟩ := gatherByPattern_spec ((mergesOf implicants).map Merge.merged)
  refine ⟨fun implicant => ⟨fun member => ?_, ?_⟩, List.Nodup.of_map _ distinct⟩
  · exact and_assoc.mp (level.output_spec number member)
  · rintro ⟨admissible, count, gathers⟩
    have free : .dash ∈ implicant.pattern := Pattern.dashes_pos_iff.mp (by omega)
    obtain ⟨index, listed, fitting⟩ := admissible.exists_index
    obtain ⟨other, otherIn, same, _⟩ :=
      (level.holds_outputs number).mpr ⟨⟨admissible, count⟩, listed, fitting⟩
    rwa [gathers.eq_of_pattern (level.output_spec number otherIn).2 free same.symm]

/-- **What a pass leaves unmerged are the prime cubes of its level.** -/
theorem mem_unmerged_iff (level : Level width indices dashes implicants) (number : Nat)
    {implicant : Implicant} :
    implicant ∈ (MergePass.ofInputs number implicants).unmerged ↔
      implicant ∈ implicants ∧ PrimeCube width (readRows width indices) implicant.pattern := by
  have merged_iff : ((mergesOf implicants).any fun merge =>
      merge.left = implicant || merge.right = implicant) = true ↔
        ∃ merge ∈ mergesOf implicants, merge.left = implicant ∨ merge.right = implicant := by
    simp only [List.any_eq_true, Bool.or_eq_true, decide_eq_true_eq]
  rw [unmerged_eq_filter, List.mem_filter, Bool.not_eq_true', ← Bool.not_eq_true, merged_iff]
  refine and_congr_right fun member => ?_
  obtain ⟨admissible, count, gathers⟩ := (level.mem_iff implicant).mp member
  rw [primeCube_iff_not_joined admissible gathers]
  constructor
  · intro unmerged merge joins
    -- a merge of an implicant of the level is a merge of the level
    have counts := joins.halves.dashes_eq
    constructor
    · rintro rfl
      exact unmerged ⟨merge, level.mem_merges_iff.mpr ⟨joins, by omega⟩, .inl rfl⟩
    · rintro rfl
      exact unmerged ⟨merge, level.mem_merges_iff.mpr ⟨joins, by omega⟩, .inr rfl⟩
  · rintro never ⟨merge, mergeIn, here⟩
    obtain ⟨joins, _⟩ := level.mem_merges_iff.mp mergeIn
    exact here.elim (never merge joins).1 (never merge joins).2

theorem nodup_unmerged (level : Level width indices dashes implicants) (number : Nat) :
    (MergePass.ofInputs number implicants).unmerged.Nodup := by
  rw [unmerged_eq_filter]
  exact level.nodup.filter _

/-- When a level is empty there is no admissible cube with as many free positions or more. -/
theorem dashes_lt_of_nil (level : Level width indices dashes []) {pattern : Pattern}
    (admissible : Admissible width indices pattern) : pattern.dashes < dashes := by
  by_contra more
  obtain ⟨inner, innerAdmissible, count⟩ := admissible.exists_dashes (Nat.le_of_not_lt more)
  obtain ⟨_, member, _⟩ := level.exists_mem innerAdmissible count
  cases member

/-- **The run**: from a level on, the passes leave unmerged every prime cube with as many free
positions or more, with the indices it has to hold. -/
theorem mem_passesFrom_iff (level : Level width indices dashes implicants) (number : Nat)
    {implicant : Implicant} :
    implicant ∈ (passesFrom number implicants).flatMap MergePass.unmerged ↔
      PrimeCube width (readRows width indices) implicant.pattern ∧
        dashes ≤ implicant.pattern.dashes ∧ Gathers (readRow width) indices implicant := by
  induction number, implicants using passesFrom.induct generalizing dashes
  case case1 number implicants pass last =>
    have final := level.outputs number
    rw [passesFrom, dif_pos last, List.flatMap_singleton, level.mem_unmerged_iff, level.mem_iff]
    rw [last] at final
    constructor
    · rintro ⟨⟨_, count, gathers⟩, prime⟩
      exact ⟨prime, count.ge, gathers⟩
    · rintro ⟨prime, atLeast, gathers⟩
      have admissible : Admissible width indices implicant.pattern :=
        ⟨prime.length_eq, prime.inside⟩
      have atMost := final.dashes_lt_of_nil admissible
      exact ⟨⟨admissible, by omega, gathers⟩, prime⟩
  case case2 number implicants pass more ih =>
    rw [passesFrom, dif_neg more, List.flatMap_cons, List.mem_append, level.mem_unmerged_iff,
      level.mem_iff, ih (level.outputs number)]
    constructor
    · rintro (⟨⟨_, count, gathers⟩, prime⟩ | ⟨prime, above, gathers⟩)
      · exact ⟨prime, count.ge, gathers⟩
      · exact ⟨prime, Nat.le_of_succ_le above, gathers⟩
    · rintro ⟨prime, atLeast, gathers⟩
      rcases Nat.eq_or_lt_of_le atLeast with count | above
      · exact .inl ⟨⟨⟨prime.length_eq, prime.inside⟩, count.symm, gathers⟩, prime⟩
      · exact .inr ⟨prime, above, gathers⟩

/-- The passes leave nothing unmerged twice. -/
theorem nodup_passesFrom (level : Level width indices dashes implicants) (number : Nat) :
    ((passesFrom number implicants).flatMap MergePass.unmerged).Nodup := by
  induction number, implicants using passesFrom.induct generalizing dashes
  case case1 number implicants pass last =>
    rw [passesFrom, dif_pos last, List.flatMap_singleton]
    exact level.nodup_unmerged number
  case case2 number implicants pass more ih =>
    rw [passesFrom, dif_neg more, List.flatMap_cons]
    refine List.nodup_append.mpr ⟨level.nodup_unmerged number, ih (level.outputs number), ?_⟩
    rintro implicant here _ later rfl
    have count := ((level.mem_iff _).mp ((level.mem_unmerged_iff number).mp here).1).2.1
    have above := (((level.outputs number).mem_passesFrom_iff (number + 1)).mp later).2.1
    omega

end Level

end TwoLevel
