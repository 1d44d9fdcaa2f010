/-
**Implicants made by merging.**

An implicant says twice which rows it is about: by its pattern, and by the indices it was made from.
Merging changes both, each by itself. They agree all the same in every implicant that arises from
single rows by merging, in whatever order, and also where an index has more bits than the pattern:
taken by their low bits, the indices are the rows of the cube. For freeing a position that two
patterns fix differently, and nothing else, joins two halves of a cube that have no row in common.

* `Implicant.Made` — the implicants that arise from single rows by merging;
* `Pattern.ApartAt`, `merge_eq_some_iff_apartAt` — **which patterns are merged, and to what**;
* `rows_eq_union`, `disjoint_rows` — a cube is made up of its two halves, which do not meet;
* `Made.readRows_eq_rows` — **the indices of an implicant are read as the rows of its pattern**;
* `merging_exact` — when two implicants are merged, and what the result holds;
* `index_misread_beyond_word` — what becomes of an index where a row does not fit into a word.
-/

import Mathlib.Data.Finset.Disjoint
import Mathlib.Data.Finset.Lattice.Lemmas
import TwoLevel.Proofs.Cube

namespace TwoLevel

/-! ### Patterns that are merged -/

namespace Pattern

/-- The patterns differ at the position, which both fix, and agree at every other one, dash for
dash. -/
structure ApartAt (left right : Pattern) (position : Nat) : Prop where
  differ : left[position]? ≠ right[position]?
  left_fixed : left[position]? ≠ some .dash
  right_fixed : right[position]? ≠ some .dash
  agree : ∀ other, other ≠ position → left[other]? = right[other]?

/-- Behind a common demand, patterns are apart where their rests are. -/
theorem apartAt_cons_self {trit : Trit} {left right : Pattern} {position : Nat} :
    ApartAt (trit :: left) (trit :: right) position ↔
      ∃ later, position = later + 1 ∧ ApartAt left right later := by
  constructor
  · rintro ⟨differ, leftFixed, rightFixed, agree⟩
    cases position with
    | zero => exact absurd rfl differ
    | succ later =>
      refine ⟨later, rfl, differ, leftFixed, rightFixed, fun other elsewhere => ?_⟩
      exact agree (other + 1) fun same => elsewhere (Nat.succ.inj same)
  · rintro ⟨later, rfl, differ, leftFixed, rightFixed, agree⟩
    refine ⟨differ, leftFixed, rightFixed, fun other elsewhere => ?_⟩
    cases other with
    | zero => rfl
    | succ other => exact agree other fun same => elsewhere (congrArg Nat.succ same)

/-- Patterns whose first demands differ are apart there or nowhere. -/
theorem apartAt_cons_of_ne {first other : Trit} (different : first ≠ other) {left right : Pattern}
    {position : Nat} : ApartAt (first :: left) (other :: right) position ↔
      position = 0 ∧ first ≠ .dash ∧ other ≠ .dash ∧ left = right := by
  constructor
  · rintro ⟨_, leftFixed, rightFixed, agree⟩
    cases position with
    | succ later => exact absurd (Option.some.inj (agree 0 (Nat.succ_ne_zero later).symm)) different
    | zero =>
      refine ⟨rfl, fun free => leftFixed (congrArg some free),
        fun free => rightFixed (congrArg some free), List.ext_getElem? fun later => ?_⟩
      exact agree (later + 1) (Nat.succ_ne_zero later)
  · rintro ⟨rfl, firstFixed, otherFixed, rfl⟩
    refine ⟨fun same => different (Option.some.inj same),
      fun same => firstFixed (Option.some.inj same),
      fun same => otherFixed (Option.some.inj same), fun later elsewhere => ?_⟩
    obtain ⟨later, rfl⟩ := Nat.exists_eq_succ_of_ne_zero elsewhere
    rfl

/-- **Which patterns are merged, and to what**: those of one width that are apart at one position,
to the pattern with this position free. -/
theorem merge_eq_some_iff_apartAt {left right merged : Pattern} :
    merge? left right = some merged ↔ left.length = right.length ∧
      ∃ position, ApartAt left right position ∧ merged = left.set position .dash := by
  induction left generalizing right merged with
  | nil =>
    refine iff_of_false (by simp [merge?]) ?_
    rintro ⟨width, position, apart, _⟩
    obtain rfl := List.length_eq_zero_iff.mp width.symm
    exact apart.differ rfl
  | cons first rest ih =>
    cases right with
    | nil => exact iff_of_false (by simp [merge?]) fun same => Nat.succ_ne_zero _ same.1
    | cons other others =>
      rw [merge?, List.length_cons, List.length_cons, Nat.succ_inj]
      by_cases same : first = other
      · subst same
        rw [if_pos rfl, Option.map_eq_some_iff]
        simp only [ih, apartAt_cons_self]
        constructor
        · rintro ⟨_, ⟨width, position, apart, rfl⟩, rfl⟩
          exact ⟨width, position + 1, ⟨position, rfl, apart⟩, rfl⟩
        · rintro ⟨width, _, ⟨position, rfl, apart⟩, rfl⟩
          exact ⟨_, ⟨width, position, apart, rfl⟩, rfl⟩
      · rw [if_neg same]
        simp only [apartAt_cons_of_ne same]
        constructor
        · intro joined
          split at joined
          · next fixed =>
            cases joined
            exact ⟨congrArg List.length fixed.2.2, 0, ⟨rfl, fixed⟩, rfl⟩
          · cases joined
        · rintro ⟨_, _, ⟨rfl, fixed⟩, rfl⟩
          rw [if_pos fixed]
          rfl

/-! ### The two halves of a cube -/

namespace Halves

variable {lower upper whole : Pattern}

/-- No row fits both halves: they fix one position differently. -/
theorem fits_upper_of_fits_lower (halves : Halves lower upper whole) {index : Nat}
    (fitting : lower.fits index = true) : upper.fits index = false := by
  induction halves with
  | here rest =>
    rw [fits_cons, Trit.admits, Bool.and_eq_true, Bool.not_eq_true'] at fitting
    rw [fits_cons, Trit.admits, fitting.1, Bool.false_and]
  | there trit _ ih =>
    rw [fits_cons, Bool.and_eq_true] at fitting
    rw [fits_cons, ih fitting.2, Bool.and_false]

theorem rows_eq_union (halves : Halves lower upper whole) :
    whole.rows = lower.rows ∪ upper.rows := by
  ext row
  rw [Finset.mem_union, mem_rows, mem_rows, mem_rows, halves.length_eq.1, halves.length_eq.2,
    halves.fits_eq, Bool.or_eq_true, and_or_left]

theorem disjoint_rows (halves : Halves lower upper whole) : Disjoint lower.rows upper.rows := by
  refine Finset.disjoint_left.mpr fun row inLower inUpper => ?_
  have apart := halves.fits_upper_of_fits_lower (mem_rows.mp inLower).2
  rw [(mem_rows.mp inUpper).2] at apart
  cases apart

end Halves

/-- **The cube of a merged pattern** is the disjoint union of the cubes of the two. -/
theorem rows_of_merge {left right merged : Pattern} (joined : merge? left right = some merged) :
    merged.rows = left.rows ∪ right.rows ∧ Disjoint left.rows right.rows := by
  rcases merge_eq_some_iff.mp joined with halves | halves
  · exact ⟨halves.rows_eq_union, halves.disjoint_rows⟩
  · exact ⟨halves.rows_eq_union.trans (Finset.union_comm _ _), halves.disjoint_rows.symm⟩

theorem rows_ofIndex (width index : Nat) : (ofIndex width index).rows = readRows width [index] := by
  ext row
  rw [mem_rows, length_ofIndex, fits_ofIndex_iff, mem_readRows]
  simp only [List.mem_singleton, exists_eq_left]
  constructor
  · rintro ⟨below, same⟩
    rw [← same, Nat.mod_eq_of_lt below]
  · rintro rfl
    exact ⟨readRow_lt width index, Nat.mod_eq_of_lt (readRow_lt width index)⟩

end Pattern

/-! ### Implicants -/

theorem readRows_union (width : Nat) (left right : IndexSet) :
    readRows width (left.union right).toList =
      readRows width left.toList ∪ readRows width right.toList := by
  ext row
  simp only [Finset.mem_union, mem_readRows, IndexSet.mem_toList, IndexSet.mem_union, or_and_right,
    exists_or]

namespace Implicant

/-- The implicants that arise from single rows by merging. -/
inductive Made : Implicant → Prop where
  | ofIndex (width index : Nat) : Made (.ofIndex width index)
  | merge {left right merged : Implicant} (leftMade : Made left) (rightMade : Made right)
    (joined : left.merge? right = some merged) : Made merged

variable {left right merged implicant : Implicant}

/-- Merging does not depend on the order of the implicants. -/
theorem merge_comm (left right : Implicant) : left.merge? right = right.merge? left := by
  have indices : left.minterms.union right.minterms = right.minterms.union left.minterms :=
    IndexSet.ext fun index => by rw [IndexSet.mem_union, IndexSet.mem_union, or_comm]
  rw [merge?, merge?, Pattern.merge_comm, indices]

/-- **The indices of an implicant are read as the rows of its pattern.** By induction on how the
implicant was made: a merge adds to the indices what it adds to the cube. -/
theorem Made.readRows_eq_rows (made : implicant.Made) :
    readRows implicant.pattern.length implicant.minterms.toList = implicant.pattern.rows := by
  induction made with
  | ofIndex width index =>
    rw [Implicant.ofIndex, Pattern.length_ofIndex, Pattern.rows_ofIndex]
    rfl
  | @merge left right merged _ _ joined leftIh rightIh =>
    obtain ⟨patternJoined, indices⟩ := merge_eq_some_iff.mp joined
    have leftWidth : merged.pattern.length = left.pattern.length :=
      Pattern.length_merge patternJoined
    have rightWidth : merged.pattern.length = right.pattern.length :=
      leftWidth.trans (Pattern.merge_eq_some_iff_apartAt.mp patternJoined).1
    calc readRows merged.pattern.length merged.minterms.toList
        = readRows merged.pattern.length left.minterms.toList ∪
            readRows merged.pattern.length right.minterms.toList := by rw [indices, readRows_union]
      _ = left.pattern.rows ∪ right.pattern.rows := by
        rw [← leftIh, ← rightIh, ← leftWidth, ← rightWidth]
      _ = merged.pattern.rows := (Pattern.rows_of_merge patternJoined).1.symm

theorem exists_merge_iff :
    (∃ merged, left.merge? right = some merged) ↔
      left.pattern.length = right.pattern.length ∧
        ∃ position, left.pattern.ApartAt right.pattern position := by
  constructor
  · rintro ⟨merged, joined⟩
    obtain ⟨width, position, apart, _⟩ :=
      Pattern.merge_eq_some_iff_apartAt.mp (merge_eq_some_iff.mp joined).1
    exact ⟨width, position, apart⟩
  · rintro ⟨width, position, apart⟩
    have joined := Pattern.merge_eq_some_iff_apartAt.mpr ⟨width, position, apart, rfl⟩
    exact ⟨⟨_, _⟩, merge_eq_some_iff.mpr ⟨joined, rfl⟩⟩

end Implicant

/-- **Merging is exact, as long as a row fits into a word.** Up to this width every build makes the
implicant of an index; and in an implicant that arises from single rows by merging, the indices,
taken by their low bits, are the rows that fit the pattern. At any width, two implicants are merged
just where they have one width and their patterns differ at exactly one position, which both fix, in
either order with the same result; and then the cube of the result is made up of the two cubes,
which do not meet, and its indices are those of the two. -/
theorem merging_exact (build : Build) (left right : Implicant) :
    (∀ width index, width ≤ Word.size →
      Implicant.ofIndexIn build width index = some (.ofIndex width index)) ∧
    (∀ implicant : Implicant, implicant.Made → implicant.pattern.length ≤ Word.size →
      residues implicant.pattern.length implicant.minterms.toList = implicant.pattern.rows) ∧
    ((∃ merged, left.merge? right = some merged) ↔
      left.pattern.length = right.pattern.length ∧
        ∃ position, left.pattern.ApartAt right.pattern position) ∧
    left.merge? right = right.merge? left ∧
    ∀ merged, left.merge? right = some merged →
      merged.pattern.rows = left.pattern.rows ∪ right.pattern.rows ∧
      Disjoint left.pattern.rows right.pattern.rows ∧
      ∀ index, index ∈ merged.minterms ↔ index ∈ left.minterms ∨ index ∈ right.minterms := by
  refine ⟨fun width index inWord => Implicant.ofIndexIn_of_reads (build.reads_of_le inWord) index,
    fun implicant made inWord => ?_, Implicant.exists_merge_iff, Implicant.merge_comm left right,
    fun merged joined => ?_⟩
  · rw [← readRows_eq_residues inWord]
    exact made.readRows_eq_rows
  · obtain ⟨patternJoined, indices⟩ := Implicant.merge_eq_some_iff.mp joined
    obtain ⟨union, disjoint⟩ := Pattern.rows_of_merge patternJoined
    refine ⟨union, disjoint, fun index => ?_⟩
    rw [indices, IndexSet.mem_union]

/-- The indices 5 and 3 over two columns, where 5 stands for row 1: their patterns `01` and `11` are
merged to `-1`, whose rows are 1 and 3. -/
theorem merging_exact_beyond_width :
    ∃ merged : Implicant, merged.Made ∧
      (Implicant.ofIndex 2 5).merge? (.ofIndex 2 3) = some merged ∧
      merged.pattern = [.dash, .one] ∧ merged.minterms.toList = [3, 5] ∧
      residues merged.pattern.length merged.minterms.toList = merged.pattern.rows ∧
      merged.pattern.rows = (Pattern.ofIndex 2 5).rows ∪ (Pattern.ofIndex 2 3).rows ∧
      merged.pattern.rows = {1, 3} := by
  have joined : (Implicant.ofIndex 2 5).merge? (.ofIndex 2 3) =
      some ⟨[.dash, .one], .ofList [3, 5]⟩ := by
    decide
  have made := Implicant.Made.merge (.ofIndex 2 5) (.ofIndex 2 3) joined
  obtain ⟨_, consistent, _, _, result⟩ := merging_exact .checked (.ofIndex 2 5) (.ofIndex 2 3)
  exact ⟨_, made, joined, rfl, by decide, consistent _ made (by decide), (result _ joined).1,
    by decide⟩

/-- **Over 65 columns the index 1 is no longer made right.** A checked build stops at the first shift.
A wrapping build reads the lowest bit twice and makes a pattern with a one at both ends, which does
not fit row 1. -/
theorem index_misread_beyond_word :
    Implicant.ofIndexIn .checked 65 1 = none ∧
      ∃ implicant : Implicant, Implicant.ofIndexIn .wrapping 65 1 = some implicant ∧
        implicant.Made ∧ implicant.pattern = .one :: (List.replicate 63 .zero ++ [.one]) ∧
        1 ∈ residues implicant.pattern.length implicant.minterms.toList ∧
        1 ∉ implicant.pattern.rows := by
  have stops : ¬ Build.checked.Reads 65 := by decide
  have pattern : Pattern.ofIndex 65 1 = .one :: (List.replicate 63 .zero ++ [.one]) := by
    decide
  refine ⟨Implicant.ofIndexIn_of_not_reads stops 1, .ofIndex 65 1,
    Implicant.ofIndexIn_of_reads (Build.reads_wrapping 65) 1, .ofIndex 65 1, pattern,
    mem_residues.mpr ⟨1, List.mem_singleton.mpr rfl, ?_⟩, fun inRows => ?_⟩
  · decide
  · have fits := (Pattern.mem_rows.mp inRows).2
    rw [Implicant.ofIndex, pattern] at fits
    revert fits
    decide

/-- Indices with the same low bits have one pattern and are not merged. -/
example : (Implicant.ofIndex 2 1).merge? (.ofIndex 2 5) = none := by decide

end TwoLevel
