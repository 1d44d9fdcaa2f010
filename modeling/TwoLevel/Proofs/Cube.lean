/-
**Cubes.**

A pattern stands for the rows it fits, a cube. One cube lies inside another exactly when the larger
pattern frees some of the positions that the smaller one fixes, and merging two patterns joins the
two halves of a cube.

* `readRow`, `InTable` — the row that an index is read as, which is the index itself below the number
  of rows, as long as a row fits into a word;
* `Pattern.fits_ofIndex_iff` — the pattern of an index fits just this row;
* `Pattern.Halves` — the two halves of a pattern along a free position; `merge_eq_some_iff` says
  that `Pattern.merge?` finds exactly these;
* `Pattern.Within` — one pattern frees positions of another; `within_iff_fits` says that this is
  inclusion of the cubes;
* `Pattern.rows`, `readRows` — the rows of a cube, and the rows of a table that a list of indices
  stands for;
* `exists_halves_of_within` — a cube strictly inside another is half of a cube inside it;
* `exists_halves_of_dash` — a pattern with a free position has two halves;
* `Pattern.halves`, `length_halves` — all pairs of halves, as many as free positions.
-/

import Mathlib.Algebra.Group.Nat.Defs
import Mathlib.Data.Finset.Dedup
import Mathlib.Data.Finset.Filter
import Mathlib.Data.Finset.Range
import Mathlib.Data.List.Forall2
import TwoLevel.Implicant.Basic

namespace TwoLevel

/-! ### Rows and their bits -/

/-- Two numbers have the same low bits exactly when they leave the same remainder. -/
theorem mod_two_pow_eq_iff {width first second : Nat} :
    first % 2 ^ width = second % 2 ^ width ↔
      ∀ place < width, first.testBit place = second.testBit place := by
  constructor
  · intro same place below
    have bits := congrArg (Nat.testBit · place) same
    simpa only [Nat.testBit_mod_two_pow, below, decide_true, Bool.true_and] using bits
  · intro same
    refine Nat.eq_of_testBit_eq fun place => ?_
    rw [Nat.testBit_mod_two_pow, Nat.testBit_mod_two_pow]
    by_cases below : place < width
    · rw [same place below]
    · rw [decide_eq_false below, Bool.false_and, Bool.false_and]

/-- The row of a table with one more column in front, which has the bit given. -/
def frontBit (width : Nat) (bit : Bool) (row : Nat) : Nat := 2 ^ width * bit.toNat + row

theorem testBit_frontBit_self {width row : Nat} (bit : Bool) (below : row < 2 ^ width) :
    (frontBit width bit row).testBit width = bit := by
  rw [frontBit, Nat.testBit_two_pow_mul_add _ below, if_neg (Nat.lt_irrefl _), Nat.sub_self]
  cases bit <;> rfl

theorem testBit_frontBit_lt {width row place : Nat} (bit : Bool) (below : row < 2 ^ width)
    (low : place < width) : (frontBit width bit row).testBit place = row.testBit place := by
  rw [frontBit, Nat.testBit_two_pow_mul_add _ below, if_pos low]

theorem frontBit_lt {width row : Nat} (bit : Bool) (below : row < 2 ^ width) :
    frontBit width bit row < 2 ^ (width + 1) := by
  rw [frontBit, Nat.pow_succ]
  cases bit <;> simp <;> omega

/-- Rows are ordered by the bit in front, and then by the rest. -/
theorem frontBit_lt_frontBit_iff {width first second : Nat} {firstBit secondBit : Bool}
    (firstBelow : first < 2 ^ width) (secondBelow : second < 2 ^ width) :
    frontBit width firstBit first < frontBit width secondBit second ↔
      firstBit = false ∧ secondBit = true ∨ firstBit = secondBit ∧ first < second := by
  rw [frontBit, frontBit]
  cases firstBit <;> cases secondBit <;> simp <;> omega

/-! ### The row that an index is read as -/

/-- The row of a table that an index is read as: its bits are those that the shifts give. -/
def readRow : (width : Nat) → (index : Nat) → Nat
  | 0, _ => 0
  | width + 1, index => frontBit width (Word.bit index width) (readRow width index)

theorem readRow_lt (width index : Nat) : readRow width index < 2 ^ width := by
  induction width with
  | zero => exact Nat.one_pos
  | succ width ih => exact frontBit_lt _ ih

theorem testBit_readRow {width place : Nat} (low : place < width) (index : Nat) :
    (readRow width index).testBit place = Word.bit index place := by
  induction width with
  | zero => exact absurd low (Nat.not_lt_zero _)
  | succ width ih =>
    rw [readRow]
    rcases Nat.lt_or_eq_of_le (Nat.le_of_lt_succ low) with below | rfl
    · rw [testBit_frontBit_lt _ (readRow_lt width index) below, ih below]
    · exact testBit_frontBit_self _ (readRow_lt _ index)

/-- Indices with the same bits are read as the same row. -/
theorem readRow_eq_iff {width row index : Nat} :
    row % 2 ^ width = readRow width index ↔
      ∀ place < width, row.testBit place = Word.bit index place := by
  rw [← Nat.mod_eq_of_lt (readRow_lt width index), mod_two_pow_eq_iff]
  exact forall₂_congr fun place low => by rw [testBit_readRow low]

/-- **As long as a row fits into a word**, an index is read as the row of its low bits. -/
theorem readRow_eq_mod {width : Nat} (inWord : width ≤ Word.size) :
    readRow width = (· % 2 ^ width) := by
  funext index
  refine (readRow_eq_iff.mpr fun place low => ?_).symm
  exact (Word.bit_eq_testBit index (Nat.lt_of_lt_of_le low inWord)).symm

/-- Every index of the list is read as the row with its number. -/
def InTable (width : Nat) (indices : List Nat) : Prop :=
  ∀ index ∈ indices, readRow width index = index

namespace InTable

variable {width : Nat} {indices : List Nat}

/-- As long as a row fits into a word, indices below the number of rows are read as themselves. -/
theorem of_lt (inWord : width ≤ Word.size) (inRange : ∀ index ∈ indices, index < 2 ^ width) :
    InTable width indices := by
  intro index member
  rw [readRow_eq_mod inWord]
  exact Nat.mod_eq_of_lt (inRange index member)

theorem lt (inTable : InTable width indices) {index : Nat} (member : index ∈ indices) :
    index < 2 ^ width := by
  rw [← inTable index member]
  exact readRow_lt width index

end InTable

namespace Trit

/-- Whether a bit meets the demand. -/
def admits : Trit → Bool → Bool
  | dash, _ => true
  | zero, bit => !bit
  | one, bit => bit

theorem admits_ofBool (value bit : Bool) : admits (ofBool value) bit = (bit == value) := by
  cases value <;> cases bit <;> rfl

theorem exists_admits (trit : Trit) : ∃ bit, trit.admits bit = true := by
  cases trit with
  | dash => exact ⟨true, rfl⟩
  | zero => exact ⟨false, rfl⟩
  | one => exact ⟨true, rfl⟩

end Trit

namespace Pattern

@[simp] theorem fits_nil (index : Nat) : fits [] index = true := rfl

@[simp] theorem fits_cons (trit : Trit) (rest : Pattern) (index : Nat) :
    fits (trit :: rest) index = (trit.admits (index.testBit rest.length) && fits rest index) := by
  rw [fits]
  cases trit with
  | dash => rfl
  | zero => cases index.testBit rest.length <;> rfl
  | one => cases index.testBit rest.length <;> rfl

/-- A pattern looks only at as many bits as it has positions. -/
theorem fits_congr {pattern : Pattern} {first second : Nat}
    (same : ∀ place < pattern.length, first.testBit place = second.testBit place) :
    pattern.fits first = pattern.fits second := by
  induction pattern with
  | nil => rfl
  | cons trit rest ih =>
    rw [fits_cons, fits_cons, same rest.length (Nat.lt_succ_self _),
      ih fun place below => same place (Nat.lt_succ_of_lt below)]

theorem fits_mod (pattern : Pattern) (index : Nat) :
    pattern.fits (index % 2 ^ pattern.length) = pattern.fits index :=
  fits_congr (mod_two_pow_eq_iff.mp (Nat.mod_mod _ _))

/-- A row with one more bit fits when the bit meets the first demand and the row fits the rest. -/
theorem fits_frontBit (trit : Trit) {rest : Pattern} {row : Nat} (bit : Bool)
    (below : row < 2 ^ rest.length) :
    fits (trit :: rest) (frontBit rest.length bit row) = (trit.admits bit && fits rest row) := by
  rw [fits_cons, testBit_frontBit_self bit below]
  exact congrArg (trit.admits bit && ·) (fits_congr fun place low => testBit_frontBit_lt bit below low)

/-- Below a bit that meets the first demand, a row that fits the rest fits the whole. -/
theorem fits_frontBit_mod (trit : Trit) {rest : Pattern} {bit : Bool}
    (admitted : trit.admits bit = true) (row : Nat) :
    fits (trit :: rest) (frontBit rest.length bit (row % 2 ^ rest.length)) = fits rest row := by
  rw [fits_frontBit trit bit (Nat.mod_lt _ (Nat.two_pow_pos _)), admitted, Bool.true_and, fits_mod]

/-- Every pattern fits some row. -/
theorem exists_fits (pattern : Pattern) : ∃ row, pattern.fits row = true := by
  induction pattern with
  | nil => exact ⟨0, rfl⟩
  | cons trit rest ih =>
    obtain ⟨row, fitting⟩ := ih
    obtain ⟨bit, admitted⟩ := trit.exists_admits
    exact ⟨_, (fits_frontBit_mod trit admitted row).trans fitting⟩

/-- **The pattern of an index fits just the row that the index is read as.** -/
theorem fits_ofIndex_iff {width index row : Nat} :
    (ofIndex width index).fits row = true ↔ row % 2 ^ width = readRow width index := by
  rw [readRow_eq_iff]
  induction width with
  | zero => simp [ofIndex]
  | succ width ih =>
    rw [ofIndex, fits_cons, length_ofIndex, Trit.admits_ofBool, Bool.and_eq_true, beq_iff_eq, ih,
      Nat.forall_lt_succ_right]
    exact and_comm

theorem fits_ofIndex (width index : Nat) :
    (ofIndex width index).fits (readRow width index) = true :=
  fits_ofIndex_iff.mpr (Nat.mod_eq_of_lt (readRow_lt width index))

theorem length_of_mem_map_ofIndex {width : Nat} (indices : List Nat) :
    ∀ pattern ∈ indices.map (ofIndex width), pattern.length = width := by
  intro pattern member
  obtain ⟨index, _, rfl⟩ := List.mem_map.mp member
  exact length_ofIndex width index

/-! ### Free positions -/

/-- The number of free positions. -/
def dashes (pattern : Pattern) : Nat := pattern.count .dash

theorem dashes_pos_iff {pattern : Pattern} : 0 < pattern.dashes ↔ .dash ∈ pattern :=
  List.count_pos_iff

/-- A pattern without free positions that fits a row with the bits of an index is the pattern of the
index. -/
theorem eq_ofIndex_of_fits {pattern : Pattern} {row index : Nat} (fixed : pattern.dashes = 0)
    (fitting : pattern.fits row = true)
    (bits : ∀ place < pattern.length, row.testBit place = Word.bit index place) :
    pattern = ofIndex pattern.length index := by
  induction pattern with
  | nil => rfl
  | cons trit rest ih =>
    have parts : trit ≠ .dash ∧ dashes rest = 0 := by
      rw [dashes, List.count_eq_zero, List.mem_cons, not_or] at fixed
      exact ⟨Ne.symm fixed.1, List.count_eq_zero.mpr fixed.2⟩
    rw [fits_cons, Bool.and_eq_true] at fitting
    have head : trit = .ofBool (row.testBit rest.length) := by
      cases trit with
      | dash => exact absurd rfl parts.1
      | zero => rw [(Bool.not_eq_true' _).mp fitting.1]; rfl
      | one => rw [show row.testBit rest.length = true from fitting.1]; rfl
    rw [List.length_cons, ofIndex, ← bits rest.length (Nat.lt_succ_self _), ← head,
      ← ih parts.2 fitting.2 fun place low => bits place (Nat.lt_succ_of_lt low)]

theorem dashes_ofIndex (width index : Nat) : (ofIndex width index).dashes = 0 := by
  induction width with
  | zero => rfl
  | succ width ih =>
    rw [ofIndex, dashes, List.count_cons_of_ne, ← dashes, ih]
    cases Word.bit index width <;> simp [Trit.ofBool]

/-! ### Halves -/

/-- The two halves of a pattern along one of its free positions, and the pattern: the first half
fixes the position to zero, the second to one. -/
inductive Halves : Pattern → Pattern → Pattern → Prop
  | here (rest : Pattern) : Halves (.zero :: rest) (.one :: rest) (.dash :: rest)
  | there (trit : Trit) {lower upper whole : Pattern} (halves : Halves lower upper whole) :
      Halves (trit :: lower) (trit :: upper) (trit :: whole)

theorem merge_of_halves {lower upper whole : Pattern} (halves : Halves lower upper whole) :
    merge? lower upper = some whole := by
  induction halves with
  | here rest => simp [merge?]
  | there trit _ ih => rw [merge?, if_pos rfl, ih, Option.map_some]

/-- **Merging finds the pattern of which the two are the halves.** -/
theorem merge_eq_some_iff {left right whole : Pattern} :
    merge? left right = some whole ↔ Halves left right whole ∨ Halves right left whole := by
  constructor
  · intro joined
    induction left generalizing right whole with
    | nil => simp [merge?] at joined
    | cons first rest ih =>
      cases right with
      | nil => simp [merge?] at joined
      | cons other others =>
        rw [merge?] at joined
        split at joined
        · next same =>
          obtain ⟨tail, tailJoined, rfl⟩ := Option.map_eq_some_iff.mp joined
          subst same
          exact (ih tailJoined).imp (.there first) (.there first)
        · next different =>
          split at joined
          · next apart =>
            cases joined
            obtain ⟨firstFixed, otherFixed, rfl⟩ := apart
            cases first <;> cases other <;>
              first
              | exact absurd rfl different
              | exact absurd rfl firstFixed
              | exact absurd rfl otherFixed
              | exact .inl (.here rest)
              | exact .inr (.here rest)
          · cases joined
  · rintro (halves | halves)
    · exact merge_of_halves halves
    · rw [merge_comm]
      exact merge_of_halves halves

namespace Halves

variable {lower upper whole : Pattern}

/-- The second half has one more one. -/
theorem ones_eq (halves : Halves lower upper whole) : upper.ones = lower.ones + 1 := by
  induction halves with
  | here rest => simp [ones]
  | there trit _ ih =>
    rw [ones, ones, List.count_cons, List.count_cons, ← ones, ← ones, ih]
    omega

theorem length_eq (halves : Halves lower upper whole) :
    lower.length = whole.length ∧ upper.length = whole.length := by
  induction halves with
  | here rest => exact ⟨rfl, rfl⟩
  | there trit _ ih => exact ⟨congrArg (· + 1) ih.1, congrArg (· + 1) ih.2⟩

/-- The halves have one free position less. -/
theorem dashes_eq (halves : Halves lower upper whole) :
    whole.dashes = lower.dashes + 1 ∧ whole.dashes = upper.dashes + 1 := by
  induction halves with
  | here rest => simp [dashes]
  | there trit _ ih =>
    simp only [dashes, List.count_cons] at ih ⊢
    omega

/-- **The cube of a pattern is made up of the cubes of its halves.** -/
theorem fits_eq (halves : Halves lower upper whole) (index : Nat) :
    whole.fits index = (lower.fits index || upper.fits index) := by
  induction halves with
  | here rest =>
    simp only [fits_cons, Trit.admits]
    cases index.testBit rest.length <;> simp
  | there trit halves ih =>
    rw [fits_cons, fits_cons, fits_cons, ih, halves.length_eq.1, halves.length_eq.2,
      Bool.and_or_distrib_left]

end Halves

/-- **A pattern with a free position has two halves.** -/
theorem exists_halves_of_dash {whole : Pattern} (free : .dash ∈ whole) :
    ∃ lower upper, Halves lower upper whole := by
  induction whole with
  | nil => cases free
  | cons trit rest ih =>
    by_cases head : trit = .dash
    · subst head
      exact ⟨_, _, .here rest⟩
    · obtain ⟨lower, upper, halves⟩ := ih ((List.mem_cons.mp free).resolve_left (Ne.symm head))
      exact ⟨_, _, .there trit halves⟩

/-- The pairs of halves of a pattern, one pair for each of its free positions. -/
def halves : Pattern → List (Pattern × Pattern)
  | [] => []
  | trit :: rest =>
    (if trit = .dash then [(.zero :: rest, .one :: rest)] else []) ++
      (halves rest).map fun pair => (trit :: pair.1, trit :: pair.2)

theorem mem_halves_iff {lower upper whole : Pattern} :
    (lower, upper) ∈ halves whole ↔ Halves lower upper whole := by
  constructor
  · intro member
    induction whole generalizing lower upper with
    | nil => cases member
    | cons trit rest ih =>
      rw [halves, List.mem_append, List.mem_map] at member
      rcases member with here | ⟨pair, later, same⟩
      · split at here
        · next free =>
          subst free
          cases List.mem_singleton.mp here
          exact .here rest
        · cases here
      · cases same
        exact .there trit (ih later)
  · intro isHalves
    induction isHalves with
    | here rest => exact List.mem_append_left _ (List.mem_singleton.mpr rfl)
    | there trit _ ih => exact List.mem_append_right _ (List.mem_map.mpr ⟨_, ih, rfl⟩)

/-- **A pattern has as many pairs of halves as free positions.** -/
theorem length_halves (whole : Pattern) : whole.halves.length = whole.dashes := by
  induction whole with
  | nil => rfl
  | cons trit rest ih =>
    rw [halves, List.length_append, List.length_map, ih, dashes, dashes, List.count_cons]
    by_cases free : trit = .dash
    · simp [free, Nat.add_comm]
    · simp [free]

theorem nodup_halves (whole : Pattern) : whole.halves.Nodup := by
  induction whole with
  | nil => exact List.nodup_nil
  | cons trit rest ih =>
    have rests : ((halves rest).map fun pair => (trit :: pair.1, trit :: pair.2)).Nodup := by
      refine ih.map fun first second same => ?_
      simp only [Prod.mk.injEq, List.cons.injEq, true_and] at same
      exact Prod.ext same.1 same.2
    rw [halves]
    split
    · next free =>
      refine List.nodup_cons.mpr ⟨fun member => ?_, rests⟩
      obtain ⟨pair, _, same⟩ := List.mem_map.mp member
      rw [free] at same
      cases same
    · exact rests

/-! ### Inclusion -/

/-- A pattern that frees some of the positions that another one fixes, and keeps the others. -/
def Within (inner outer : Pattern) : Prop :=
  List.Forall₂ (fun demand weaker => weaker = .dash ∨ demand = weaker) inner outer

namespace Within

variable {inner middle outer : Pattern}

theorem refl (pattern : Pattern) : Within pattern pattern :=
  List.forall₂_same.mpr fun _ _ => .inr rfl

theorem length_eq (within : Within inner outer) : inner.length = outer.length :=
  List.Forall₂.length_eq within

theorem trans (first : Within inner middle) (second : Within middle outer) : Within inner outer := by
  induction first generalizing outer with
  | nil => exact second
  | cons head _ ih =>
    cases second with
    | cons next rest =>
      refine .cons ?_ (ih rest)
      rcases next with free | same
      · exact .inl free
      · exact same ▸ head

theorem antisymm (first : Within inner outer) (second : Within outer inner) : inner = outer := by
  induction first with
  | nil => rfl
  | cons head _ ih =>
    cases second with
    | cons back rest =>
      rw [ih rest]
      rcases head with free | same
      · rcases back with alsoFree | same
        · rw [free, alsoFree]
        · rw [same]
      · rw [same]

theorem fits (within : Within inner outer) {index : Nat} (fitting : inner.fits index = true) :
    outer.fits index = true := by
  induction within with
  | nil => rfl
  | cons head rest ih =>
    rw [fits_cons, Bool.and_eq_true] at fitting ⊢
    refine ⟨?_, ih fitting.2⟩
    rcases head with rfl | rfl
    · rfl
    · rw [← List.Forall₂.length_eq rest]
      exact fitting.1

/-- The larger cube fixes at most as many positions. -/
theorem literalCount_le (within : Within inner outer) :
    outer.literalCount ≤ inner.literalCount := by
  induction within with
  | nil => exact Nat.le_refl _
  | cons head _ ih =>
    rw [literalCount_cons, literalCount_cons]
    rcases head with rfl | rfl
    · exact Nat.le_add_right_of_le ih
    · exact Nat.add_le_add_right ih _

end Within

theorem within_of_halves {lower upper whole : Pattern} (halves : Halves lower upper whole) :
    Within lower whole ∧ Within upper whole := by
  induction halves with
  | here rest => exact ⟨.cons (.inl rfl) (Within.refl rest), .cons (.inl rfl) (Within.refl rest)⟩
  | there trit _ ih => exact ⟨.cons (.inr rfl) ih.1, .cons (.inr rfl) ih.2⟩

/-- **Inclusion of patterns is inclusion of cubes.** -/
theorem within_iff_fits {inner outer : Pattern} (width : inner.length = outer.length) :
    Within inner outer ↔ ∀ row, inner.fits row = true → outer.fits row = true := by
  refine ⟨fun within row => within.fits, fun inside => ?_⟩
  induction inner generalizing outer with
  | nil => rw [List.length_eq_zero_iff.mp width.symm]; exact .nil
  | cons trit rest ih =>
    cases outer with
    | nil => cases width
    | cons weaker others =>
      have tails : rest.length = others.length := Nat.succ.inj width
      have step : ∀ bit, trit.admits bit = true → ∀ row, fits rest row = true →
          weaker.admits bit = true ∧ fits others row = true := by
        intro bit admitted row fitting
        have low : row % 2 ^ rest.length < 2 ^ rest.length := Nat.mod_lt _ (Nat.two_pow_pos _)
        have found := inside _ ((fits_frontBit_mod trit admitted row).trans fitting)
        rw [fits_cons, ← tails, testBit_frontBit_self bit low, Bool.and_eq_true] at found
        refine ⟨found.1, ?_⟩
        rw [← fits_mod, ← tails, ← found.2]
        exact fits_congr fun place below =>
          (testBit_frontBit_lt bit low (tails ▸ below)).symm
      obtain ⟨row, fitting⟩ := exists_fits rest
      obtain ⟨someBit, someAdmitted⟩ := trit.exists_admits
      refine .cons ?_ (ih tails fun row fitting => (step someBit someAdmitted row fitting).2)
      have heads : ∀ bit, trit.admits bit = true → weaker.admits bit = true :=
        fun bit admitted => (step bit admitted row fitting).1
      have atFalse := heads false
      have atTrue := heads true
      cases trit <;> cases weaker <;> simp_all [Trit.admits]

/-- **A cube strictly inside another is half of a cube inside it.** -/
theorem exists_halves_of_within {inner outer : Pattern} (within : Within inner outer)
    (different : inner ≠ outer) :
    ∃ other whole, (Halves inner other whole ∨ Halves other inner whole) ∧ Within whole outer := by
  induction within with
  | nil => exact absurd rfl different
  | @cons trit weaker rest others head tail ih =>
    by_cases tails : rest = others
    · subst tails
      have free : weaker = .dash := head.resolve_right fun same => different (by rw [same])
      subst free
      cases trit with
      | dash => exact absurd rfl different
      | zero => exact ⟨_, _, .inl (.here rest), .refl _⟩
      | one => exact ⟨_, _, .inr (.here rest), .refl _⟩
    · obtain ⟨other, whole, halves, inside⟩ := ih tails
      exact ⟨trit :: other, trit :: whole, halves.imp (.there trit) (.there trit), .cons head inside⟩

/-! ### The rows of a cube -/

/-- The rows of a table, with as many columns as the pattern has positions, that it fits. -/
def rows (pattern : Pattern) : Finset Nat :=
  (Finset.range (2 ^ pattern.length)).filter fun row => pattern.fits row = true

theorem mem_rows {pattern : Pattern} {row : Nat} :
    row ∈ pattern.rows ↔ row < 2 ^ pattern.length ∧ pattern.fits row = true := by
  rw [rows, Finset.mem_filter, Finset.mem_range]

theorem mod_mem_rows {pattern : Pattern} {index : Nat} :
    index % 2 ^ pattern.length ∈ pattern.rows ↔ pattern.fits index = true := by
  rw [mem_rows, fits_mod]
  exact and_iff_right (Nat.mod_lt _ (Nat.two_pow_pos _))

theorem rows_subset_iff {inner outer : Pattern} (width : inner.length = outer.length) :
    inner.rows ⊆ outer.rows ↔ Within inner outer := by
  rw [within_iff_fits width]
  constructor
  · intro inside row fitting
    exact mod_mem_rows.mp (width ▸ inside (mod_mem_rows.mpr fitting))
  · intro inside row member
    rw [mem_rows] at member ⊢
    exact ⟨width ▸ member.1, inside row member.2⟩

end Pattern

/-- The rows of a table of the width that have the low bits of the indices of a list. -/
def residues (width : Nat) (indices : List Nat) : Finset Nat :=
  (indices.map (· % 2 ^ width)).toFinset

theorem mem_residues {width row : Nat} {indices : List Nat} :
    row ∈ residues width indices ↔ ∃ index ∈ indices, index % 2 ^ width = row := by
  rw [residues, List.mem_toFinset, List.mem_map]

/-- The rows of a table that the indices of a list are read as. -/
def readRows (width : Nat) (indices : List Nat) : Finset Nat :=
  (indices.map (readRow width)).toFinset

theorem mem_readRows {width row : Nat} {indices : List Nat} :
    row ∈ readRows width indices ↔ ∃ index ∈ indices, readRow width index = row := by
  rw [readRows, List.mem_toFinset, List.mem_map]

/-- As long as a row fits into a word, indices are read as the rows of their low bits. -/
theorem readRows_eq_residues {width : Nat} (inWord : width ≤ Word.size) (indices : List Nat) :
    readRows width indices = residues width indices := by
  rw [readRows, readRow_eq_mod inWord, residues]

/-- Indices that are read as themselves stand for themselves. -/
theorem InTable.readRows_eq {width : Nat} {indices : List Nat} (inTable : InTable width indices) :
    readRows width indices = indices.toFinset := by
  rw [readRows, List.map_congr_left inTable, List.map_id']

/-! ### Tables that are wider than a word -/

/-- As many different names as given. -/
def numberedNames (count : Nat) : List String :=
  (List.range count).map fun number => "x" ++ toString number

@[simp] theorem length_numberedNames (count : Nat) : (numberedNames count).length = count := by
  rw [numberedNames, List.length_map, List.length_range]

/-- The lowest bit of an index is read for the first of 65 columns as well as for the last one. -/
theorem readRow_beyond_word : readRow 65 1 = 2 ^ 64 + 1 := by decide

theorem not_mem_rows_beyond_word : 1 ∉ (Pattern.ofIndex 65 1).rows := by
  intro inRows
  have same := Pattern.fits_ofIndex_iff.mp (Pattern.mem_rows.mp inRows).2
  rw [readRow_beyond_word] at same
  revert same
  decide

/-- Implicants are merged where their patterns are, and their indices are put together. -/
theorem Implicant.merge_eq_some_iff {left right merged : Implicant} :
    left.merge? right = some merged ↔ left.pattern.merge? right.pattern = some merged.pattern ∧
      merged.minterms = left.minterms.union right.minterms := by
  rw [merge?, Option.map_eq_some_iff]
  constructor
  · rintro ⟨pattern, joined, rfl⟩
    exact ⟨joined, rfl⟩
  · rintro ⟨joined, indices⟩
    exact ⟨_, joined, by rw [← indices]⟩

end TwoLevel
