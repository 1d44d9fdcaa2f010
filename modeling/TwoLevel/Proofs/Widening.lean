/-
**Columns that do not matter.**

A table may have columns that the function does not depend on. A pattern over the other columns is
widened by a free position for each of them, which changes neither its literals nor its place in the
order, and the prime cubes of the wide table are the widened prime cubes of the narrow one.

* `Pattern.widen`, `Pattern.Narrows` — free positions put in, and positions left out;
* `Agrees` — wide rows and narrow rows that are those of the same valuations;
* `Agrees.primeCube_wide_iff` — **the prime cubes of the wide table are the widened ones of the narrow
  table**;
* `widenRow`, `narrowRow` — the least wide row for a narrow row, and the narrow row of a wide one.
-/

import TwoLevel.Proofs.Comparisons
import TwoLevel.Proofs.Passes
import TwoLevel.Proofs.Terms

namespace TwoLevel

variable {keep : String → Bool} {names : List String}

namespace Pattern

/-! ### Free positions put in -/

/-- Put a free position in for each name that is not kept. -/
def widen (keep : String → Bool) : List String → Pattern → Pattern
  | [], _ => []
  | name :: names, pattern =>
    if keep name then pattern.headD .dash :: widen keep names pattern.tail
    else .dash :: widen keep names pattern

/-- The pattern has a position for each name that is kept. -/
inductive Aligned (keep : String → Bool) : List String → Pattern → Prop where
  | nil : Aligned keep [] []
  | kept {name : String} {names : List String} {pattern : Pattern} (trit : Trit)
    (keeps : keep name = true) (rest : Aligned keep names pattern) :
    Aligned keep (name :: names) (trit :: pattern)
  | dropped {name : String} {names : List String} {pattern : Pattern}
    (drops : keep name = false) (rest : Aligned keep names pattern) :
    Aligned keep (name :: names) pattern

variable {pattern other : Pattern}

theorem aligned_iff : Aligned keep names pattern ↔ pattern.length = (names.filter keep).length := by
  constructor
  · intro aligned
    induction aligned with
    | nil => rfl
    | kept trit keeps _ ih =>
      rw [List.filter_cons_of_pos keeps, List.length_cons, List.length_cons, ih]
    | dropped drops _ ih => rwa [List.filter_cons_of_neg (by rw [drops]; decide)]
  · intro width
    induction names generalizing pattern with
    | nil =>
      rw [List.eq_nil_of_length_eq_zero width]
      exact .nil
    | cons name names ih =>
      cases keeps : keep name with
      | false =>
        rw [List.filter_cons_of_neg (by rw [keeps]; decide)] at width
        exact .dropped keeps (ih width)
      | true =>
        rw [List.filter_cons_of_pos keeps] at width
        obtain ⟨trit, rest, rfl⟩ := List.exists_cons_of_length_eq_add_one width
        exact .kept trit keeps (ih (Nat.succ.inj width))

theorem widen_kept {name : String} (keeps : keep name = true) (trit : Trit) (pattern : Pattern) :
    widen keep (name :: names) (trit :: pattern) = trit :: widen keep names pattern := by
  rw [widen, if_pos keeps]
  rfl

theorem widen_dropped {name : String} (drops : keep name = false) (pattern : Pattern) :
    widen keep (name :: names) pattern = .dash :: widen keep names pattern := by
  rw [widen, if_neg (by rw [drops]; decide)]

theorem length_widen (keep : String → Bool) (names : List String) (pattern : Pattern) :
    (widen keep names pattern).length = names.length := by
  induction names generalizing pattern with
  | nil => rfl
  | cons name names ih =>
    rw [widen]
    split <;> rw [List.length_cons, ih, List.length_cons]

/-- The wide pattern fits the wide row of a valuation exactly when the pattern fits the narrow
one. -/
theorem fits_widen (aligned : Aligned keep names pattern) (valuation : String → Bool) :
    (widen keep names pattern).fits (rowOf names valuation) =
      pattern.fits (rowOf (names.filter keep) valuation) := by
  induction aligned with
  | nil => rfl
  | @kept name names pattern trit keeps rest ih =>
    have width := aligned_iff.mp rest
    have wide := length_widen keep names pattern
    rw [widen_kept keeps, List.filter_cons_of_pos keeps, rowOf, rowOf, ← wide, ← width,
      fits_frontBit trit _ (wide ▸ rowOf_lt names valuation),
      fits_frontBit trit _ (width ▸ rowOf_lt _ valuation), ih]
  | @dropped name names pattern drops rest ih =>
    have wide := length_widen keep names pattern
    rw [widen_dropped drops, List.filter_cons_of_neg (by rw [drops]; decide), rowOf, ← wide,
      fits_frontBit .dash _ (wide ▸ rowOf_lt names valuation), ih]
    rfl

/-- A free position has no literal. -/
theorem literals_widen (aligned : Aligned keep names pattern) (complement : Bool) :
    (widen keep names pattern).literals complement names =
      pattern.literals complement (names.filter keep) := by
  induction aligned with
  | nil => rfl
  | kept trit keeps _ ih =>
    rw [widen_kept keeps, List.filter_cons_of_pos keeps, literals, literals, ih]
  | dropped drops _ ih =>
    rw [widen_dropped drops, List.filter_cons_of_neg (by rw [drops]; decide), literals]
    exact ih

theorem literalCount_widen (aligned : Aligned keep names pattern) :
    (widen keep names pattern).literalCount = pattern.literalCount := by
  induction aligned with
  | nil => rfl
  | kept trit keeps _ ih => rw [widen_kept keeps, literalCount_cons, literalCount_cons, ih]
  | dropped drops _ ih =>
    rw [widen_dropped drops, literalCount_cons, ih]
    rfl

/-- Free positions in the same places do not change the order. -/
theorem compare_widen (aligned : Aligned keep names pattern) (width : other.length = pattern.length) :
    compare (widen keep names pattern) (widen keep names other) = compare pattern other := by
  induction aligned generalizing other with
  | nil =>
    rw [List.eq_nil_of_length_eq_zero width]
    rfl
  | kept trit keeps _ ih =>
    obtain ⟨head, rest, rfl⟩ := List.exists_cons_of_length_eq_add_one width
    rw [widen_kept keeps, widen_kept keeps, List.compare_cons_cons, List.compare_cons_cons,
      ih (Nat.succ.inj width)]
  | dropped drops _ ih =>
    rw [widen_dropped drops, widen_dropped drops, List.compare_cons_cons, ih width]
    rfl

theorem within_widen (aligned : Aligned keep names pattern) (within : Within pattern other) :
    Within (widen keep names pattern) (widen keep names other) := by
  induction aligned generalizing other with
  | nil => exact .nil
  | kept trit keeps _ ih =>
    cases within with
    | cons head rest =>
      rw [widen_kept keeps, widen_kept keeps]
      exact .cons head (ih rest)
  | dropped drops _ ih =>
    rw [widen_dropped drops, widen_dropped drops]
    exact .cons (.inl rfl) (ih within)

/-! ### Positions left out -/

/-- The second pattern is the first without the positions of the names that are not kept. -/
inductive Narrows (keep : String → Bool) : List String → Pattern → Pattern → Prop where
  | nil : Narrows keep [] [] []
  | kept {name : String} {names : List String} {wide narrow : Pattern} (trit : Trit)
    (keeps : keep name = true) (rest : Narrows keep names wide narrow) :
    Narrows keep (name :: names) (trit :: wide) (trit :: narrow)
  | dropped {name : String} {names : List String} {wide narrow : Pattern} (trit : Trit)
    (drops : keep name = false) (rest : Narrows keep names wide narrow) :
    Narrows keep (name :: names) (trit :: wide) narrow

theorem narrows_widen (aligned : Aligned keep names pattern) :
    Narrows keep names (widen keep names pattern) pattern := by
  induction aligned with
  | nil => exact .nil
  | kept trit keeps _ ih => exact widen_kept keeps trit _ ▸ .kept trit keeps ih
  | dropped drops _ ih => exact widen_dropped drops _ ▸ .dropped .dash drops ih

theorem exists_narrows (keep : String → Bool) {wide : Pattern} (width : wide.length = names.length) :
    ∃ narrow, Narrows keep names wide narrow := by
  induction names generalizing wide with
  | nil =>
    obtain rfl := List.eq_nil_of_length_eq_zero width
    exact ⟨[], .nil⟩
  | cons name names ih =>
    obtain ⟨trit, rest, rfl⟩ := List.exists_cons_of_length_eq_add_one width
    obtain ⟨narrow, narrows⟩ := ih (Nat.succ.inj width)
    cases keeps : keep name with
    | true => exact ⟨_, .kept trit keeps narrows⟩
    | false => exact ⟨_, .dropped trit keeps narrows⟩

namespace Narrows

variable {wide narrow otherWide otherNarrow : Pattern}

theorem aligned (narrows : Narrows keep names wide narrow) : Aligned keep names narrow := by
  induction narrows with
  | nil => exact .nil
  | kept trit keeps _ ih => exact .kept trit keeps ih
  | dropped _ drops _ ih => exact .dropped drops ih

theorem length_eq (narrows : Narrows keep names wide narrow) : wide.length = names.length := by
  induction narrows with
  | nil => rfl
  | kept _ _ _ ih | dropped _ _ _ ih => exact congrArg Nat.succ ih

/-- What is left out and put in again as free positions makes a larger cube. -/
theorem within_widen (narrows : Narrows keep names wide narrow) :
    Within wide (widen keep names narrow) := by
  induction narrows with
  | nil => exact .nil
  | kept trit keeps _ ih =>
    rw [widen_kept keeps]
    exact .cons (.inr rfl) ih
  | dropped trit drops _ ih =>
    rw [widen_dropped drops]
    exact .cons (.inl rfl) ih

theorem mono (narrows : Narrows keep names wide narrow)
    (otherNarrows : Narrows keep names otherWide otherNarrow) (within : Within wide otherWide) :
    Within narrow otherNarrow := by
  induction narrows generalizing otherWide otherNarrow with
  | nil =>
    cases otherNarrows
    exact .nil
  | kept trit keeps _ ih =>
    cases within with
    | cons head rest =>
      cases otherNarrows with
      | kept _ _ others => exact .cons head (ih others rest)
      | dropped _ drops _ =>
        rw [keeps] at drops
        cases drops
  | dropped trit drops _ ih =>
    cases within with
    | cons _ rest =>
      cases otherNarrows with
      | kept _ keeps _ =>
        rw [drops] at keeps
        cases keeps
      | dropped _ _ others => exact ih others rest

/-- Where the narrow pattern fits, the values of the other names can be chosen so that the wide one
does. -/
theorem exists_fits (narrows : Narrows keep names wide narrow) (different : names.Nodup)
    {valuation : String → Bool}
    (fitting : narrow.fits (rowOf (names.filter keep) valuation) = true) :
    ∃ chosen : String → Bool, (∀ name, keep name = true → chosen name = valuation name) ∧
      wide.fits (rowOf names chosen) = true := by
  induction narrows with
  | nil => exact ⟨valuation, fun _ _ => rfl, rfl⟩
  | @kept name names wide narrow trit keeps rest ih =>
    have width := aligned_iff.mp rest.aligned
    rw [List.filter_cons_of_pos keeps, rowOf, ← width,
      fits_frontBit trit _ (width ▸ rowOf_lt _ valuation), Bool.and_eq_true] at fitting
    obtain ⟨chosen, same, wideFitting⟩ := ih (List.nodup_cons.mp different).2 fitting.2
    refine ⟨chosen, same, ?_⟩
    rw [rowOf, ← rest.length_eq, fits_frontBit trit _ (rest.length_eq ▸ rowOf_lt names chosen),
      same name keeps, fitting.1, wideFitting]
    rfl
  | @dropped name names wide narrow trit drops rest ih =>
    obtain ⟨fresh, restDifferent⟩ := List.nodup_cons.mp different
    rw [List.filter_cons_of_neg (by rw [drops]; decide)] at fitting
    obtain ⟨chosen, same, wideFitting⟩ := ih restDifferent fitting
    obtain ⟨bit, admitted⟩ := trit.exists_admits
    refine ⟨fun other => if other = name then bit else chosen other, fun other keeps => ?_, ?_⟩
    · have notName : other ≠ name := fun isName => by
        rw [isName, drops] at keeps
        cases keeps
      exact (if_neg notName).trans (same other keeps)
    · have unchanged : rowOf names (fun other => if other = name then bit else chosen other) =
          rowOf names chosen :=
        rowOf_congr fun other member => if_neg fun isName : other = name => fresh (isName ▸ member)
      rw [rowOf, unchanged, ← rest.length_eq,
        fits_frontBit trit _ (rest.length_eq ▸ rowOf_lt names chosen), if_pos rfl, admitted,
        wideFitting]
      rfl

end Narrows

end Pattern

/-! ### Prime cubes -/

/-- Over different names, and as long as a row fits into a word, a cube is admissible when all rows
of valuations that it fits are among the rows. -/
theorem admissible_iff {rows : List Nat} {pattern : Pattern} (inWord : names.length ≤ Word.size)
    (different : names.Nodup) (inTable : InTable names.length rows) :
    Admissible names.length rows pattern ↔ pattern.length = names.length ∧
      ∀ valuation, pattern.fits (rowOf names valuation) = true → rowOf names valuation ∈ rows := by
  have members : ∀ row, row ∈ readRows names.length rows ↔ row ∈ rows := by
    intro row
    rw [inTable.readRows_eq, List.mem_toFinset]
  constructor
  · intro ⟨width, inside⟩
    refine ⟨width, fun valuation fitting => (members _).mp (inside (Pattern.mem_rows.mpr ?_))⟩
    exact ⟨width ▸ rowOf_lt names valuation, fitting⟩
  · intro ⟨width, inside⟩
    refine ⟨width, fun row inRows => (members row).mpr ?_⟩
    obtain ⟨below, fitting⟩ := Pattern.mem_rows.mp inRows
    rw [width] at below
    have same := rowOf_rowValuation_of_lt inWord different below
    rw [← same] at fitting ⊢
    exact inside _ fitting

/-- The rows of the wide table and those of the narrow one, which has only the names that are kept,
are the rows of the same valuations. -/
structure Agrees (keep : String → Bool) (names : List String) (wide narrow : List Nat) : Prop where
  different : names.Nodup
  inWord : names.length ≤ Word.size
  wideTable : InTable names.length wide
  narrowTable : InTable (names.filter keep).length narrow
  mem_iff : ∀ valuation, rowOf names valuation ∈ wide ↔
    rowOf (names.filter keep) valuation ∈ narrow

theorem length_filter_le_size (inWord : names.length ≤ Word.size) :
    (names.filter keep).length ≤ Word.size :=
  Nat.le_trans (List.length_filter_le _ _) inWord

namespace Agrees

open Pattern

variable {wide narrow : List Nat} {pattern : Pattern}

theorem admissible_wide_iff (agrees : Agrees keep names wide narrow) :
    Admissible names.length wide pattern ↔ pattern.length = names.length ∧
      ∀ valuation, pattern.fits (rowOf names valuation) = true → rowOf names valuation ∈ wide :=
  admissible_iff agrees.inWord agrees.different agrees.wideTable

theorem admissible_narrow_iff (agrees : Agrees keep names wide narrow) :
    Admissible (names.filter keep).length narrow pattern ↔
      pattern.length = (names.filter keep).length ∧
      ∀ valuation, pattern.fits (rowOf (names.filter keep) valuation) = true →
        rowOf (names.filter keep) valuation ∈ narrow :=
  admissible_iff (length_filter_le_size agrees.inWord) (agrees.different.filter _)
    agrees.narrowTable

/-- A widened cube is admissible when the cube is. -/
theorem admissible_widen (agrees : Agrees keep names wide narrow)
    (admissible : Admissible (names.filter keep).length narrow pattern) :
    Admissible names.length wide (widen keep names pattern) := by
  obtain ⟨width, inside⟩ := agrees.admissible_narrow_iff.mp admissible
  refine agrees.admissible_wide_iff.mpr ⟨length_widen keep names pattern, fun valuation fitting => ?_⟩
  rw [fits_widen (aligned_iff.mpr width)] at fitting
  exact (agrees.mem_iff valuation).mpr (inside valuation fitting)

/-- A narrowed cube is admissible when the cube is: the function does not depend on the names left
out. -/
theorem admissible_narrows (agrees : Agrees keep names wide narrow) {larger : Pattern}
    (narrows : Narrows keep names larger pattern)
    (admissible : Admissible names.length wide larger) :
    Admissible (names.filter keep).length narrow pattern := by
  obtain ⟨_, inside⟩ := agrees.admissible_wide_iff.mp admissible
  refine agrees.admissible_narrow_iff.mpr ⟨aligned_iff.mp narrows.aligned, fun valuation fitting => ?_⟩
  obtain ⟨chosen, same, wideFitting⟩ := narrows.exists_fits agrees.different fitting
  have kept : rowOf (names.filter keep) valuation = rowOf (names.filter keep) chosen :=
    rowOf_congr fun name member => (same name (List.mem_filter.mp member).2).symm
  rw [kept]
  exact (agrees.mem_iff chosen).mp (inside chosen wideFitting)

/-- **The prime cubes of the wide table are the widened prime cubes of the narrow one.** -/
theorem primeCube_wide_iff (agrees : Agrees keep names wide narrow) {larger : Pattern} :
    PrimeCube names.length (readRows names.length wide) larger ↔
      ∃ pattern, PrimeCube (names.filter keep).length
        (readRows (names.filter keep).length narrow) pattern ∧
          widen keep names pattern = larger := by
  simp only [primeCube_iff_eq_of_within]
  constructor
  · intro ⟨admissible, least⟩
    obtain ⟨pattern, narrows⟩ := exists_narrows keep admissible.length_eq
    have narrowAdmissible := agrees.admissible_narrows narrows admissible
    have same := least _ (agrees.admissible_widen narrowAdmissible) narrows.within_widen
    refine ⟨pattern, ⟨narrowAdmissible, fun other otherAdmissible within => ?_⟩, same.symm⟩
    have wideWithin : Within larger (widen keep names other) :=
      same ▸ within_widen narrows.aligned within
    have wideSame := least _ (agrees.admissible_widen otherAdmissible) wideWithin
    have back := narrows_widen (aligned_iff.mpr otherAdmissible.length_eq)
    exact within.antisymm (back.mono narrows (wideSame ▸ Within.refl _))
  · rintro ⟨pattern, ⟨admissible, least⟩, rfl⟩
    have aligned := aligned_iff.mpr admissible.length_eq
    refine ⟨agrees.admissible_widen admissible, fun other otherAdmissible within => ?_⟩
    obtain ⟨narrowOther, narrows⟩ := exists_narrows keep otherAdmissible.length_eq
    have same := least narrowOther (agrees.admissible_narrows narrows otherAdmissible)
      ((narrows_widen aligned).mono narrows within)
    refine within.antisymm ?_
    rw [same]
    exact narrows.within_widen

end Agrees

/-! ### Wide rows and narrow rows -/

/-- The narrow row with the same values. -/
def narrowRow (keep : String → Bool) (names : List String) (row : Nat) : Nat :=
  rowOf (names.filter keep) (rowValuation names row)

/-- The wide row with the same values, where the names left out are false. -/
def widenRow (keep : String → Bool) (names : List String) (row : Nat) : Nat :=
  rowOf names fun name => keep name && rowValuation (names.filter keep) row name

theorem rowOf_le {first second : String → Bool}
    (below : ∀ name ∈ names, first name = true → second name = true) :
    rowOf names first ≤ rowOf names second := by
  induction names with
  | nil => exact Nat.le_refl _
  | cons name names ih =>
    have rest := ih fun other member => below other (List.mem_cons_of_mem _ member)
    have head := below name List.mem_cons_self
    rw [← Nat.not_lt, rowOf, rowOf, frontBit_lt_frontBit_iff (rowOf_lt _ _) (rowOf_lt _ _)]
    rintro (⟨lower, upper⟩ | ⟨_, less⟩)
    · rw [head upper] at lower
      cases lower
    · exact absurd less (Nat.not_lt.mpr rest)

/-- False values for the names left out keep the order of rows. -/
theorem rowOf_keep_lt {first second : String → Bool}
    (below : rowOf (names.filter keep) first < rowOf (names.filter keep) second) :
    rowOf names (fun name => keep name && first name) <
      rowOf names (fun name => keep name && second name) := by
  induction names with
  | nil => cases below
  | cons name names ih =>
    rw [rowOf, rowOf, frontBit_lt_frontBit_iff (rowOf_lt _ _) (rowOf_lt _ _)]
    cases keeps : keep name with
    | false =>
      rw [List.filter_cons_of_neg (by rw [keeps]; decide)] at below
      exact .inr ⟨rfl, ih below⟩
    | true =>
      rw [List.filter_cons_of_pos keeps, rowOf, rowOf,
        frontBit_lt_frontBit_iff (rowOf_lt _ _) (rowOf_lt _ _)] at below
      rcases below with earlier | ⟨same, later⟩
      · exact .inl earlier
      · exact .inr ⟨same, ih later⟩

/-- The kept names have the same values in the wide row. -/
theorem rowOf_filter_keep (valuation : String → Bool) :
    rowOf (names.filter keep) (fun name => keep name && valuation name) =
      rowOf (names.filter keep) valuation := by
  refine rowOf_congr fun name member => ?_
  rw [(List.mem_filter.mp member).2, Bool.true_and]

section InWord

variable (inWord : names.length ≤ Word.size)
include inWord

theorem narrowRow_rowOf (valuation : String → Bool) :
    narrowRow keep names (rowOf names valuation) = rowOf (names.filter keep) valuation :=
  rowOf_congr fun _ member => rowValuation_rowOf inWord valuation (List.mem_of_mem_filter member)

theorem narrowRow_widenRow (different : names.Nodup) {row : Nat}
    (below : row < 2 ^ (names.filter keep).length) :
    narrowRow keep names (widenRow keep names row) = row := by
  rw [widenRow, narrowRow_rowOf inWord, rowOf_filter_keep,
    rowOf_rowValuation_of_lt (length_filter_le_size inWord) (different.filter _) below]

/-- The wide row of a narrow row is the least with its values. -/
theorem widenRow_narrowRow_le (different : names.Nodup) {row : Nat}
    (below : row < 2 ^ names.length) : widenRow keep names (narrowRow keep names row) ≤ row := by
  calc widenRow keep names (narrowRow keep names row)
      ≤ rowOf names (rowValuation names row) := by
        refine rowOf_le fun name member both => ?_
        obtain ⟨keeps, value⟩ := Bool.and_eq_true_iff.mp both
        have listed : name ∈ names.filter keep := List.mem_filter.mpr ⟨member, keeps⟩
        rwa [narrowRow, rowValuation_rowOf (length_filter_le_size inWord) _ listed] at value
    _ = row := rowOf_rowValuation_of_lt inWord different below

theorem widenRow_lt (different : names.Nodup) {first second : Nat} (less : first < second)
    (below : second < 2 ^ (names.filter keep).length) :
    widenRow keep names first < widenRow keep names second := by
  have narrowWord := @length_filter_le_size keep names inWord
  refine rowOf_keep_lt ?_
  rwa [rowOf_rowValuation_of_lt narrowWord (different.filter _) (Nat.lt_trans less below),
    rowOf_rowValuation_of_lt narrowWord (different.filter _) below]

end InWord

namespace Agrees

variable {wide narrow : List Nat} {row : Nat}

theorem narrowRow_mem (agrees : Agrees keep names wide narrow) (member : row ∈ wide) :
    narrowRow keep names row ∈ narrow := by
  refine (agrees.mem_iff _).mp ?_
  rwa [rowOf_rowValuation agrees.different, agrees.wideTable row member]

theorem widenRow_mem (agrees : Agrees keep names wide narrow) (member : row ∈ narrow) :
    widenRow keep names row ∈ wide := by
  refine (agrees.mem_iff _).mpr ?_
  rwa [rowOf_filter_keep, rowOf_rowValuation (agrees.different.filter _),
    agrees.narrowTable row member]

end Agrees

end TwoLevel
