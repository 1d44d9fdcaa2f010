/-
**The comparisons are total orders.**

Patterns, sets of numbers, implicants and the ranks of covers are compared by keys, one after the
other. Each of these comparisons is transitive and tells different values apart, so that a sorted
list of them is determined by its members. Covers are compared by their ranks and then by their
positions.

* `compare_lists_eq_lt_iff`, `Pattern.compare_eq_lt_iff` — lists are ordered by the first difference,
  and so patterns are, with a free position before zero and zero before one;
* `CoverRank.compare_eq_lt_iff` — a rank is the number of implicants, then of literals, then the
  sorted patterns;
* `coverOrder`, `coverOrder_eq_lt_iff` — the order in which the best cover is the least.
-/

import TwoLevel.Covering
import TwoLevel.Proofs.Sorting

namespace TwoLevel

instance : Std.TransOrd Trit := inferInstanceAs (Std.TransCmp (compareOn Trit.rank))

instance : Std.LawfulEqOrd Trit where
  compare_self := (inferInstance : Std.ReflCmp (compareOn Trit.rank)).compare_self
  eq_of_compare {left right} equal := by
    have ranks : left.rank = right.rank := Nat.compare_eq_eq.mp equal
    cases left <;> cases right <;> first | rfl | cases ranks

instance : Std.TransOrd IndexSet := inferInstanceAs (Std.TransCmp (compareOn IndexSet.toList))

instance : Std.LawfulEqOrd IndexSet where
  compare_self := (inferInstance : Std.ReflCmp (compareOn IndexSet.toList)).compare_self
  eq_of_compare equal := IndexSet.toList_injective (Std.LawfulEqOrd.eq_of_compare equal)

instance : Std.TransOrd Implicant :=
  inferInstanceAs (Std.TransCmp
    (compareLex (compareOn Implicant.pattern) (compareOn Implicant.minterms)))

instance : Std.LawfulEqOrd Implicant where
  compare_self := (inferInstance : Std.ReflCmp
    (compareLex (compareOn Implicant.pattern) (compareOn Implicant.minterms))).compare_self
  eq_of_compare {left right} equal := by
    obtain ⟨patterns, minterms⟩ := Ordering.then_eq_eq.mp equal
    cases left
    cases right
    congr 1
    · exact Std.LawfulEqOrd.eq_of_compare patterns
    · exact Std.LawfulEqOrd.eq_of_compare minterms

instance : Std.TransOrd CoverRank :=
  inferInstanceAs (Std.TransCmp
    (compareLex (compareOn CoverRank.size)
      (compareLex (compareOn CoverRank.literals) (compareOn CoverRank.patterns))))

/-! ### The orders in plain terms -/

/-- A free position comes before zero, and zero before one. -/
theorem Trit.compare_eq_lt_iff {left right : Trit} :
    compare left right = .lt ↔ left = .dash ∧ right ≠ .dash ∨ left = .zero ∧ right = .one := by
  cases left <;> cases right <;> decide

/-- A list comes before its continuations, and before the lists that have a greater value where they
first differ from it. -/
theorem compare_lists_eq_lt_iff {α : Type} [Ord α] [Std.LawfulEqOrd α] {first second : List α} :
    compare first second = .lt ↔ (∃ value rest, second = first ++ value :: rest) ∨
      ∃ common smaller greater rest others, first = common ++ smaller :: rest ∧
        second = common ++ greater :: others ∧ compare smaller greater = .lt := by
  constructor
  · intro less
    induction first generalizing second with
    | nil =>
      cases second with
      | nil => cases less
      | cons value rest => exact .inl ⟨value, rest, rfl⟩
    | cons left lefts ih =>
      cases second with
      | nil => cases less
      | cons right rights =>
        rw [List.compare_cons_cons, Ordering.then_eq_lt] at less
        rcases less with heads | ⟨same, tails⟩
        · exact .inr ⟨[], left, right, lefts, rights, rfl, rfl, heads⟩
        · rw [Std.LawfulEqOrd.eq_of_compare same]
          refine (ih tails).imp ?_ ?_
          · rintro ⟨value, rest, rfl⟩
            exact ⟨value, rest, rfl⟩
          · rintro ⟨common, smaller, greater, rest, others, rfl, rfl, heads⟩
            exact ⟨right :: common, smaller, greater, rest, others, rfl, rfl, heads⟩
  · rintro (⟨value, rest, rfl⟩ | ⟨common, smaller, greater, rest, others, rfl, rfl, heads⟩)
    · induction first with
      | nil => rfl
      | cons left lefts ih =>
        rw [List.cons_append, List.compare_cons_cons, Std.ReflOrd.compare_self, ih]
        rfl
    · induction common with
      | nil => rw [List.nil_append, List.nil_append, List.compare_cons_cons, heads]; rfl
      | cons left lefts ih =>
        rw [List.cons_append, List.cons_append, List.compare_cons_cons, Std.ReflOrd.compare_self, ih]
        rfl

/-- **Patterns are ordered by the first position where they differ**: free before zero before one. -/
theorem Pattern.compare_eq_lt_iff {first second : Pattern} :
    compare first second = .lt ↔ (∃ trit rest, second = first ++ trit :: rest) ∨
      ∃ common smaller greater rest others, first = common ++ smaller :: rest ∧
        second = common ++ greater :: others ∧
        (smaller = .dash ∧ greater ≠ .dash ∨ smaller = .zero ∧ greater = .one) := by
  simp only [compare_lists_eq_lt_iff, Trit.compare_eq_lt_iff]

/-- Fewer implicants come first, of equally many those with fewer literals, and then those with
lesser patterns. -/
theorem CoverRank.compare_eq_lt_iff {left right : CoverRank} :
    compare left right = .lt ↔ left.size < right.size ∨ left.size = right.size ∧
      (left.literals < right.literals ∨ left.literals = right.literals ∧
        compare left.patterns right.patterns = .lt) := by
  rw [← Nat.compare_eq_lt, ← Nat.compare_eq_eq, ← Nat.compare_eq_lt, ← Nat.compare_eq_eq]
  exact Ordering.then_eq_lt.trans (or_congr_right (and_congr_right fun _ => Ordering.then_eq_lt))

/-! ### Covers -/

/-- The order in which the best cover is the least: by rank, and with equal ranks by positions. -/
def coverOrder (implicants : List Implicant) (first second : IndexSet) : Ordering :=
  (compare (coverRank implicants first) (coverRank implicants second)).then (compare first second)

section Covers

variable {implicants : List Implicant} {first second : IndexSet}

instance : Std.TransCmp (coverOrder implicants) :=
  inferInstanceAs (Std.TransCmp (compareLex (compareOn (coverRank implicants)) compare))

instance : Std.LawfulEqCmp (coverOrder implicants) where
  compare_self := (inferInstance : Std.ReflCmp (coverOrder implicants)).compare_self
  eq_of_compare equal := Std.LawfulEqOrd.eq_of_compare (Ordering.then_eq_eq.mp equal).2

theorem coverOrder_eq_lt_iff :
    coverOrder implicants first second = .lt ↔
      compare (coverRank implicants first) (coverRank implicants second) = .lt ∨
      compare (coverRank implicants first) (coverRank implicants second) = .eq ∧
        compare first second = .lt :=
  Ordering.then_eq_lt

/-- A cover that is at most another one has at most its rank. -/
theorem rank_isLE_of_coverOrder (below : (coverOrder implicants first second).isLE) :
    (compare (coverRank implicants first) (coverRank implicants second)).isLE :=
  (Ordering.isLE_then_iff_and.mp below).1

end Covers

end TwoLevel
