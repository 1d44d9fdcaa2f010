/-
**Ordered lists under a lawful comparison.**

What `sortBy`, `distinctBy` and `leastBy?` compute when the comparison is transitive and tells
different values apart: the strictly ascending list of the values, and the least of them.

* `eq_of_ascending` — a strictly ascending list is determined by its members;
* `ascending_sortBy`, `distinctBy_spec` — sorting distinct values and collecting distinct values
  both give a strictly ascending list;
* `sortBy_map`, `distinctBy_map` — both commute with a map that respects the two comparisons;
* `leastBy_spec`, `exists_append_of_leastBy` — the least value is the first of the values that are
  at most each of them.
-/

import Mathlib.Data.List.Induction
import Mathlib.Data.List.Sort
import TwoLevel.Sorted

namespace TwoLevel

variable {α β : Type}

/-- A list is strictly ascending under a comparison. -/
abbrev Ascending (order : α → α → Ordering) (values : List α) : Prop :=
  values.Pairwise fun left right => order left right = .lt

theorem mem_sortBy {order : α → α → Ordering} {value : α} {values : List α} :
    value ∈ sortBy order values ↔ value ∈ values :=
  (perm_sortBy order values).mem_iff

section Lawful

variable {order : α → α → Ordering} [Std.TransCmp order]

/-! ### Strictly ascending lists -/

/-- **A strictly ascending list is determined by its members.** -/
theorem eq_of_ascending {left right : List α} (leftAscending : Ascending order left)
    (rightAscending : Ascending order right) (same : ∀ value, value ∈ left ↔ value ∈ right) :
    left = right := by
  have : Std.Antisymm fun first second : α => order first second = .lt :=
    ⟨fun _ _ below above => absurd above (Std.OrientedCmp.not_lt_of_lt below)⟩
  have : Std.Irrefl fun first second : α => order first second = .lt :=
    ⟨fun _ below => absurd below (Std.OrientedCmp.not_lt_of_lt below)⟩
  exact leftAscending.eq_of_mem_iff rightAscending same

theorem nodup_of_ascending {values : List α} (ascending : Ascending order values) :
    values.Nodup := by
  refine ascending.imp fun below same => ?_
  subst same
  exact absurd below (Std.OrientedCmp.not_lt_of_lt below)

/-! ### Sorting -/

theorem pairwise_insertBy {value : α} {values : List α}
    (sorted : values.Pairwise fun left right => (order left right).isLE) :
    (insertBy order value values).Pairwise fun left right => (order left right).isLE := by
  induction values with
  | nil => exact List.pairwise_singleton _ _
  | cons first rest ih =>
    have parts := List.pairwise_cons.mp sorted
    have before (below : (order value first).isLE) :
        (value :: first :: rest).Pairwise fun left right => (order left right).isLE := by
      refine List.pairwise_cons.mpr ⟨fun other member => ?_, sorted⟩
      rcases List.mem_cons.mp member with rfl | later
      · exact below
      · exact Std.TransCmp.isLE_trans below (parts.1 other later)
    rw [insertBy]
    split
    · next below => exact before (by rw [below]; rfl)
    · next same => exact before (by rw [same]; rfl)
    · next above =>
      refine List.pairwise_cons.mpr ⟨fun other member => ?_, ih parts.2⟩
      rcases List.mem_cons.mp ((perm_insertBy order value rest).mem_iff.mp member) with rfl | later
      · rw [Std.OrientedCmp.lt_of_gt above]
        rfl
      · exact parts.1 other later

/-- Sorting gives an ascending list. -/
theorem pairwise_sortBy (values : List α) :
    (sortBy order values).Pairwise fun left right => (order left right).isLE := by
  induction values with
  | nil => exact List.Pairwise.nil
  | cons first rest ih => exact pairwise_insertBy ih

/-! ### The least value -/

omit [Std.TransCmp order] in
/-- Only the empty list has no least value. -/
theorem leastBy_eq_none_iff {values : List α} : leastBy? order values = none ↔ values = [] := by
  refine ⟨fun none => ?_, fun empty => by rw [empty, leastBy?]⟩
  cases values with
  | nil => rfl
  | cons first rest =>
    rw [leastBy?] at none
    split at none
    · cases none
    · split at none <;> cases none

/-- **The least value is one of the values and at most each of them.** -/
theorem leastBy_spec {values : List α} {best : α} (least : leastBy? order values = some best) :
    best ∈ values ∧ ∀ value ∈ values, (order best value).isLE := by
  induction values generalizing best with
  | nil => simp [leastBy?] at least
  | cons first rest ih =>
    rw [leastBy?] at least
    split at least
    · next none =>
      cases least
      refine ⟨List.mem_cons_self, fun value member => ?_⟩
      rw [leastBy_eq_none_iff.mp none] at member
      rw [List.mem_singleton.mp member]
      exact Std.ReflCmp.isLE_rfl
    · next candidate some =>
      obtain ⟨inRest, below⟩ := ih some
      split at least
      · next smaller =>
        cases least
        refine ⟨List.mem_cons_of_mem _ inRest, fun value member => ?_⟩
        rcases List.mem_cons.mp member with rfl | later
        · rw [smaller]
          rfl
        · exact below value later
      · next notSmaller =>
        cases least
        refine ⟨List.mem_cons_self, fun value member => ?_⟩
        have atMost : (order first candidate).isLE := by
          rw [← Std.OrientedCmp.isGE_iff_isLE, Ordering.isGE_iff_ne_lt]
          exact notSmaller
        rcases List.mem_cons.mp member with rfl | later
        · exact Std.ReflCmp.isLE_rfl
        · exact Std.TransCmp.isLE_trans atMost (below value later)

omit [Std.TransCmp order] in
/-- **The least value is the first one**: it is less than all values before it. -/
theorem exists_append_of_leastBy {values : List α} {best : α}
    (least : leastBy? order values = some best) :
    ∃ before after, values = before ++ best :: after ∧
      ∀ earlier ∈ before, order best earlier = .lt := by
  induction values generalizing best with
  | nil => simp [leastBy?] at least
  | cons first rest ih =>
    rw [leastBy?] at least
    split at least
    · cases least
      exact ⟨[], rest, rfl, fun _ member => nomatch member⟩
    · next candidate some =>
      split at least
      · next smaller =>
        cases least
        obtain ⟨before, after, rfl, later⟩ := ih some
        refine ⟨first :: before, after, rfl, fun earlier member => ?_⟩
        rcases List.mem_cons.mp member with rfl | inBefore
        · exact smaller
        · exact later earlier inBefore
      · cases least
        exact ⟨[], rest, rfl, fun _ member => nomatch member⟩

variable [Std.LawfulEqCmp order]

omit [Std.TransCmp order] in
theorem lt_of_isLE_of_ne {left right : α} (below : (order left right).isLE)
    (different : left ≠ right) : order left right = .lt := by
  rcases Ordering.isLE_iff_eq_lt_or_eq_eq.mp below with smaller | equal
  · exact smaller
  · exact absurd (Std.LawfulEqCmp.eq_of_compare equal) different

/-- **Sorting distinct values gives a strictly ascending list.** -/
theorem ascending_sortBy {values : List α} (distinct : values.Nodup) :
    Ascending order (sortBy order values) := by
  have nodup : (sortBy order values).Nodup := (perm_sortBy order values).nodup_iff.mpr distinct
  have sorted : (sortBy order values).Pairwise fun left right => (order left right).isLE :=
    pairwise_sortBy values
  refine List.Pairwise.imp ?_ (sorted.and nodup)
  exact fun both => lt_of_isLE_of_ne both.1 both.2

/-! ### Distinct values -/

omit [Std.TransCmp order] in
theorem mem_insertDistinct {value other : α} {values : List α} :
    other ∈ insertDistinct order value values ↔ other = value ∨ other ∈ values := by
  induction values with
  | nil => simp [insertDistinct]
  | cons first rest ih =>
    rw [insertDistinct]
    split
    · exact List.mem_cons
    · next same =>
      rw [Std.LawfulEqCmp.eq_of_compare same, List.mem_cons, ← or_assoc, or_self]
    · rw [List.mem_cons, ih, List.mem_cons]
      exact or_left_comm

theorem ascending_insertDistinct {value : α} {values : List α}
    (ascending : Ascending order values) :
    Ascending order (insertDistinct order value values) := by
  induction values with
  | nil => exact List.pairwise_singleton _ _
  | cons first rest ih =>
    have parts := List.pairwise_cons.mp ascending
    rw [insertDistinct]
    split
    · next below =>
      refine List.pairwise_cons.mpr ⟨fun other member => ?_, ascending⟩
      rcases List.mem_cons.mp member with rfl | later
      · exact below
      · exact Std.TransCmp.lt_trans below (parts.1 other later)
    · next same =>
      rw [Std.LawfulEqCmp.eq_of_compare same]
      exact ascending
    · next above =>
      refine List.pairwise_cons.mpr ⟨fun other member => ?_, ih parts.2⟩
      rcases mem_insertDistinct.mp member with rfl | later
      · exact Std.OrientedCmp.lt_of_gt above
      · exact parts.1 other later

/-- **The distinct values are listed strictly ascending, and no value is lost.** -/
theorem distinctBy_spec (values : List α) :
    Ascending order (distinctBy order values) ∧
      ∀ value, value ∈ distinctBy order values ↔ value ∈ values := by
  induction values using List.reverseRecOn with
  | nil => exact ⟨List.Pairwise.nil, fun _ => Iff.rfl⟩
  | append_singleton earlier last ih =>
    have step : distinctBy order (earlier ++ [last]) =
        insertDistinct order last (distinctBy order earlier) := by
      rw [distinctBy, List.foldl_append]
      rfl
    rw [step]
    refine ⟨ascending_insertDistinct ih.1, fun value => ?_⟩
    rw [mem_insertDistinct, ih.2, List.mem_append, List.mem_singleton, or_comm]

end Lawful

/-! ### Sorting mapped values -/

theorem insertBy_map {order : α → α → Ordering} {mapped : β → β → Ordering} (f : α → β)
    {value : α} {values : List α}
    (respects : ∀ other ∈ values, mapped (f value) (f other) = order value other) :
    insertBy mapped (f value) (values.map f) = (insertBy order value values).map f := by
  induction values with
  | nil => rfl
  | cons first rest ih =>
    rw [List.map_cons, insertBy, insertBy, respects first List.mem_cons_self,
      ih fun other member => respects other (List.mem_cons_of_mem _ member)]
    split <;> rfl

/-- **Sorting commutes with a map that respects the two comparisons.** -/
theorem sortBy_map {order : α → α → Ordering} {mapped : β → β → Ordering} (f : α → β)
    {values : List α}
    (respects : ∀ first ∈ values, ∀ second ∈ values, mapped (f first) (f second) = order first second) :
    sortBy mapped (values.map f) = (sortBy order values).map f := by
  induction values with
  | nil => rfl
  | cons first rest ih =>
    have inner := ih fun one oneIn other otherIn =>
      respects one (List.mem_cons_of_mem _ oneIn) other (List.mem_cons_of_mem _ otherIn)
    show insertBy mapped (f first) (sortBy mapped (rest.map f)) = _
    rw [inner]
    refine insertBy_map f fun other member => ?_
    exact respects first List.mem_cons_self other
      (List.mem_cons_of_mem _ ((perm_sortBy order rest).mem_iff.mp member))

/-- **Collecting distinct values commutes with a map that respects the two comparisons.** -/
theorem distinctBy_map {order : α → α → Ordering} {mapped : β → β → Ordering} (f : α → β)
    (respects : ∀ first second, mapped (f first) (f second) = order first second)
    (values : List α) : distinctBy mapped (values.map f) = (distinctBy order values).map f := by
  have insert_map (value : α) (sorted : List α) :
      insertDistinct mapped (f value) (sorted.map f) = (insertDistinct order value sorted).map f := by
    induction sorted with
    | nil => rfl
    | cons first rest ih =>
      rw [List.map_cons, insertDistinct, insertDistinct, respects, ih]
      split <;> rfl
  induction values using List.reverseRecOn with
  | nil => rfl
  | append_singleton earlier last ih =>
    rw [distinctBy, distinctBy, List.map_append, List.foldl_append, List.foldl_append]
    show insertDistinct mapped (f last) (distinctBy mapped (earlier.map f)) = _
    rw [ih]
    exact insert_map last _

end TwoLevel
