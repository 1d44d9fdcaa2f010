/-
**Ordered lists.**

Insertion into a list that a comparison keeps in order: `insertDistinct` holds at most one of the
values that compare equal, the latest; `sortBy` keeps all of them, in their first order.

* `perm_sortBy`: sorting only changes the order;
* `mem_insertDistinct_nat`: in a list of numbers, insertion adds just the number inserted;
* `pairwise_insertDistinct_nat`: it keeps the list strictly ascending.
-/

namespace TwoLevel

variable {α : Type}

/-- Put a value in its place, instead of the first one that compares equal if there is one. -/
def insertDistinct (order : α → α → Ordering) (value : α) : List α → List α
  | [] => [value]
  | first :: rest =>
    match order value first with
    | .lt => value :: first :: rest
    | .eq => value :: rest
    | .gt => first :: insertDistinct order value rest

/-- The ascending list of the values, one of each class of equal ones: the last. -/
def distinctBy (order : α → α → Ordering) (values : List α) : List α :=
  values.foldl (fun sorted value => insertDistinct order value sorted) []

/-- Put a value in its place, before those that compare equal. -/
def insertBy (order : α → α → Ordering) (value : α) : List α → List α
  | [] => [value]
  | first :: rest =>
    match order value first with
    | .lt | .eq => value :: first :: rest
    | .gt => first :: insertBy order value rest

/-- Sort, keeping the order of values that compare equal. -/
def sortBy (order : α → α → Ordering) (values : List α) : List α :=
  values.foldr (insertBy order) []

/-- The first of the smallest values. -/
def leastBy? (order : α → α → Ordering) : List α → Option α
  | [] => none
  | first :: rest =>
    match leastBy? order rest with
    | none => some first
    | some best => if order best first = .lt then some best else some first

/-! ### Sorting -/

theorem perm_insertBy (order : α → α → Ordering) (value : α) (values : List α) :
    (insertBy order value values).Perm (value :: values) := by
  induction values with
  | nil => exact .refl _
  | cons first rest ih =>
    rw [insertBy]
    split
    · exact .refl _
    · exact .refl _
    · exact (ih.cons first).trans (.swap value first rest)

/-- Sorting only changes the order. -/
theorem perm_sortBy (order : α → α → Ordering) (values : List α) :
    (sortBy order values).Perm values := by
  induction values with
  | nil => exact .refl _
  | cons first rest ih => exact (perm_insertBy order first _).trans (ih.cons first)

/-! ### Ascending lists of numbers -/

theorem mem_insertDistinct_nat {value number : Nat} {numbers : List Nat} :
    number ∈ insertDistinct compare value numbers ↔ number = value ∨ number ∈ numbers := by
  induction numbers with
  | nil => simp [insertDistinct]
  | cons first rest ih =>
    rw [insertDistinct]
    split
    · simp
    · next same =>
      rw [Nat.compare_eq_eq] at same
      subst same
      simp
    · simp only [List.mem_cons, ih]
      exact or_left_comm

theorem pairwise_insertDistinct_nat {value : Nat} {numbers : List Nat}
    (ascending : numbers.Pairwise (· < ·)) :
    (insertDistinct compare value numbers).Pairwise (· < ·) := by
  induction numbers with
  | nil => simp [insertDistinct]
  | cons first rest ih =>
    rw [List.pairwise_cons] at ascending
    rw [insertDistinct]
    split
    · next below =>
      rw [Nat.compare_eq_lt] at below
      refine List.pairwise_cons.mpr ⟨?_, List.pairwise_cons.mpr ascending⟩
      intro number member
      rcases List.mem_cons.mp member with rfl | later
      · exact below
      · exact Nat.lt_trans below (ascending.1 number later)
    · next same =>
      rw [Nat.compare_eq_eq] at same
      exact List.pairwise_cons.mpr ⟨same ▸ ascending.1, ascending.2⟩
    · next above =>
      rw [Nat.compare_eq_gt] at above
      refine List.pairwise_cons.mpr ⟨?_, ih ascending.2⟩
      intro number member
      rcases mem_insertDistinct_nat.mp member with rfl | later
      · exact above
      · exact ascending.1 number later

end TwoLevel
