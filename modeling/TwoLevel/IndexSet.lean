/-
**Finite sets of numbers.**

A set of row indices or of positions, held as its strictly ascending list, so that equal sets are
equal values and the list is also the printed order.

* `mem_insert`, `mem_union`, `mem_ofList`: the members after each operation;
* `subset_iff`: the comparison of two ascending lists decides inclusion;
* `ext`: sets with the same members are equal.
-/

import TwoLevel.Sorted

namespace TwoLevel

/-- A finite set of numbers. -/
structure IndexSet where
  toList : List Nat
  ascending : toList.Pairwise (· < ·)
  deriving DecidableEq

namespace IndexSet

instance : Membership Nat IndexSet := ⟨fun set number => number ∈ set.toList⟩

instance (number : Nat) (set : IndexSet) : Decidable (number ∈ set) :=
  inferInstanceAs (Decidable (number ∈ set.toList))

/-- Sets are ordered by their ascending lists, a shorter one before its continuations. -/
instance : Ord IndexSet := ⟨fun left right => compare left.toList right.toList⟩

theorem mem_toList {number : Nat} {set : IndexSet} : number ∈ set.toList ↔ number ∈ set := Iff.rfl

/-- The set without members. -/
def empty : IndexSet := ⟨[], .nil⟩

instance : EmptyCollection IndexSet := ⟨empty⟩

instance : Inhabited IndexSet := ⟨empty⟩

/-- The set with one more member. -/
def insert (set : IndexSet) (number : Nat) : IndexSet :=
  ⟨insertDistinct compare number set.toList, pairwise_insertDistinct_nat set.ascending⟩

/-- The set of one number. -/
def singleton (number : Nat) : IndexSet := empty.insert number

/-- The set of the numbers of a list. -/
def ofList (numbers : List Nat) : IndexSet := numbers.foldl insert empty

/-- The members of either set. -/
def union (left right : IndexSet) : IndexSet := right.toList.foldl insert left

/-- The number of members. -/
def size (set : IndexSet) : Nat := set.toList.length

/-- Whether every number of an ascending list is in another one. -/
def ascendingSubset : List Nat → List Nat → Bool
  | [], _ => true
  | _ :: _, [] => false
  | first :: rest, other :: others =>
    if other < first then ascendingSubset (first :: rest) others
    else first == other && ascendingSubset rest others

/-- Whether every member of the first set is one of the second. -/
def subset (left right : IndexSet) : Bool := ascendingSubset left.toList right.toList

/-- Whether the sets have a member in common. -/
def meets (left right : IndexSet) : Bool := left.toList.any fun number => number ∈ right

/-! ### Members -/

@[simp] theorem not_mem_empty (number : Nat) : number ∉ (∅ : IndexSet) := List.not_mem_nil

theorem mem_insert {number value : Nat} {set : IndexSet} :
    number ∈ set.insert value ↔ number = value ∨ number ∈ set :=
  mem_insertDistinct_nat

theorem mem_foldl_insert {number : Nat} {numbers : List Nat} {set : IndexSet} :
    number ∈ numbers.foldl insert set ↔ number ∈ set ∨ number ∈ numbers := by
  induction numbers generalizing set with
  | nil => simp
  | cons first rest ih =>
    rw [List.foldl_cons, ih, mem_insert, List.mem_cons, or_comm (a := number = first), or_assoc]

theorem mem_ofList {number : Nat} {numbers : List Nat} :
    number ∈ ofList numbers ↔ number ∈ numbers := by
  rw [ofList, mem_foldl_insert]
  exact or_iff_right (not_mem_empty number)

theorem mem_union {number : Nat} {left right : IndexSet} :
    number ∈ left.union right ↔ number ∈ left ∨ number ∈ right :=
  mem_foldl_insert

theorem mem_singleton {number value : Nat} : number ∈ singleton value ↔ number = value := by
  rw [singleton, mem_insert]
  exact or_iff_left (not_mem_empty number)

theorem ascendingSubset_iff {left right : List Nat} (leftAscending : left.Pairwise (· < ·))
    (rightAscending : right.Pairwise (· < ·)) :
    ascendingSubset left right = true ↔ ∀ number ∈ left, number ∈ right := by
  induction right generalizing left with
  | nil =>
    cases left with
    | nil => simp [ascendingSubset]
    | cons first rest =>
      refine ⟨fun impossible => absurd impossible (by simp [ascendingSubset]), fun inside => ?_⟩
      exact absurd (inside first List.mem_cons_self) List.not_mem_nil
  | cons other others ih =>
    cases left with
    | nil => simp [ascendingSubset]
    | cons first rest =>
      have rightParts := List.pairwise_cons.mp rightAscending
      have leftParts := List.pairwise_cons.mp leftAscending
      rw [ascendingSubset]
      split
      · next below =>
        rw [ih leftAscending rightParts.2]
        refine ⟨fun inside number member => List.mem_cons_of_mem _ (inside number member), ?_⟩
        intro inside number member
        have atLeast : first ≤ number := by
          rcases List.mem_cons.mp member with rfl | later
          · exact Nat.le_refl _
          · exact Nat.le_of_lt (leftParts.1 number later)
        exact (List.mem_cons.mp (inside number member)).resolve_left
          (Nat.ne_of_gt (Nat.lt_of_lt_of_le below atLeast))
      · next notBelow =>
        rw [Bool.and_eq_true, beq_iff_eq, ih leftParts.2 rightParts.2]
        constructor
        · rintro ⟨rfl, inside⟩ number member
          rcases List.mem_cons.mp member with rfl | later
          · exact List.mem_cons_self
          · exact List.mem_cons_of_mem _ (inside number later)
        · intro inside
          have same : first = other := by
            rcases List.mem_cons.mp (inside first List.mem_cons_self) with equal | later
            · exact equal
            · exact absurd (rightParts.1 first later) notBelow
          refine ⟨same, fun number member => ?_⟩
          exact (List.mem_cons.mp (inside number (List.mem_cons_of_mem _ member))).resolve_left
            (Nat.ne_of_gt (same ▸ leftParts.1 number member))

theorem subset_iff {left right : IndexSet} :
    left.subset right = true ↔ ∀ number ∈ left, number ∈ right :=
  ascendingSubset_iff left.ascending right.ascending

/-! ### Extensionality -/

theorem toList_injective {left right : IndexSet} (same : left.toList = right.toList) :
    left = right := by
  cases left
  cases right
  cases same
  rfl

/-- Two strictly ascending lists with the same members are equal. -/
theorem ascending_ext {left right : List Nat} (leftAscending : left.Pairwise (· < ·))
    (rightAscending : right.Pairwise (· < ·)) (same : ∀ number, number ∈ left ↔ number ∈ right) :
    left = right := by
  induction left generalizing right with
  | nil =>
    cases right with
    | nil => rfl
    | cons first rest => exact absurd ((same first).mpr List.mem_cons_self) List.not_mem_nil
  | cons first rest ih =>
    cases right with
    | nil => exact absurd ((same first).mp List.mem_cons_self) List.not_mem_nil
    | cons other others =>
      rw [List.pairwise_cons] at leftAscending rightAscending
      have heads : first = other := by
        rcases List.mem_cons.mp ((same first).mp List.mem_cons_self) with equal | later
        · exact equal
        · rcases List.mem_cons.mp ((same other).mpr List.mem_cons_self) with equal | further
          · exact equal.symm
          · have below := Nat.lt_trans (rightAscending.1 first later) (leftAscending.1 other further)
            exact absurd below (Nat.lt_irrefl other)
      subst heads
      congr 1
      refine ih leftAscending.2 rightAscending.2 fun number => ⟨fun member => ?_, fun member => ?_⟩
      · have found := (same number).mp (List.mem_cons_of_mem _ member)
        rcases List.mem_cons.mp found with equal | later
        · exact absurd (leftAscending.1 number member) (equal ▸ Nat.lt_irrefl _)
        · exact later
      · have found := (same number).mpr (List.mem_cons_of_mem _ member)
        rcases List.mem_cons.mp found with equal | later
        · exact absurd (rightAscending.1 number member) (equal ▸ Nat.lt_irrefl _)
        · exact later

theorem ext {left right : IndexSet} (same : ∀ number, number ∈ left ↔ number ∈ right) :
    left = right :=
  toList_injective (ascending_ext left.ascending right.ascending same)

end IndexSet

end TwoLevel
