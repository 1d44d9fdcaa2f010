/-
**Patterns.**

A pattern fixes some of the bits of a row index and leaves the others free, the highest bit first.
It stands for the rows it matches, a cube; merging two patterns joins two half cubes.

* `Pattern.ofIndex`: the pattern that fixes the bits that the shifts of an index read;
* `Pattern.ofIndexIn`: the same in a build that may stop at a shift; `ofIndexIn_of_reads` and
  `ofIndexIn_of_not_reads` say when it does;
* `Pattern.fits`: whether the low bits of an index fit;
* `Pattern.merge?`: the pattern of two that differ in one fixed position, with that position free;
* `merge_comm`, `length_merge`, `literalCount_merge`: merging does not depend on the order, keeps
  the width and frees exactly one position.
-/

import TwoLevel.Word

namespace TwoLevel

/-- What a pattern demands of one bit. -/
inductive Trit where
  /-- Nothing: the bit is free. -/
  | dash
  | zero
  | one
  deriving DecidableEq, Repr, Inhabited

namespace Trit

/-- The demand that a bit has the value given. -/
def ofBool (value : Bool) : Trit := if value then one else zero

/-- The value demanded, if one is. -/
def value? : Trit → Option Bool
  | dash => none
  | zero => some false
  | one => some true

/-- The place in the order: a free bit first, then zero, then one. -/
def rank : Trit → Nat
  | dash => 0
  | zero => 1
  | one => 2

instance : Ord Trit := ⟨fun left right => compare left.rank right.rank⟩

/-- The written form. -/
def symbol : Trit → Char
  | dash => '-'
  | zero => '0'
  | one => '1'

end Trit

/-- Demands on the bits of an index, the highest bit first. -/
abbrev Pattern := List Trit

namespace Pattern

/-- The pattern of an index, which fixes every bit. -/
def ofIndex : (width : Nat) → (index : Nat) → Pattern
  | 0, _ => []
  | width + 1, index => .ofBool (Word.bit index width) :: ofIndex width index

/-- The pattern of an index in a build, if no shift stops the program. -/
def ofIndexIn (build : Build) : (width : Nat) → (index : Nat) → Option Pattern
  | 0, _ => some []
  | width + 1, index => do
    let bit ← build.shift width (Word.bit index width)
    let rest ← ofIndexIn build width index
    return .ofBool bit :: rest

/-- Whether the low bits of an index fit the pattern. -/
def fits : Pattern → (index : Nat) → Bool
  | [], _ => true
  | trit :: rest, index =>
    (match trit.value? with
      | none => true
      | some value => index.testBit rest.length == value) && fits rest index

/-- The number of bits fixed to one. -/
def ones (pattern : Pattern) : Nat := pattern.count .one

/-- The number of bits fixed. -/
def literalCount (pattern : Pattern) : Nat := pattern.countP (· ≠ .dash)

/-- Join two patterns that agree but for one position fixed in both, which becomes free. -/
def merge? : Pattern → Pattern → Option Pattern
  | left :: lefts, right :: rights =>
    if left = right then (merge? lefts rights).map (left :: ·)
    else if left ≠ .dash ∧ right ≠ .dash ∧ lefts = rights then some (.dash :: lefts)
    else none
  | _, _ => none

/-- The written form. -/
def render (pattern : Pattern) : String := String.ofList (pattern.map Trit.symbol)

/-! ### The pattern of an index -/

@[simp] theorem length_ofIndex (width index : Nat) : (ofIndex width index).length = width := by
  induction width with
  | zero => rfl
  | succ width ih => rw [ofIndex, List.length_cons, ih]

/-- Where a build reads rows of the width, it makes the pattern of an index. -/
theorem ofIndexIn_of_reads {build : Build} {width : Nat} (reads : build.Reads width)
    (index : Nat) : ofIndexIn build width index = some (ofIndex width index) := by
  induction width with
  | zero => rfl
  | succ width ih => 
    rw [ofIndexIn, reads.shift_eq (Nat.lt_succ_self width), ih (reads.mono (Nat.le_succ width))]
    rfl

/-- Where it does not, it stops at the first shift. -/
theorem ofIndexIn_of_not_reads {build : Build} {width : Nat} (stops : ¬ build.Reads width)
    (index : Nat) : ofIndexIn build width index = none := by
  cases width with
  | zero => exact absurd (build.reads_of_le (Nat.zero_le _)) stops
  | succ width => rw [ofIndexIn, build.shift_of_not_reads stops]; rfl

/-! ### Merging -/

/-- Merging does not depend on the order of the patterns. -/
theorem merge_comm (left right : Pattern) : merge? left right = merge? right left := by
  induction left generalizing right with
  | nil => cases right <;> rfl
  | cons first rest ih =>
    cases right with
    | nil => rfl
    | cons other others =>
      rw [merge?, merge?, ih others]
      by_cases same : first = other
      · rw [if_pos same, if_pos same.symm, same]
      · rw [if_neg same, if_neg (Ne.symm same)]
        by_cases tails : rest = others
        · subst tails
          simp only [and_left_comm]
        · rw [if_neg fun all => tails all.2.2, if_neg fun all => tails all.2.2.symm]

/-- Merging keeps the width. -/
theorem length_merge {left right merged : Pattern} (joined : merge? left right = some merged) :
    merged.length = left.length := by
  induction left generalizing right merged with
  | nil => simp [merge?] at joined
  | cons first rest ih =>
    cases right with
    | nil => simp [merge?] at joined
    | cons other others =>
      rw [merge?] at joined
      split at joined
      · obtain ⟨tail, tailJoined, rfl⟩ := Option.map_eq_some_iff.mp joined
        rw [List.length_cons, List.length_cons, ih tailJoined]
      · split at joined
        · rw [Option.some.injEq] at joined
          rw [← joined, List.length_cons, List.length_cons]
        · simp at joined

theorem literalCount_cons (trit : Trit) (pattern : Pattern) :
    literalCount (trit :: pattern) = literalCount pattern + if trit = .dash then 0 else 1 := by
  rw [literalCount, List.countP_cons, literalCount]
  cases trit <;> rfl

/-- Merging frees one position. -/
theorem literalCount_merge {left right merged : Pattern}
    (joined : merge? left right = some merged) :
    literalCount merged + 1 = literalCount left := by
  induction left generalizing right merged with
  | nil => simp [merge?] at joined
  | cons first rest ih =>
    cases right with
    | nil => simp [merge?] at joined
    | cons other others =>
      rw [merge?] at joined
      split at joined
      · obtain ⟨tail, tailJoined, rfl⟩ := Option.map_eq_some_iff.mp joined
        rw [literalCount_cons, literalCount_cons, ← ih tailJoined]
        omega
      · split at joined
        · next apart =>
          rw [Option.some.injEq] at joined
          subst joined
          rw [literalCount_cons, literalCount_cons, if_pos rfl, if_neg apart.1]
        · simp at joined

end Pattern

end TwoLevel
