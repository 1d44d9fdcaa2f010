/-
**The order of names is a total order.**

The weights of a name forget the case of its letters and the capitals remember it, so that the two
together are the name. Hence the names of an expression are listed strictly ascending, each once.

* `compareNames` is transitive and tells different names apart (instances);
* `compareNames_eq` — names of the same weights are ordered by the first character that differs;
* `mem_names`, `ascending_names` — the columns of a table are the names of the leaves, ascending;
* `names_listed_canonically` — **the order is total, and the names of an expression are one list in
  it**, which depends only on which names there are.
-/

import TwoLevel.Expr.Basic
import TwoLevel.Proofs.Sorting

namespace TwoLevel

/-! ### Characters -/

theorem toNat_toLower (character : Char) :
    character.toLower.toNat =
      if 65 ≤ character.toNat ∧ character.toNat ≤ 90 then character.toNat + 32
      else character.toNat := by
  unfold Char.toLower
  split
  · next upper =>
    have range : 65 ≤ character.toNat ∧ character.toNat ≤ 90 := upper
    rw [if_pos range]
    have small : character.val.toNat + (32 : UInt32).toNat < 2 ^ 32 :=
      Nat.lt_of_le_of_lt (Nat.add_le_add_right range.2 32) (by decide)
    show (character.val + 32).toNat = character.val.toNat + 32
    rw [UInt32.toNat_add, Nat.mod_eq_of_lt small]
    rfl
  · next other => exact (if_neg other).symm

/-- The weight of a character by its code point. -/
theorem nameWeight_eq (character : Char) :
    nameWeight character =
      if character.toNat = 95 then 0
      else if 48 ≤ character.toNat ∧ character.toNat ≤ 57 then character.toNat
      else 0x110000 + if 65 ≤ character.toNat ∧ character.toNat ≤ 90 then character.toNat + 32
        else character.toNat := by
  have underscore : character = '_' ↔ character.toNat = 95 := Char.toNat_inj.symm
  have digit : character.isDigit = true ↔ 48 ≤ character.toNat ∧ character.toNat ≤ 57 := by
    rw [Char.isDigit, Bool.and_eq_true, decide_eq_true_eq, decide_eq_true_eq]
    exact Iff.rfl
  simp only [nameWeight, underscore, digit, toNat_toLower]

theorem isLower_iff {character : Char} :
    character.isLower = true ↔ 97 ≤ character.toNat ∧ character.toNat ≤ 122 := by
  unfold Char.isLower
  rw [Bool.and_eq_true, decide_eq_true_eq, decide_eq_true_eq]
  exact Iff.rfl

/-- A character is known by its weight and by whether it is a lowercase letter. -/
theorem eq_of_nameWeight {left right : Char} (weight : nameWeight left = nameWeight right)
    (lower : left.isLower = right.isLower) : left = right := by
  rw [nameWeight_eq, nameWeight_eq] at weight
  rw [Bool.eq_iff_iff, isLower_iff, isLower_iff] at lower
  refine Char.toNat_inj.mp ?_
  split at weight <;> split at weight <;> grind

/-! ### Names -/

/-- A name is known by its weights and its capitals. -/
theorem eq_of_nameWeights {left right : List Char}
    (weights : left.map nameWeight = right.map nameWeight)
    (capitals : (left.map fun character => !character.isLower) =
      right.map fun character => !character.isLower) : left = right := by
  induction left generalizing right with
  | nil => exact (List.map_eq_nil_iff.mp weights.symm).symm
  | cons first rest ih =>
    obtain ⟨other, others, rfl, weight, restWeights⟩ := List.map_eq_cons_iff.mp weights.symm
    obtain ⟨capital, restCapitals⟩ := List.cons.inj capitals
    have same := eq_of_nameWeight weight.symm (Bool.not_inj capital)
    rw [same, ih restWeights.symm restCapitals]

instance : Std.TransCmp compareNames :=
  inferInstanceAs (Std.TransCmp (compareLex (compareOn nameWeights) (compareOn nameCapitals)))

instance : Std.LawfulEqCmp compareNames where
  compare_self := (inferInstance : Std.ReflCmp
    (compareLex (compareOn nameWeights) (compareOn nameCapitals))).compare_self
  eq_of_compare {left right} equal := by
    obtain ⟨weights, capitals⟩ := Ordering.then_eq_eq.mp equal
    refine String.toList_inj.mp (eq_of_nameWeights ?_ ?_)
    · exact Std.LawfulEqOrd.eq_of_compare weights
    · exact Std.LawfulEqOrd.eq_of_compare capitals

/-! ### The first difference -/

/-- The two characters at the first place where the texts differ. -/
def firstDifference? (left right : List Char) : Option (Char × Char) :=
  (left.zip right).find? fun pair => pair.1 != pair.2

/-- The order of two texts by the first place where they differ: the one with a lowercase letter
there comes first. -/
def compareFirstDifference (left right : List Char) : Ordering :=
  match firstDifference? left right with
  | some (first, second) => compare second.isLower first.isLower
  | none => .eq

section FirstDifference

variable {first other : Char} {rest others : List Char}

theorem compareFirstDifference_cons_self :
    compareFirstDifference (first :: rest) (first :: others) = compareFirstDifference rest others := by
  simp [compareFirstDifference, firstDifference?]

theorem compareFirstDifference_cons_of_ne (different : first ≠ other) :
    compareFirstDifference (first :: rest) (other :: others) = compare other.isLower first.isLower := by
  simp [compareFirstDifference, firstDifference?, different]

end FirstDifference

/-- Texts of the same weights have the same length and differ only in the case of letters, so that
their capitals are ordered by the first difference. -/
theorem compare_capitals_eq {left right : List Char}
    (weights : left.map nameWeight = right.map nameWeight) :
    compare (left.map fun character => !character.isLower)
        (right.map fun character => !character.isLower) = compareFirstDifference left right := by
  induction left generalizing right with
  | nil =>
    rw [List.map_eq_nil_iff.mp weights.symm]
    rfl
  | cons first rest ih =>
    obtain ⟨other, others, rfl, weight, restWeights⟩ := List.map_eq_cons_iff.mp weights.symm
    rw [List.map_cons, List.map_cons, List.compare_cons_cons, ih restWeights.symm]
    by_cases same : first = other
    · rw [same, compareFirstDifference_cons_self, Std.ReflOrd.compare_self]
      rfl
    · rw [compareFirstDifference_cons_of_ne same]
      -- Of two different characters of one weight exactly one is a lowercase letter.
      have lower : first.isLower ≠ other.isLower := fun lower =>
        same (eq_of_nameWeight weight.symm lower)
      cases firstLower : first.isLower <;> cases otherLower : other.isLower
      · exact absurd (firstLower.trans otherLower.symm) lower
      · rfl
      · rfl
      · exact absurd (firstLower.trans otherLower.symm) lower

/-- **Names are ordered by their weights, and names of the same weights by the first character that
differs**, a lowercase letter first. -/
theorem compareNames_eq (left right : String) :
    compareNames left right = (compare (nameWeights left) (nameWeights right)).then
      (compareFirstDifference left.toList right.toList) := by
  unfold compareNames
  cases weights : compare (nameWeights left) (nameWeights right) with
  | lt | gt => rfl
  | eq => exact compare_capitals_eq (Std.LawfulEqOrd.eq_of_compare weights)

/-! ### The names of an expression -/

namespace Expr

/-- The names of an expression are those of its leaves. -/
theorem mem_names {expr : Expr} {name : String} : name ∈ expr.names ↔ name ∈ expr.leaves :=
  (distinctBy_spec expr.leaves).2 name

/-- The names of an expression are strictly ascending. -/
theorem ascending_names (expr : Expr) : Ascending compareNames expr.names :=
  (distinctBy_spec expr.leaves).1

/-- The names of an expression are the one ascending list of them. -/
theorem eq_names_iff {expr : Expr} {names : List String} :
    names = expr.names ↔
      Ascending compareNames names ∧ ∀ name, name ∈ names ↔ name ∈ expr.leaves := by
  constructor
  · rintro rfl
    exact ⟨expr.ascending_names, fun _ => mem_names⟩
  · rintro ⟨ascending, members⟩
    exact eq_of_ascending ascending expr.ascending_names fun name =>
      (members name).trans mem_names.symm

end Expr

/-- **The order of names is total, and the names of an expression are listed canonically.** The
order is by weights and then by the first character that differs. Turned around it is reversed; it
is transitive; and only a name and itself are equal in it. So the list of the names of an expression
is the one strictly ascending list of the names in its tree, and two expressions with the same names
have the same list. -/
theorem names_listed_canonically :
    (∀ left right, compareNames left right =
      (compare (nameWeights left) (nameWeights right)).then
        (compareFirstDifference left.toList right.toList)) ∧
    (∀ left right, compareNames right left = (compareNames left right).swap) ∧
    (∀ first second third, (compareNames first second).isLE → (compareNames second third).isLE →
      (compareNames first third).isLE) ∧
    (∀ left right, compareNames left right = .eq ↔ left = right) ∧
    (∀ (expr : Expr) (names : List String), names = expr.names ↔
      Ascending compareNames names ∧ ∀ name, name ∈ names ↔ name ∈ expr.leaves) ∧
    ∀ first second : Expr, (∀ name, name ∈ first.leaves ↔ name ∈ second.leaves) →
      first.names = second.names := by
  refine ⟨compareNames_eq, fun left right => Std.OrientedCmp.eq_swap, fun first second third => ?_,
    fun left right => Std.LawfulEqCmp.compare_eq_iff_eq, fun expr names => Expr.eq_names_iff,
    fun first second same => ?_⟩
  · exact Std.TransCmp.isLE_trans
  · refine Expr.eq_names_iff.mpr ⟨first.ascending_names, fun name => ?_⟩
    exact Expr.mem_names.trans (same name)

/-- Underscores come before digits and digits before letters, and of `ab` and `aB` the first has the
lowercase letter; a tree with these names in another order and repeated has the same list. -/
theorem names_listed_canonically_mixed_case :
    (compareNames "A_1" "a1").isLE ∧ (compareNames "a1" "aB").isLE ∧ (compareNames "A_1" "aB").isLE ∧
      (Expr.or (.var "aB") (.and (.var "A_1") (.var "aB"))).names =
        (Expr.xor (.var "A_1") (.not (.var "aB"))).names := by
  obtain ⟨_, _, transitive, _, _, canonical⟩ := names_listed_canonically
  have first : (compareNames "A_1" "a1").isLE := by decide
  have second : (compareNames "a1" "aB").isLE := by decide
  refine ⟨first, second, transitive _ _ _ first second, canonical _ _ fun name => ?_⟩
  simp only [Expr.or, Expr.and, Expr.xor, Expr.leaves, List.mem_append, List.mem_singleton]
  tauto

end TwoLevel
