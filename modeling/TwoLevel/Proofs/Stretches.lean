/-
**Stretches of characters.**

A stretch of characters of one sort goes as far as the next character of another sort. So the blanks
at the ends of a text are what is removed from it, if what is left neither starts nor ends with one;
and this is determined by the text, whatever blanks are put around it.

* `takeWhile_append_of_head?`, `dropWhile_append_of_head?` — how far a stretch goes;
* `Trimmed`, `exists_trimBlanks` — **what is left without the blanks at the ends**;
* `trimBlanks_append_blanks` — blanks around a text make no difference to what is left;
* `exists_trimBlanks_append` — what is left of two texts with something between them.
-/

import Mathlib.Data.List.Basic
import Mathlib.Data.List.TakeWhile
import TwoLevel.Text.Blank

namespace TwoLevel

open Text

/-! ### How far a stretch goes -/

section Stretches

variable {sort : Char → Bool} {stretch rest : List Char}

theorem takeWhile_append_of_head? (within : ∀ character ∈ stretch, sort character = true)
    (ends : ∀ character ∈ rest.head?, sort character = false) :
    (stretch ++ rest).takeWhile sort = stretch := by
  rw [List.takeWhile_append_of_pos within]
  cases rest with
  | nil => rw [List.takeWhile_nil, List.append_nil]
  | cons first others =>
    rw [List.takeWhile_cons_of_neg (by rw [ends first rfl]; decide), List.append_nil]

theorem dropWhile_append_of_head? (within : ∀ character ∈ stretch, sort character = true)
    (ends : ∀ character ∈ rest.head?, sort character = false) :
    (stretch ++ rest).dropWhile sort = rest := by
  rw [List.dropWhile_append_of_pos within]
  cases rest with
  | nil => rfl
  | cons first others => rw [List.dropWhile_cons_of_neg (by rw [ends first rfl]; decide)]

/-- What follows a stretch starts with a character of another sort. -/
theorem head?_dropWhile_eq_false (sort : Char → Bool) (characters : List Char) :
    ∀ character ∈ (characters.dropWhile sort).head?, sort character = false := by
  intro character found
  have stops := List.head?_dropWhile_not sort characters
  rw [found] at stops
  exact stops

end Stretches

/-! ### Blanks at the ends -/

section Trimming

variable {core lead trail : List Char}

/-- The characters neither start nor end with a blank. -/
structure Trimmed (characters : List Char) : Prop where
  first : ∀ character ∈ characters.head?, isBlank character = false
  last : ∀ character ∈ characters.getLast?, isBlank character = false

/-- Blanks around characters that neither start nor end with one are what is removed. -/
theorem trimBlanks_of_trimmed (trimmed : Trimmed core)
    (leadBlank : ∀ character ∈ lead, isBlank character = true)
    (trailBlank : ∀ character ∈ trail, isBlank character = true) :
    trimBlanks (lead ++ core ++ trail) = core := by
  rw [trimBlanks, List.append_assoc]
  cases core with
  | nil =>
    rw [List.nil_append, List.dropWhile_eq_nil_iff.mpr
      (List.forall_mem_append.mpr ⟨leadBlank, trailBlank⟩)]
    rfl
  | cons first rest =>
    have last : ∀ character ∈ (first :: rest).reverse.head?, isBlank character = false := by
      rw [List.head?_reverse]
      exact trimmed.last
    have ahead : ∀ character ∈ (first :: rest ++ trail).head?, isBlank character = false :=
      trimmed.first
    rw [dropWhile_append_of_head? leadBlank ahead, List.reverse_append,
      dropWhile_append_of_head? (by simpa using trailBlank) last, List.reverse_reverse]

/-- All characters are blanks around those that are left. -/
theorem exists_trimBlanks (characters : List Char) :
    ∃ lead trail, characters = lead ++ trimBlanks characters ++ trail ∧
      (∀ character ∈ lead, isBlank character = true) ∧
      (∀ character ∈ trail, isBlank character = true) ∧ Trimmed (trimBlanks characters) := by
  let rest := characters.dropWhile isBlank
  let trail := (rest.reverse.takeWhile isBlank).reverse
  have whole : trimBlanks characters ++ trail = rest := by
    show (rest.reverse.dropWhile isBlank).reverse ++ (rest.reverse.takeWhile isBlank).reverse = rest
    rw [← List.reverse_append, List.takeWhile_append_dropWhile, List.reverse_reverse]
  refine ⟨characters.takeWhile isBlank, trail, ?_, fun _ => List.mem_takeWhile_imp, ?_, ?_, ?_⟩
  · rw [List.append_assoc, whole, List.takeWhile_append_dropWhile]
  · intro character member
    exact List.mem_takeWhile_imp (List.mem_reverse.mp member)
  · -- What is left starts as the characters behind the first blanks do.
    intro character found
    refine head?_dropWhile_eq_false isBlank characters character ?_
    show character ∈ rest.head?
    obtain ⟨others, same⟩ := List.head?_eq_some_iff.mp found
    rw [← whole, same]
    rfl
  · intro character found
    rw [trimBlanks, List.getLast?_reverse] at found
    exact head?_dropWhile_eq_false isBlank _ character found

/-- Blanks around characters make no difference to what is left of them. -/
theorem trimBlanks_append_blanks (characters : List Char)
    (leadBlank : ∀ character ∈ lead, isBlank character = true)
    (trailBlank : ∀ character ∈ trail, isBlank character = true) :
    trimBlanks (lead ++ characters ++ trail) = trimBlanks characters := by
  obtain ⟨before, after, split, beforeBlank, afterBlank, trimmed⟩ := exists_trimBlanks characters
  generalize trimBlanks characters = core at *
  subst split
  have around : lead ++ (before ++ core ++ after) ++ trail =
      (lead ++ before) ++ core ++ (after ++ trail) := by
    simp only [List.append_assoc]
  rw [around]
  exact trimBlanks_of_trimmed trimmed (List.forall_mem_append.mpr ⟨leadBlank, beforeBlank⟩)
    (List.forall_mem_append.mpr ⟨afterBlank, trailBlank⟩)

/-- What is left of two stretches with something between them is what is between their outermost
characters that are not blank. -/
theorem exists_trimBlanks_append {first second : List Char} (firstLeft : trimBlanks first ≠ [])
    (secondLeft : trimBlanks second ≠ []) (middle : List Char) :
    ∃ before after, trimBlanks (first ++ middle ++ second) = before ++ middle ++ after ∧
      trimBlanks before = trimBlanks first ∧ trimBlanks after = trimBlanks second ∧
      before ⊆ first ∧ before.head? = (trimBlanks first).head? := by
  obtain ⟨lead, inner, firstSplit, leadBlank, innerBlank, firstTrimmed⟩ := exists_trimBlanks first
  obtain ⟨outer, trail, secondSplit, outerBlank, trailBlank, secondTrimmed⟩ :=
    exists_trimBlanks second
  generalize trimBlanks first = firstCore at *
  generalize trimBlanks second = secondCore at *
  subst firstSplit secondSplit
  have around : lead ++ firstCore ++ inner ++ middle ++ (outer ++ secondCore ++ trail) =
      lead ++ (firstCore ++ inner ++ middle ++ (outer ++ secondCore)) ++ trail := by
    simp only [List.append_assoc]
  have trimmed : Trimmed (firstCore ++ inner ++ middle ++ (outer ++ secondCore)) := by
    constructor
    · obtain ⟨character, rest, rfl⟩ := List.exists_cons_of_ne_nil firstLeft
      exact firstTrimmed.first
    · rw [← List.append_assoc, List.getLast?_append_of_ne_nil _ secondLeft]
      exact secondTrimmed.last
  refine ⟨firstCore ++ inner, outer ++ secondCore, ?_, ?_, ?_, ?_, ?_⟩
  · rw [around]
    exact trimBlanks_of_trimmed trimmed leadBlank trailBlank
  · exact trimBlanks_of_trimmed firstTrimmed (List.forall_mem_nil _) innerBlank
  · rw [← List.append_nil (outer ++ secondCore)]
    exact trimBlanks_of_trimmed secondTrimmed outerBlank (List.forall_mem_nil _)
  · rw [List.append_assoc]
    exact List.subset_append_right _ _
  · rw [List.head?_append_of_ne_nil _ firstLeft]

end Trimming

end TwoLevel
