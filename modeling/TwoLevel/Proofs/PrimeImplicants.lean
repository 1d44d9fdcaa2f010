/-
**The search finds exactly the prime implicants.**

* `primes_ofIndices` — with a target the search is the one by passes; the shortcut for a single row
  is a case of it;
* `mem_primes_iff` — an implicant is found exactly when its pattern is a prime cube, it has a target
  row, and it holds the indices it has to hold;
* `ascending_primes` — the implicants found are strictly ascending, so none is found twice;
* `primeSearch_exact` — **the search is exact**, for every target and whatever may also be covered,
  as long as a row fits into a word;
* `foreign_prime_beyond_word` — a search over more columns.
-/

import TwoLevel.Proofs.Comparisons
import TwoLevel.Proofs.Passes

namespace TwoLevel

theorem IndexSet.meets_iff {left right : IndexSet} :
    left.meets right = true ↔ ∃ number ∈ left, number ∈ right := by
  simp only [IndexSet.meets, List.any_eq_true, decide_eq_true_eq]
  rfl

/-! ### The shortcut for a single row -/

/-- There is one target row and no other row, so that the search needs no pass. -/
def LoneRow (target dontCare : List Nat) : Prop := target.length = 1 ∧ dontCare = []

/-- Any other search with a target is by passes. -/
theorem ofIndices_eq_merging (width : Nat) {target dontCare : List Nat} (nonempty : target ≠ [])
    (notLone : ¬ LoneRow target dontCare) :
    PrimeSearch.ofIndices width target dontCare =
      .merging (.ofList target) (passesFrom 1 (PrimeSearch.seeds width target dontCare)) := by
  match target, dontCare with
  | [], _ => exact absurd rfl nonempty
  | [_], [] => exact absurd ⟨rfl, rfl⟩ notLone
  | [_], _ :: _ => rfl
  | _ :: _ :: _, _ => rfl

/-- A single implicant cannot be merged with itself. -/
theorem mergesOf_singleton (implicant : Implicant) : mergesOf [implicant] = [] := by
  refine List.eq_nil_iff_forall_not_mem.mpr fun merge member => ?_
  obtain ⟨leftIn, rightIn, halves, _⟩ := mem_mergesOf_iff.mp member
  have count := halves.ones_eq
  rw [List.mem_singleton.mp leftIn, List.mem_singleton.mp rightIn] at count
  omega

/-- The passes leave a single implicant as it is. -/
theorem passesFrom_singleton (number : Nat) (implicant : Implicant) :
    (passesFrom number [implicant]).flatMap MergePass.unmerged = [implicant] := by
  have last : (MergePass.ofInputs number [implicant]).outputs = [] := by
    rw [MergePass.ofInputs, mergesOf_singleton]
    rfl
  rw [passesFrom, dif_pos last, List.flatMap_singleton, unmerged_eq_filter, mergesOf_singleton]
  rfl

/-- **With a target the search is the one by passes**, also where a single row needs none. -/
theorem primes_ofIndices (width : Nat) {target : List Nat} (dontCare : List Nat)
    (nonempty : target ≠ []) :
    (PrimeSearch.ofIndices width target dontCare).primes =
      (PrimeSearch.merging (.ofList target)
        (passesFrom 1 (PrimeSearch.seeds width target dontCare))).primes := by
  by_cases lone : LoneRow target dontCare
  · obtain ⟨one, rfl⟩ := lone
    obtain ⟨index, rfl⟩ := List.length_eq_one_iff.mp one
    have seeds : PrimeSearch.seeds width [index] [] = [.ofIndex width index] := rfl
    have kept : ([Implicant.ofIndex width index].filter fun prime =>
        prime.minterms.meets (.ofList [index])) = [.ofIndex width index] := by
      refine List.filter_eq_self.mpr fun prime member => IndexSet.meets_iff.mpr ⟨index, ?_, ?_⟩
      · rw [List.mem_singleton.mp member]
        exact IndexSet.mem_singleton.mpr rfl
      · exact IndexSet.mem_ofList.mpr (List.mem_singleton.mpr rfl)
    rw [seeds, PrimeSearch.primes, passesFrom_singleton, kept]
    rfl
  · rw [ofIndices_eq_merging width nonempty lone]

/-! ### The implicants found -/

/-- **An implicant is found exactly when it is prime**: its pattern is a prime cube, it has a target
row, and it holds the indices it has to hold. -/
theorem mem_primes_iff {width : Nat} {target dontCare : List Nat} (nonempty : target ≠ [])
    {implicant : Implicant} :
    implicant ∈ (PrimeSearch.ofIndices width target dontCare).primes ↔
      PrimeCube width (readRows width (target ++ dontCare)) implicant.pattern ∧
        (∃ index ∈ target, index ∈ implicant.minterms) ∧
        Gathers (readRow width) (target ++ dontCare) implicant := by
  have level := Level.seeds width target dontCare
  rw [primes_ofIndices width dontCare nonempty, PrimeSearch.primes, mem_sortBy, List.mem_filter,
    level.mem_passesFrom_iff, IndexSet.meets_iff, and_iff_right (Nat.zero_le _)]
  simp only [IndexSet.mem_ofList]
  constructor
  · rintro ⟨⟨prime, gathers⟩, index, held, inTarget⟩
    exact ⟨prime, ⟨index, inTarget, held⟩, gathers⟩
  · rintro ⟨prime, ⟨index, inTarget, held⟩, gathers⟩
    exact ⟨⟨prime, gathers⟩, index, held, inTarget⟩

/-- Without a target nothing is found. -/
theorem ne_nil_of_mem_primes {width : Nat} {target dontCare : List Nat} {implicant : Implicant}
    (found : implicant ∈ (PrimeSearch.ofIndices width target dontCare).primes) : target ≠ [] := by
  rintro rfl
  exact List.not_mem_nil found

/-- **The implicants found are strictly ascending.** -/
theorem ascending_primes (width : Nat) (target dontCare : List Nat) :
    Ascending compare (PrimeSearch.ofIndices width target dontCare).primes := by
  by_cases nonempty : target = []
  · subst nonempty
    exact List.Pairwise.nil
  · rw [primes_ofIndices width dontCare nonempty]
    exact ascending_sortBy (((Level.seeds width target dontCare).nodup_passesFrom 1).filter _)

/-- **The search returns exactly the prime implicants**, for all indices whatever their size, in
strictly ascending order, as long as a row fits into a word. Up to this width it stops in no build. -/
theorem primeSearch_exact (build : Build) {width : Nat} (inWord : width ≤ Word.size)
    (target dontCare : List Nat) :
    ∃ search, PrimeSearch.ofIndicesIn build width target dontCare = some search ∧
      (∀ implicant, implicant ∈ search.primes ↔
        target ≠ [] ∧
          PrimeCube width (residues width (target ++ dontCare)) implicant.pattern ∧
          (∃ index ∈ target, index ∈ implicant.minterms) ∧
          Gathers (· % 2 ^ width) (target ++ dontCare) implicant) ∧
      Ascending compare search.primes := by
  refine ⟨_, PrimeSearch.ofIndicesIn_of_reads (build.reads_of_le inWord) target dontCare,
    fun implicant => ?_, ascending_primes width target dontCare⟩
  by_cases nonempty : target = []
  · subst nonempty
    exact ⟨fun found => absurd found List.not_mem_nil, fun parts => absurd rfl parts.1⟩
  · rw [mem_primes_iff nonempty, readRows_eq_residues inWord, readRow_eq_mod inWord]
    exact (and_iff_right nonempty).symm

/-- Over one column the indices 1 and 3 stand for the same row, and each has an implicant of its
own. -/
theorem primeSearch_exact_shared_row :
    ∃ search, PrimeSearch.ofIndicesIn .checked 1 [3, 1] [] = some search ∧
      search.primes = [⟨[.one], .ofList [1]⟩, ⟨[.one], .ofList [3]⟩] ∧
      PrimeCube 1 (residues 1 [3, 1]) [.one] := by
  obtain ⟨search, made, exact, _⟩ := primeSearch_exact .checked (by decide : 1 ≤ Word.size) [3, 1] []
  have found : (PrimeSearch.ofIndicesIn .checked 1 [3, 1] []).map PrimeSearch.primes =
      some [⟨[.one], .ofList [1]⟩, ⟨[.one], .ofList [3]⟩] := by
    decide +kernel
  rw [made, Option.map_some, Option.some.injEq] at found
  have member : (⟨[.one], .ofList [1]⟩ : Implicant) ∈ search.primes := by
    rw [found]
    exact List.mem_cons_self
  exact ⟨search, made, found, ((exact _).mp member).2.1⟩

/-- **Over 65 columns the search for row 1 does not find its prime implicant.** A checked build stops,
and a wrapping one finds a pattern of a row that is none of the target. -/
theorem foreign_prime_beyond_word :
    PrimeSearch.ofIndicesIn .checked 65 [1] [] = none ∧
      ∃ search, PrimeSearch.ofIndicesIn .wrapping 65 [1] [] = some search ∧
        ∃ implicant ∈ search.primes, 2 ^ 64 + 1 ∈ implicant.pattern.rows ∧
          2 ^ 64 + 1 ∉ residues 65 ([1] ++ []) := by
  have stops : ¬ Build.checked.Reads 65 := by decide
  refine ⟨PrimeSearch.ofIndicesIn_of_not_reads stops (List.cons_ne_nil _ _) [], _,
    PrimeSearch.ofIndicesIn_of_reads (Build.reads_wrapping 65) [1] [], .ofIndex 65 1,
    List.mem_singleton.mpr rfl, Pattern.mem_rows.mpr ⟨?_, ?_⟩, fun listed => ?_⟩
  · decide
  · decide
  · obtain ⟨index, member, same⟩ := mem_residues.mp listed
    rw [List.append_nil, List.mem_singleton] at member
    subst member
    revert same
    decide

end TwoLevel
