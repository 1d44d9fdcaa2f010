/-
**Two-level minimality.**

A minimization always has a result, and the patterns it selects are a cheapest sum of products for
the target: no list of cubes that covers the target and stays inside the rows allowed has fewer
terms, or equally many with fewer literals.

* `Realizes` — a list of patterns is a sum of products for target rows among allowed rows;
* `Minimization.exists_ofIndices` — every minimization selects from its prime implicants, also where
  a single row needs no selection;
* `exists_positions` — **the exchange**: each cube of a sum of products lies inside a prime cube,
  which has at most as many literals;
* `minimization_least` — the result realizes the target at the least cost.
-/

import TwoLevel.Minimization
import TwoLevel.Proofs.PrimeImplicants
import TwoLevel.Proofs.Selection

namespace TwoLevel

/-! ### Every target row is in a prime implicant -/

section Primes

variable {width : Nat} {target dontCare : List Nat}

/-- A prime cube with a target row is the pattern of a prime implicant that holds the row. -/
theorem exists_mem_primes {pattern : Pattern} {index : Nat}
    (prime : PrimeCube width (readRows width (target ++ dontCare)) pattern) (member : index ∈ target)
    (fitting : pattern.fits (readRow width index) = true) :
    ∃ implicant ∈ (PrimeSearch.ofIndices width target dontCare).primes,
      implicant.pattern = pattern ∧ index ∈ implicant.minterms := by
  obtain ⟨implicant, rfl, gathers, held⟩ :=
    exists_gathers (List.mem_append_left dontCare member) fitting
  exact ⟨implicant, (mem_primes_iff (List.ne_nil_of_mem member)).mpr
    ⟨prime, ⟨index, member, held⟩, gathers⟩, rfl, held⟩

/-- **Every target row is in a prime implicant**, whatever the size of its index. -/
theorem primes_cover (width : Nat) (target dontCare : List Nat) :
    ∀ index ∈ target, ∃ implicant ∈ (PrimeSearch.ofIndices width target dontCare).primes,
      implicant.covers index = true := by
  intro index member
  have admissible : Admissible width (target ++ dontCare) (.ofIndex width index) :=
    .ofIndex (List.mem_append_left dontCare member)
  obtain ⟨pattern, prime, within⟩ := admissible.exists_primeCube
  obtain ⟨implicant, found, _, held⟩ :=
    exists_mem_primes prime member (within.fits (Pattern.fits_ofIndex width index))
  exact ⟨implicant, found, decide_eq_true held⟩

/-- The pattern of a prime implicant is a prime cube. -/
theorem prime_of_mem_primes {implicant : Implicant}
    (found : implicant ∈ (PrimeSearch.ofIndices width target dontCare).primes) :
    PrimeCube width (readRows width (target ++ dontCare)) implicant.pattern :=
  ((mem_primes_iff (ne_nil_of_mem_primes found)).mp found).1

/-- If the indices are read as themselves, a prime implicant covers the target rows that its pattern
fits. -/
theorem covers_iff_fits (inTable : InTable width (target ++ dontCare))
    {implicant : Implicant} (found : implicant ∈ (PrimeSearch.ofIndices width target dontCare).primes)
    {index : Nat} (member : index ∈ target) :
    implicant.covers index = true ↔ implicant.pattern.fits index = true := by
  obtain ⟨prime, _, gathers⟩ := (mem_primes_iff (List.ne_nil_of_mem member)).mp found
  rw [Implicant.covers, decide_eq_true_eq, gathers.mem_iff_of_inTable prime.length_eq inTable]
  exact and_iff_right (List.mem_append_left dontCare member)

end Primes

/-! ### The result of a minimization -/

/-- A single implicant is its own selection. -/
theorem selected_singleton {implicant : Implicant} {index : Nat}
    (covers : implicant.covers index = true) :
    ∃ selection, Selection.ofTarget [implicant] [index] = .ok selection ∧
      selection.selected = [implicant] := by
  have only : covering [implicant] index = [0] := by
    simp [covering, covers]
  have rows : (IndexSet.ofList [index]).toList = [index] := rfl
  have essential : essentials [implicant] (.ofList [index]) = [⟨0, implicant, index⟩] := by
    rw [essentials_eq, rows, List.filterMap_cons, essentialAt?, only]
    rfl
  have nothing : Selection.remaining [⟨0, implicant, index⟩] (.ofList [index]) = [] := by
    rw [Selection.remaining, rows]
    simp [covers]
  refine ⟨⟨essentials [implicant] (.ofList [index]), none⟩, ?_, ?_⟩
  · rw [Selection.ofTarget]
    simp [covers, essential, nothing]
  · rw [Selection.selected, essential]
    rfl

/-- Where the search makes passes, the minimization selects from what they find. -/
theorem Minimization.ofIndices_merging {names : List String} {target dontCare : List Nat}
    {rows : IndexSet} {passes : List MergePass} {selection : Selection}
    (search : PrimeSearch.ofIndices names.length target dontCare = .merging rows passes)
    (selects : Selection.ofTarget (PrimeSearch.ofIndices names.length target dontCare).primes
      target = .ok selection) :
    Minimization.ofIndices names target dontCare =
      .ok ⟨PrimeSearch.ofIndices names.length target dontCare, some selection,
        TwoLevel.chart (PrimeSearch.ofIndices names.length target dontCare).primes target names⟩ := by
  rw [search] at selects
  rw [Minimization.ofIndices, search, Minimization.ofSearch]
  simp only [selects]
  rfl

/-- **Every minimization has a result, which selects from the prime implicants**; the shortcut for a
single row selects what the selection would. -/
theorem Minimization.exists_ofIndices (names : List String) (target dontCare : List Nat) :
    ∃ minimization, Minimization.ofIndices names target dontCare = .ok minimization ∧
      minimization.primes = (PrimeSearch.ofIndices names.length target dontCare).primes ∧
      ∃ selection, Selection.ofTarget minimization.primes target = .ok selection ∧
        minimization.selected = selection.selected := by
  have coverable := primes_cover names.length target dontCare
  obtain ⟨selection, selects, _⟩ := Selection.exists_ofTarget coverable
  match target, dontCare with
  | [], _ =>
    refine ⟨_, rfl, rfl, ⟨[], none⟩, rfl, rfl⟩
  | [index], [] =>
    have covers : (Implicant.ofIndex names.length index).covers index = true :=
      decide_eq_true (IndexSet.mem_singleton.mpr rfl)
    obtain ⟨single, singleSelects, same⟩ := selected_singleton covers
    exact ⟨_, rfl, rfl, single, singleSelects, same.symm⟩
  | [index], other :: others =>
    exact ⟨_, ofIndices_merging rfl selects, rfl, selection, selects, rfl⟩
  | first :: second :: rest, dontCare =>
    exact ⟨_, ofIndices_merging rfl selects, rfl, selection, selects, rfl⟩

/-! ### Sums of products -/

/-- The patterns are a sum of products for the target rows: their cubes cover the target and hold no
row but those of the target and those that may also be covered. -/
structure Realizes (width : Nat) (target dontCare : List Nat) (patterns : List Pattern) : Prop where
  length_eq : ∀ pattern ∈ patterns, pattern.length = width
  covers : ∀ index ∈ target, ∃ pattern ∈ patterns, index ∈ pattern.rows
  inside : ∀ pattern ∈ patterns, ∀ row ∈ pattern.rows, row ∈ target ∨ row ∈ dontCare

theorem Realizes.admissible {width : Nat} {target dontCare : List Nat} {patterns : List Pattern}
    (realizes : Realizes width target dontCare patterns)
    (inTable : InTable width (target ++ dontCare)) {pattern : Pattern}
    (member : pattern ∈ patterns) : Admissible width (target ++ dontCare) pattern := by
  refine ⟨realizes.length_eq pattern member, fun row inRows => ?_⟩
  rw [inTable.readRows_eq, List.mem_toFinset, List.mem_append]
  exact realizes.inside pattern member row inRows

/-- The full patterns of the target rows are a sum of products for them. -/
theorem realizes_ofIndex {width : Nat} {target dontCare : List Nat}
    (inTable : InTable width target) :
    Realizes width target dontCare (target.map (Pattern.ofIndex width)) := by
  have rows : ∀ index ∈ target, ∀ row, row ∈ (Pattern.ofIndex width index).rows ↔ row = index := by
    intro index member row
    rw [Pattern.mem_rows, Pattern.length_ofIndex, Pattern.fits_ofIndex_iff, inTable index member]
    refine ⟨fun ⟨below, same⟩ => (Nat.mod_eq_of_lt below).symm.trans same, fun same => ?_⟩
    rw [same]
    exact ⟨inTable.lt member, Nat.mod_eq_of_lt (inTable.lt member)⟩
  refine ⟨Pattern.length_of_mem_map_ofIndex target, fun index member => ?_,
    fun pattern member row inRows => ?_⟩
  · exact ⟨_, List.mem_map_of_mem member, (rows index member index).mpr rfl⟩
  · obtain ⟨index, known, rfl⟩ := List.mem_map.mp member
    exact .inl ((rows index known row).mp inRows ▸ known)

/-- **The exchange**: for any admissible cubes there are as many or fewer positions of prime
implicants, with as many or fewer literals, that cover every target row that one of the cubes
fits. -/
theorem exists_positions {width : Nat} {target dontCare : List Nat}
    (inTable : InTable width (target ++ dontCare)) {patterns : List Pattern}
    (admissible : ∀ pattern ∈ patterns, Admissible width (target ++ dontCare) pattern) :
    ∃ positions : List Nat, positions.length ≤ patterns.length ∧
      literalTotal (patternsAt (PrimeSearch.ofIndices width target dontCare).primes positions) ≤
        literalTotal patterns ∧
      ∀ index ∈ target, (∃ pattern ∈ patterns, pattern.fits index = true) →
        ∃ position ∈ covering (PrimeSearch.ofIndices width target dontCare).primes index,
          position ∈ positions := by
  induction patterns with
  | nil => exact ⟨[], Nat.le_refl _, Nat.le_refl _, fun _ _ ⟨_, member, _⟩ => by cases member⟩
  | cons first rest ih =>
    obtain ⟨positions, fewer, cheaper, covers⟩ :=
      ih fun pattern member => admissible pattern (List.mem_cons_of_mem _ member)
    by_cases useful : ∃ index ∈ target, first.fits index = true
    · obtain ⟨index, member, fitting⟩ := useful
      obtain ⟨pattern, prime, within⟩ :=
        (admissible first List.mem_cons_self).exists_primeCube
      have inRows : List.Mem index (target ++ dontCare) := List.mem_append_left _ member
      rw [← inTable index inRows] at fitting
      obtain ⟨implicant, found, rfl, _⟩ := exists_mem_primes prime member (within.fits fitting)
      obtain ⟨position, here⟩ := List.mem_iff_getElem?.mp found
      refine ⟨position :: positions, Nat.succ_le_succ fewer, ?_, fun row rowIn fits => ?_⟩
      · rw [patternsAt_cons here]
        exact Nat.add_le_add within.literalCount_le cheaper
      · obtain ⟨other, otherIn, otherFits⟩ := fits
        rcases List.mem_cons.mp otherIn with rfl | later
        · refine ⟨position, mem_covering_iff.mpr ⟨implicant, here, ?_⟩, List.mem_cons_self⟩
          exact (covers_iff_fits inTable found rowIn).mpr (within.fits otherFits)
        · obtain ⟨known, covering, listed⟩ := covers row rowIn ⟨other, later, otherFits⟩
          exact ⟨known, covering, List.mem_cons_of_mem _ listed⟩
    · refine ⟨positions, Nat.le_succ_of_le fewer, ?_, fun row rowIn fits => ?_⟩
      · exact Nat.le_trans cheaper (Nat.le_add_left _ _)
      · obtain ⟨other, otherIn, otherFits⟩ := fits
        rcases List.mem_cons.mp otherIn with rfl | later
        · exact absurd ⟨row, rowIn, otherFits⟩ useful
        · exact covers row rowIn ⟨other, later, otherFits⟩

/-! ### The least sum of products -/

section Least

variable {width : Nat} {target dontCare : List Nat} {selection : Selection}

/-- The patterns of a selection from the prime implicants are a sum of products for the target. -/
theorem realizes_selected (inTable : InTable width (target ++ dontCare))
    (selects : Selection.ofTarget (PrimeSearch.ofIndices width target dontCare).primes target =
      .ok selection) :
    Realizes width target dontCare (selection.selected.map Implicant.pattern) := by
  have prime : ∀ pattern ∈ selection.selected.map Implicant.pattern,
      PrimeCube width (readRows width (target ++ dontCare)) pattern := by
    intro pattern member
    obtain ⟨implicant, selected, rfl⟩ := List.mem_map.mp member
    exact prime_of_mem_primes (Selection.mem_of_mem_selected selects selected)
  refine ⟨fun pattern member => (prime pattern member).length_eq, fun index member => ?_,
    fun pattern member row inRows => ?_⟩
  · obtain ⟨implicant, selected, covers⟩ := Selection.covers_selected selects member
    have found := Selection.mem_of_mem_selected selects selected
    have inPatterns := List.mem_map_of_mem (f := Implicant.pattern) selected
    refine ⟨implicant.pattern, inPatterns, Pattern.mem_rows.mpr ⟨?_, ?_⟩⟩
    · rw [(prime _ inPatterns).length_eq]
      exact inTable.lt (List.mem_append_left _ member)
    · exact (covers_iff_fits inTable found member).mp covers
  · have inside := (prime pattern member).inside inRows
    rwa [inTable.readRows_eq, List.mem_toFinset, List.mem_append] at inside

/-- No sum of products for the target costs less than a selection from the prime implicants. -/
theorem cost_selected_le_of_realizes (inTable : InTable width (target ++ dontCare))
    (selects : Selection.ofTarget (PrimeSearch.ofIndices width target dontCare).primes target =
      .ok selection)
    {patterns : List Pattern} (realizes : Realizes width target dontCare patterns) :
    cost (selection.selected.map Implicant.pattern) ≤ cost patterns := by
  obtain ⟨positions, fewer, cheaper, covers⟩ :=
    exists_positions inTable fun pattern member => realizes.admissible inTable member
  have inside : (IndexSet.ofList positions).toList.Subperm positions :=
    List.subperm_of_subset (IndexSet.nodup_toList _) fun position member =>
      IndexSet.mem_ofList.mp member
  calc cost (selection.selected.map Implicant.pattern)
      ≤ toLex ((IndexSet.ofList positions).size, literalTotal (patternsAt _
          (IndexSet.ofList positions).toList)) := by
        refine Selection.cost_selected_le selects fun index member => ?_
        obtain ⟨pattern, listed, inRows⟩ := realizes.covers index member
        obtain ⟨position, covering, known⟩ :=
          covers index member ⟨pattern, listed, (Pattern.mem_rows.mp inRows).2⟩
        exact ⟨position, covering, IndexSet.mem_ofList.mpr known⟩
    _ ≤ cost patterns := by
        rw [cost, Prod.Lex.toLex_le_toLex]
        have size := inside.length_le.trans fewer
        have literals := (literalTotal_patternsAt_le inside).trans cheaper
        rcases Nat.lt_or_eq_of_le size with smaller | same
        · exact .inl smaller
        · exact .inr ⟨same, literals⟩

end Least

namespace Minimization

variable {names : List String} {target dontCare : List Nat} {minimization : Minimization}

/-- What a minimization selects is a selection from the prime implicants. -/
theorem exists_selection (result : ofIndices names target dontCare = .ok minimization) :
    ∃ selection, Selection.ofTarget (PrimeSearch.ofIndices names.length target dontCare).primes
      target = .ok selection ∧ minimization.selected = selection.selected := by
  obtain ⟨other, otherResult, primes, selection, selects, same⟩ :=
    exists_ofIndices names target dontCare
  rw [result] at otherResult
  cases otherResult
  rw [primes] at selects
  exact ⟨selection, selects, same⟩

/-- The selected patterns are a sum of products for the target. -/
theorem realizes (result : ofIndices names target dontCare = .ok minimization)
    (inTable : InTable names.length (target ++ dontCare)) :
    Realizes names.length target dontCare (minimization.selected.map Implicant.pattern) := by
  obtain ⟨selection, selects, same⟩ := exists_selection result
  rw [same]
  exact realizes_selected inTable selects

/-- No sum of products for the target costs less than the selected patterns. -/
theorem cost_le (result : ofIndices names target dontCare = .ok minimization)
    (inTable : InTable names.length (target ++ dontCare)) {patterns : List Pattern}
    (realizes : Realizes names.length target dontCare patterns) :
    cost (minimization.selected.map Implicant.pattern) ≤ cost patterns := by
  obtain ⟨selection, selects, same⟩ := exists_selection result
  rw [same]
  exact cost_selected_le_of_realizes inTable selects realizes

/-- There are at most as many selected patterns as target rows. -/
theorem length_selected_le (result : ofIndices names target dontCare = .ok minimization)
    (inTable : InTable names.length (target ++ dontCare)) :
    minimization.selected.length ≤ target.length := by
  have fewer := length_le_of_cost_le (cost_le result inTable
    (realizes_ofIndex fun index member => inTable index (List.mem_append_left _ member)))
  rwa [List.length_map, List.length_map] at fewer

end Minimization

/-- **Two-level minimality**, as long as a row fits into a word. Up to this number of variables a
minimization stops in no build. For all target rows and rows that may also be covered it has a
result; the patterns it selects realize the target, and no list of patterns that realizes the target
has fewer terms, or equally many with fewer literals. -/
theorem minimization_least (build : Build) {names : List String} (inWord : names.length ≤ Word.size)
    (target dontCare : List Nat)
    (inRange : ∀ index ∈ target ++ dontCare, index < 2 ^ names.length) :
    ∃ minimization,
      Minimization.ofIndicesIn build names target dontCare = some (.ok minimization) ∧
      Realizes names.length target dontCare (minimization.selected.map Implicant.pattern) ∧
      ∀ patterns, Realizes names.length target dontCare patterns →
        cost (minimization.selected.map Implicant.pattern) ≤ cost patterns := by
  obtain ⟨minimization, result, _⟩ := Minimization.exists_ofIndices names target dontCare
  have inTable := InTable.of_lt inWord inRange
  refine ⟨minimization, ?_, Minimization.realizes result inTable,
    fun patterns realizes => Minimization.cost_le result inTable realizes⟩
  rw [Minimization.ofIndicesIn_of_reads (build.reads_of_le inWord), result]

/-- The rows 0 and 1 of two variables, with row 3 allowed: one term with one literal is least. -/
theorem minimization_least_two_rows :
    ∃ minimization,
      Minimization.ofIndicesIn .checked ["A", "B"] [1, 0] [3] = some (.ok minimization) ∧
      Realizes 2 [1, 0] [3] (minimization.selected.map Implicant.pattern) ∧
      cost (minimization.selected.map Implicant.pattern) ≤ cost [[.zero, .dash]] := by
  have realizes : Realizes 2 [1, 0] [3] [[.zero, .dash]] :=
    ⟨by decide, by decide, by decide⟩
  obtain ⟨minimization, result, selected, least⟩ :=
    minimization_least .checked (by decide : ["A", "B"].length ≤ Word.size) [1, 0] [3] (by decide)
  exact ⟨minimization, result, selected, least _ realizes⟩

/-- **Over 65 variables the row 1 is not covered.** A checked build stops, and a wrapping one selects
the pattern of another row. -/
theorem row_uncovered_beyond_word :
    (numberedNames 65).Nodup ∧
      (∀ index ∈ [1] ++ [], index < 2 ^ (numberedNames 65).length) ∧
      Minimization.ofIndicesIn .checked (numberedNames 65) [1] [] = none ∧
      ∃ minimization,
        Minimization.ofIndicesIn .wrapping (numberedNames 65) [1] [] = some (.ok minimization) ∧
        ¬ Realizes (numberedNames 65).length [1] []
          (minimization.selected.map Implicant.pattern) := by
  have width := length_numberedNames 65
  have stops : ¬ Build.checked.Reads (numberedNames 65).length := by
    rw [width]
    decide
  refine ⟨by decide +kernel, by rw [width]; decide,
    Minimization.ofIndicesIn_of_not_reads stops (List.cons_ne_nil _ _) [], _,
    Minimization.ofIndicesIn_of_reads (Build.reads_wrapping _) [1] [], fun realizes => ?_⟩
  obtain ⟨pattern, member, inRows⟩ := realizes.covers 1 (List.mem_singleton.mpr rfl)
  have same : pattern = .ofIndex (numberedNames 65).length 1 := List.mem_singleton.mp member
  rw [same, width] at inRows
  exact not_mem_rows_beyond_word inRows

end TwoLevel
