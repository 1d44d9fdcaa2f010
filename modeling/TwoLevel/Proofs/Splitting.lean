/-
**Texts joined and split again.**

Pieces are joined by a mark between blanks. No piece has the mark, and the mark is the second of the
three characters of the separator: so the separator begins nowhere inside a piece, also not at its
last character, and splitting the text at the separator gives back the pieces.

* `spaced`, `joined` — a mark between blanks, and pieces with a separator between them;
* `not_mem_joined` — the characters that a joined text does not have;
* `not_matchesAt_of_unmarked` — no separator begins inside a piece;
* `split_joined` — splitting a joined text gives back the pieces.
-/

namespace TwoLevel

open String.Slice.Pattern String.Slice.Pattern.Model

/-- A mark between blanks. -/
def spaced (mark : Char) : String := " " ++ String.singleton mark ++ " "

theorem spaced_ne_empty (mark : Char) : spaced mark ≠ "" := by simp [spaced]

/-! ### Joining -/

/-- The texts with the separator between them; the text given for the case that there are none. -/
def joined (separator empty : String) : List String → String
  | [] => empty
  | first :: others => separator.intercalate (first :: others)

/-- What is in no piece and not in the separator is not in the joined text. -/
theorem not_mem_joined {separator empty : String} {pieces : List String} {character : Char}
    (noEmpty : character ∉ empty.toList) (noSeparator : character ∉ separator.toList)
    (noPiece : ∀ piece ∈ pieces, character ∉ piece.toList) :
    character ∉ (joined separator empty pieces).toList := by
  cases pieces with
  | nil => exact noEmpty
  | cons first others =>
    induction others generalizing first with
    | nil =>
      rw [joined, String.intercalate_singleton]
      exact noPiece first List.mem_cons_self
    | cons second later ih =>
      rw [joined, String.intercalate_cons_cons, String.toList_append, String.toList_append,
        List.mem_append, List.mem_append, not_or, not_or]
      exact ⟨⟨noPiece first List.mem_cons_self, noSeparator⟩,
        ih second fun piece listed => noPiece piece (List.mem_cons_of_mem _ listed)⟩

/-! ### Splitting -/

section Splitting

variable {mark : Char} {text : String.Slice} {start stop : text.Pos} {front piece rest : String}

/-- What may follow a piece: nothing, or a separator. -/
def EndsPiece (mark : Char) (rest : String) : Prop :=
  rest = "" ∨ ∃ more, rest = spaced mark ++ more

/-- A text without the mark, unless it is empty, does not begin with a separator: the mark is the
second character of a separator, and what may follow the text does not begin with it. -/
theorem append_ne_spaced (solid : mark ≠ ' ') (nonempty : piece ≠ "")
    (unmarked : mark ∉ piece.toList) (next : EndsPiece mark rest) (after : String) :
    piece ++ rest ≠ spaced mark ++ after := by
  intro same
  have same := congrArg String.toList same
  cases letters : piece.toList with
  | nil => exact nonempty (String.toList_eq_nil_iff.mp letters)
  | cons first others =>
    rw [letters] at unmarked
    rw [String.toList_append, letters] at same
    cases others with
    | cons second others =>
      simp only [spaced, String.toList_append, String.toList_singleton] at same
      simp_all
    | nil =>
      rcases next with rfl | ⟨more, rfl⟩
      · simp [spaced] at same
      · simp only [spaced, String.toList_append, String.toList_singleton] at same
        simp_all

/-- No separator begins inside a piece. -/
theorem not_matchesAt_of_unmarked (solid : mark ≠ ' ') (unmarked : mark ∉ piece.toList)
    (next : EndsPiece mark rest) (starts : start.Splits front (piece ++ rest))
    (stops : stop.Splits (front ++ piece) rest) (place : text.Pos) (above : start ≤ place)
    (below : place < stop) : ¬ MatchesAt (spaced mark) place := by
  intro matching
  obtain ⟨before, after, found⟩ := ForwardStringSearcher.matchesAt_iff_splits.mp matching
  obtain ⟨head, rfl, _⟩ := (starts.le_iff_exists_eq_append found).mp above
  obtain ⟨tail, nonempty, parts, follows⟩ := (found.lt_iff_exists_eq_append stops).mp below
  rw [String.append_assoc, String.append_right_inj] at parts
  have tailUnmarked : mark ∉ tail.toList := by
    intro inside
    apply unmarked
    rw [parts, String.toList_append]
    exact List.mem_append_right _ inside
  exact append_ne_spaced solid nonempty tailUnmarked next after follows.symm

/-- The search for separators goes over a piece to its end. -/
theorem split_piece [StrictPatternModel (spaced mark)] (solid : mark ≠ ' ')
    (unmarked : mark ∉ piece.toList) (next : EndsPiece mark rest)
    (starts : start.Splits front (piece ++ rest)) (stops : stop.Splits (front ++ piece) rest) :
    ∃ inOrder : start ≤ stop,
      Model.split (spaced mark) start start (Std.le_refl _) =
        Model.split (spaced mark) start stop inOrder ∧
      (text.slice start stop inOrder).copy = piece := by
  obtain ⟨inOrder, copied⟩ := String.Slice.copy_slice_eq_iff_splits.mpr ⟨front, rest, starts, stops⟩
  exact ⟨inOrder, split_eq_of_not_matchesAt stop inOrder
    (not_matchesAt_of_unmarked solid unmarked next starts stops), copied⟩

/-- From the beginning of a piece on, the search gives this piece and those after it. -/
theorem split_pieces [StrictPatternModel (spaced mark)] (solid : mark ≠ ' ') {pieces : List String}
    (unmarked : ∀ other ∈ piece :: pieces, mark ∉ other.toList)
    (starts : start.Splits front ((spaced mark).intercalate (piece :: pieces))) :
    (Model.split (spaced mark) start start (Std.le_refl _)).map (fun part => part.toSlice.copy) =
      piece :: pieces := by
  have headUnmarked := unmarked piece List.mem_cons_self
  induction pieces generalizing piece start front with
  | nil =>
    rw [String.intercalate_singleton, ← String.append_empty (s := piece)] at starts
    have stops : text.endPos.Splits (front ++ piece) "" := by
      rw [String.Slice.splits_endPos_iff]
      simpa using starts.eq_append.symm
    obtain ⟨inOrder, found, copied⟩ := split_piece solid headUnmarked (.inl rfl) starts stops
    rw [found, split_endPos]
    simpa using copied
  | cons second others ih =>
    rw [String.intercalate_cons_cons, String.append_assoc] at starts
    have whole := starts.eq_append
    rw [← String.append_assoc] at whole
    have stops := String.Slice.Pos.splits_ofEqAppend whole
    rw [← String.append_assoc] at whole
    have resumes := String.Slice.Pos.splits_ofEqAppend whole
    obtain ⟨inOrder, found, copied⟩ := split_piece solid headUnmarked (.inr ⟨_, rfl⟩) starts stops
    have separator : IsLongestMatchAt (spaced mark) _ _ :=
      ForwardStringSearcher.isLongestMatchAt_iff_splits.mpr ⟨_, _, stops, resumes⟩
    have later := ih (fun other listed => unmarked other (List.mem_cons_of_mem _ listed)) resumes
      (unmarked second (List.mem_cons_of_mem _ List.mem_cons_self))
    rw [found, split_eq_of_isLongestMatchAt separator, List.map_cons, later]
    simpa using copied

end Splitting

/-- **Splitting at the separator gives back the pieces**, as long as none has the mark. -/
theorem split_joined {mark : Char} (solid : mark ≠ ' ') (empty : String) {pieces : List String}
    (nonempty : pieces ≠ []) (unmarked : ∀ piece ∈ pieces, mark ∉ piece.toList) :
    ((joined (spaced mark) empty pieces).split (spaced mark)).toList.map String.Slice.copy =
      pieces := by
  have strict := ForwardStringSearcher.strictPatternModel (spaced_ne_empty mark)
  have lawful := ForwardStringSearcher.lawfulToForwardSearcherModel (spaced_ne_empty mark)
  cases pieces with
  | nil => exact absurd rfl nonempty
  | cons first others =>
    let text := (spaced mark).intercalate (first :: others)
    have starts : text.toSlice.startPos.Splits "" text := by
      rw [String.Slice.splits_startPos_iff, String.copy_toSlice]
      exact ⟨rfl, rfl⟩
    rw [String.split_eq_split_toSlice, String.Slice.toList_split_eq_splitToSubslice,
      toList_splitToSubslice_eq_modelSplit, List.map_map]
    exact split_pieces solid unmarked starts

end TwoLevel
