/-
**Spelling does not matter.**

A token can be written in several ways: a keyword in any mixture of cases, an operator by any of its
symbols, one or two ampersands. Two texts with the same tokens, each spelled in any way and with any
blanks between them, are read as the same tree or refused by the same error. Blanks keep the lexemes
apart, so that each is the token that it is by itself; and the parser looks at the kinds of tokens
only, at their lexemes and places just to put them into an error.

* `Layout` — lexemes with blanks between them, and maybe around them;
* `tokenize_layout` — **a layout is read as the tokens of its lexemes**;
* `withoutPlaces` — leaving out the lexemes and places of tokens is a respelling;
* `parse_eq_of_alike_lexemes` — two layouts of the same tokens parse alike.
-/

import Mathlib
import TwoLevel.Proofs.Lexemes
import TwoLevel.Proofs.Respelling

namespace TwoLevel

open Text

/-! ### Layouts -/

/-- The text is by itself one token of the kind. -/
def StandsFor (lexeme : String) (kind : TokenKind) : Prop :=
  ∃ token, tokenize lexeme = .ok [token] ∧ token.kind = kind

/-- Each of the texts is by itself one token, and these are of one kind. -/
def SameKind (first second : String) : Prop := ∃ kind, StandsFor first kind ∧ StandsFor second kind

/-- The characters of pieces of text with blanks after each. -/
def piecesText : List (String × String) → List Char
  | [] => []
  | (lexeme, gap) :: pieces => lexeme.toList ++ (gap.toList ++ piecesText pieces)

/-- **Lexemes with blanks between them**: blanks in front, which may be missing, and each lexeme with
the blanks after it, which may be missing after the last one only. -/
structure Layout where
  /-- The blanks before the first lexeme. -/
  lead : String
  /-- The lexemes, each with the blanks after it. -/
  pieces : List (String × String)
  lead_blank : ∀ character ∈ lead.toList, isBlank character = true
  gap_blank : ∀ piece ∈ pieces, ∀ character ∈ piece.2.toList, isBlank character = true
  gap_nonempty : ∀ piece ∈ pieces.dropLast, piece.2 ≠ ""

namespace Layout

/-- The lexemes. -/
def lexemes (layout : Layout) : List String := layout.pieces.map Prod.fst

/-- The text. -/
def text (layout : Layout) : String :=
  layout.lead ++ String.ofList (piecesText layout.pieces)

end Layout

/-! ### The tokens of a layout -/

/-- A text that is one token is this token at every place. -/
theorem StandsFor.tokenizeFrom {lexeme : String} {kind : TokenKind} (stands : StandsFor lexeme kind)
    (position : Nat) :
    ∃ token, tokenizeFrom position lexeme.toList = .ok [token] ∧ token.kind = kind := by
  obtain ⟨token, alone, rfl⟩ := stands
  obtain ⟨others, read, kinds⟩ := exists_tokenizeFrom_at alone position
  obtain ⟨other, rfl, same⟩ := List.map_eq_singleton_iff.mp kinds
  exact ⟨other, read, same⟩

/-- What follows a lexeme starts with a blank, or nothing follows it. -/
theorem blank_of_mem_head? {gap : String} {pieces : List (String × String)}
    (blank : ∀ character ∈ gap.toList, isBlank character = true) (apart : gap = "" → pieces = []) :
    ∀ character ∈ (gap.toList ++ piecesText pieces).head?, isBlank character = true := by
  intro character found
  cases characters : gap.toList with
  | nil =>
    rw [characters, apart (String.toList_eq_nil_iff.mp characters)] at found
    cases found
  | cons first rest =>
    rw [characters] at found blank
    cases found
    exact blank character List.mem_cons_self

/-- Pieces of text are read one by one. -/
theorem exists_tokens_of_pieces {pieces : List (String × String)} {kinds : List TokenKind}
    (blank : ∀ piece ∈ pieces, ∀ character ∈ piece.2.toList, isBlank character = true)
    (apart : ∀ piece ∈ pieces.dropLast, piece.2 ≠ "")
    (stands : List.Forall₂ StandsFor (pieces.map Prod.fst) kinds) (position : Nat) :
    ∃ tokens, tokenizeFrom position (piecesText pieces) = .ok tokens ∧
      tokens.map Token.kind = kinds := by
  induction pieces generalizing kinds position with
  | nil =>
    cases stands
    refine ⟨[], ?_, rfl⟩
    rw [piecesText, tokenizeFrom]
  | cons piece pieces ih =>
    obtain ⟨lexeme, gap⟩ := piece
    cases stands with
    | @cons _ kind _ kinds here later =>
      have gapBlank := blank (lexeme, gap) List.mem_cons_self
      have last : gap = "" → pieces = [] := by
        intro nothing
        cases pieces with
        | nil => rfl
        | cons next others => exact absurd nothing (apart (lexeme, gap) List.mem_cons_self)
      obtain ⟨token, alone, rfl⟩ := here.tokenizeFrom position
      have laterBlank : ∀ piece ∈ pieces, ∀ character ∈ piece.2.toList, isBlank character = true :=
        fun piece member => blank piece (List.mem_cons_of_mem _ member)
      have laterApart : ∀ piece ∈ pieces.dropLast, piece.2 ≠ "" := by
        intro piece member
        cases pieces with
        | nil => cases member
        | cons next others => exact apart piece (List.mem_cons_of_mem _ member)
      obtain ⟨tokens, read, rfl⟩ := ih laterBlank laterApart later
        (position + lexeme.toList.length + gap.toList.length)
      refine ⟨token :: tokens, ?_, rfl⟩
      rw [piecesText, tokenizeFrom_append position _ (blank_of_mem_head? gapBlank last), alone,
        tokenizeFrom_blanks gapBlank, read]
      rfl

/-- **A layout is read as the tokens of its lexemes.** -/
theorem tokenize_layout {layout : Layout} {kinds : List TokenKind}
    (stands : List.Forall₂ StandsFor layout.lexemes kinds) :
    ∃ tokens, tokenize layout.text = .ok tokens ∧ tokens.map Token.kind = kinds := by
  obtain ⟨tokens, read, same⟩ := exists_tokens_of_pieces layout.gap_blank layout.gap_nonempty stands
    (0 + layout.lead.toList.length)
  refine ⟨tokens, ?_, same⟩
  rw [tokenize, Layout.text, String.toList_append, String.toList_ofList,
    tokenizeFrom_blanks layout.lead_blank, read]

/-! ### Reading without places -/

/-- The place that all tokens have when places are left out. -/
def noPlace : Place := ⟨"", 0⟩

/-- The error without the lexeme and the position that it points at. -/
def SyntaxError.withoutPlace : SyntaxError → SyntaxError := replace fun _ => noPlace

/-- The token of a kind when lexemes and places are left out. -/
def TokenKind.alone (kind : TokenKind) : Token := ⟨kind, noPlace.lexeme, noPlace.position⟩

/-- **Leaving out the lexemes and places of tokens is a respelling.** -/
def withoutPlaces : Respelling where
  token given := given.kind.alone
  place _ := noPlace
  whole tokens := (tokens.map Token.kind).map TokenKind.alone
  after tokens := (tokens.map Token.kind).map TokenKind.alone
  kind_token _ := rfl
  place_token _ := rfl
  whole_nil := rfl
  after_nil := rfl
  whole_cons first rest := by
    rw [ite_self]
    rfl
  after_cons _ _ _ := rfl
  juncture?_after first rest starts precedence := by
    have same : first.kind.alone.kind.startsTerm = true := starts
    rw [juncture?_cons_of_starts starts]
    show juncture? precedence (first.kind.alone :: _) = _
    rw [juncture?_cons_of_starts same]
    split <;> rfl

/-- The parser looks at the kinds of tokens only. -/
theorem ofTokens_eq_of_kinds (nesting : Nat) {first second : List Token}
    (same : first.map Token.kind = second.map Token.kind) :
    (Expr.ofTokens nesting first).mapError SyntaxError.withoutPlace =
      (Expr.ofTokens nesting second).mapError SyntaxError.withoutPlace := by
  have firstRead := withoutPlaces.ofTokens_whole nesting first
  have secondRead := withoutPlaces.ofTokens_whole nesting second
  have bare : withoutPlaces.whole first = withoutPlaces.whole second :=
    congrArg (List.map TokenKind.alone) same
  rw [bare, secondRead] at firstRead
  exact firstRead.symm

/-- Lexemes of the same kinds have these kinds. -/
theorem exists_kinds {first second : List String} (alike : List.Forall₂ SameKind first second) :
    ∃ kinds, List.Forall₂ StandsFor first kinds ∧ List.Forall₂ StandsFor second kinds := by
  induction alike with
  | nil => exact ⟨[], .nil, .nil⟩
  | cons same _ ih =>
    obtain ⟨kind, firstStands, secondStands⟩ := same
    obtain ⟨kinds, firsts, seconds⟩ := ih
    exact ⟨kind :: kinds, .cons firstStands firsts, .cons secondStands seconds⟩

/-- **Spelling does not matter.** Two texts whose lexemes, one by one, are tokens of the same kind, set
out with any blanks, are read alike under every limit: as the same tree, or with the same error but
for the lexeme and the position that it points at. -/
theorem parse_eq_of_alike_lexemes {first second : Layout}
    (alike : List.Forall₂ SameKind first.lexemes second.lexemes) (nesting : Nat) :
    (Expr.parse nesting first.text).mapError SyntaxError.withoutPlace =
      (Expr.parse nesting second.text).mapError SyntaxError.withoutPlace := by
  obtain ⟨kinds, firstStands, secondStands⟩ := exists_kinds alike
  obtain ⟨firstTokens, firstTokenized, firstKinds⟩ := tokenize_layout firstStands
  obtain ⟨secondTokens, secondTokenized, secondKinds⟩ := tokenize_layout secondStands
  rw [Expr.parse, Expr.parse, firstTokenized, secondTokenized]
  exact ofTokens_eq_of_kinds nesting (firstKinds.trans secondKinds.symm)

/-- The text of a negated name and a stray closing parenthesis, in symbols. -/
def plainLayout : Layout where
  lead := ""
  pieces := [("!", " "), ("a", " "), (")", " "), ("1", "")]
  lead_blank := by simp
  gap_blank := by simp [isBlank, inRanges, blankRanges]
  gap_nonempty := by simp

/-- The same with a keyword, and with a no-break space and a line break among the blanks. -/
def spacedLayout : Layout where
  lead := "  "
  pieces := [("NoT", "\u00a0"), ("a", " \n"), (")", " "), ("1", " ")]
  lead_blank := by simp [isBlank, inRanges, blankRanges]
  gap_blank := by simp [isBlank, inRanges, blankRanges]
  gap_nonempty := by simp

/-- The parenthesis is refused in both, at different places. -/
theorem parse_eq_of_alike_lexemes_stray_closing :
    List.Forall₂ SameKind plainLayout.lexemes spacedLayout.lexemes ∧
      Expr.parse 1 plainLayout.text = .error (.unexpectedToken ⟨")", 4⟩) ∧
      Expr.parse 1 spacedLayout.text = .error (.unexpectedToken ⟨")", 9⟩) ∧
      (Expr.parse 1 plainLayout.text).mapError SyntaxError.withoutPlace =
        (Expr.parse 1 spacedLayout.text).mapError SyntaxError.withoutPlace := by
  have negation : SameKind "!" "NoT" :=
    ⟨.op .not, ⟨⟨_, "!", 0⟩, by cbv, rfl⟩, ⟨⟨_, "NoT", 0⟩, by cbv, rfl⟩⟩
  have name : SameKind "a" "a" :=
    ⟨.var "a", ⟨⟨_, "a", 0⟩, by cbv, rfl⟩, ⟨⟨_, "a", 0⟩, by cbv, rfl⟩⟩
  have closing : SameKind ")" ")" :=
    ⟨.closing, ⟨⟨_, ")", 0⟩, by cbv, rfl⟩, ⟨⟨_, ")", 0⟩, by cbv, rfl⟩⟩
  have constant : SameKind "1" "1" :=
    ⟨.const true, ⟨⟨_, "1", 0⟩, by cbv, rfl⟩, ⟨⟨_, "1", 0⟩, by cbv, rfl⟩⟩
  have alike : List.Forall₂ SameKind plainLayout.lexemes spacedLayout.lexemes :=
    .cons negation (.cons name (.cons closing (.cons constant .nil)))
  refine ⟨alike, ?_, ?_, parse_eq_of_alike_lexemes alike 1⟩
  · cbv
  · cbv

end TwoLevel
