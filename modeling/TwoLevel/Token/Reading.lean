/-
**From text to tokens.**

Blanks separate tokens and are skipped. The longest token is read: a name or keyword extends as far
as letters, digits and underscores do, and `&&` and `||` are one token each. The digits `0` and `1`
are tokens of their own unless they continue a name.

* `munch`: the kind of the token at the head of the text, the rest of its lexeme, and what follows;
* `append_of_munch`: the lexeme and what follows it make up the text;
* `tokenize`: the tokens of a text, or the first character that starts none.
-/

import TwoLevel.Text.Blank
import TwoLevel.Token.Basic

namespace TwoLevel

open Text

/-- What a character stands for that is always a token by itself. -/
def markKind? : Char → Option TokenKind
  | '(' => some .opening
  | ')' => some .closing
  | '\'' => some .prime
  | '0' => some (.const false)
  | '1' => some (.const true)
  | _ => none

/-- Whether a name can start with the character. -/
def isNameStart (character : Char) : Bool := character.isAlpha || character == '_'

/-- Whether a name can continue with the character. -/
def isNameRest (character : Char) : Bool := character.isAlphanum || character == '_'

/-- What a word stands for: a keyword for its operator, any other word for the variable. -/
def wordKind (word : List Char) : TokenKind :=
  match Operator.ofKeyword? word with
  | some operator => .op operator
  | none => .var (String.ofList word)

/-- The token at the head of a text that starts with `first`: its kind, the characters of its lexeme
after the first, and the characters after it. -/
def munch (first : Char) (rest : List Char) : Option (TokenKind × List Char × List Char) :=
  match markKind? first with
  | some kind => some (kind, [], rest)
  | none =>
    if isNameStart first then
      let tail := rest.takeWhile isNameRest
      some (wordKind (first :: tail), tail, rest.dropWhile isNameRest)
    else
      match Operator.ofDoubled? first, rest with
      | some operator, second :: others =>
        if second = first then some (.op operator, [second], others)
        else (Operator.ofSymbol? first).map fun single => (.op single, [], rest)
      | _, _ => (Operator.ofSymbol? first).map fun single => (.op single, [], rest)

/-- The lexeme and what follows it make up the text. -/
theorem append_of_munch {first : Char} {rest tail others : List Char} {kind : TokenKind}
    (read : munch first rest = some (kind, tail, others)) : tail ++ others = rest := by
  have single : ∀ {found : Option Operator},
      found.map (fun operator => (TokenKind.op operator, ([] : List Char), rest))
        = some (kind, tail, others) → tail ++ others = rest := by
    intro found same
    obtain ⟨_, _, equal⟩ := Option.map_eq_some_iff.mp same
    simp only [Prod.mk.injEq] at equal
    rw [← equal.2.1, ← equal.2.2, List.nil_append]
  unfold munch at read
  split at read
  · simp only [Option.some.injEq, Prod.mk.injEq] at read
    rw [← read.2.1, ← read.2.2, List.nil_append]
  · split at read
    · simp only [Option.some.injEq, Prod.mk.injEq] at read
      rw [← read.2.1, ← read.2.2, List.takeWhile_append_dropWhile]
    · split at read
      · split at read
        · simp only [Option.some.injEq, Prod.mk.injEq] at read
          rw [← read.2.1, ← read.2.2, List.singleton_append]
        · exact single read
      · exact single read

/-- What follows a token is no longer than what follows its first character. -/
theorem length_munch_le {first : Char} {rest tail others : List Char} {kind : TokenKind}
    (read : munch first rest = some (kind, tail, others)) : others.length ≤ rest.length := by
  rw [← append_of_munch read, List.length_append]
  exact Nat.le_add_left _ _

/-- The tokens of a text whose first character has the position given. -/
def tokenizeFrom (position : Nat) : List Char → Except SyntaxError (List Token)
  | [] => .ok []
  | first :: rest =>
    if isBlank first then tokenizeFrom (position + 1) rest
    else
      match read : munch first rest with
      | none => .error (.unrecognizedSymbol first position)
      | some (kind, tail, others) =>
        have : others.length ≤ rest.length := length_munch_le read
        match tokenizeFrom (position + 1 + tail.length) others with
        | .error error => .error error
        | .ok tokens => .ok (⟨kind, String.ofList (first :: tail), position⟩ :: tokens)
termination_by characters => characters.length

/-- The tokens of a text. -/
def tokenize (text : String) : Except SyntaxError (List Token) := tokenizeFrom 0 text.toList

end TwoLevel
