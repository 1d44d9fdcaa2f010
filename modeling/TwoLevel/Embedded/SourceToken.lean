/-
**Tokens of program source.**

Expressions may stand inside the source of a program, where the tokens are those of its language:
words, single marks, literals and brackets.

* `SourceToken`: a token, with its text where the text matters;
* `balanced`: whether every bracket is closed by its counterpart.
-/

namespace TwoLevel.Embedded

/-- The kinds of brackets. -/
inductive Bracket where
  | round
  | square
  | curly
  deriving DecidableEq, Repr, Inhabited

/-- A token of program source. -/
inductive SourceToken where
  | opening (bracket : Bracket)
  | closing (bracket : Bracket)
  /-- An identifier or keyword. -/
  | word (text : String)
  /-- A single punctuation character. -/
  | mark (character : Char)
  /-- A string literal as it is written. -/
  | string (text : String)
  /-- An integer literal as it is written. -/
  | integer (text : String)
  /-- A literal of another kind. -/
  | otherLiteral
  /-- A comment that documents what follows or surrounds it. -/
  | documentation
  deriving DecidableEq, Repr, Inhabited

/-- Whether the tokens close the brackets given, the innermost first, and all that they open. -/
def balanced (pending : List Bracket) : List SourceToken → Bool
  | [] => pending.isEmpty
  | .opening bracket :: rest => balanced (bracket :: pending) rest
  | .closing bracket :: rest =>
    match pending with
    | [] => false
    | innermost :: others => innermost == bracket && balanced others rest
  | _ :: rest => balanced pending rest

end TwoLevel.Embedded
