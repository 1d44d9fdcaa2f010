/-
**Tokens.**

A token is what a stretch of the text stands for, with the stretch itself and its place.

* `Token.startsTerm`: whether a token can begin an operand, so that it continues an expression
  without a connective in between.
-/

import TwoLevel.Connective
import TwoLevel.Failure

namespace TwoLevel

/-- What a token stands for. -/
inductive TokenKind where
  /-- An opening parenthesis. -/
  | opening
  /-- A closing parenthesis. -/
  | closing
  /-- The mark that negates the operand before it. -/
  | prime
  | const (value : Bool)
  | var (name : String)
  | op (operator : Operator)
  deriving DecidableEq, Repr, Inhabited

/-- A token: what it stands for, how it is written, and where it starts, counted in characters. -/
structure Token where
  kind : TokenKind
  lexeme : String
  position : Nat
  deriving DecidableEq, Repr, Inhabited

/-- Whether a token of this kind can begin an operand. -/
def TokenKind.startsTerm : TokenKind → Bool
  | opening | const _ | var _ | op .not => true
  | closing | prime | op (.binary _) => false

namespace Token

/-- Whether the token can begin an operand. -/
def startsTerm (token : Token) : Bool := token.kind.startsTerm

/-- The stretch of the text that the token covers. -/
def place (token : Token) : Place := ⟨token.lexeme, token.position⟩

end Token

end TwoLevel
