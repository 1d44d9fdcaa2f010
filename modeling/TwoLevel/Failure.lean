/-
**Failures.**

Why an expression has no answer: its text cannot be read, it has too many variables, or the engine
contradicts itself. Each cause is a constructor; its wording is in one function.

* `SyntaxError.message`, `Failure.message`: the wording;
* `SyntaxError.position?`: the place in the text, counted in characters from zero;
* `Failure.kind`: which of the three kinds a failure is.
-/

namespace TwoLevel

/-- A piece of the text and where it starts. -/
structure Place where
  lexeme : String
  position : Nat
  deriving DecidableEq, Repr, Inhabited

/-- Why a text is not an expression. -/
inductive SyntaxError where
  /-- The character starts no token. -/
  | unrecognizedSymbol (symbol : Char) (position : Nat)
  /-- The token follows a complete expression and does not continue it. -/
  | unexpectedToken (place : Place)
  /-- The connective stands where an operand has to. -/
  | missingOperand (place : Place)
  /-- A parenthesis is open, and what follows does not close it. -/
  | expectedClosing (found : Option Place)
  /-- An operand has to follow and does not. -/
  | expectedOperand (found : Option Place)
  /-- The text has no tokens. -/
  | emptyExpression
  /-- Parentheses and leading NOTs are nested deeper than the limit. -/
  | nestingTooDeep (limit : Nat)
  /-- The tree is higher than the limit. -/
  | treeTooHigh (limit : Nat)
  deriving DecidableEq, Repr, Inhabited

namespace SyntaxError

/-- What stands where something else was expected. -/
def foundText : Option Place → String
  | some place => "\"" ++ place.lexeme ++ "\" at position " ++ toString place.position
  | none => "end of input"

/-- The wording of the error. -/
def message : SyntaxError → String
  | unrecognizedSymbol symbol position =>
    "Unrecognized symbol \"" ++ String.singleton symbol ++ "\" at position " ++ toString position
  | unexpectedToken place =>
    "Unexpected token \"" ++ place.lexeme ++ "\" at position " ++ toString place.position
  | missingOperand place =>
    "Binary operator \"" ++ place.lexeme ++ "\" at position " ++ toString place.position
      ++ " is missing its left operand"
  | expectedClosing found => "Expected closing parenthesis \")\", found " ++ foundText found
  | expectedOperand found =>
    "Expected variable, constant, or parenthesized expression, found " ++ foundText found
  | emptyExpression => "Expression is empty"
  | nestingTooDeep limit =>
    "Expression nesting exceeds the limit of " ++ toString limit ++ " levels"
  | treeTooHigh limit =>
    "Expression is too large: its operator chain exceeds " ++ toString limit ++ " levels"

/-- The place that the error points at, if it points at one. -/
def position? : SyntaxError → Option Nat
  | unrecognizedSymbol _ position => some position
  | unexpectedToken place | missingOperand place => some place.position
  | expectedClosing found | expectedOperand found => found.map Place.position
  | emptyExpression | nestingTooDeep _ | treeTooHigh _ => none

end SyntaxError

/-- A contradiction inside the engine. -/
inductive InternalError where
  /-- A variable has no column in the table. -/
  | unboundVariable (name : String)
  /-- A row that has to be covered is in no implicant. -/
  | uncoverableIndex (index : Nat)
  deriving DecidableEq, Repr, Inhabited

/-- The wording of the error. -/
def InternalError.message : InternalError → String
  | unboundVariable name => "Variable \"" ++ name ++ "\" is not bound in the current row"
  | uncoverableIndex index => "Row " ++ toString index ++ " is not covered by any prime implicant"

/-- The kinds of failure. -/
inductive FailureKind where
  | text
  | meaning
  | engine
  deriving DecidableEq, Repr, Inhabited

/-- The name of a kind in structured output. -/
def FailureKind.name : FailureKind → String
  | text => "SyntaxError"
  | meaning => "SemanticError"
  | engine => "InternalError"

/-- Why an expression has no answer. -/
inductive Failure where
  /-- The text is not an expression. -/
  | unreadable (error : SyntaxError)
  /-- The expression has more variables than the limit allows. -/
  | tooManyVariables (count limit : Nat)
  /-- The engine contradicts itself. -/
  | internal (error : InternalError)
  deriving DecidableEq, Repr, Inhabited

namespace Failure

/-- The kind of the failure. -/
def kind : Failure → FailureKind
  | unreadable _ => .text
  | tooManyVariables _ _ => .meaning
  | internal _ => .engine

/-- The wording of the failure. -/
def message : Failure → String
  | unreadable error => error.message
  | tooManyVariables count limit =>
    "Too many variables: found " ++ toString count ++ ", at most " ++ toString limit
      ++ " are supported"
  | internal error => error.message

/-- The place in the text that the failure points at, if it points at one. -/
def position? : Failure → Option Nat
  | unreadable error => error.position?
  | tooManyVariables _ _ | internal _ => none

/-- Whether the data given are at fault, not the engine. -/
def blamesData (failure : Failure) : Bool := failure.kind != .engine

end Failure

end TwoLevel
