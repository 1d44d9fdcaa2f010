/-
**The expansion of embedded expressions.**

An embedded expression expands to calls that build it when the program runs. The operands of a call
are borrowed, so that the program keeps the expressions that it holds.

* `Embedded.expand`: the tokens of the calls;
* `CallToken.render`: the tokens with single spaces between them.
-/

import TwoLevel.Embedded.Grammar

namespace TwoLevel

/-- A token of the expansion. -/
inductive CallToken where
  | word (text : String)
  /-- Punctuation of one or two characters. -/
  | mark (text : String)
  /-- A string literal as it is written. -/
  | literal (text : String)
  /-- Tokens in parentheses. -/
  | group (content : List CallToken)
  deriving Inhabited

namespace CallToken

mutual

/-- The written form of a token. -/
def render : CallToken → String
  | word text | mark text | literal text => text
  | group content => "(" ++ renderAll content ++ ")"

/-- Tokens with single spaces between them. -/
def renderAll : List CallToken → String
  | [] => ""
  | [token] => token.render
  | token :: rest => token.render ++ " " ++ renderAll rest

end

/-- A call of one of the functions that build expressions. -/
def call (function : String) (arguments : List CallToken) : List CallToken :=
  [word "BoolExpr", mark "::", word function, group arguments]

/-- A borrowed value. -/
def borrow (value : List CallToken) : List CallToken := [mark "&", group value]

end CallToken

/-- The function that joins two expressions by a connective. -/
def Connective.function : Connective → String
  | .and => "and"
  | .or => "or"
  | .xor => "xor"
  | .nand => "nand"
  | .nor => "nor"

open CallToken in
/-- The tokens of the calls that build an embedded expression. -/
def Embedded.expand : Embedded → List CallToken
  | word name => [.word name]
  | named text => call "variable" [literal text]
  | const value => call "constant" [.word (if value then "true" else "false")]
  | not operand => call "not" (borrow operand.expand)
  | binary op left right =>
    call op.function (borrow left.expand ++ mark "," :: borrow right.expand)

/-- The written expansion of a piece of program source. -/
def expandSource (text : String) : Except EmbeddedError String :=
  (Embedded.ofSource text).map fun embedded => CallToken.renderAll embedded.expand

end TwoLevel
