/-
**What an expansion builds.**

The calls of an expansion are run: the tokens of a call build a tree, given the trees that the
program holds under its names. A string literal stands for its value, with the escapes resolved.

* `QuoteState.added`, `stringValue?` — the value of a string literal;
* `CallToken.value?` — the tree that calls build;
* `Embedded.tree?` — the tree of an embedded expression;
* `value?_expand` — **the calls of an expansion build the tree of the expression**.
-/

import TwoLevel.Embedded.Expansion
import TwoLevel.Expr.Basic

namespace TwoLevel

/-! ### The value of a string literal -/

namespace Embedded

/-- What a character adds to the value of a string, in the state before it. A line break is a line
feed; escaped ones are left out with the blanks after them. -/
def QuoteState.added : QuoteState → Char → List Char
  | .plain, '\\' | .plain, '\r' => []
  | .plain, character => [character]
  | .carriage, _ => ['\n']
  | .backslash, 'n' => ['\n']
  | .backslash, 'r' => ['\r']
  | .backslash, 't' => ['\t']
  | .backslash, '0' => ['\x00']
  | .backslash, character => if character ∈ ['\\', '\'', '"'] then [character] else []
  | .highDigit, _ | .brace, _ | .marginCarriage, _ => []
  | .lowDigit high, low =>
    [Char.ofNat (16 * (hexValue? high).getD 0 + (hexValue? low).getD 0)]
  | .codePoint value _, character => if character = '\x7d' then [Char.ofNat value] else []
  | .margin, character =>
    if character ∈ [' ', '\t', '\n', '\r', '\\'] then [] else [character]

/-- The value of a string from a state on, whose closing quote ends the literal. -/
def quotedValue? (state : QuoteState) : List Char → Option (List Char)
  | [] => none
  | character :: rest =>
    if character = '"' && state.mayEnd then if rest.isEmpty then some [] else none
    else do
      let next ← QuoteRules.string.next? state character
      return state.added character ++ (← quotedValue? next rest)

/-- The value of a raw string from after its opening quote, which closes with a quote and a number
of `#`. -/
def rawValue? (hashes : Nat) : List Char → Option (List Char)
  | [] => none
  | character :: rest =>
    if character = '"' && rest.take hashes == List.replicate hashes '#' then
      if rest.length = hashes then some [] else none
    else if character = '\r' then rawValue? hashes rest
    else (rawValue? hashes rest).map (character :: ·)

/-- The value of a string literal as it is written. One with a word after its quote has none. -/
def stringValue? (literal : String) : Option String :=
  match literal.toList with
  | '"' :: rest => (quotedValue? .plain rest).map String.ofList
  | 'r' :: rest =>
    let hashes := (rest.takeWhile (· = '#')).length
    match rest.drop hashes with
    | '"' :: content => (rawValue? hashes content).map String.ofList
    | _ => none
  | _ => none

end Embedded

open Embedded

/-! ### The value of calls -/

/-- The connective that a function joins by. -/
def Connective.ofFunction? (function : String) : Option Connective :=
  Connective.all.find? fun op => op.function = function

/-- The truth value that a word writes. -/
def truthValue? (word : String) : Option Bool :=
  if word = "true" then some true else if word = "false" then some false else none

/-- The tree that the tokens build when a program runs them that holds a tree under each name. -/
def CallToken.value? (held : String → Expr) : List CallToken → Option Expr
  | [word name] => some (held name)
  | [word type, mark path, word function, group arguments] =>
    if type = "BoolExpr" ∧ path = "::" then
      match arguments with
      | [literal text] => if function = "variable" then (stringValue? text).map .var else none
      | [word value] => if function = "constant" then (truthValue? value).map .const else none
      | [mark borrow, group operand] =>
        if borrow = "&" ∧ function = "not" then (value? held operand).map .not else none
      | [mark borrow, group left, mark comma, mark otherBorrow, group right] =>
        if borrow = "&" ∧ comma = "," ∧ otherBorrow = "&" then do
          let op ← Connective.ofFunction? function
          return .binary op (← value? held left) (← value? held right)
        else none
      | _ => none
    else none
  | _ => none

/-- The tree of an embedded expression, in a program that holds a tree under each name. -/
def Embedded.tree? (held : String → Expr) : Embedded → Option Expr
  | word name => some (held name)
  | named literal => (stringValue? literal).map .var
  | const value => some (.const value)
  | not operand => (operand.tree? held).map .not
  | binary op left right => do return .binary op (← left.tree? held) (← right.tree? held)

section Values

variable {held : String → Expr}

theorem ofFunction?_function (op : Connective) :
    Connective.ofFunction? op.function = some op := by
  cases op <;> decide

/-- The value of a call that negates. -/
theorem value?_not (operand : List CallToken) :
    CallToken.value? held (CallToken.call "not" (CallToken.borrow operand)) =
      (CallToken.value? held operand).map .not := by
  rw [CallToken.call, CallToken.borrow, CallToken.value?, if_pos ⟨rfl, rfl⟩, if_pos ⟨rfl, rfl⟩]

/-- The value of a call that joins. -/
theorem value?_join (op : Connective) (left right : List CallToken) :
    CallToken.value? held
        (CallToken.call op.function
          (CallToken.borrow left ++ .mark "," :: CallToken.borrow right)) =
      (do return .binary op (← CallToken.value? held left) (← CallToken.value? held right)) := by
  rw [CallToken.call, CallToken.borrow, CallToken.borrow]
  show CallToken.value? held [_, _, _, .group [_, _, _, _, _]] = _
  rw [CallToken.value?, if_pos ⟨rfl, rfl⟩, if_pos ⟨rfl, rfl, rfl⟩, ofFunction?_function]
  rfl

/-- **The calls of an expansion build the tree of the expression.** -/
theorem value?_expand (embedded : Embedded) :
    CallToken.value? held embedded.expand = embedded.tree? held := by
  induction embedded with
  | word name => rw [Embedded.expand, CallToken.value?, Embedded.tree?]
  | named literal =>
    rw [Embedded.expand, CallToken.call, CallToken.value?, if_pos ⟨rfl, rfl⟩, if_pos rfl,
      Embedded.tree?]
  | const value =>
    rw [Embedded.expand, CallToken.call, CallToken.value?, if_pos ⟨rfl, rfl⟩, if_pos rfl,
      Embedded.tree?]
    cases value <;> rfl
  | not operand ih => rw [Embedded.expand, value?_not, ih, Embedded.tree?]
  | binary op left right leftIh rightIh =>
    rw [Embedded.expand, value?_join, leftIh, rightIh, Embedded.tree?]

end Values

end TwoLevel
