/-
**Connectives and operators.**

The five binary connectives with their truth functions, printed symbols and precedence, and the
operators of the written language: a connective or NOT. An operator has one name, written in any
case, and several symbols.

* `Connective.apply`: the truth function;
* `Connective.precedence`: OR and NOR bind loosest, then XOR, then AND and NAND; printing follows
  it;
* `Operator.ofKeyword?`, `Operator.ofSymbol?`: the operator that a word or a character writes.
-/

namespace TwoLevel

/-- A binary connective. -/
inductive Connective where
  | and
  | or
  | xor
  | nand
  | nor
  deriving DecidableEq, Repr, Inhabited

namespace Connective

/-- Every connective. -/
def all : List Connective := [.and, .or, .xor, .nand, .nor]

/-- The truth function. -/
def apply : Connective → Bool → Bool → Bool
  | .and, left, right => left && right
  | .or, left, right => left || right
  | .xor, left, right => left != right
  | .nand, left, right => !(left && right)
  | .nor, left, right => !(left || right)

/-- The binding strength; the greater binds tighter. -/
def precedence : Connective → Nat
  | .or | .nor => 1
  | .xor => 2
  | .and | .nand => 3

/-- The character printed between two operands. -/
def symbol : Connective → Char
  | .and => '·'
  | .or => '+'
  | .xor => '⊕'
  | .nand => '⊼'
  | .nor => '⊽'

/-- The name with a capital letter, used in structured output. -/
def title : Connective → String
  | .and => "And"
  | .or => "Or"
  | .xor => "Xor"
  | .nand => "Nand"
  | .nor => "Nor"

end Connective

/-- An operator of the written language. -/
inductive Operator where
  | not
  | binary (connective : Connective)
  deriving DecidableEq, Repr, Inhabited

namespace Operator

/-- Every operator. -/
def all : List Operator := .not :: Connective.all.map .binary

/-- Whether the operator joins two operands. -/
def isBinary : Operator → Bool
  | .not => false
  | .binary _ => true

/-- The letters of the keyword, in capitals. -/
def letters : Operator → List Char
  | .not => ['N', 'O', 'T']
  | .binary .and => ['A', 'N', 'D']
  | .binary .or => ['O', 'R']
  | .binary .xor => ['X', 'O', 'R']
  | .binary .nand => ['N', 'A', 'N', 'D']
  | .binary .nor => ['N', 'O', 'R']

/-- The keyword in capitals. -/
def name (operator : Operator) : String := String.ofList operator.letters

/-- The characters that write the operator. -/
def symbols : Operator → List Char
  | .not => ['!', '~', '¬']
  | .binary .and => ['*', '·', '&', '∧', '×']
  | .binary .or => ['+', '|', '∨']
  | .binary .xor => ['^', '⊕', '⊻']
  | .binary .nand => ['⊼']
  | .binary .nor => ['⊽']

/-- The operator whose keyword a word is, in any mixture of cases of the ASCII letters. -/
def ofKeyword? (word : List Char) : Option Operator :=
  let capitals := word.map Char.toUpper
  all.find? fun operator => operator.letters == capitals

/-- The operator that a single character writes. -/
def ofSymbol? (symbol : Char) : Option Operator :=
  all.find? fun operator => operator.symbols.contains symbol

/-- The operator that a character written twice stands for: `&&` is AND and `||` is OR. -/
def ofDoubled? : Char → Option Operator
  | '&' => some (.binary .and)
  | '|' => some (.binary .or)
  | _ => none

end Operator

end TwoLevel
