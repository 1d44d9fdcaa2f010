/-
**From source tokens to embedded expressions.**

The grammar of expressions inside program source has levels like that of texts, with single marks
for the connectives:

    or      := xor (("+" | "|") xor)*
    xor     := and ("^" and)*
    and     := operand (("*" | "&") operand)*
    operand := ("!" | "~") operand | "(" or ")" | string | integer | word

There is no limit to nesting, and no operand follows another one directly.

* `Embedded.ofTokens`: the expression that source tokens write;
* `Embedded.ofSource`: the expression that a piece of program source writes.
-/

import TwoLevel.Chain
import TwoLevel.Embedded.Scanning

namespace TwoLevel

/-- An expression inside program source. -/
inductive Embedded where
  /-- An expression that the program holds under a name. -/
  | word (name : String)
  /-- The variable named by a string literal, given as it is written. -/
  | named (literal : String)
  | const (value : Bool)
  | not (operand : Embedded)
  | binary (op : Connective) (left right : Embedded)
  deriving DecidableEq, Repr, Inhabited

/-- Why a piece of program source is no expression. -/
inductive EmbeddedError where
  /-- It does not consist of tokens with balanced brackets. -/
  | notSource
  /-- It ends, or a group ends, where an operand has to be. -/
  | endOfInput
  /-- A keyword stands where an operand has to be. -/
  | keyword (word : String)
  /-- Something else stands where an operand has to be. -/
  | noOperand
  /-- An integer is greater than a byte. -/
  | numberTooLarge
  /-- An integer has a sign. -/
  | signedNumber
  /-- An integer is neither zero nor one. -/
  | noTruthValue
  /-- Something follows a complete expression. -/
  | unexpectedToken
  /-- Something follows a complete expression in parentheses. -/
  | unexpectedTokenInGroup
  deriving DecidableEq, Repr, Inhabited

/-- The wording of the error. -/
def EmbeddedError.message : EmbeddedError → String
  | notSource => "cannot parse string into token stream"
  | endOfInput => "unexpected end of input, expected identifier"
  | keyword word => "expected identifier, found keyword `" ++ word ++ "`"
  | noOperand => "expected identifier"
  | numberTooLarge => "number too large to fit in target type"
  | signedNumber => "invalid digit found in string"
  | noTruthValue => "only 0 and 1 are supported as boolean constants"
  | unexpectedToken => "unexpected token in boolean expression"
  | unexpectedTokenInGroup => "unexpected token in parenthesized expression"

namespace Embedded

/-! ### Tiers -/

/-- The connective that a mark writes at a level. -/
def connectiveAt? : (level : Nat) → Char → Option Connective
  | 1, '+' | 1, '|' => some .or
  | 2, '^' => some .xor
  | 3, '*' | 3, '&' => some .and
  | _, _ => none

/-- Where a chain of one level goes on. -/
def juncture? (level : Nat) : List SourceToken → Option (Connective × List SourceToken)
  | .mark character :: rest => (connectiveAt? level character).map fun op => (op, rest)
  | _ => none

theorem length_juncture_le {level : Nat} {tokens rest : List SourceToken} {op : Connective}
    (found : juncture? level tokens = some (op, rest)) : rest.length ≤ tokens.length := by
  unfold juncture? at found
  split at found
  · obtain ⟨_, _, same⟩ := Option.map_eq_some_iff.mp found
    rw [← (Prod.mk.inj same).2, List.length_cons]
    exact Nat.le_succ _
  · simp at found

/-- The chains of one level in program source; no join is refused. -/
def sourceTier (level : Nat) : Tier SourceToken Embedded EmbeddedError where
  juncture? := juncture? level
  length_le := length_juncture_le
  join op left right := .ok (binary op left right)

/-- A way to read an expression from source tokens. -/
abbrev SourceReader := Reader SourceToken Embedded EmbeddedError

/-! ### Operands -/

/-- The words that name no value. -/
def keywords : List String :=
  ["_", "abstract", "as", "async", "await", "become", "box", "break", "const", "continue", "crate",
    "do", "dyn", "else", "enum", "extern", "false", "final", "fn", "for", "if", "impl", "in", "let",
    "loop", "macro", "match", "mod", "move", "mut", "override", "priv", "pub", "ref", "return",
    "Self", "self", "static", "struct", "super", "trait", "true", "try", "type", "typeof", "unsafe",
    "unsized", "use", "virtual", "where", "while", "yield"]

/-- The value of an integer literal: the digits of its base, without underscores and suffix. -/
def integerValue (literal : List Char) : Nat :=
  let (base, announced) := baseOf literal
  let counts (character : Char) : Bool :=
    character == '_' || (hexValue? character).any (· < base)
  let digits := (literal.drop announced).takeWhile counts
  (digits.filterMap hexValue?).foldl (fun total digit => base * total + digit) 0

/-- The constant that an integer literal writes. -/
def constant (literal : String) : Except EmbeddedError Embedded :=
  match integerValue literal.toList with
  | 0 => .ok (const false)
  | 1 => .ok (const true)
  | value => .error (if value < 256 then .noTruthValue else .numberTooLarge)

/-- Read an operand, when the operands one level deeper are read by `inner?`. -/
def operandWith (inner? : Option SourceReader) : SourceReader
  | [] => .error .endOfInput
  | token :: rest =>
    match token, inner? with
    | .closing _, _ => .error .endOfInput
    | .string literal, _ => .ok ⟨(named literal, rest), Nat.lt_succ_self _⟩
    | .integer literal, _ => do
      return ⟨(← constant literal, rest), Nat.lt_succ_self _⟩
    | .word name, _ =>
      if keywords.contains name then .error (.keyword name)
      else .ok ⟨(word name, rest), Nat.lt_succ_self _⟩
    | .opening .round, some inner => do
      match ← readTiers sourceTier inner rest with
      | ⟨(node, .closing _ :: others), fewer⟩ =>
        return ⟨(node, others), Nat.lt_succ_of_lt (Nat.lt_of_succ_lt fewer)⟩
      | _ => .error .unexpectedTokenInGroup
    | .mark '!', some inner | .mark '~', some inner => do
      let ⟨(node, others), fewer⟩ ← inner rest
      return ⟨(not node, others), Nat.lt_succ_of_lt fewer⟩
    | .mark '-', _ =>
      match rest with
      | .integer _ :: _ => .error .signedNumber
      | _ => .error .noOperand
    | _, _ => .error .noOperand

/-- Read an operand with the number of levels of nesting that are left. -/
def operand : (levels : Nat) → SourceReader
  | 0, tokens => operandWith none tokens
  | levels + 1, tokens => operandWith (some (operand levels)) tokens

/-- The expression that source tokens with balanced brackets write. Each level of nesting takes a
token, so the levels are as many as the tokens. -/
def ofTokens (tokens : List SourceToken) : Except EmbeddedError Embedded := do
  match ← readTiers sourceTier (operand tokens.length) tokens with
  | ⟨(node, []), _⟩ => return node
  | _ => .error .unexpectedToken

/-- The expression that a piece of program source writes. -/
def ofSource (text : String) : Except EmbeddedError Embedded :=
  match SourceToken.ofText? text with
  | some tokens => ofTokens tokens
  | none => .error .notSource

end Embedded

end TwoLevel
