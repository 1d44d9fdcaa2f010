/-
**From tokens to expressions.**

The grammar has three levels of chains, the loosest first, and operands below them:

    or      := xor ((OR | NOR) xor)*
    xor     := and (XOR and)*
    and     := operand ((AND | NAND) operand | operand)*
    operand := NOT operand | primary PRIME*
    primary := "(" or ")" | constant | variable

Chains associate to the left, and an operand right after another one is joined by AND. Two limits
hold while a text is read: parentheses and leading NOTs may nest to a given depth, and no tree may
be higher than `heightLimit`.

* `connectivesAt`: the connectives of each level;
* `juncture?`: where a chain of a level goes on, and with which connective;
* `operand`: the reading of an operand, by recursion on the levels of nesting that are left;
* `Expr.ofTokens`, `Expr.parse`: the expression that tokens or a text write.
-/

import TwoLevel.Chain
import TwoLevel.Expr.Basic
import TwoLevel.Token.Reading

namespace TwoLevel

/-- The greatest nesting of a text when nothing else is asked for. -/
def defaultNesting : Nat := 256

/-- The greatest height of a tree under a nesting limit. -/
def heightLimit (nesting : Nat) : Nat := max 1024 nesting

/-- A tree that carries its height. -/
structure Measured where
  tree : Expr
  height : Nat
  height_eq : height = tree.height

namespace Measured

/-- A leaf, whose height is zero. -/
def leaf (tree : Expr) (isLeaf : tree.height = 0) : Measured := ⟨tree, 0, isLeaf.symm⟩

/-- Negate, unless the tree becomes too high. -/
def negate (nesting : Nat) (operand : Measured) : Except SyntaxError Measured :=
  if operand.height + 1 ≤ heightLimit nesting then
    .ok ⟨.not operand.tree, operand.height + 1, by rw [operand.height_eq, Expr.height]⟩
  else .error (.treeTooHigh (heightLimit nesting))

/-- Join by a connective, unless the tree becomes too high. -/
def join (nesting : Nat) (op : Connective) (left right : Measured) : Except SyntaxError Measured :=
  if max left.height right.height + 1 ≤ heightLimit nesting then
    .ok ⟨.binary op left.tree right.tree, max left.height right.height + 1, by
      rw [left.height_eq, right.height_eq, Expr.height]⟩
  else .error (.treeTooHigh (heightLimit nesting))

end Measured

/-- The connectives that join the operands of a level. -/
def connectivesAt : (level : Nat) → List Connective
  | 1 => [.or, .nor]
  | 2 => [.xor]
  | 3 => [.and, .nand]
  | _ => []

/-- Where a chain of one level goes on: the connective and the tokens of its right operand. At the
level of conjunctions a token that starts an operand continues a chain too. -/
def juncture? (level : Nat) : List Token → Option (Connective × List Token)
  | [] => none
  | token :: rest =>
    match token.kind with
    | .op (.binary op) => if op ∈ connectivesAt level then some (op, rest) else none
    | kind => if kind.startsTerm && level == 3 then some (.and, token :: rest) else none

theorem length_juncture_le {level : Nat} {tokens rest : List Token} {op : Connective}
    (found : juncture? level tokens = some (op, rest)) : rest.length ≤ tokens.length := by
  cases tokens with
  | nil => simp [juncture?] at found
  | cons token others =>
    rw [juncture?] at found
    split at found
    · split at found
      · simp only [Option.some.injEq, Prod.mk.injEq] at found
        rw [← found.2, List.length_cons]
        exact Nat.le_succ _
      · simp at found
    · split at found
      · simp only [Option.some.injEq, Prod.mk.injEq] at found
        exact Nat.le_of_eq (congrArg List.length found.2.symm)
      · simp at found

/-- The chains of one level in a text. -/
def textTier (nesting level : Nat) : Tier Token Measured SyntaxError where
  juncture? := juncture? level
  length_le := length_juncture_le
  join := Measured.join nesting

/-- A way to read a tree from tokens. -/
abbrev TreeReader := Reader Token Measured SyntaxError

/-- An expression whose operands are read by `next`. -/
def expression (nesting : Nat) (next : TreeReader) : TreeReader := readTiers (textTier nesting) next

/-- Negate a tree once for each prime after it. -/
def primes (nesting : Nat) (node : Measured) : (tokens : List Token) →
    Except SyntaxError (Continued Token Measured tokens)
  | [] => .ok ⟨(node, []), Nat.le_refl _⟩
  | token :: rest =>
    if token.kind = .prime then do
      let negated ← node.negate nesting
      let ⟨result, atMost⟩ ← primes nesting negated rest
      return ⟨result, Nat.le_trans atMost (Nat.le_succ _)⟩
    else .ok ⟨(node, token :: rest), Nat.le_refl _⟩

/-- The primes after a primary, of which at least one token has been read. -/
def afterPrimary (nesting : Nat) (node : Measured) {tokens : List Token} (rest : List Token)
    (fewer : rest.length < tokens.length) : Except SyntaxError (Phrase Token Measured tokens) := do
  let ⟨result, atMost⟩ ← primes nesting node rest
  return ⟨result, Nat.lt_of_le_of_lt atMost fewer⟩

/-- Read an operand, when the operands one level deeper are read by `inner?`; without it the nesting
limit is reached. -/
def operandWith (nesting : Nat) (inner? : Option TreeReader) : TreeReader
  | [] => .error (.expectedOperand none)
  | token :: rest =>
    match token.kind with
    | .op .not =>
      match inner? with
      | none => .error (.nestingTooDeep nesting)
      | some inner => do
        let ⟨(node, others), fewer⟩ ← inner rest
        let negated ← node.negate nesting
        return ⟨(negated, others), Nat.lt_succ_of_lt fewer⟩
    | .opening =>
      match inner? with
      | none => .error (.nestingTooDeep nesting)
      | some inner => do
        match ← expression nesting inner rest with
        | ⟨(_, []), _⟩ => .error (.expectedClosing none)
        | ⟨(node, close :: others), fewer⟩ =>
          if close.kind = .closing then
            afterPrimary nesting node others (Nat.lt_succ_of_lt (Nat.lt_of_succ_lt fewer))
          else .error (.expectedClosing (some close.place))
    | .const value => afterPrimary nesting (.leaf (.const value) rfl) rest (Nat.lt_succ_self _)
    | .var name => afterPrimary nesting (.leaf (.var name) rfl) rest (Nat.lt_succ_self _)
    | .op (.binary _) => .error (.missingOperand token.place)
    | .closing | .prime => .error (.expectedOperand (some token.place))

/-- Read an operand with the number of levels of nesting that are left. -/
def operand (nesting : Nat) : (levels : Nat) → TreeReader
  | 0, tokens => operandWith nesting none tokens
  | levels + 1, tokens => operandWith nesting (some (operand nesting levels)) tokens

namespace Expr

/-- The expression that the tokens write, all of them. -/
def ofTokens (nesting : Nat) (tokens : List Token) : Except SyntaxError Expr :=
  if tokens.isEmpty then .error .emptyExpression
  else do
    match ← expression nesting (operand nesting nesting) tokens with
    | ⟨(node, []), _⟩ => return node.tree
    | ⟨(_, token :: _), _⟩ => .error (.unexpectedToken token.place)

/-- The expression that a text writes. -/
def parse (nesting : Nat) (text : String) : Except SyntaxError Expr := do
  ofTokens nesting (← tokenize text)

end Expr

end TwoLevel
