/-
**Chains of operands.**

How a row of operands with connectives between them is read, whatever the tokens and the operands
are. A tier says where a chain goes on, and how two operands are joined; chains associate to the
left. A reader takes at least one token, so that a chain ends with the tokens.

* `Reader`: a way to read something from the head of a list of tokens;
* `Tier.chainFrom`, `Tier.chain`: the reading of a chain, given the reading of its operands.
-/

import TwoLevel.Connective

namespace TwoLevel

/-- A value that has been read, and the tokens after it, at most as many as there were. -/
abbrev Continued (τ ν : Type) (tokens : List τ) :=
  { result : ν × List τ // result.2.length ≤ tokens.length }

/-- A value that has been read, and the tokens after it, fewer than there were. -/
abbrev Phrase (τ ν : Type) (tokens : List τ) :=
  { result : ν × List τ // result.2.length < tokens.length }

/-- A way to read a value from the head of a list of tokens. -/
abbrev Reader (τ ν ε : Type) := (tokens : List τ) → Except ε (Phrase τ ν tokens)

/-- The chains of one level of a grammar. -/
structure Tier (τ ν ε : Type) where
  /-- Where a chain goes on: the connective and the tokens of its right operand. -/
  juncture? : List τ → Option (Connective × List τ)
  length_le : ∀ {tokens rest : List τ} {op : Connective},
    juncture? tokens = some (op, rest) → rest.length ≤ tokens.length
  /-- Join two operands, which may be refused. -/
  join : Connective → ν → ν → Except ε ν

namespace Tier

variable {τ ν ε : Type}

/-- Go on with a chain whose operands are read by `next`, joining from the left. -/
def chainFrom (tier : Tier τ ν ε) (next : Reader τ ν ε) (left : ν) (tokens : List τ) :
    Except ε (Continued τ ν tokens) :=
  match found : tier.juncture? tokens with
  | none => .ok ⟨(left, tokens), Nat.le_refl _⟩
  | some (op, others) => do
    let ⟨(right, rest), fewer⟩ ← next others
    have shorter : rest.length < tokens.length := Nat.lt_of_lt_of_le fewer (tier.length_le found)
    let joined ← tier.join op left right
    let ⟨result, atMost⟩ ← tier.chainFrom next joined rest
    return ⟨result, Nat.le_trans atMost (Nat.le_of_lt shorter)⟩
termination_by tokens.length

/-- A chain whose operands are read by `next`. -/
def chain (tier : Tier τ ν ε) (next : Reader τ ν ε) : Reader τ ν ε := fun tokens => do
  let ⟨(first, rest), fewer⟩ ← next tokens
  let ⟨result, atMost⟩ ← tier.chainFrom next first rest
  return ⟨result, Nat.lt_of_le_of_lt atMost fewer⟩

end Tier

/-- Chains of the three levels inside each other: the operands of the first are chains of the second,
and so on down to `next`. -/
def readTiers {τ ν ε : Type} (tier : (level : Nat) → Tier τ ν ε) (next : Reader τ ν ε) :
    Reader τ ν ε :=
  (tier 1).chain ((tier 2).chain ((tier 3).chain next))

end TwoLevel
