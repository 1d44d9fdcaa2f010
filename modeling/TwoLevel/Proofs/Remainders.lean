/-
**What a reading leaves.**

A reading takes as many tokens as it can: an operand takes all its primes, and a chain goes on as long
as there is a juncture. So what follows a whole expression starts with nothing that goes on with one,
which leaves a closing parenthesis or the end.

* `ends_of_readAt` — what a reading leaves does not go on with what has been read;
* `closing_of_readAt` — after an expression comes a closing parenthesis or nothing.
-/

import TwoLevel.Proofs.Readings

namespace TwoLevel

variable {nesting levels level : Nat} {tokens rest : List Token} {token : Token}
  {node last : Measured}

/-- After a primary and its primes there is no further prime. -/
theorem ends_of_primes (read : plain (primes nesting node tokens) = .ok (last, rest)) :
    Ends 3 rest := by
  refine ⟨fun _ => ?_, fun precedence above => juncture?_eq_none_of_lt above rest⟩
  induction tokens generalizing node with
  | nil =>
    cases read
    exact fun _ found => nomatch found
  | cons token others ih =>
    by_cases kind : token.kind = .prime
    · rw [plain_primes_cons kind, bind_eq_ok_iff] at read
      obtain ⟨negated, _, read⟩ := read
      exact ih read
    · rw [primes, if_neg kind] at read
      cases read
      intro first found
      cases found
      exact kind

/-- An operand takes all the primes after it. -/
theorem ends_of_operand (read : plain (operand nesting levels tokens) = .ok (node, rest)) :
    Ends 3 rest := by
  refine operand_ok_induction (motive := fun _ _ _ rest => Ends 3 rest)
    (fun _ _ _ _ _ _ _ read => ends_of_primes read) (fun _ _ _ _ _ _ _ _ _ _ _ _ read => ?_)
    (fun _ _ _ _ _ _ _ ih _ => ih) read
  exact ends_of_primes read

/-- What is left of tokens that have been read at a level does not go on with the result. -/
def LeavesEnd (nesting levels level : Nat) : Prop :=
  ∀ tokens node rest, plain (readAt nesting levels level tokens) = .ok (node, rest) →
    Ends (level - 1) rest

/-- A chain goes on as long as there is a juncture. -/
theorem leavesEnd_chain (positive : 0 < level) (below : level < 4)
    (operands : LeavesEnd nesting levels (level + 1)) : LeavesEnd nesting levels level := by
  intro tokens node rest read
  rw [readAt_eq_chain positive below, Tier.plain_chain, bind_eq_ok_iff] at read
  obtain ⟨⟨first, others⟩, firstRead, read⟩ := read
  have goes := Tier.continues_of_plain_chainFrom read
  have ends : Ends level rest := goes.leaves (operands tokens first others firstRead) operands
  refine ⟨fun _ => ends.prime_ne (Nat.lt_succ_of_lt below), fun precedence above => ?_⟩
  rcases Nat.eq_or_lt_of_le (Nat.le_of_pred_lt above) with rfl | higher
  · exact goes.juncture?_eq_none
  · exact ends.juncture?_eq precedence higher

/-- **What a reading leaves does not go on with what has been read.** -/
theorem ends_of_readAt (positive : 0 < level) (below : level ≤ 4)
    (read : plain (readAt nesting levels level tokens) = .ok (node, rest)) : Ends (level - 1) rest :=
  at_level_of_operands (motive := LeavesEnd nesting levels) (fun _ _ _ => ends_of_operand)
    (fun _ => leavesEnd_chain) positive below tokens node rest read

/-- A token that goes on with no expression is a closing parenthesis. -/
theorem Ends.kind_eq_closing (ends : Ends 0 (token :: rest)) : token.kind = .closing := by
  have noTerm : token.kind.startsTerm ≠ true := fun starts => by
    have goesOn := ends.juncture?_eq 3 (by decide)
    rw [juncture?_of_startsTerm starts] at goesOn
    cases goesOn
  cases kind : token.kind with
  | closing => rfl
  | prime => exact absurd kind (ends.prime_ne (by decide) token rfl)
  | opening | const | var => exact absurd (kind ▸ rfl) noTerm
  | op operator =>
    cases operator with
    | not => exact absurd (kind ▸ rfl) noTerm
    | binary op =>
      have goesOn := ends.juncture?_eq op.precedence op.precedence_pos
      rw [juncture?_of_connective kind] at goesOn
      cases goesOn

/-- **After an expression comes a closing parenthesis or nothing.** -/
theorem closing_of_readAt (read : plain (readAt nesting levels 1 tokens) = .ok (node, token :: rest)) :
    token.kind = .closing :=
  (ends_of_readAt (by decide) (by decide) read).kind_eq_closing

end TwoLevel
