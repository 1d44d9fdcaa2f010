/-
**Juxtaposition is conjunction.**

An operand right after another one is joined to it by AND. Writing this AND out, at all places where
it is left out, changes nothing of what the parser answers: neither the tree nor the error, nor the
token that an error points at, whatever the tokens and the limit.

* `spellOut` — the tokens with a conjunction between operands that stand right after each other;
  `spellOutAfter` is what it makes of the tokens after an operand;
* `spelledOut` — **this is a respelling of tokens**: chains go on at the same places;
* `juxtaposition_is_conjunction` — so that the parser answers the same.
-/

import TwoLevel.Proofs.Respelling

namespace TwoLevel

/-! ### Conjunctions written out -/

/-- Write a conjunction between every two tokens of which the first ends an operand and the second
starts one. The conjunction may look different at every place: `conjunction` gives the one in front of
the tokens that follow. -/
def spellOut (conjunction : List Token → Token) : List Token → List Token
  | [] => []
  | [token] => [token]
  | first :: second :: rest =>
    if first.kind.endsTerm && second.kind.startsTerm then
      first :: conjunction (second :: rest) :: spellOut conjunction (second :: rest)
    else first :: spellOut conjunction (second :: rest)

/-- The tokens after an operand, with conjunctions written out: there is one in front if an operand
follows. -/
def spellOutAfter (conjunction : List Token → Token) : List Token → List Token
  | [] => []
  | token :: rest =>
    if token.kind.startsTerm then
      conjunction (token :: rest) :: spellOut conjunction (token :: rest)
    else spellOut conjunction (token :: rest)

section Spelling

variable {conjunction : List Token → Token} {token : Token} {rest : List Token}

theorem spellOut_cons_of_ends (ends : token.kind.endsTerm = true) :
    spellOut conjunction (token :: rest) = token :: spellOutAfter conjunction rest := by
  cases rest with
  | nil => rfl
  | cons second others =>
    rw [spellOut, spellOutAfter, ends, Bool.true_and]
    split <;> rfl

theorem spellOut_cons_of_not_ends (opens : token.kind.endsTerm = false) :
    spellOut conjunction (token :: rest) = token :: spellOut conjunction rest := by
  cases rest with
  | nil => rfl
  | cons second others =>
    rw [spellOut, opens, Bool.false_and]
    rfl

theorem spellOutAfter_cons_of_starts (starts : token.kind.startsTerm = true) :
    spellOutAfter conjunction (token :: rest) =
      conjunction (token :: rest) :: spellOut conjunction (token :: rest) := by
  rw [spellOutAfter, if_pos starts]

theorem spellOutAfter_cons_of_not_starts (joins : token.kind.startsTerm = false) :
    spellOutAfter conjunction (token :: rest) = spellOut conjunction (token :: rest) := by
  rw [spellOutAfter, joins]
  rfl

/-- **Conjunctions written out are a respelling.** Where an operand follows directly, a chain of
conjunctions goes on, and the conjunction has been written in front of it. -/
def spelledOut (conjunctive : ∀ following, (conjunction following).kind = .op (.binary .and)) :
    Respelling where
  token := id
  place := id
  whole := spellOut conjunction
  after := spellOutAfter conjunction
  kind_token _ := rfl
  place_token _ := rfl
  whole_nil := rfl
  after_nil := rfl
  whole_cons first rest := by
    cases ends : first.kind.endsTerm with
    | true => exact spellOut_cons_of_ends ends
    | false => exact spellOut_cons_of_not_ends ends
  after_cons _ _ joins := spellOutAfter_cons_of_not_starts joins
  juncture?_after first rest starts precedence := by
    rw [spellOutAfter_cons_of_starts starts, juncture?_cons_of_starts starts,
      juncture?_cons_of_connective (conjunctive _)]
    split <;> rfl

end Spelling

/-! ### Whole texts -/

/-- **Juxtaposition is exactly AND.** Writing a conjunction between every two tokens of which the
first ends an operand and the second starts one does not change what the parser makes of the tokens,
whatever they are and however the conjunctions look: it gives the same tree, or the same error at the
same token. -/
theorem juxtaposition_is_conjunction {conjunction : List Token → Token}
    (conjunctive : ∀ following, (conjunction following).kind = .op (.binary .and)) (nesting : Nat)
    (tokens : List Token) :
    Expr.ofTokens nesting (spellOut conjunction tokens) = Expr.ofTokens nesting tokens := by
  calc Expr.ofTokens nesting (spellOut conjunction tokens)
    _ = (Expr.ofTokens nesting tokens).mapError (SyntaxError.replace id) :=
      (spelledOut conjunctive).ofTokens_whole nesting tokens
    _ = Expr.ofTokens nesting tokens := by
      -- tokens keep their places, and so do the errors that point at them
      cases Expr.ofTokens nesting tokens with
      | error error => exact congrArg Except.error error.replace_id
      | ok tree => rfl

/-- Two conjunctions are left out before a negation and before a group, and the group is not closed:
both spellings are refused alike, within the limit and beyond it. -/
theorem juxtaposition_is_conjunction_open_group :
    let tokens : List Token := [⟨.var "a", "a", 0⟩, ⟨.prime, "'", 1⟩, ⟨.op .not, "!", 3⟩,
      ⟨.const true, "1", 4⟩, ⟨.opening, "(", 5⟩, ⟨.var "b", "b", 6⟩]
    let conjunction : Token := ⟨.op (.binary .and), "AND", 0⟩
    (∀ following : List Token, ((fun _ => conjunction) following).kind = .op (.binary .and)) ∧
      (spellOut (fun _ => conjunction) tokens).length = 8 ∧
      Expr.ofTokens 1 (spellOut (fun _ => conjunction) tokens) = .error (.expectedClosing none) ∧
      Expr.ofTokens 0 (spellOut (fun _ => conjunction) tokens) = .error (.nestingTooDeep 0) := by
  intro tokens conjunction
  have conjunctive : ∀ following : List Token,
      ((fun _ => conjunction) following).kind = .op (.binary .and) := fun _ => rfl
  have deep : Expr.ofTokens 0 tokens = .error (.nestingTooDeep 0) := by
    cbv
  have shallow : Expr.ofTokens 1 tokens = .error (.expectedClosing none) := by
    cbv
  exact ⟨conjunctive, rfl, (juxtaposition_is_conjunction conjunctive 1 tokens).trans shallow,
    (juxtaposition_is_conjunction conjunctive 0 tokens).trans deep⟩

end TwoLevel
