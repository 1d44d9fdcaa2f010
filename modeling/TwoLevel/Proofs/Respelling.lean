/-
**Reading respelled tokens.**

Tokens are respelled when each becomes another one of its kind, and something may come between an
operand and what follows it. As long as chains go on at the same places, all readers read the same;
what they leave is respelled too, and an error points at the new token.

* `SyntaxError.replace` — an error with another place for each that it points at;
* `Respelling` — what becomes of the tokens of an expression and of those after an operand;
* `Respelling.ReadsAlike` — a reader gives the same on respelled tokens;
* `Respelling.readsAlike_chain`, `Respelling.readsAlike_operand` — **so do the readers of every level**;
* `Respelling.ofTokens_whole` — so does the parser.
-/

import TwoLevel.Proofs.Remainders

namespace TwoLevel

/-- The error with other places. -/
def SyntaxError.replace (place : Place → Place) : SyntaxError → SyntaxError
  | unexpectedToken found => unexpectedToken (place found)
  | missingOperand found => missingOperand (place found)
  | expectedClosing found => expectedClosing (found.map place)
  | expectedOperand found => expectedOperand (found.map place)
  | unrecognizedSymbol symbol position => unrecognizedSymbol symbol position
  | emptyExpression => emptyExpression
  | nestingTooDeep limit => nestingTooDeep limit
  | treeTooHigh limit => treeTooHigh limit

theorem SyntaxError.replace_id (error : SyntaxError) : error.replace id = error := by
  cases error <;> simp [replace]

/-- **A respelling of tokens.** Each token becomes another one of its kind; what follows an operand may
be respelled differently if it starts an operand, so long as a chain goes on there with the same
connective. -/
structure Respelling where
  /-- The token in place of another one. -/
  token : Token → Token
  /-- The place of the token in place of that of the other one. -/
  place : Place → Place
  /-- The tokens in place of those of an expression. -/
  whole : List Token → List Token
  /-- The tokens in place of those after an operand. -/
  after : List Token → List Token
  kind_token : ∀ given, (token given).kind = given.kind
  place_token : ∀ given, (token given).place = place given.place
  whole_nil : whole [] = []
  after_nil : after [] = []
  whole_cons : ∀ first rest,
    whole (first :: rest) = token first :: if first.kind.endsTerm then after rest else whole rest
  after_cons : ∀ first rest, first.kind.startsTerm = false →
    after (first :: rest) = whole (first :: rest)
  juncture?_after : ∀ first rest, first.kind.startsTerm = true → ∀ precedence,
    juncture? precedence (after (first :: rest)) =
      (juncture? precedence (first :: rest)).map fun found => (found.1, whole found.2)

namespace Respelling

variable {respelling : Respelling} {nesting levels level : Nat} {reader : TreeReader}
  {first : Token} {rest : List Token}

/-- What has been read, with respelled tokens left or with the error at the new token. -/
def carry (respelling : Respelling) :
    Except SyntaxError (Measured × List Token) → Except SyntaxError (Measured × List Token)
  | .ok (node, rest) => .ok (node, respelling.after rest)
  | .error error => .error (error.replace respelling.place)

/-- The reader reads the same of respelled tokens. -/
def ReadsAlike (respelling : Respelling) (reader : TreeReader) : Prop :=
  ∀ tokens, plain (reader (respelling.whole tokens)) = respelling.carry (plain (reader tokens))

/-! ### Computations in parts -/

/-- If the second part of a computation is carried where it goes on from respelled tokens, the whole
is carried. -/
theorem carry_bind {result : Except SyntaxError (Measured × List Token)}
    {next : Measured × List Token → Except SyntaxError (Measured × List Token)}
    (goesOn : ∀ node rest, result = .ok (node, rest) →
      next (node, respelling.after rest) = respelling.carry (next (node, rest))) :
    (respelling.carry result).bind next = respelling.carry (result.bind next) := by
  cases result with
  | error error => rfl
  | ok read => exact goesOn read.1 read.2 rfl

/-- A tree that is too high is no matter of tokens. -/
theorem carry_negate {node : Measured}
    {next later : Measured → Except SyntaxError (Measured × List Token)}
    (goesOn : ∀ negated, later negated = respelling.carry (next negated)) :
    (node.negate nesting).bind later = respelling.carry ((node.negate nesting).bind next) := by
  unfold Measured.negate
  split
  · exact goesOn _
  · rfl

theorem carry_join {op : Connective} {left right : Measured}
    {next later : Measured → Except SyntaxError (Measured × List Token)}
    (goesOn : ∀ joined, later joined = respelling.carry (next joined)) :
    (Measured.join nesting op left right).bind later =
      respelling.carry ((Measured.join nesting op left right).bind next) := by
  unfold Measured.join
  split
  · exact goesOn _
  · rfl

/-! ### Tokens after an operand -/

theorem whole_cons_of_ends (ends : first.kind.endsTerm = true) :
    respelling.whole (first :: rest) = respelling.token first :: respelling.after rest := by
  rw [whole_cons, if_pos ends]

theorem whole_cons_of_not_ends (opens : first.kind.endsTerm = false) :
    respelling.whole (first :: rest) = respelling.token first :: respelling.whole rest := by
  rw [whole_cons, opens]
  rfl

/-- **Chains go on at the same places**, with the same connective. -/
theorem juncture?_after_eq (precedence : Nat) (tokens : List Token) :
    juncture? precedence (respelling.after tokens) =
      (juncture? precedence tokens).map fun found => (found.1, respelling.whole found.2) := by
  cases tokens with
  | nil =>
    rw [respelling.after_nil]
    rfl
  | cons first rest =>
    cases starts : first.kind.startsTerm with
    | true => exact respelling.juncture?_after first rest starts precedence
    | false =>
      rw [respelling.after_cons first rest starts]
      cases kind : first.kind with
      | closing | prime =>
        rw [whole_cons_of_ends (by rw [kind]; rfl), juncture?, juncture?, respelling.kind_token, kind]
        rfl
      | opening | const | var =>
        rw [kind] at starts
        cases starts
      | op operator =>
        rw [whole_cons_of_not_ends (by rw [kind]; rfl), juncture?, juncture?, respelling.kind_token,
          kind]
        cases operator with
        | not =>
          rw [kind] at starts
          cases starts
        | binary op =>
          dsimp only
          split <;> rfl

/-- No prime comes up after an operand. -/
theorem kind_ne_prime_after (other : first.kind ≠ .prime) :
    ∀ head ∈ (respelling.after (first :: rest)).head?, head.kind ≠ .prime := by
  cases starts : first.kind.startsTerm with
  | false =>
    rw [respelling.after_cons first rest starts, respelling.whole_cons]
    rintro head ⟨⟩
    rwa [respelling.kind_token]
  | true =>
    -- A chain of conjunctions goes on there, and no chain goes on at a prime.
    have goesOn := respelling.juncture?_after first rest starts 3
    rw [juncture?_of_startsTerm starts] at goesOn
    intro head found prime
    obtain ⟨others, same⟩ := List.head?_eq_some_iff.mp found
    rw [same, juncture?, prime] at goesOn
    cases goesOn

/-! ### Readers -/

/-- The primes after a primary are the same. -/
theorem primes_after (node : Measured) (tokens : List Token) :
    plain (primes nesting node (respelling.after tokens)) =
      respelling.carry (plain (primes nesting node tokens)) := by
  induction tokens generalizing node with
  | nil =>
    rw [respelling.after_nil]
    show Except.ok (node, []) = Except.ok (node, respelling.after [])
    rw [respelling.after_nil]
  | cons first rest ih =>
    by_cases kind : first.kind = .prime
    · have same : (respelling.token first).kind = .prime := (respelling.kind_token first).trans kind
      rw [respelling.after_cons first rest (by rw [kind]; rfl),
        whole_cons_of_ends (by rw [kind]; rfl), plain_primes_cons same, plain_primes_cons kind]
      exact carry_negate ih
    · have noPrime : ∀ head ∈ (first :: rest).head?, head.kind ≠ .prime := by
        rintro head ⟨⟩
        exact kind
      rw [plain_primes_of_ne (kind_ne_prime_after kind), plain_primes_of_ne noPrime]
      rfl

/-- **A chain reads the same** where its operands do. -/
theorem chainFrom_after (operands : respelling.ReadsAlike reader) (precedence : Nat)
    (left : Measured) (tokens : List Token) :
    plain ((textTier nesting precedence).chainFrom reader left (respelling.after tokens)) =
      respelling.carry (plain ((textTier nesting precedence).chainFrom reader left tokens)) := by
  have junctures := respelling.juncture?_after_eq precedence tokens
  cases found : juncture? precedence tokens with
  | none =>
    rw [found] at junctures
    rw [Tier.plain_chainFrom_of_none _ left junctures, Tier.plain_chainFrom_of_none _ left found]
    rfl
  | some juncture =>
    obtain ⟨op, others⟩ := juncture
    rw [found] at junctures
    rw [(textTier nesting precedence).plain_chainFrom_of_some left junctures,
      (textTier nesting precedence).plain_chainFrom_of_some left found, operands others]
    refine carry_bind fun right between rightRead => carry_join fun joined => ?_
    have fewer : between.length < others.length := bounded_of_plain rightRead
    have shorter : between.length < tokens.length :=
      Nat.lt_of_lt_of_le fewer (length_juncture_le found)
    exact chainFrom_after operands precedence joined between
termination_by tokens.length

theorem readsAlike_chain (positive : 0 < level) (below : level < 4)
    (operands : respelling.ReadsAlike (readAt nesting levels (level + 1))) :
    respelling.ReadsAlike (readAt nesting levels level) := by
  intro tokens
  rw [readAt_eq_chain positive below, Tier.plain_chain, Tier.plain_chain, operands tokens]
  exact carry_bind fun node rest _ => chainFrom_after operands level node rest

theorem readsAlike_of_operands (operands : respelling.ReadsAlike (operand nesting levels))
    (positive : 0 < level) (below : level ≤ 4) :
    respelling.ReadsAlike (readAt nesting levels level) :=
  at_level_of_operands
    (motive := fun level => respelling.ReadsAlike (readAt nesting levels level))
    operands (fun _ => readsAlike_chain) positive below

/-- **Operands are read the same**, by induction along their reading. -/
theorem readsAlike_operand : respelling.ReadsAlike (operand nesting levels) := by
  intro tokens
  refine operand_induction (motive := fun levels tokens result =>
      plain (operand nesting levels (respelling.whole tokens)) = respelling.carry result)
    ?nothing ?leaf ?group ?negation ?tooDeep ?connective ?misplaced levels tokens
  case nothing =>
    intro levels
    rw [respelling.whole_nil, plain_operand_nil]
    rfl
  case leaf =>
    intro levels first rest leaf isLeaf
    have same : (respelling.token first).kind.IsLeaf leaf := by rwa [respelling.kind_token]
    rw [whole_cons_of_ends isLeaf.endsTerm, plain_operand_leaf same]
    exact primes_after _ rest
  case group =>
    intro levels first rest kind ih
    have inner : respelling.ReadsAlike (readAt nesting levels 1) :=
      readsAlike_of_operands ih (by decide) (by decide)
    have same := (respelling.kind_token first).trans kind
    rw [whole_cons_of_not_ends (by rw [kind]; rfl), plain_operand_opening same, inner rest]
    refine carry_bind fun node left read => ?_
    cases left with
    | nil =>
      rw [respelling.after_nil]
      rfl
    | cons close others =>
      have closing := closing_of_readAt read
      have closes := (respelling.kind_token close).trans closing
      rw [respelling.after_cons close others (by rw [closing]; rfl),
        whole_cons_of_ends (by rw [closing]; rfl), closeGroup, closeGroup, if_pos closing,
        if_pos closes]
      exact primes_after node others
  case negation =>
    intro levels first rest kind ih
    have same := (respelling.kind_token first).trans kind
    rw [whole_cons_of_not_ends (by rw [kind]; rfl), plain_operand_not same, ih rest]
    exact carry_bind fun node left _ => carry_negate fun negated => rfl
  case tooDeep =>
    intro first rest kind
    have opens : first.kind.endsTerm = false := by
      rcases kind with kind | kind <;> rw [kind] <;> rfl
    rw [whole_cons_of_not_ends opens, plain_operand_zero (by rwa [respelling.kind_token])]
    rfl
  case connective =>
    intro levels first rest op kind
    have same := (respelling.kind_token first).trans kind
    rw [whole_cons_of_not_ends (by rw [kind]; rfl), plain_operand_connective same,
      respelling.place_token]
    rfl
  case misplaced =>
    intro levels first rest kind
    have ends : first.kind.endsTerm = true := by
      rcases kind with kind | kind <;> rw [kind] <;> rfl
    rw [whole_cons_of_ends ends, plain_operand_misplaced (by rwa [respelling.kind_token]),
      respelling.place_token]
    rfl

/-- **The parser reads the same of respelled tokens**: the same tree, or the same error at the new
token. -/
theorem ofTokens_whole (respelling : Respelling) (nesting : Nat) (tokens : List Token) :
    Expr.ofTokens nesting (respelling.whole tokens) =
      (Expr.ofTokens nesting tokens).mapError (SyntaxError.replace respelling.place) := by
  cases tokens with
  | nil =>
    rw [respelling.whole_nil]
    rfl
  | cons first rest =>
    have same : plain (readAt nesting nesting 1 (respelling.whole (first :: rest))) =
        respelling.carry (plain (readAt nesting nesting 1 (first :: rest))) :=
      readsAlike_of_operands readsAlike_operand (by decide) (by decide) (first :: rest)
    rw [respelling.whole_cons] at same ⊢
    rw [ofTokens_cons, ofTokens_cons, same]
    cases read : plain (readAt nesting nesting 1 (first :: rest)) with
    | error error => rfl
    | ok result =>
      obtain ⟨node, left⟩ := result
      cases left with
      | nil =>
        show wholeTree (node, respelling.after []) = _
        rw [respelling.after_nil]
        rfl
      | cons close others =>
        have closing := closing_of_readAt read
        show wholeTree (node, respelling.after (close :: others)) = _
        rw [respelling.after_cons close others (by rw [closing]; rfl), respelling.whole_cons]
        show Except.error (SyntaxError.unexpectedToken (respelling.token close).place) = _
        rw [respelling.place_token]
        rfl

end Respelling

end TwoLevel
