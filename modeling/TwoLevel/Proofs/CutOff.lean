/-
**Limits only cut off.**

A reading under smaller limits goes in step with one under larger limits, token by token, until one
of the smaller limits is reached. There it ends with the error of that limit. So a limit can take an
answer away but never change it: neither the tree, nor an error that has nothing to do with limits.

* `CutOff` — a result under a limit beside the one under a larger limit: the same, or the error of
  the limit; `CutOff.bind` puts two computations in step together;
* `InStep` — readers whose results are so on all tokens;
* `InStep.chain`, `inStep_operand` — **the readers of every level go in step**;
* `limits_only_cut_off` — so do the parser and the evaluation of a text.
-/

import TwoLevel.Proofs.Forms
import TwoLevel.Proofs.Nesting

namespace TwoLevel

/-! ### Results in step -/

section Results

variable {α β : Type} {nesting larger : Nat}

/-- The result under a limit is the wider result, which larger limits give, or the error of the
limit. -/
inductive CutOff (nesting : Nat) : (result wider : Except SyntaxError α) → Prop where
  | same (result : Except SyntaxError α) : CutOff nesting result result
  | deep (wider : Except SyntaxError α) : CutOff nesting (.error (.nestingTooDeep nesting)) wider
  | high (wider : Except SyntaxError α) :
    CutOff nesting (.error (.treeTooHigh (heightLimit nesting))) wider

/-- Computations in two parts are in step if both of their parts are. -/
theorem CutOff.bind {result wider : Except SyntaxError α} {next widerNext : α → Except SyntaxError β}
    (cutOff : CutOff nesting result wider)
    (goesOn : ∀ value, result = .ok value → CutOff nesting (next value) (widerNext value)) :
    CutOff nesting (result.bind next) (wider.bind widerNext) := by
  cases cutOff with
  | same =>
    cases result with
    | error error => exact .same _
    | ok value => exact goesOn value rfl
  | deep => exact .deep _
  | high => exact .high _

/-- What a limit does not cut off is the same under larger limits. -/
theorem CutOff.eq_ok {result wider : Except SyntaxError α} {value : α}
    (cutOff : CutOff nesting result wider) (read : result = .ok value) : wider = .ok value := by
  subst read
  cases cutOff
  rfl

theorem heightLimit_mono (atMost : nesting ≤ larger) : heightLimit nesting ≤ heightLimit larger :=
  max_le_max_left 1024 atMost

/-- A value that is refused where it is too high is so under both limits, or under the smaller one
only. -/
theorem cutOff_of_height (atMost : nesting ≤ larger) (height : Nat) (value : α) :
    CutOff nesting
      (if height ≤ heightLimit nesting then .ok value
        else .error (.treeTooHigh (heightLimit nesting)))
      (if height ≤ heightLimit larger then .ok value
        else .error (.treeTooHigh (heightLimit larger))) := by
  by_cases low : height ≤ heightLimit nesting
  · rw [if_pos low, if_pos (Nat.le_trans low (heightLimit_mono atMost))]
    exact .same _
  · rw [if_neg low]
    exact .high _

theorem cutOff_negate (atMost : nesting ≤ larger) (node : Measured) :
    CutOff nesting (node.negate nesting) (node.negate larger) := by
  unfold Measured.negate
  exact cutOff_of_height atMost _ _

theorem cutOff_join (atMost : nesting ≤ larger) (op : Connective) (left right : Measured) :
    CutOff nesting (left.join nesting op right) (left.join larger op right) := by
  unfold Measured.join
  exact cutOff_of_height atMost _ _

theorem cutOff_primes (atMost : nesting ≤ larger) (node : Measured) (tokens : List Token) :
    CutOff nesting (plain (primes nesting node tokens)) (plain (primes larger node tokens)) := by
  induction tokens generalizing node with
  | nil => exact .same _
  | cons token rest ih =>
    by_cases kind : token.kind = .prime
    · rw [plain_primes_cons kind, plain_primes_cons kind]
      exact (cutOff_negate atMost node).bind fun negated _ => ih negated
    · simp only [primes, if_neg kind]
      exact .same _

theorem cutOff_closeGroup (atMost : nesting ≤ larger) (node : Measured) (tokens : List Token) :
    CutOff nesting (closeGroup nesting node tokens) (closeGroup larger node tokens) := by
  cases tokens with
  | nil => exact .same _
  | cons close others =>
    by_cases kind : close.kind = .closing
    · simp only [closeGroup, if_pos kind]
      exact cutOff_primes atMost node others
    · simp only [closeGroup, if_neg kind]
      exact .same _

end Results

/-! ### Readers in step -/

section Readers

variable {nesting larger levels more : Nat} {reader wider : TreeReader}

/-- On all tokens the reader gives what the wider one gives, or the error of a limit. -/
def InStep (nesting : Nat) (reader wider : TreeReader) : Prop :=
  ∀ tokens, CutOff nesting (plain (reader tokens)) (plain (wider tokens))

/-- Chains go on in step if their operands are read in step. -/
theorem cutOff_chainFrom (atMost : nesting ≤ larger) (operands : InStep nesting reader wider)
    (precedence : Nat) (left : Measured) (tokens : List Token) :
    CutOff nesting (plain ((textTier nesting precedence).chainFrom reader left tokens))
      (plain ((textTier larger precedence).chainFrom wider left tokens)) := by
  -- Both chains go on at the same place, by an operand that takes at least one token, so that the
  -- recursion is on the number of tokens left.
  cases found : juncture? precedence tokens with
  | none =>
    rw [Tier.plain_chainFrom_of_none _ left found, Tier.plain_chainFrom_of_none _ left found]
    exact .same _
  | some juncture =>
    obtain ⟨op, others⟩ := juncture
    rw [(textTier nesting precedence).plain_chainFrom_of_some left found,
      (textTier larger precedence).plain_chainFrom_of_some left found]
    refine (operands others).bind fun read rightRead => ?_
    refine (cutOff_join atMost op left read.1).bind fun joined _ => ?_
    have fewer : read.2.length < others.length := bounded_of_plain rightRead
    have shorter : read.2.length < tokens.length :=
      Nat.lt_of_lt_of_le fewer (length_juncture_le found)
    exact cutOff_chainFrom atMost operands precedence joined read.2
termination_by tokens.length

/-- Chains are read in step if their operands are. -/
theorem InStep.chain (atMost : nesting ≤ larger) (operands : InStep nesting reader wider)
    (precedence : Nat) :
    InStep nesting ((textTier nesting precedence).chain reader)
      ((textTier larger precedence).chain wider) := by
  intro tokens
  rw [Tier.plain_chain, Tier.plain_chain]
  exact (operands tokens).bind fun read _ =>
    cutOff_chainFrom atMost operands precedence read.1 read.2

/-- The three tiers of chains are read in step if their operands are. -/
theorem InStep.expression (atMost : nesting ≤ larger) (operands : InStep nesting reader wider) :
    InStep nesting (expression nesting reader) (expression larger wider) :=
  ((operands.chain atMost _).chain atMost _).chain atMost _

/-- **Operands are read in step**, by induction along the reading under the smaller limit: the first
token decides alike how an operand goes on, and without levels left the limit cuts off. -/
theorem inStep_operand (atMost : nesting ≤ larger) (fewer : levels ≤ more) :
    InStep nesting (operand nesting levels) (operand larger more) := by
  intro tokens
  refine operand_induction (motive := fun levels tokens result =>
      ∀ more, levels ≤ more → CutOff nesting result (plain (operand larger more tokens)))
    ?nothing ?leaf ?group ?negation ?tooDeep ?connective ?misplaced levels tokens more fewer
  case nothing =>
    intro levels more _
    rw [plain_operand_nil]
    exact .same _
  case leaf =>
    intro levels token rest leaf isLeaf more _
    rw [plain_operand_leaf isLeaf]
    exact cutOff_primes atMost _ rest
  case group =>
    intro levels token rest kind ih more fewer
    obtain ⟨deeper, rfl⟩ := Nat.exists_eq_succ_of_ne_zero (Nat.ne_zero_of_lt fewer)
    have inner : InStep nesting (operand nesting levels) (operand larger deeper) :=
      fun tokens => ih tokens deeper (Nat.le_of_succ_le_succ fewer)
    rw [plain_operand_opening kind]
    exact (inner.expression atMost rest).bind fun read _ => cutOff_closeGroup atMost read.1 read.2
  case negation =>
    intro levels token rest kind ih more fewer
    obtain ⟨deeper, rfl⟩ := Nat.exists_eq_succ_of_ne_zero (Nat.ne_zero_of_lt fewer)
    rw [plain_operand_not kind]
    refine (ih rest deeper (Nat.le_of_succ_le_succ fewer)).bind fun read _ => ?_
    exact (cutOff_negate atMost read.1).bind fun negated _ => .same _
  case tooDeep => exact fun _ _ _ _ _ => .deep _
  case connective =>
    intro levels token rest op kind more _
    rw [plain_operand_connective kind]
    exact .same _
  case misplaced =>
    intro levels token rest kind more _
    rw [plain_operand_misplaced kind]
    exact .same _

end Readers

/-! ### Texts -/

section Texts

variable {nesting larger : Nat}

theorem cutOff_ofTokens (atMost : nesting ≤ larger) (tokens : List Token) :
    CutOff nesting (Expr.ofTokens nesting tokens) (Expr.ofTokens larger tokens) := by
  cases tokens with
  | nil => exact .same _
  | cons token rest =>
    rw [ofTokens_cons, ofTokens_cons]
    exact ((inStep_operand atMost atMost).expression atMost (token :: rest)).bind fun _ _ => .same _

/-- **The parser goes in step** under a smaller and a larger limit. -/
theorem cutOff_parse (atMost : nesting ≤ larger) (text : String) :
    CutOff nesting (Expr.parse nesting text) (Expr.parse larger text) := by
  unfold Expr.parse
  exact (CutOff.same (tokenize text)).bind fun tokens _ => cutOff_ofTokens atMost tokens

/-- What limits let through, larger ones let through with the same evaluation. -/
theorem evaluate_mono {limits wider : Limits} {text : String} {evaluation : Evaluation}
    (variableCount : limits.variableCount ≤ wider.variableCount)
    (nesting : limits.nesting ≤ wider.nesting) (evaluated : evaluate limits text = .ok evaluation) :
    evaluate wider text = .ok evaluation := by
  obtain ⟨expr, read, few, tabulated⟩ := evaluate_eq_ok_iff.mp evaluated
  have limit : limits.variableLimit ≤ wider.variableLimit := min_le_min_right mostVariables variableCount
  exact evaluate_eq_ok_iff.mpr
    ⟨expr, (cutOff_parse nesting text).eq_ok read, Nat.le_trans few limit, tabulated⟩

end Texts

/-- **Limits only cut off, they never change an answer.** Under a smaller nesting limit a text is
read as under a larger one, with the same tree or the same error, unless it is refused by the
smaller limit: for its nesting, or for the height of its tree. So an evaluation under some limits is
the evaluation under all larger ones. -/
theorem limits_only_cut_off (text : String) :
    (∀ nesting larger, nesting ≤ larger →
      Expr.parse nesting text = Expr.parse larger text ∨
        Expr.parse nesting text = .error (.nestingTooDeep nesting) ∨
        Expr.parse nesting text = .error (.treeTooHigh (max 1024 nesting))) ∧
    ∀ limits wider : Limits, limits.variableCount ≤ wider.variableCount →
      limits.nesting ≤ wider.nesting → ∀ evaluation, evaluate limits text = .ok evaluation →
        evaluate wider text = .ok evaluation := by
  constructor
  · intro nesting larger atMost
    have cutOff := cutOff_parse atMost text
    generalize Expr.parse nesting text = result at cutOff ⊢
    cases cutOff with
    | same => exact .inl rfl
    | deep => exact .inr (.inl rfl)
    | high => exact .inr (.inr rfl)
  · exact fun limits wider variableCount nesting evaluation => evaluate_mono variableCount nesting

/-- A text with primes alone has an evaluation without any nesting, which is the evaluation under
the standard limits; and what is missing after a connective is missing under every limit that lets
the parenthesis through. -/
theorem limits_only_cut_off_primes :
    (∃ evaluation, evaluate ⟨2, 0⟩ "a' b + a b'" = .ok evaluation ∧
      evaluate .standard "a' b + a b'" = .ok evaluation) ∧
    Expr.parse 1 "(a +" = Expr.parse defaultNesting "(a +" := by
  have minimal : (evaluate ⟨2, 0⟩ "a' b + a b'").map Evaluation.minimalSop =
      .ok "¬a · b + a · ¬b" := by
    cbv
  obtain ⟨evaluation, evaluated, _⟩ := map_eq_ok_iff.mp minimal
  obtain ⟨_, wider⟩ := limits_only_cut_off "a' b + a b'"
  obtain ⟨reading, _⟩ := limits_only_cut_off "(a +"
  have missing : Expr.parse 1 "(a +" = .error (.expectedOperand none) := by
    cbv
  refine ⟨⟨evaluation, evaluated, ?_⟩, ?_⟩
  · exact wider ⟨2, 0⟩ .standard (by decide) (by decide) evaluation evaluated
  · rcases reading 1 defaultNesting (by decide) with same | deep | high
    · exact same
    · cases missing.symm.trans deep
    · cases missing.symm.trans high

end TwoLevel
