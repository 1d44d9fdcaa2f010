/-
**How far a printed tree is read back.**

The text of a tree is read as the tree just where its parentheses and NOTs nest no deeper than the
limit and the tree is no higher than the limit; beyond them a limit refuses it. The normal form of
an evaluation is always low enough but may nest deeper than the text did: a prime is printed as a
leading NOT, which counts as nesting where the prime did not.

* `IsIdentifier` — the names that can be written: identifiers that are no keyword;
* `Expr.parse_render_cases` — **the text of a tree is read as the tree, or refused by a limit**;
* `parse_render_iff` — the round trip with the exact limits;
* `normalized_reads_back_iff` — which normal forms are read back;
* `normalized_refused_of_primes` — a name with many primes is accepted, and its normal form refused;
* `normalized_not_read_back` — so it is under the standard limits.
-/

import TwoLevel.Proofs.Forms
import TwoLevel.Proofs.Productions

namespace TwoLevel

/-! ### Identifiers -/

/-- An identifier that is no keyword: a letter or underscore, then letters, digits and underscores,
and in capitals the name of no operator. -/
structure IsIdentifier (name : String) : Prop where
  shape : ∃ first rest, name.toList = first :: rest ∧ (first.isAlpha = true ∨ first = '_') ∧
    ∀ character ∈ rest, character.isAlphanum = true ∨ character = '_'
  noKeyword : String.ofList (name.toList.map Char.toUpper) ∉
    ["AND", "OR", "NOT", "XOR", "NAND", "NOR"]

/-- The tokenizer takes identifiers for variables. -/
theorem IsIdentifier.isName {name : String} (identifier : IsIdentifier name) : IsName name := by
  obtain ⟨first, rest, characters, starts, continues⟩ := identifier.shape
  refine ⟨⟨first, rest, characters, ?_, fun character member => ?_⟩, ?_⟩
  · rw [isNameStart, Bool.or_eq_true, beq_iff_eq]
    exact starts
  · rw [isNameRest, Bool.or_eq_true, beq_iff_eq]
    exact continues character member
  · refine List.find?_eq_none.mpr fun operator _ same => identifier.noKeyword ?_
    have capitals : String.ofList (name.toList.map Char.toUpper) = operator.name :=
      congrArg String.ofList (beq_iff_eq.mp same).symm
    rw [capitals]
    rcases operator with _ | op
    · decide
    · cases op <;> decide

/-! ### Printing and reading -/

section Printing

variable {expr : Expr}

/-- The nesting of a printed tree. -/
theorem Expr.nestingOf_kinds (expr : Expr) : nestingOf expr.kinds = expr.depth :=
  expr.writes_kinds.depth_eq.symm

/-- **The text of a tree is read as the tree, or refused by a limit that it breaks.** -/
theorem Expr.parse_render_cases (named : ∀ name ∈ expr.leaves, IsName name) (nesting : Nat) :
    Fits nesting nesting expr.depth expr ∧ Expr.parse nesting expr.render = .ok expr ∨
      Refused nesting nesting expr.depth expr (Expr.parse nesting expr.render) := by
  obtain ⟨tokens, tokenized, kinds⟩ := tokenize_render expr named
  have writes : Writes 1 (tokens.map Token.kind) expr expr.depth :=
    kinds ▸ expr.writes_kinds.loosen (by decide) expr.writes_kinds.level_pos
  have parse_eq : Expr.parse nesting expr.render = Expr.ofTokens nesting tokens := by
    rw [Expr.parse, tokenized]
    rfl
  rw [parse_eq]
  exact ofTokens_of_writes writes

/-- The text of a tree is read back just where it fits the limits. -/
theorem Expr.parse_render_eq_ok_iff (named : ∀ name ∈ expr.leaves, IsName name) (nesting : Nat) :
    Expr.parse nesting expr.render = .ok expr ↔ Fits nesting nesting expr.depth expr := by
  rcases Expr.parse_render_cases named nesting with ⟨fits, read⟩ | refused
  · exact iff_of_true read fits
  · exact iff_of_false (refused.ne_ok expr) refused.not_fits

/-- **Reading undoes printing, with the exact limits.** The text of a tree whose variables are
identifiers is a list of tokens. It is read as the tree just where the tokens nest no deeper than
the limit and the tree is no higher than the larger of the limit and 1024; otherwise it is refused
by one of the two limits. -/
theorem parse_render_iff (expr : Expr) (named : ∀ name ∈ expr.leaves, IsIdentifier name)
    (nesting : Nat) :
    ∃ tokens, tokenize expr.render = .ok tokens ∧
      (Expr.parse nesting expr.render = .ok expr ↔
        nestingOf (tokens.map Token.kind) ≤ nesting ∧ expr.height ≤ max 1024 nesting) ∧
      (Expr.parse nesting expr.render = .ok expr ∨
        Expr.parse nesting expr.render = .error (.nestingTooDeep nesting) ∨
        Expr.parse nesting expr.render = .error (.treeTooHigh (max 1024 nesting))) := by
  have names : ∀ name ∈ expr.leaves, IsName name := fun name member => (named name member).isName
  obtain ⟨tokens, tokenized, kinds⟩ := tokenize_render expr names
  refine ⟨tokens, tokenized, ?_, ?_⟩
  · rw [Expr.parse_render_eq_ok_iff names, kinds, expr.nestingOf_kinds]
    exact ⟨fun fits => ⟨fits.shallow, fits.low⟩, fun limits => ⟨limits.1, limits.2⟩⟩
  · rcases Expr.parse_render_cases names nesting with ⟨_, read⟩ | ⟨_, deep⟩ | ⟨_, high⟩
    · exact .inl read
    · exact .inr (.inl deep)
    · exact .inr (.inr high)

/-- Two NOTs around a group nest three deep: the limit 3 lets the text through, the limit 2 does
not. -/
theorem parse_render_iff_negated_group :
    Expr.parse 3 "¬¬(a ⊼ B_1)" = .ok (.not (.not (.nand (.var "a") (.var "B_1")))) ∧
      Expr.parse 2 "¬¬(a ⊼ B_1)" ≠ .ok (.not (.not (.nand (.var "a") (.var "B_1")))) := by
  have first : IsIdentifier "a" :=
    ⟨⟨'a', [], rfl, .inl rfl, fun _ member => nomatch member⟩, by decide⟩
  have second : IsIdentifier "B_1" := ⟨⟨'B', ['_', '1'], rfl, .inl rfl, by simp⟩, by decide⟩
  let expr : Expr := .not (.not (.nand (.var "a") (.var "B_1")))
  have named : ∀ name ∈ expr.leaves, IsIdentifier name := by
    intro name member
    rcases List.mem_pair.mp member with rfl | rfl
    · exact first
    · exact second
  have written : expr.render = "¬¬(a ⊼ B_1)" := by decide
  have nested (tokens : List Token) (tokenized : tokenize expr.render = .ok tokens) :
      nestingOf (tokens.map Token.kind) = 3 := by
    obtain ⟨_, same, kinds⟩ := tokenize_render expr fun name member => (named name member).isName
    rw [Except.ok.inj (tokenized.symm.trans same), kinds]
    rfl
  obtain ⟨tokens, tokenized, within, _⟩ := parse_render_iff expr named 3
  obtain ⟨others, otherTokenized, beyond, _⟩ := parse_render_iff expr named 2
  rw [nested tokens tokenized, written] at within
  rw [nested others otherTokenized, written] at beyond
  exact ⟨within.mpr (by decide), fun read => absurd (beyond.mp read).1 (by decide)⟩

end Printing

/-! ### Normal forms -/

/-- **Which normal forms are read back.** The normal form of an evaluation is a list of tokens. Under
the limits of the evaluation it is read as the tree of the evaluation just where its tokens nest no
deeper than the limit, and else refused for its nesting: it is never too high. -/
theorem normalized_reads_back_iff {limits : Limits} {text : String} {evaluation : Evaluation}
    (evaluated : evaluate limits text = .ok evaluation) :
    ∃ tokens, tokenize evaluation.normalized = .ok tokens ∧
      (Expr.parse limits.nesting evaluation.normalized = .ok evaluation.expr ↔
        nestingOf (tokens.map Token.kind) ≤ limits.nesting) ∧
      (Expr.parse limits.nesting evaluation.normalized = .ok evaluation.expr ∨
        Expr.parse limits.nesting evaluation.normalized =
          .error (.nestingTooDeep limits.nesting)) := by
  have parsed := (evaluate_eq_ok evaluated).read
  have names := isName_of_parse parsed
  obtain ⟨_, _, read⟩ := bind_eq_ok_iff.mp parsed
  obtain ⟨_, _, _, low⟩ := ofTokens_eq_ok_iff.mp read
  obtain ⟨tokens, tokenized, kinds⟩ := tokenize_render evaluation.expr names
  refine ⟨tokens, tokenized, ?_, ?_⟩
  · rw [Evaluation.normalized, Expr.parse_render_eq_ok_iff names, kinds, Expr.nestingOf_kinds]
    exact ⟨fun fits => fits.shallow, fun shallow => ⟨shallow, low⟩⟩
  · rcases Expr.parse_render_cases names limits.nesting with ⟨_, read⟩ | ⟨_, deep⟩ | ⟨high, _⟩
    · exact .inl read
    · exact .inr deep
    · exact absurd low (Nat.not_le_of_lt high)

/-- The normal form of a name with two primes is read back. -/
theorem normalized_reads_back_iff_double_negation :
    ∃ evaluation, evaluate .standard "A''" = .ok evaluation ∧
      Expr.parse defaultNesting evaluation.normalized = .ok evaluation.expr := by
  have normal : (evaluate .standard "A''").map Evaluation.normalized = .ok "¬¬A" := by
    cbv
  obtain ⟨evaluation, evaluated, written⟩ := map_eq_ok_iff.mp normal
  obtain ⟨tokens, tokenized, within, _⟩ := normalized_reads_back_iff evaluated
  have kinds : (tokenize "¬¬A").map (List.map Token.kind) = .ok [.op .not, .op .not, .var "A"] := by
    cbv
  rw [written] at tokenized
  rw [tokenized] at kinds
  refine ⟨evaluation, evaluated, within.mpr ?_⟩
  rw [Except.ok.inj kinds]
  decide

/-! ### Many primes -/

section Primes

variable {name : String} {limits : Limits} {nesting count : Nat}

/-- A name with so many primes. -/
def primedText (name : String) (count : Nat) : String :=
  name ++ String.ofList (List.replicate count '\'')

theorem lexes_primes (count : Nat) :
    Lexes (List.replicate count '\'') (List.replicate count .prime) := by
  induction count with
  | zero => exact .nil
  | succ count ih => exact .cons rfl (fun _ => rfl) ih

/-- A name negated many times is as high as its negations are many, and prints as nested as that. -/
theorem negations_spec (name : String) (count : Nat) :
    (Expr.not^[count] (.var name)).height = count ∧ (Expr.not^[count] (.var name)).depth = count ∧
      (Expr.not^[count] (.var name)).leaves = [name] ∧
      Expr.notPrecedence ≤ (Expr.not^[count] (.var name)).precedence := by
  induction count with
  | zero => exact ⟨rfl, rfl, rfl, Nat.le_succ _⟩
  | succ count ih =>
    obtain ⟨height, depth, leaves, tight⟩ := ih
    have bare : decide ((Expr.not^[count] (.var name)).precedence < Expr.notPrecedence) = false :=
      decide_eq_false (Nat.not_lt_of_le tight)
    rw [Function.iterate_succ_apply', Expr.height, Expr.depth, Expr.leaves, height, depth, leaves,
      bare]
    exact ⟨rfl, rfl, rfl, Nat.le_refl _⟩

/-- Primes do not count as nesting: as many of them are read as the tree may be high. -/
theorem parse_primedText (isName : IsName name) (low : count ≤ heightLimit nesting) :
    Expr.parse nesting (primedText name count) = .ok (Expr.not^[count] (.var name)) := by
  have bound : Boundary (List.replicate count '\'') := by
    cases count with
    | zero => exact fun _ found => nomatch found
    | succ count =>
      intro character found
      cases found
      rfl
  have lexes : Lexes (primedText name count).toList ([.var name] ++ List.replicate count .prime) := by
    rw [primedText, String.toList_append, String.toList_ofList]
    exact (Lexes.name isName).append bound (lexes_primes count)
  obtain ⟨tokens, tokenized, kinds⟩ := lexes.tokenize
  have writes : Writes 1 (tokens.map Token.kind) (Expr.not^[count] (.var name)) 0 :=
    kinds ▸ (writes_primed count (.var name)).loosen (by decide) (by decide)
  rw [Expr.parse, tokenized]
  refine ofTokens_eq_ok_iff.mpr ⟨0, Nat.zero_le _, writes, ?_⟩
  rw [(negations_spec name count).1]
  exact low

/-- **Printed primes nest.** A name with more primes than the nesting limit, but no more than the
height limit, has an evaluation, whose normal form is refused for its nesting. -/
theorem normalized_refused_of_primes (isName : IsName name) (one : 1 ≤ limits.variableLimit)
    (deep : limits.nesting < count) (low : count ≤ heightLimit limits.nesting) :
    ∃ evaluation, evaluate limits (primedText name count) = .ok evaluation ∧
      Expr.parse limits.nesting evaluation.normalized ≠ .ok evaluation.expr := by
  obtain ⟨_, depth, leaves, _⟩ := negations_spec name count
  have few : (Expr.not^[count] (.var name)).names.length ≤ limits.variableLimit := by
    rw [Expr.names, leaves]
    exact one
  obtain ⟨evaluation, evaluated, tree⟩ := exists_evaluate (parse_primedText isName low) few
  refine ⟨evaluation, evaluated, fun read => ?_⟩
  have named : ∀ other ∈ evaluation.expr.leaves, IsName other := by
    intro other member
    rw [tree, leaves] at member
    exact List.mem_singleton.mp member ▸ isName
  have shallow := ((Expr.parse_render_eq_ok_iff named limits.nesting).mp read).shallow
  rw [tree, depth] at shallow
  exact Nat.not_le_of_lt deep shallow

/-- **A normal form need not be read back.** Under the standard limits a name with 257 primes has an
evaluation, and its normal form is not read. -/
theorem normalized_not_read_back :
    ∃ evaluation,
      evaluate .standard ("a" ++ String.ofList (List.replicate 257 '\'')) = .ok evaluation ∧
        Expr.parse defaultNesting evaluation.normalized ≠ .ok evaluation.expr := by
  have isName : IsName "a" := ⟨⟨'a', [], rfl, rfl, fun _ member => nomatch member⟩, by decide⟩
  exact normalized_refused_of_primes isName (by decide) (by decide) (by decide)

end Primes

end TwoLevel
