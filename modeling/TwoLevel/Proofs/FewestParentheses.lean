/-
**A printed tree has the fewest parentheses.**

Every text that is read as a tree has at least as many opening parentheses as the printed one. A
derivation that writes a tree tighter than its root allows has to enclose it, and the printer encloses
a tree only there: it is enough to count, for each production, what the tree owes beyond what is
printed of it.

* `Expr.tightest` — the tightest level at which a tree can be written without parentheses around it;
* `Writes.count_opening_le` — **a derivation opens what the printer opens**, and one parenthesis more
  if it writes the tree tighter than that;
* `count_opening_of_tokenizeFrom` — the parentheses of a text are those of its tokens;
* `render_fewest_parentheses` — the printed text has the fewest, and is a text of the tree.
-/

import TwoLevel.Proofs.RoundTrip

namespace TwoLevel

open Text

/-! ### The parentheses of a derivation -/

/-- The tightest level of the grammar at which the tree can be written without parentheses around it.
A negation can be written with a prime, and stands at the level of a leaf then. -/
def Expr.tightest : Expr → Nat
  | const _ | var _ | not _ => 5
  | binary op _ _ => op.precedence

/-- One parenthesis if the tree is written at a level that is tighter than it can be without. -/
def Expr.owed (level : Nat) (expr : Expr) : Nat := (decide (expr.tightest < level)).toNat

section Derivations

variable {level depth : Nat} {kinds : List TokenKind} {expr : Expr}

/-- Where the printer compares precedences, a tree can be written at a level just where it binds as
tight as the level. -/
theorem Expr.tightest_lt_iff (below : level ≤ 4) :
    expr.tightest < level ↔ expr.precedence < level := by
  cases expr with
  | const | var | binary => exact Iff.rfl
  | not operand =>
    simp only [tightest, precedence, notPrecedence]
    omega

/-- Before a prime a tree needs parentheses just where it needs them after a NOT. -/
theorem Expr.tightest_lt_five_iff : expr.tightest < 5 ↔ expr.tightest < 4 := by
  cases expr with
  | const | var | not => simp [tightest]
  | binary op left right =>
    have highest := op.precedence_le
    simp only [tightest]
    omega

theorem Expr.owed_le_one (level : Nat) (expr : Expr) : expr.owed level ≤ 1 := Bool.toNat_le _

theorem Expr.owed_eq_zero (tight : level ≤ expr.tightest) : expr.owed level = 0 := by
  unfold owed
  simp [Nat.not_lt.mpr tight]

theorem Expr.owed_mono {looser : Nat} (below : looser ≤ level) : expr.owed looser ≤ expr.owed level := by
  by_cases needs : expr.tightest < looser
  · unfold owed
    simp [needs, Nat.lt_of_lt_of_le needs below]
  · rw [owed_eq_zero (Nat.le_of_not_lt needs)]
    exact Nat.zero_le _

/-- An operator is no parenthesis. -/
theorem count_opening_op (operator : Operator) (kinds : List TokenKind) :
    (TokenKind.op operator :: kinds).count .opening = kinds.count .opening := by
  apply List.count_cons_of_ne
  simp

theorem Expr.count_opening_encloseKinds (parentheses : Bool) (kinds : List TokenKind) :
    (encloseKinds parentheses kinds).count .opening = kinds.count .opening + parentheses.toNat := by
  cases parentheses with
  | false => rfl
  | true =>
    show (TokenKind.opening :: (kinds ++ [.closing])).count .opening = kinds.count .opening + 1
    simp

/-- The printer encloses an operand of a connective, or of NOT, where the operand owes it. -/
theorem Expr.count_opening_operand (below : level ≤ 4) (expr : Expr) :
    (encloseKinds (expr.precedence < level) expr.kinds).count .opening =
      expr.kinds.count .opening + expr.owed level := by
  rw [count_opening_encloseKinds, owed]
  simp only [tightest_lt_iff below]

theorem Expr.count_opening_kinds_not (operand : Expr) :
    (Expr.not operand).kinds.count .opening = operand.kinds.count .opening + operand.owed 4 := by
  rw [kinds, count_opening_op]
  exact operand.count_opening_operand (Nat.le_refl 4)

theorem Expr.count_opening_kinds_binary (op : Connective) (left right : Expr) :
    (binary op left right).kinds.count .opening =
      (left.kinds.count .opening + left.owed op.precedence) +
        (right.kinds.count .opening + right.owed (op.precedence + 1)) := by
  have highest := op.precedence_le
  have encloses : (decide (right.precedence ≤ op.precedence)) =
      decide (right.precedence < op.precedence + 1) := by
    simp only [Nat.lt_succ_iff]
  rw [kinds, encloses, List.count_append, count_opening_op,
    left.count_opening_operand (by omega), right.count_opening_operand (by omega)]

/-- A tree owes as much under a prime as under a leading NOT. -/
theorem Expr.owed_five : expr.owed 5 = expr.owed 4 := by
  unfold owed
  simp only [tightest_lt_five_iff]

/-- **A derivation opens what the printer opens**, and one parenthesis more if it writes the tree
tighter than it can be written without. -/
theorem Writes.count_opening_le (writes : Writes level kinds expr depth) :
    expr.kinds.count .opening + expr.owed level ≤ kinds.count .opening := by
  induction writes with
  | const | var => exact Nat.le_refl _
  | @enclosed kinds expr depth inner ih =>
    have one := expr.owed_le_one 5
    simp only [List.count_cons_self, List.count_append]
    omega
  | @primed kinds operand depth inner ih =>
    rw [Expr.owed_five] at ih
    have free : (Expr.not operand).owed 5 = 0 := Expr.owed_eq_zero (Nat.le_refl 5)
    rw [Expr.count_opening_kinds_not, free, List.count_append]
    omega
  | @negated kinds operand depth inner ih =>
    have free : (Expr.not operand).owed 4 = 0 := Expr.owed_eq_zero (Nat.le_succ 4)
    rw [Expr.count_opening_kinds_not, free, count_opening_op]
    exact ih
  | @joined op _ _ left right _ _ first second firstIh secondIh =>
    have free : (Expr.binary op left right).owed op.precedence = 0 :=
      Expr.owed_eq_zero (Nat.le_refl _)
    rw [Expr.count_opening_kinds_binary, free, List.count_append, count_opening_op, Nat.add_zero]
    exact Nat.add_le_add firstIh secondIh
  | @adjacent _ _ left right _ _ first second firstIh secondIh =>
    have free : (Expr.binary .and left right).owed 3 = 0 := Expr.owed_eq_zero (Nat.le_refl 3)
    rw [Expr.count_opening_kinds_binary, free, List.count_append, Nat.add_zero]
    exact Nat.add_le_add firstIh secondIh
  | @looser level kinds expr depth positive tighter ih =>
    have less : expr.owed level ≤ expr.owed (level + 1) := Expr.owed_mono (Nat.le_succ level)
    omega

end Derivations

/-! ### The parentheses of a text -/

/-- A lexeme has an opening parenthesis if it is one. -/
theorem IsLexeme.count_opening {first : Char} {tail : List Char} {kind : TokenKind}
    (lexeme : IsLexeme first tail kind) : (first :: tail).count '(' = [kind].count .opening := by
  cases lexeme with
  | mark marks =>
    unfold markKind? at marks
    split at marks <;> first | (cases marks; decide) | cases marks
  | word starts continues =>
    have letters : ∀ character ∈ first :: tail, isNameRest character = true := by
      intro character member
      rcases List.mem_cons.mp member with rfl | later
      · exact isNameRest_of_isNameStart starts
      · exact continues character later
    have none : (first :: tail).count '(' = 0 :=
      List.count_eq_zero.mpr fun member => absurd (letters _ member) (by decide)
    rw [none, wordKind]
    split <;> rfl
  | doubled doubles =>
    unfold Operator.ofDoubled? at doubles
    split at doubles <;> first | (cases doubles; decide) | cases doubles
  | symbol writes =>
    have other : first ≠ '(' := by
      rintro rfl
      exact absurd (apart_of_ofSymbol? writes).1 (by decide)
    rw [List.count_cons_of_ne other]
    rfl

/-- **The opening parentheses of a text are those of its tokens.** -/
theorem count_opening_of_tokenizeFrom {position : Nat} {characters : List Char} {tokens : List Token}
    (read : tokenizeFrom position characters = .ok tokens) :
    characters.count '(' = (tokens.map Token.kind).count .opening := by
  refine tokenizeFrom_ok_induction
    (motive := fun _ characters tokens =>
      characters.count '(' = (tokens.map Token.kind).count .opening) ?_ ?_ ?_ read
  · exact fun _ => rfl
  · intro position first rest tokens white ih
    have other : first ≠ '(' := by
      rintro rfl
      exact absurd white (by decide)
    rw [List.count_cons_of_ne other, ih]
  · intro position first tail kind others tokens lexeme stops ih
    rw [← List.cons_append, List.count_append, lexeme.count_opening, ih, List.map_cons,
      ← List.count_append, List.singleton_append]

/-- **A printed tree has the fewest parentheses.** Whatever text is read as a tree under whatever
limit, it has at least as many opening parentheses as the printed tree; and if the names of the tree
are identifiers and no keywords, the printed tree is such a text. -/
theorem render_fewest_parentheses {expr : Expr} (named : ∀ name ∈ expr.leaves, IsIdentifier name) :
    (∀ nesting text, Expr.parse nesting text = .ok expr →
      expr.render.toList.count '(' ≤ text.toList.count '(') ∧
    ∃ nesting, Expr.parse nesting expr.render = .ok expr := by
  have names : ∀ name ∈ expr.leaves, IsName name := fun name member => (named name member).isName
  obtain ⟨printed, printedRead, printedKinds⟩ := tokenize_render expr names
  constructor
  · intro nesting text read
    obtain ⟨tokens, tokenized, read⟩ := bind_eq_ok_iff.mp read
    obtain ⟨depth, _, writes, _⟩ := ofTokens_eq_ok_iff.mp read
    calc expr.render.toList.count '('
        = expr.kinds.count .opening := by
          rw [count_opening_of_tokenizeFrom printedRead, printedKinds]
      _ ≤ (tokens.map Token.kind).count .opening :=
          Nat.le_trans (Nat.le_add_right _ _) writes.count_opening_le
      _ = text.toList.count '(' := (count_opening_of_tokenizeFrom tokenized).symm
  · refine ⟨max expr.depth expr.height, parse_render names (Nat.le_max_left _ _) ?_⟩
    exact Nat.le_trans (Nat.le_max_right _ _) (Nat.le_max_right _ _)

/-- A group in a group before a prime has one parenthesis more than the printed tree, which has a
leading NOT. -/
theorem render_fewest_parentheses_primed_group :
    let expr : Expr := .not (.and (.var "a") (.var "b"))
    (∀ name ∈ expr.leaves, IsIdentifier name) ∧ expr.render = "¬(a · b)" ∧
      Expr.parse 2 "((a) b)'" = .ok expr ∧
      "¬(a · b)".toList.count '(' ≤ "((a) b)'".toList.count '(' ∧
      ∃ nesting, Expr.parse nesting "¬(a · b)" = .ok expr := by
  intro expr
  have named : ∀ name ∈ expr.leaves, IsIdentifier name := by
    intro name member
    rcases List.mem_pair.mp member with rfl | rfl
    · exact ⟨⟨'a', [], rfl, .inl rfl, fun _ member => nomatch member⟩, by decide⟩
    · exact ⟨⟨'b', [], rfl, .inl rfl, fun _ member => nomatch member⟩, by decide⟩
  have written : expr.render = "¬(a · b)" := by decide
  have read : Expr.parse 2 "((a) b)'" = .ok expr := by
    cbv
  obtain ⟨fewest, readBack⟩ := render_fewest_parentheses named
  rw [written] at fewest readBack
  exact ⟨named, written, read, fewest 2 _ read, readBack⟩

end TwoLevel
