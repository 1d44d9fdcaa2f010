/-
**The grammar rule by rule.**

The five rules of the grammar as they are documented, with a row of operands for every repetition:

    or      := xor ((OR | NOR) xor)*
    xor     := and (XOR and)*
    and     := unary ((AND | NAND) unary | unary)*
    unary   := NOT unary | primary PRIME*
    primary := "(" or ")" | constant | variable

A derivation has a tree, in which chains associate to the left and an operand right after another is
joined by AND, and a depth: the greatest number of parentheses and leading NOTs around one point of
it. This is the grammar by levels, put into rules.

* `Separates` — what may stand between the operands of a rule, and the connective it means;
* `Produces` — tokens of the kinds derive from a rule, with a tree and a depth;
* `produces_or_iff` — a rule derives what the grammar writes at its level;
* `ofTokens_eq_ok_iff_produces` — **the parser accepts the grammar, within the limits**.
-/

import Mathlib.Logic.Function.Iterate
import TwoLevel.Proofs.Nesting

namespace TwoLevel

/-! ### The rules -/

/-- The rules of the grammar. -/
inductive Rule where
  | or
  | xor
  | and
  | unary
  | primary
  deriving DecidableEq, Repr

namespace Rule

/-- The rule for the operands of a rule of chains. -/
def operand? : Rule → Option Rule
  | or => some xor
  | xor => some and
  | and => some unary
  | unary | primary => none

/-- The level of the grammar that a rule derives; a primary is one without primes. -/
def level : Rule → Nat
  | or => 1
  | xor => 2
  | and => 3
  | unary => 4
  | primary => 5

end Rule

/-- What may stand before one more operand of a rule, and the connective that it means. -/
inductive Separates : Rule → List TokenKind → Connective → Prop where
  | or : Separates .or [.op (.binary .or)] .or
  | nor : Separates .or [.op (.binary .nor)] .nor
  | xor : Separates .xor [.op (.binary .xor)] .xor
  | and : Separates .and [.op (.binary .and)] .and
  | nand : Separates .and [.op (.binary .nand)] .nand
  | adjacent : Separates .and [] .and

/-- One more operand of a chain, with what stands before it. -/
structure Link where
  separator : List TokenKind
  op : Connective
  kinds : List TokenKind
  expr : Expr
  depth : Nat

namespace Link

/-- The tokens that a link adds to a chain. -/
def added (link : Link) : List TokenKind := link.separator ++ link.kinds

/-- The tree of a chain with one more operand. -/
def join (left : Expr) (link : Link) : Expr := .binary link.op left link.expr

/-- The depth of a chain with one more operand. -/
def deepen (depth : Nat) (link : Link) : Nat := max depth link.depth

end Link

/-- Tokens of the kinds derive from the rule, with the tree, nested to the depth. -/
inductive Produces : Rule → List TokenKind → Expr → (depth : Nat) → Prop where
  | const (value : Bool) : Produces .primary [.const value] (.const value) 0
  | var (name : String) : Produces .primary [.var name] (.var name) 0
  | group {kinds : List TokenKind} {expr : Expr} {depth : Nat} (inner : Produces .or kinds expr depth) :
    Produces .primary (.opening :: (kinds ++ [.closing])) expr (depth + 1)
  | primed {kinds : List TokenKind} {expr : Expr} {depth : Nat} (count : Nat)
    (inner : Produces .primary kinds expr depth) :
    Produces .unary (kinds ++ List.replicate count .prime) (Expr.not^[count] expr) depth
  | negated {kinds : List TokenKind} {expr : Expr} {depth : Nat}
    (inner : Produces .unary kinds expr depth) :
    Produces .unary (.op .not :: kinds) (.not expr) (depth + 1)
  | chain {rule operand : Rule} {kinds : List TokenKind} {expr : Expr} {depth : Nat} {links : List Link}
    (tighter : rule.operand? = some operand) (first : Produces operand kinds expr depth)
    (separated : ∀ link ∈ links, Separates rule link.separator link.op)
    (operands : ∀ link ∈ links, Produces operand link.kinds link.expr link.depth) :
    Produces rule (kinds ++ links.flatMap Link.added) (links.foldl Link.join expr)
      (links.foldl Link.deepen depth)

/-! ### From rules to levels -/

section Levels

variable {rule operand : Rule} {kinds : List TokenKind} {expr : Expr} {depth : Nat}

theorem Rule.level_operand (tighter : rule.operand? = some operand) :
    operand.level = rule.level + 1 := by
  cases rule <;> cases tighter <;> rfl

theorem Rule.level_pos (rule : Rule) : 0 < rule.level := by
  cases rule <;> decide

/-- A separator stands between operands of the level above. -/
theorem Separates.writes {separator lefts rights : List TokenKind} {op : Connective}
    {left right : Expr} {leftDepth rightDepth : Nat} (separates : Separates rule separator op)
    (first : Writes rule.level lefts left leftDepth)
    (second : Writes (rule.level + 1) rights right rightDepth) :
    Writes rule.level (lefts ++ (separator ++ rights)) (.binary op left right)
      (max leftDepth rightDepth) := by
  cases separates with
  | or => exact .joined .or first second
  | nor => exact .joined .nor first second
  | xor => exact .joined .xor first second
  | and => exact .joined .and first second
  | nand => exact .joined .nand first second
  | adjacent => exact .adjacent first second

/-- A chain of a rule is written at the level of the rule, by induction on its links. -/
theorem writes_links {links : List Link} (start : Writes rule.level kinds expr depth)
    (separated : ∀ link ∈ links, Separates rule link.separator link.op)
    (operands : ∀ link ∈ links, Writes (rule.level + 1) link.kinds link.expr link.depth) :
    Writes rule.level (kinds ++ links.flatMap Link.added) (links.foldl Link.join expr)
      (links.foldl Link.deepen depth) := by
  induction links generalizing kinds expr depth with
  | nil =>
    rw [List.flatMap_nil, List.append_nil]
    exact start
  | cons link rest ih =>
    have joined := (separated link List.mem_cons_self).writes start (operands link List.mem_cons_self)
    have more := ih joined (fun other member => separated other (List.mem_cons_of_mem _ member))
      fun other member => operands other (List.mem_cons_of_mem _ member)
    rw [List.append_assoc] at more
    exact more

/-- Primes after a primary negate it, one after the other. -/
theorem writes_primed (count : Nat) (start : Writes 5 kinds expr depth) :
    Writes 5 (kinds ++ List.replicate count .prime) (Expr.not^[count] expr) depth := by
  induction count with
  | zero =>
    rw [List.replicate_zero, List.append_nil]
    exact start
  | succ count ih =>
    rw [List.replicate_succ', ← List.append_assoc, Function.iterate_succ_apply']
    exact ih.primed

/-- What derives from a rule is written at its level. -/
theorem Produces.writes (produces : Produces rule kinds expr depth) :
    Writes rule.level kinds expr depth := by
  induction produces with
  | const value => exact .const value
  | var name => exact .var name
  | group inner ih => exact ih.enclosed
  | primed count inner ih => exact (writes_primed count ih).looser (by decide)
  | negated inner ih => exact ih.negated
  | @chain rule operand kinds expr depth links tighter first separated operands firstIh operandsIh =>
    rw [Rule.level_operand tighter] at firstIh operandsIh
    exact writes_links (firstIh.looser rule.level_pos) separated operandsIh

end Levels

/-! ### From levels to rules -/

section Rules

variable {rule operand : Rule} {kinds : List TokenKind} {expr : Expr} {depth : Nat}

/-- An operand alone is a chain. -/
theorem Produces.alone (tighter : rule.operand? = some operand)
    (first : Produces operand kinds expr depth) : Produces rule kinds expr depth := by
  have chain : Produces rule (kinds ++ [].flatMap Link.added) expr depth :=
    .chain tighter first (fun _ member => nomatch member) fun _ member => nomatch member
  rwa [List.flatMap_nil, List.append_nil] at chain

/-- A chain goes on by one more operand. -/
theorem Produces.extend {separator rights : List TokenKind} {op : Connective} {right : Expr}
    {rightDepth : Nat} (tighter : rule.operand? = some operand)
    (first : Produces rule kinds expr depth) (separates : Separates rule separator op)
    (second : Produces operand rights right rightDepth) :
    Produces rule (kinds ++ (separator ++ rights)) (.binary op expr right) (max depth rightDepth) := by
  cases first with
  | const | var | group | primed | negated => cases tighter
  | @chain _ same kinds expr depth links tighter' first separated operands =>
    obtain rfl : operand = same := Option.some.inj (tighter.symm.trans tighter')
    let last : Link := ⟨separator, op, rights, right, rightDepth⟩
    have longer : Produces rule (kinds ++ (links ++ [last]).flatMap Link.added)
        ((links ++ [last]).foldl Link.join expr) ((links ++ [last]).foldl Link.deepen depth) :=
      .chain tighter first
        (List.forall_mem_append.mpr ⟨separated, List.forall_mem_singleton.mpr separates⟩)
        (List.forall_mem_append.mpr ⟨operands, List.forall_mem_singleton.mpr second⟩)
    rw [List.flatMap_append, List.flatMap_singleton, ← List.append_assoc, List.foldl_append,
      List.foldl_append] at longer
    exact longer

/-- What derives from the rule of a level. The rules have no level for a primary with its primes,
which the levels have. -/
def ProducesAt (level : Nat) (kinds : List TokenKind) (expr : Expr) (depth : Nat) : Prop :=
  match level with
  | 1 => Produces .or kinds expr depth
  | 2 => Produces .xor kinds expr depth
  | 3 => Produces .and kinds expr depth
  | 4 => Produces .unary kinds expr depth
  | _ => ∃ count primary tree, kinds = primary ++ List.replicate count .prime ∧
      expr = Expr.not^[count] tree ∧ Produces .primary primary tree depth

/-- A primary has no primes yet. -/
theorem Produces.at_primary (produces : Produces .primary kinds expr depth) :
    ProducesAt 5 kinds expr depth :=
  ⟨0, kinds, expr, (List.append_nil kinds).symm, rfl, produces⟩

/-- What is written at a level derives from its rule. -/
theorem Writes.producesAt {level : Nat} (writes : Writes level kinds expr depth) :
    ProducesAt level kinds expr depth := by
  induction writes with
  | const value => exact Produces.at_primary (.const value)
  | var name => exact Produces.at_primary (.var name)
  | enclosed inner ih => exact Produces.at_primary (.group ih)
  | primed inner ih =>
    obtain ⟨count, primary, tree, rfl, rfl, produces⟩ := ih
    refine ⟨count + 1, primary, tree, ?_, ?_, produces⟩
    · rw [List.append_assoc, List.replicate_succ']
    · rw [Function.iterate_succ_apply']
  | negated inner ih => exact Produces.negated ih
  | joined op first second firstIh secondIh =>
    cases op with
    | and => exact Produces.extend rfl firstIh .and secondIh
    | or => exact Produces.extend rfl firstIh .or secondIh
    | xor => exact Produces.extend rfl firstIh .xor secondIh
    | nand => exact Produces.extend rfl firstIh .nand secondIh
    | nor => exact Produces.extend rfl firstIh .nor secondIh
  | adjacent first second firstIh secondIh => exact Produces.extend rfl firstIh .adjacent secondIh
  | @looser level kinds expr depth positive tighter ih =>
    have below : level + 1 ≤ 5 := tighter.level_le
    rcases (by omega : level = 1 ∨ level = 2 ∨ level = 3 ∨ level = 4) with rfl | rfl | rfl | rfl
    · exact Produces.alone rfl ih
    · exact Produces.alone rfl ih
    · exact Produces.alone rfl ih
    · obtain ⟨count, primary, tree, rfl, rfl, produces⟩ := ih
      exact .primed count produces

/-- **The two forms of the grammar agree**, on whole texts. -/
theorem produces_or_iff : Produces .or kinds expr depth ↔ Writes 1 kinds expr depth :=
  ⟨Produces.writes, Writes.producesAt⟩

end Rules

/-! ### The parser -/

/-- **The parser accepts exactly the grammar, within exactly the limits.** Tokens are read as a tree
just where they derive from the grammar with that tree, nested no deeper than the limit and no
higher than the larger of the limit and 1024. The depth is the nesting of the tokens, and no other
tree derives. -/
theorem ofTokens_eq_ok_iff_produces (nesting : Nat) (tokens : List Token) :
    (∀ expr, Expr.ofTokens nesting tokens = .ok expr ↔
      ∃ depth, Produces .or (tokens.map Token.kind) expr depth ∧ depth ≤ nesting ∧
        expr.height ≤ max 1024 nesting) ∧
    ∀ expr depth, Produces .or (tokens.map Token.kind) expr depth →
      depth = nestingOf (tokens.map Token.kind) ∧
        ∀ other otherDepth, Produces .or (tokens.map Token.kind) other otherDepth →
          other = expr := by
  refine ⟨fun expr => ?_, fun expr depth produces => ⟨?_, fun other otherDepth otherProduces => ?_⟩⟩
  · rw [ofTokens_eq_ok_iff]
    refine exists_congr fun depth => ?_
    rw [produces_or_iff]
    exact and_left_comm
  · exact produces.writes.depth_eq
  · exact otherProduces.writes.tree_unique produces.writes

/-- A negated group of two operands without a connective between them is nested two deep, and
derives with one tree. -/
theorem ofTokens_eq_ok_iff_produces_negated_group :
    ∃ depth, Produces .or [.op .not, .opening, .var "a", .var "b", .prime, .closing]
        (.not (.and (.var "a") (.not (.var "b")))) depth ∧ depth = 2 ∧
      ∀ other otherDepth,
        Produces .or [.op .not, .opening, .var "a", .var "b", .prime, .closing] other otherDepth →
          other = .not (.and (.var "a") (.not (.var "b"))) := by
  let tokens : List Token := [⟨.op .not, "¬", 0⟩, ⟨.opening, "(", 1⟩, ⟨.var "a", "a", 2⟩,
    ⟨.var "b", "b", 4⟩, ⟨.prime, "'", 5⟩, ⟨.closing, ")", 6⟩]
  obtain ⟨accepts, unique⟩ := ofTokens_eq_ok_iff_produces 2 tokens
  have read : Expr.ofTokens 2 tokens = .ok (.not (.and (.var "a") (.not (.var "b")))) := by
    cbv
  obtain ⟨depth, produces, _⟩ := (accepts _).mp read
  obtain ⟨nested, only⟩ := unique _ _ produces
  exact ⟨depth, produces, nested.trans rfl, only⟩

end TwoLevel
