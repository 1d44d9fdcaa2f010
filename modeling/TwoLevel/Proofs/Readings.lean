/-
**What the parser reads.**

The grammar as a relation between kinds of tokens and the tree they write, and the parser against
it. The levels of the grammar are the precedences of trees: connectives from 1 to 3, operands at 4,
primaries with their primes at 5. A derivation also counts how deep parentheses and leading NOTs
nest, for which the parser has a limit.

* `Writes` — tokens of these kinds write a tree at a level, nested to a depth;
* `readAt`, `continueAt` — the parser at a level, and what it does after a tree of that level;
* `mem_connectivesAt_iff` — the connectives of a level are those with its precedence;
* `Ends` — what comes next does not continue a tree of the level;
* `operand_induction`, `operand_ok_induction` — **induction along the reading of operands**;
* `Writes.read` — **completeness**: what the grammar writes is read, whatever follows;
* `soundAt_readAt` — **soundness**: what is read has been written;
* `ofTokens_cons` — a text is read at the loosest level, to its end;
* `ofTokens_eq_ok_iff` — the parser accepts what the grammar writes within the limits.
-/

import TwoLevel.Grammar
import TwoLevel.Proofs.Chains

namespace TwoLevel

/-! ### The grammar -/

/-- Whether an operand can end with a token of this kind. -/
def TokenKind.endsTerm : TokenKind → Bool
  | closing | prime | const _ | var _ => true
  | opening | op _ => false

/-- Tokens of the kinds write the tree at a level of the grammar, with parentheses and leading NOTs
nested to the depth. -/
inductive Writes : (level : Nat) → List TokenKind → Expr → (depth : Nat) → Prop where
  | const (value : Bool) : Writes 5 [.const value] (.const value) 0
  | var (name : String) : Writes 5 [.var name] (.var name) 0
  | enclosed {kinds : List TokenKind} {expr : Expr} {depth : Nat} (inner : Writes 1 kinds expr depth) :
    Writes 5 (.opening :: (kinds ++ [.closing])) expr (depth + 1)
  | primed {kinds : List TokenKind} {expr : Expr} {depth : Nat} (inner : Writes 5 kinds expr depth) :
    Writes 5 (kinds ++ [.prime]) (.not expr) depth
  | negated {kinds : List TokenKind} {expr : Expr} {depth : Nat}
    (inner : Writes 4 kinds expr depth) : Writes 4 (.op .not :: kinds) (.not expr) (depth + 1)
  | joined (op : Connective) {lefts rights : List TokenKind} {left right : Expr}
    {leftDepth rightDepth : Nat} (first : Writes op.precedence lefts left leftDepth)
    (second : Writes (op.precedence + 1) rights right rightDepth) :
    Writes op.precedence (lefts ++ .op (.binary op) :: rights) (.binary op left right)
      (max leftDepth rightDepth)
  | adjacent {lefts rights : List TokenKind} {left right : Expr} {leftDepth rightDepth : Nat}
    (first : Writes 3 lefts left leftDepth) (second : Writes 4 rights right rightDepth) :
    Writes 3 (lefts ++ rights) (.binary .and left right) (max leftDepth rightDepth)
  | looser {level : Nat} {kinds : List TokenKind} {expr : Expr} {depth : Nat} (positive : 0 < level)
    (tighter : Writes (level + 1) kinds expr depth) : Writes level kinds expr depth

theorem Connective.precedence_pos (op : Connective) : 0 < op.precedence := by
  cases op <;> decide

theorem Connective.precedence_le (op : Connective) : op.precedence ≤ 3 := by
  cases op <;> decide

namespace Writes

variable {level depth : Nat} {kinds : List TokenKind} {expr : Expr}

theorem level_pos (writes : Writes level kinds expr depth) : 0 < level := by
  cases writes with
  | joined op => exact op.precedence_pos
  | looser positive => exact positive
  | _ => decide

theorem level_le (writes : Writes level kinds expr depth) : level ≤ 5 := by
  induction writes with
  | joined op => exact Nat.le_trans op.precedence_le (by decide)
  | looser _ _ ih => exact Nat.le_of_succ_le ih
  | _ => decide

/-- What is written at a level is written at every looser one. -/
theorem loosen {looser : Nat} (positive : 0 < looser) (below : looser ≤ level)
    (writes : Writes level kinds expr depth) : Writes looser kinds expr depth := by
  induction below with
  | refl => exact writes
  | step below ih => exact ih (.looser (Nat.lt_of_lt_of_le positive below) writes)

/-- What is written at the level of operands starts like one. -/
theorem exists_startsTerm (writes : Writes level kinds expr depth) :
    ∃ first rest, kinds = first :: rest ∧ first.startsTerm = true := by
  induction writes with
  | const | var | enclosed | negated => exact ⟨_, _, rfl, rfl⟩
  | primed _ ih | joined _ _ _ ih _ | adjacent _ _ ih _ =>
    obtain ⟨first, rest, rfl, starts⟩ := ih
    exact ⟨first, _, rfl, starts⟩
  | looser _ _ ih => exact ih

/-- What the grammar writes ends with the end of an operand. -/
theorem exists_endsTerm (writes : Writes level kinds expr depth) :
    ∃ before last, kinds = before ++ [last] ∧ last.endsTerm = true := by
  induction writes with
  | const | var => exact ⟨[], _, rfl, rfl⟩
  | enclosed => exact ⟨_ :: _, .closing, rfl, rfl⟩
  | primed => exact ⟨_, .prime, rfl, rfl⟩
  | negated _ ih =>
    obtain ⟨before, last, rfl, ends⟩ := ih
    exact ⟨_ :: before, last, rfl, ends⟩
  | joined _ _ _ _ ih =>
    obtain ⟨before, last, rfl, ends⟩ := ih
    exact ⟨_, last, (List.append_assoc _ (_ :: before) _).symm, ends⟩
  | adjacent _ _ _ ih =>
    obtain ⟨before, last, rfl, ends⟩ := ih
    exact ⟨_, last, (List.append_assoc _ before _).symm, ends⟩
  | looser _ _ ih => exact ih

end Writes

/-! ### The parser by levels -/

/-- A tree with its height. -/
def Measured.of (tree : Expr) : Measured := ⟨tree, tree.height, rfl⟩

theorem Measured.of_tree (node : Measured) : Measured.of node.tree = node := by
  obtain ⟨tree, height, rfl⟩ := node
  rfl

section Reading

variable {nesting levels level : Nat} {expr : Expr} {tokens rest : List Token}

/-- What reads trees of a level. -/
def readAt (nesting levels : Nat) : (level : Nat) → TreeReader
  | 1 => expression nesting (operand nesting levels)
  | 2 => (textTier nesting 2).chain ((textTier nesting 3).chain (operand nesting levels))
  | 3 => (textTier nesting 3).chain (operand nesting levels)
  | _ => operand nesting levels

/-- What is read of the tokens after a tree of a level. -/
def continueAt (nesting levels level : Nat) (node : Measured) (tokens : List Token) :
    Except SyntaxError (Measured × List Token) :=
  match level with
  | 5 => plain (primes nesting node tokens)
  | 4 => .ok (node, tokens)
  | level =>
    plain ((textTier nesting level).chainFrom (readAt nesting levels (level + 1)) node tokens)

/-- A tree of the level ends before the tokens: they start with no prime, except that one may follow
a primary, and with no connective that binds tighter. -/
structure Ends (level : Nat) (tokens : List Token) : Prop where
  prime_ne : level < 5 → ∀ token ∈ tokens.head?, token.kind ≠ .prime
  juncture?_eq : ∀ precedence, level < precedence → juncture? precedence tokens = none

/-- The three levels of connectives. -/
theorem level_cases (positive : 0 < level) (below : level < 4) :
    level = 1 ∨ level = 2 ∨ level = 3 := by
  omega

/-- What holds of operands, and of a chain if it holds of its operands, holds at every level. -/
theorem at_level_of_operands {motive : Nat → Prop} (operands : motive 4)
    (chains : ∀ level, 0 < level → level < 4 → motive (level + 1) → motive level)
    (positive : 0 < level) (below : level ≤ 4) :
    motive level := by
  have third := chains 3 (by decide) (by decide) operands
  have second := chains 2 (by decide) (by decide) third
  rcases (by omega : level = 1 ∨ level = 2 ∨ level = 3 ∨ level = 4) with rfl | rfl | rfl | rfl
  · exact chains 1 (by decide) (by decide) second
  · exact second
  · exact third
  · exact operands

theorem readAt_eq_chain (positive : 0 < level) (below : level < 4) :
    readAt nesting levels level =
      (textTier nesting level).chain (readAt nesting levels (level + 1)) := by
  rcases level_cases positive below with rfl | rfl | rfl <;> rfl

theorem continueAt_eq_chainFrom (positive : 0 < level) (below : level < 4) (node : Measured) :
    continueAt nesting levels level node tokens =
      plain ((textTier nesting level).chainFrom (readAt nesting levels (level + 1)) node tokens) := by
  rcases level_cases positive below with rfl | rfl | rfl <;> rfl

/-- **The connectives of a level are those with its precedence**, so that a text is read by the
strengths that it is printed by. -/
theorem mem_connectivesAt_iff {op : Connective} :
    op ∈ connectivesAt level ↔ op.precedence = level := by
  constructor
  · intro listed
    unfold connectivesAt at listed
    split at listed <;> simp only [List.mem_cons, List.not_mem_nil, or_false] at listed
    · rcases listed with rfl | rfl <;> rfl
    · cases listed
      rfl
    · rcases listed with rfl | rfl <;> rfl
  · rintro rfl
    cases op <;> decide

/-- No chain goes on at a level above the connectives. -/
theorem juncture?_eq_none_of_lt {precedence : Nat} (above : 3 < precedence) (tokens : List Token) :
    juncture? precedence tokens = none := by
  cases tokens with
  | nil => rfl
  | cons token rest =>
    rw [juncture?]
    split
    · next op _ =>
      have highest := op.precedence_le
      exact if_neg fun listed => absurd (mem_connectivesAt_iff.mp listed) (by omega)
    · rw [beq_eq_false_iff_ne.mpr (Nat.ne_of_gt above), Bool.and_false]
      rfl

/-- Without primes after it a primary stays as it is. -/
theorem plain_primes_of_ne (other : ∀ token ∈ tokens.head?, token.kind ≠ .prime) (node : Measured) :
    plain (primes nesting node tokens) = .ok (node, tokens) := by
  cases tokens with
  | nil => rfl
  | cons token rest =>
    rw [primes, if_neg (other token rfl)]
    rfl

/-- A tree that ends at a level is not gone on with at the next. -/
theorem continueAt_of_ends (positive : 0 < level) (below : level < 5) (ends : Ends level rest)
    (node : Measured) : continueAt nesting levels (level + 1) node rest = .ok (node, rest) := by
  by_cases connective : level < 3
  · rw [continueAt_eq_chainFrom (Nat.succ_pos _) (Nat.succ_lt_succ connective)]
    exact Tier.plain_chainFrom_of_none _ node (ends.juncture?_eq _ (Nat.lt_succ_self _))
  · rcases (by omega : level = 3 ∨ level = 4) with rfl | rfl
    · rfl
    · exact plain_primes_of_ne (ends.prime_ne (by decide)) node

/-! ### The operands by their first token -/

variable {token : Token}

theorem plain_afterPrimary (node : Measured) (fewer : rest.length < tokens.length) :
    plain (afterPrimary nesting node rest fewer) = plain (primes nesting node rest) := by
  rw [afterPrimary]
  cases primes nesting node rest <;> rfl

theorem plain_operand_const {value : Bool} (kind : token.kind = .const value) :
    plain (operand nesting levels (token :: rest)) =
      plain (primes nesting (.of (.const value)) rest) := by
  cases levels <;> rw [operand, operandWith, kind] <;> exact plain_afterPrimary _ _

theorem plain_operand_var {name : String} (kind : token.kind = .var name) :
    plain (operand nesting levels (token :: rest)) =
      plain (primes nesting (.of (.var name)) rest) := by
  cases levels <;> rw [operand, operandWith, kind] <;> exact plain_afterPrimary _ _

theorem plain_operand_not (kind : token.kind = .op .not) :
    plain (operand nesting (levels + 1) (token :: rest)) =
      (plain (operand nesting levels rest)).bind fun read =>
        (read.1.negate nesting).bind fun negated => .ok (negated, read.2) := by
  rw [operand, operandWith, kind]
  cases operand nesting levels rest with
  | error error => rfl
  | ok phrase =>
    obtain ⟨⟨node, others⟩, fewer⟩ := phrase
    show plain ((node.negate nesting).bind _) = (node.negate nesting).bind _
    cases node.negate nesting <;> rfl

/-- After the tree between parentheses, the closing one and the primes of the group. -/
def closeGroup (nesting : Nat) (node : Measured) :
    List Token → Except SyntaxError (Measured × List Token)
  | [] => .error (.expectedClosing none)
  | close :: others =>
    if close.kind = .closing then plain (primes nesting node others)
    else .error (.expectedClosing (some close.place))

theorem plain_operand_opening (kind : token.kind = .opening) :
    plain (operand nesting (levels + 1) (token :: rest)) =
      (plain (readAt nesting levels 1 rest)).bind fun read =>
        closeGroup nesting read.1 read.2 := by
  rw [operand, operandWith, kind, readAt]
  cases expression nesting (operand nesting levels) rest with
  | error error => rfl
  | ok phrase =>
    obtain ⟨⟨node, others⟩, fewer⟩ := phrase
    cases others with
    | nil => rfl
    | cons close others =>
      show plain (if close.kind = .closing then _ else _) = closeGroup nesting node (close :: others)
      rw [closeGroup]
      split
      · exact plain_afterPrimary _ _
      · rfl

/-- Without levels left, no parenthesis is opened and no NOT is read. -/
theorem plain_operand_zero (kind : token.kind = .opening ∨ token.kind = .op .not) :
    plain (operand nesting 0 (token :: rest)) = .error (.nestingTooDeep nesting) := by
  rcases kind with kind | kind <;> rw [operand, operandWith, kind] <;> rfl

theorem plain_operand_nil : plain (operand nesting levels []) = .error (.expectedOperand none) := by
  cases levels <;> rfl

/-- No operand starts with a connective. -/
theorem plain_operand_connective {op : Connective} (kind : token.kind = .op (.binary op)) :
    plain (operand nesting levels (token :: rest)) = .error (.missingOperand token.place) := by
  cases levels <;> rw [operand, operandWith, kind] <;> rfl

/-- No operand starts with a closing parenthesis or a prime. -/
theorem plain_operand_misplaced (kind : token.kind = .closing ∨ token.kind = .prime) :
    plain (operand nesting levels (token :: rest)) = .error (.expectedOperand (some token.place)) := by
  rcases kind with kind | kind <;> cases levels <;> rw [operand, operandWith, kind] <;> rfl

theorem plain_primes_cons (kind : token.kind = .prime) (node : Measured) :
    plain (primes nesting node (token :: rest)) =
      (node.negate nesting).bind fun negated => plain (primes nesting negated rest) := by
  rw [primes, if_pos kind]
  cases node.negate nesting with
  | error error => rfl
  | ok negated =>
    show plain ((primes nesting negated rest).bind _) = plain (primes nesting negated rest)
    cases primes nesting negated rest <;> rfl

/-- A token of the kind is the leaf by itself. -/
inductive TokenKind.IsLeaf : TokenKind → Expr → Prop where
  | const (value : Bool) : IsLeaf (.const value) (.const value)
  | var (name : String) : IsLeaf (.var name) (.var name)

theorem TokenKind.IsLeaf.writes {kind : TokenKind} {leaf : Expr} (isLeaf : kind.IsLeaf leaf) :
    Writes 5 [kind] leaf 0 ∧ leaf.height = 0 := by
  cases isLeaf with
  | const value => exact ⟨.const value, rfl⟩
  | var name => exact ⟨.var name, rfl⟩

theorem TokenKind.IsLeaf.endsTerm {kind : TokenKind} {leaf : Expr} (isLeaf : kind.IsLeaf leaf) :
    kind.endsTerm = true := by
  cases isLeaf <;> rfl

theorem plain_operand_leaf {leaf : Expr} (isLeaf : token.kind.IsLeaf leaf) :
    plain (operand nesting levels (token :: rest)) = plain (primes nesting (.of leaf) rest) := by
  generalize kind : token.kind = found at isLeaf
  cases isLeaf with
  | const value => exact plain_operand_const kind
  | var name => exact plain_operand_var kind

/-- **Induction along the reading of operands.** What relates the levels left and the tokens to what
is read of them holds of every operand, if it holds for each kind of first token. For a group and for
a negation it may be used with one level less. -/
theorem operand_induction
    {motive : Nat → List Token → Except SyntaxError (Measured × List Token) → Prop}
    (nothing : ∀ levels, motive levels [] (.error (.expectedOperand none)))
    (leaf : ∀ levels token rest leaf, token.kind.IsLeaf leaf →
      motive levels (token :: rest) (plain (primes nesting (.of leaf) rest)))
    (group : ∀ levels token rest, token.kind = .opening →
      (∀ tokens, motive levels tokens (plain (operand nesting levels tokens))) →
        motive (levels + 1) (token :: rest)
          ((plain (readAt nesting levels 1 rest)).bind fun read => closeGroup nesting read.1 read.2))
    (negation : ∀ levels token rest, token.kind = .op .not →
      (∀ tokens, motive levels tokens (plain (operand nesting levels tokens))) →
        motive (levels + 1) (token :: rest)
          ((plain (operand nesting levels rest)).bind fun read =>
            (read.1.negate nesting).bind fun negated => .ok (negated, read.2)))
    (tooDeep : ∀ token rest, token.kind = .opening ∨ token.kind = .op .not →
      motive 0 (token :: rest) (.error (.nestingTooDeep nesting)))
    (connective : ∀ levels token rest op, token.kind = .op (.binary op) →
      motive levels (token :: rest) (.error (.missingOperand token.place)))
    (misplaced : ∀ levels token rest, token.kind = .closing ∨ token.kind = .prime →
      motive levels (token :: rest) (.error (.expectedOperand (some token.place))))
    (levels : Nat) (tokens : List Token) :
    motive levels tokens (plain (operand nesting levels tokens)) := by
  have step : ∀ levels, (∀ fewer, levels = fewer + 1 →
      ∀ tokens, motive fewer tokens (plain (operand nesting fewer tokens))) →
      ∀ tokens, motive levels tokens (plain (operand nesting levels tokens)) := by
    intro levels deeper tokens
    cases tokens with
    | nil => exact plain_operand_nil ▸ nothing levels
    | cons token rest =>
      cases kind : token.kind with
      | const value => exact plain_operand_const kind ▸ leaf levels token rest _ (kind ▸ .const value)
      | var name => exact plain_operand_var kind ▸ leaf levels token rest _ (kind ▸ .var name)
      | opening =>
        cases levels with
        | zero => exact plain_operand_zero (.inl kind) ▸ tooDeep token rest (.inl kind)
        | succ fewer =>
          exact plain_operand_opening kind ▸ group fewer token rest kind (deeper fewer rfl)
      | closing =>
        exact plain_operand_misplaced (.inl kind) ▸ misplaced levels token rest (.inl kind)
      | prime => exact plain_operand_misplaced (.inr kind) ▸ misplaced levels token rest (.inr kind)
      | op operator =>
        cases operator with
        | binary op => exact plain_operand_connective kind ▸ connective levels token rest op kind
        | not =>
          cases levels with
          | zero => exact plain_operand_zero (.inr kind) ▸ tooDeep token rest (.inr kind)
          | succ fewer =>
            exact plain_operand_not kind ▸ negation fewer token rest kind (deeper fewer rfl)
  induction levels generalizing tokens with
  | zero => exact step 0 (fun fewer same => nomatch same) tokens
  | succ levels ih =>
    refine step (levels + 1) (fun fewer same => ?_) tokens
    cases same
    exact ih

/-- **Induction along operands that are read.** An operand is a leaf with its primes, a group with its
primes, or a negation; in the last two an operand is inside with one level less. -/
theorem operand_ok_induction {motive : Nat → List Token → Measured → List Token → Prop}
    (leaf : ∀ levels token tokens leaf node rest, token.kind.IsLeaf leaf →
      plain (primes nesting (.of leaf) tokens) = .ok (node, rest) →
        motive levels (token :: tokens) node rest)
    (group : ∀ levels token tokens inner close others node rest, token.kind = .opening →
      (∀ tokens node rest, plain (operand nesting levels tokens) = .ok (node, rest) →
        motive levels tokens node rest) →
      plain (readAt nesting levels 1 tokens) = .ok (inner, close :: others) → close.kind = .closing →
      plain (primes nesting inner others) = .ok (node, rest) →
        motive (levels + 1) (token :: tokens) node rest)
    (negation : ∀ levels token tokens inner node rest, token.kind = .op .not →
      motive levels tokens inner rest → inner.negate nesting = .ok node →
        motive (levels + 1) (token :: tokens) node rest)
    {node : Measured} (read : plain (operand nesting levels tokens) = .ok (node, rest)) :
    motive levels tokens node rest := by
  refine operand_induction (motive := fun levels tokens result =>
      ∀ node rest, result = .ok (node, rest) → motive levels tokens node rest)
    (fun _ _ _ read => nomatch read) (fun levels token tokens tree isLeaf node rest read => ?_)
    (fun levels token tokens kind ih node rest read => ?_)
    (fun levels token tokens kind ih node rest read => ?_) (fun _ _ _ _ _ read => nomatch read)
    (fun _ _ _ _ _ _ _ read => nomatch read) (fun _ _ _ _ _ _ read => nomatch read)
    levels tokens node rest read
  · exact leaf levels token tokens tree node rest isLeaf read
  · obtain ⟨⟨inner, others⟩, innerRead, closes⟩ := bind_eq_ok_iff.mp read
    cases others with
    | nil => cases closes
    | cons close others =>
      rw [closeGroup] at closes
      split at closes
      · next closing =>
        exact group levels token tokens inner close others node rest kind ih innerRead closing closes
      · cases closes
  · obtain ⟨⟨inner, others⟩, innerRead, negates⟩ := bind_eq_ok_iff.mp read
    obtain ⟨negated, negatesInner, same⟩ := bind_eq_ok_iff.mp negates
    cases same
    exact negation levels token tokens inner _ _ kind (ih tokens inner _ innerRead) negatesInner

theorem negate_of (fitting : expr.height + 1 ≤ heightLimit nesting) :
    (Measured.of expr).negate nesting = .ok (.of (.not expr)) := by
  rw [Measured.negate]
  exact if_pos fitting

theorem join_of {op : Connective} {left right : Expr}
    (fitting : max left.height right.height + 1 ≤ heightLimit nesting) :
    Measured.join nesting op (.of left) (.of right) = .ok (.of (.binary op left right)) := by
  rw [Measured.join]
  exact if_pos fitting

end Reading

/-! ### Completeness -/

section Complete

variable {nesting levels level : Nat} {expr : Expr} {tokens rest : List Token}

/-- A token that starts a term is no prime, and only conjunctions go on with it. -/
theorem ends_of_startsTerm {token : Token} (starts : token.kind.startsTerm = true) :
    Ends 3 (token :: rest) := by
  refine ⟨fun _ first found => ?_, fun precedence above => juncture?_eq_none_of_lt above _⟩
  cases found
  intro prime
  rw [prime] at starts
  cases starts

/-- A connective goes on with the chains of its precedence. -/
theorem juncture?_cons_of_connective {token : Token} {op : Connective}
    (kind : token.kind = .op (.binary op)) (level : Nat) :
    juncture? level (token :: rest) = if op.precedence = level then some (op, rest) else none := by
  rw [juncture?, kind]
  simp only [mem_connectivesAt_iff]

/-- Between two operands stands the connective of their chain. -/
theorem ends_of_connective {token : Token} {op : Connective} (kind : token.kind = .op (.binary op)) :
    Ends op.precedence (token :: rest) := by
  refine ⟨fun _ first found => ?_, fun precedence above => ?_⟩
  · cases found
    rw [kind]
    exact fun same => nomatch same
  · rw [juncture?_cons_of_connective kind]
    exact if_neg (Nat.ne_of_lt above)

/-- A closing parenthesis ends a tree of every level. -/
theorem ends_of_closing {token : Token} (kind : token.kind = .closing) :
    Ends level (token :: rest) := by
  refine ⟨fun _ first found => ?_, fun precedence _ => ?_⟩
  · cases found
    rw [kind]
    exact fun same => nomatch same
  · rw [juncture?, kind]
    rfl

/-- No chain goes on with a closing parenthesis. -/
theorem continueAt_of_closing {token : Token} (kind : token.kind = .closing) (node : Measured) :
    continueAt nesting levels 1 node (token :: rest) = .ok (node, token :: rest) := by
  have ends : Ends 0 (token :: rest) := ends_of_closing kind
  rw [continueAt_eq_chainFrom (by decide) (by decide)]
  exact Tier.plain_chainFrom_of_none _ node (ends.juncture?_eq 1 (by decide))

theorem ends_nil : Ends level [] :=
  ⟨fun _ _ found => (nomatch found), fun _ _ => rfl⟩

theorem Ends.tighten (ends : Ends level rest) : Ends (level + 1) rest :=
  ⟨fun below => ends.prime_ne (Nat.lt_of_succ_lt below),
    fun precedence above => ends.juncture?_eq precedence (Nat.lt_of_succ_lt above)⟩

/-- A connective goes on with the chain of its level. -/
theorem juncture?_of_connective {token : Token} {op : Connective}
    (kind : token.kind = .op (.binary op)) :
    juncture? op.precedence (token :: rest) = some (op, rest) := by
  rw [juncture?_cons_of_connective kind]
  exact if_pos rfl

/-- The start of a term goes on with a conjunction, and with nothing else. -/
theorem juncture?_cons_of_starts {token : Token} (starts : token.kind.startsTerm = true)
    (level : Nat) : juncture? level (token :: rest) =
      if Connective.and.precedence = level then some (.and, token :: rest) else none := by
  rw [juncture?]
  split
  · next op kind =>
    rw [kind] at starts
    cases starts
  · by_cases conjunctive : level = 3
    · subst conjunctive
      rw [starts]
      rfl
    · rw [starts, beq_eq_false_iff_ne.mpr conjunctive]
      exact (if_neg (Ne.symm conjunctive)).symm

/-- At the level of conjunctions the start of a term goes on. -/
theorem juncture?_of_startsTerm {token : Token} (starts : token.kind.startsTerm = true) :
    juncture? 3 (token :: rest) = some (.and, token :: rest) :=
  (juncture?_cons_of_starts starts 3).trans (if_pos rfl)

/-- One more operand of a chain is read and joined. -/
theorem continueAt_of_juncture {op : Connective} {left right : Expr} {others : List Token}
    (positive : 0 < level) (below : level < 4)
    (found : juncture? level tokens = some (op, others))
    (next : plain (readAt nesting levels (level + 1) others) =
      continueAt nesting levels (level + 1) (.of right) rest)
    (fitting : (Expr.binary op left right).height ≤ heightLimit nesting) (ends : Ends level rest) :
    continueAt nesting levels level (.of left) tokens =
      continueAt nesting levels level (.of (.binary op left right)) rest := by
  rw [continueAt_of_ends positive (Nat.lt_succ_of_lt below) ends] at next
  rw [continueAt_eq_chainFrom positive below, continueAt_eq_chainFrom positive below,
    (textTier nesting level).plain_chainFrom_of_some _ found, next]
  show (Measured.join nesting op (.of left) (.of right)).bind _ = _
  rw [join_of fitting]
  rfl

/-- **Completeness of the parser.** What the grammar writes at a level is read, and whatever comes
next is gone on with from its tree, if the tree is not nested deeper than the levels left nor higher
than the limit. -/
theorem Writes.read {kinds : List TokenKind} {depth : Nat} (writes : Writes level kinds expr depth)
    (within : depth ≤ levels) (fitting : expr.height ≤ heightLimit nesting)
    (same : tokens.map Token.kind = kinds) (ends : Ends level rest) :
    plain (readAt nesting levels level (tokens ++ rest)) =
      continueAt nesting levels level (.of expr) rest := by
  induction writes generalizing levels tokens rest with
  | const value =>
    obtain ⟨token, rfl, kind⟩ := List.map_eq_singleton_iff.mp same
    exact plain_operand_const kind
  | var name =>
    obtain ⟨token, rfl, kind⟩ := List.map_eq_singleton_iff.mp same
    exact plain_operand_var kind
  | enclosed inner ih =>
    obtain ⟨opening, others, rfl, openingKind, othersKinds⟩ := List.map_eq_cons_iff.mp same
    obtain ⟨group, last, rfl, groupKinds, lastKind⟩ := List.map_eq_append_iff.mp othersKinds
    obtain ⟨closing, rfl, closingKind⟩ := List.map_eq_singleton_iff.mp lastKind
    obtain ⟨levels, rfl⟩ := Nat.exists_eq_add_of_le' (Nat.le_trans (Nat.le_add_left 1 _) within)
    have ends : Ends 1 (closing :: rest) := ends_of_closing closingKind
    have read := ih (Nat.le_of_succ_le_succ within) fitting groupKinds ends
    rw [continueAt_of_closing closingKind] at read
    show plain (operand nesting (levels + 1) (opening :: (group ++ [closing] ++ rest))) = _
    rw [plain_operand_opening openingKind, List.append_assoc, List.singleton_append, read]
    exact if_pos closingKind
  | primed inner ih =>
    obtain ⟨others, last, rfl, othersKinds, lastKind⟩ := List.map_eq_append_iff.mp same
    obtain ⟨mark, rfl, markKind⟩ := List.map_eq_singleton_iff.mp lastKind
    have anyEnds : Ends 5 (mark :: rest) :=
      ⟨fun below => absurd below (by decide),
        fun _ above => juncture?_eq_none_of_lt (Nat.lt_trans (by decide) above) _⟩
    rw [List.append_assoc, List.singleton_append,
      ih within (Nat.le_of_succ_le fitting) othersKinds anyEnds]
    show plain (primes nesting _ (mark :: rest)) = plain (primes nesting _ rest)
    rw [plain_primes_cons markKind, negate_of fitting]
    rfl
  | @negated _ expr _ inner ih =>
    obtain ⟨mark, others, rfl, markKind, othersKinds⟩ := List.map_eq_cons_iff.mp same
    obtain ⟨levels, rfl⟩ := Nat.exists_eq_add_of_le' (Nat.le_trans (Nat.le_add_left 1 _) within)
    have read : plain (operand nesting levels (others ++ rest)) = .ok (.of expr, rest) :=
      ih (Nat.le_of_succ_le_succ within) (Nat.le_of_succ_le fitting) othersKinds ends
    show plain (operand nesting (levels + 1) (mark :: (others ++ rest))) = _
    rw [plain_operand_not markKind, read]
    show ((Measured.of _).negate nesting).bind _ = _
    rw [negate_of fitting]
    rfl
  | joined op first second firstIh secondIh =>
    obtain ⟨lefts, others, rfl, leftKinds, othersKinds⟩ := List.map_eq_append_iff.mp same
    obtain ⟨mark, rights, rfl, markKind, rightKinds⟩ := List.map_eq_cons_iff.mp othersKinds
    rw [List.append_assoc, List.cons_append,
      firstIh (Nat.le_trans (Nat.le_max_left _ _) within)
        (Nat.le_trans (Nat.le_max_left _ _) (Nat.le_of_succ_le fitting)) leftKinds
        (ends_of_connective markKind)]
    refine continueAt_of_juncture op.precedence_pos (Nat.lt_succ_of_le op.precedence_le)
      (juncture?_of_connective markKind) ?_ fitting ends
    exact secondIh (Nat.le_trans (Nat.le_max_right _ _) within)
      (Nat.le_trans (Nat.le_max_right _ _) (Nat.le_of_succ_le fitting)) rightKinds ends.tighten
  | adjacent first second firstIh secondIh =>
    obtain ⟨lefts, rights, rfl, leftKinds, rightKinds⟩ := List.map_eq_append_iff.mp same
    obtain ⟨kind, kinds, rightEq, starts⟩ := second.exists_startsTerm
    rw [rightEq] at rightKinds
    obtain ⟨mark, others, rfl, markKind, othersKinds⟩ := List.map_eq_cons_iff.mp rightKinds
    rw [← markKind] at starts
    rw [List.append_assoc, List.cons_append,
      firstIh (Nat.le_trans (Nat.le_max_left _ _) within)
        (Nat.le_trans (Nat.le_max_left _ _) (Nat.le_of_succ_le fitting)) leftKinds
        (ends_of_startsTerm starts)]
    refine continueAt_of_juncture (by decide) (by decide) (juncture?_of_startsTerm starts) ?_
      fitting ends
    exact secondIh (Nat.le_trans (Nat.le_max_right _ _) within)
      (Nat.le_trans (Nat.le_max_right _ _) (Nat.le_of_succ_le fitting))
      (by rw [rightKinds, rightEq]) ends.tighten
  | @looser level kinds expr depth positive tighter ih =>
    have below : level < 5 := tighter.level_le
    have read := ih within fitting same ends.tighten
    rw [continueAt_of_ends positive below ends] at read
    by_cases connective : level < 4
    · rw [readAt_eq_chain positive connective, Tier.plain_chain, read,
        continueAt_eq_chainFrom positive connective]
      rfl
    · obtain rfl : level = 4 := by omega
      exact read

end Complete

/-! ### Soundness -/

section Sound

variable {nesting levels level : Nat} {tokens rest : List Token} {kinds : List TokenKind}
  {node last : Measured}

/-- Tokens of the kinds write the tree at a level within the limits of a reading. -/
def WritesWithin (nesting levels level : Nat) (kinds : List TokenKind) (tree : Expr) : Prop :=
  ∃ depth ≤ levels, Writes level kinds tree depth ∧ tree.height ≤ heightLimit nesting

/-- Whatever is read at a level has been written at the level, within the limits. -/
def SoundAt (nesting levels level : Nat) : Prop :=
  ∀ tokens node rest, plain (readAt nesting levels level tokens) = .ok (node, rest) →
    ∃ consumed, tokens = consumed ++ rest ∧
      WritesWithin nesting levels level (consumed.map Token.kind) node.tree

theorem WritesWithin.loosen (positive : 0 < level) (below : level ≤ 5) {tree : Expr}
    (written : WritesWithin nesting levels 5 kinds tree) :
    WritesWithin nesting levels level kinds tree := by
  obtain ⟨depth, within, writes, fitting⟩ := written
  exact ⟨depth, within, writes.loosen positive below, fitting⟩

theorem negate_eq_ok (negates : node.negate nesting = .ok last) :
    last.tree = .not node.tree ∧ last.tree.height ≤ heightLimit nesting := by
  rw [Measured.negate] at negates
  split at negates
  · next fitting =>
    cases negates
    refine ⟨rfl, ?_⟩
    rw [node.height_eq] at fitting
    exact fitting
  · cases negates

theorem join_eq_ok {op : Connective} {left right joined : Measured}
    (joins : Measured.join nesting op left right = .ok joined) :
    joined.tree = .binary op left.tree right.tree ∧
      joined.tree.height ≤ heightLimit nesting := by
  rw [Measured.join] at joins
  split at joins
  · next fitting =>
    cases joins
    refine ⟨rfl, ?_⟩
    rw [left.height_eq, right.height_eq] at fitting
    exact fitting
  · cases joins

/-- The primes after a primary belong to it. -/
theorem exists_writes_primes (written : WritesWithin nesting levels 5 kinds node.tree)
    (read : plain (primes nesting node tokens) = .ok (last, rest)) :
    ∃ consumed, tokens = consumed ++ rest ∧
      WritesWithin nesting levels 5 (kinds ++ consumed.map Token.kind) last.tree := by
  induction tokens generalizing node kinds with
  | nil =>
    cases read
    exact ⟨[], rfl, by rwa [List.map_nil, List.append_nil]⟩
  | cons token others ih =>
    by_cases kind : token.kind = .prime
    · rw [plain_primes_cons kind, bind_eq_ok_iff] at read
      obtain ⟨negated, negates, read⟩ := read
      obtain ⟨tree, fitting⟩ := negate_eq_ok negates
      obtain ⟨depth, within, writes, _⟩ := written
      have step : WritesWithin nesting levels 5 (kinds ++ [.prime]) negated.tree :=
        ⟨depth, within, tree ▸ writes.primed, fitting⟩
      obtain ⟨consumed, rfl, more⟩ := ih step read
      refine ⟨token :: consumed, rfl, ?_⟩
      rwa [List.append_assoc, List.singleton_append, ← kind] at more
    · rw [primes, if_neg kind] at read
      cases read
      exact ⟨[], rfl, by rwa [List.map_nil, List.append_nil]⟩

/-- A juncture is a connective of the level or, before an operand of a conjunction, nothing; either
way the operands on both sides write the joined tree. -/
theorem exists_separator {op : Connective} {others : List Token}
    (found : juncture? level tokens = some (op, others)) :
    ∃ separator, tokens = separator ++ others ∧
      ∀ {lefts rights left right leftDepth rightDepth}, Writes level lefts left leftDepth →
        Writes (level + 1) rights right rightDepth →
        Writes level (lefts ++ (separator.map Token.kind ++ rights)) (.binary op left right)
          (max leftDepth rightDepth) := by
  cases tokens with
  | nil => cases found
  | cons token rest =>
    rw [juncture?] at found
    split at found
    · next op' kind =>
      split at found
      · next listed =>
        have same := mem_connectivesAt_iff.mp listed
        cases found
        subst same
        refine ⟨[token], rfl, fun first second => ?_⟩
        rw [List.map_singleton, kind, List.singleton_append]
        exact .joined op first second
      · cases found
    · split at found
      · next starts =>
        cases found
        have same : level = 3 := by
          rw [Bool.and_eq_true, beq_iff_eq] at starts
          exact starts.2
        subst same
        exact ⟨[], rfl, fun first second => .adjacent first second⟩
      · cases found

/-- A chain is read soundly if its operands are. -/
theorem soundAt_chain (positive : 0 < level) (below : level < 4)
    (sound : SoundAt nesting levels (level + 1)) : SoundAt nesting levels level := by
  unfold SoundAt
  rw [readAt_eq_chain positive below]
  refine Tier.readsSoundly_chain sound ?_ ?_
  · rintro consumed node ⟨depth, within, writes, fitting⟩
    exact ⟨depth, within, writes.looser positive, fitting⟩
  · intro tokens others op found
    obtain ⟨separator, rfl, join⟩ := exists_separator found
    refine ⟨separator, rfl, ?_⟩
    rintro lefts rights left right joined ⟨leftDepth, leftWithin, leftWrites, _⟩
      ⟨rightDepth, rightWithin, rightWrites, _⟩ joins
    obtain ⟨tree, fitting⟩ := join_eq_ok joins
    refine ⟨max leftDepth rightDepth, Nat.max_le.mpr ⟨leftWithin, rightWithin⟩, ?_, fitting⟩
    rw [tree, List.map_append, List.map_append]
    simpa only [List.append_assoc] using join leftWrites rightWrites

/-- A leaf with its primes is read soundly. -/
theorem exists_writes_leaf {token : Token} {leaf : Expr} (isLeaf : token.kind.IsLeaf leaf)
    (read : plain (primes nesting (.of leaf) tokens) = .ok (node, rest)) :
    ∃ consumed, token :: tokens = consumed ++ rest ∧
      WritesWithin nesting levels 4 (consumed.map Token.kind) node.tree := by
  obtain ⟨writes, height⟩ := isLeaf.writes
  have start : WritesWithin nesting levels 5 [token.kind] (Measured.of leaf).tree :=
    ⟨0, Nat.zero_le _, writes, height ▸ Nat.zero_le _⟩
  obtain ⟨consumed, rfl, written⟩ := exists_writes_primes start read
  exact ⟨token :: consumed, rfl, written.loosen (by decide) (by decide)⟩

/-- A group is read soundly if what is between its parentheses is. -/
theorem exists_writes_group {token close : Token} {inner : Measured} {others : List Token}
    (kind : token.kind = .opening) (sound : SoundAt nesting levels 1)
    (innerRead : plain (readAt nesting levels 1 tokens) = .ok (inner, close :: others))
    (closing : close.kind = .closing)
    (read : plain (primes nesting inner others) = .ok (node, rest)) :
    ∃ consumed, token :: tokens = consumed ++ rest ∧
      WritesWithin nesting (levels + 1) 4 (consumed.map Token.kind) node.tree := by
  obtain ⟨consumed, rfl, depth, within, writes, fitting⟩ := sound tokens inner _ innerRead
  have start : WritesWithin nesting (levels + 1) 5
      (.opening :: (consumed.map Token.kind ++ [.closing])) inner.tree :=
    ⟨depth + 1, Nat.succ_le_succ within, writes.enclosed, fitting⟩
  obtain ⟨marks, rfl, written⟩ := exists_writes_primes start read
  refine ⟨token :: (consumed ++ close :: marks), by simp, ?_⟩
  have split : (token :: (consumed ++ close :: marks)).map Token.kind =
      .opening :: (consumed.map Token.kind ++ [.closing]) ++ marks.map Token.kind := by
    simp [kind, closing]
  rw [split]
  exact written.loosen (by decide) (by decide)

/-- Operands are read soundly. -/
theorem soundAt_operand : SoundAt nesting levels 4 := by
  intro tokens node rest read
  refine operand_ok_induction (motive := fun levels tokens node rest =>
      ∃ consumed, tokens = consumed ++ rest ∧
        WritesWithin nesting levels 4 (consumed.map Token.kind) node.tree)
    (fun levels token tokens leaf node rest isLeaf read => exists_writes_leaf isLeaf read)
    (fun levels token tokens inner close others node rest kind ih innerRead closing read => ?_)
    (fun levels token tokens inner node rest kind ih negates => ?_) read
  · have sound : SoundAt nesting levels 4 := ih
    exact exists_writes_group kind
      (at_level_of_operands sound (fun _ => soundAt_chain) (by decide) (by decide)) innerRead closing
      read
  · obtain ⟨consumed, rfl, depth, within, writes, _⟩ := ih
    obtain ⟨tree, fitting⟩ := negate_eq_ok negates
    refine ⟨token :: consumed, rfl, depth + 1, Nat.succ_le_succ within, ?_, fitting⟩
    rw [tree, List.map_cons, kind]
    exact writes.negated

/-- **Soundness of the parser**: what is read at a level has been written at the level, within the
limits. -/
theorem soundAt_readAt (positive : 0 < level) (below : level ≤ 4) :
    SoundAt nesting levels level :=
  at_level_of_operands soundAt_operand (fun _ => soundAt_chain) positive below

end Sound

/-! ### Whole texts -/

/-- The tree that has been read, if no tokens are left. -/
def wholeTree : Measured × List Token → Except SyntaxError Expr
  | (node, []) => .ok node.tree
  | (_, token :: _) => .error (.unexpectedToken token.place)

/-- A text is read at the loosest level, to its end. -/
theorem ofTokens_cons (nesting : Nat) (token : Token) (tokens : List Token) :
    Expr.ofTokens nesting (token :: tokens) =
      (plain (readAt nesting nesting 1 (token :: tokens))).bind wholeTree := by
  rw [Expr.ofTokens, readAt]
  cases expression nesting (operand nesting nesting) (token :: tokens) with
  | error error => rfl
  | ok phrase =>
    obtain ⟨⟨node, rest⟩, fewer⟩ := phrase
    cases rest <;> rfl

theorem ofTokens_eq_ok_iff_readAt {nesting : Nat} {token : Token} {tokens : List Token} {expr : Expr} :
    Expr.ofTokens nesting (token :: tokens) = .ok expr ↔
      plain (readAt nesting nesting 1 (token :: tokens)) = .ok (.of expr, []) := by
  rw [ofTokens_cons, bind_eq_ok_iff]
  constructor
  · rintro ⟨⟨node, rest⟩, read, whole⟩
    cases rest with
    | nil =>
      cases whole
      rw [read, node.of_tree]
    | cons next others => cases whole
  · exact fun read => ⟨_, read, rfl⟩

/-- **What the parser accepts**: the tokens that write a tree within the limits, and only those. -/
theorem ofTokens_eq_ok_iff {nesting : Nat} {tokens : List Token} {expr : Expr} :
    Expr.ofTokens nesting tokens = .ok expr ↔
      WritesWithin nesting nesting 1 (tokens.map Token.kind) expr := by
  cases tokens with
  | nil =>
    refine ⟨(nomatch ·), fun ⟨_, _, writes, _⟩ => ?_⟩
    obtain ⟨first, rest, nonempty, _⟩ := writes.exists_startsTerm
    cases nonempty
  | cons token tokens =>
    rw [ofTokens_eq_ok_iff_readAt]
    constructor
    · intro read
      obtain ⟨consumed, same, written⟩ := soundAt_readAt (by decide) (by decide) _ _ _ read
      rw [same, List.append_nil]
      exact written
    · intro ⟨depth, within, writes, fitting⟩
      have read := writes.read within fitting rfl ends_nil
      rw [List.append_nil] at read
      exact read.trans ((textTier nesting 1).plain_chainFrom_of_none _ rfl)

end TwoLevel
