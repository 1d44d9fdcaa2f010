/-
**How deep a text nests, and what the limits refuse.**

The depth that a derivation counts is a measure of its tokens alone: the greatest number of
parentheses and leading NOTs that are open at one point. A text of the grammar is read within the
limits; beyond them it is refused by a limit that it breaks, and by nothing else.

* `nestingOf` — the greatest number of parentheses and leading NOTs open at one point;
* `Writes.depth_eq` — **the depth of a derivation is the nesting of its tokens**;
* `Writes.bounds` — tokens bound the nesting and the height of what they write;
* `Fits`, `Refused` — a tree within the limits, and the error of a limit that it breaks;
* `Writes.refused` — **beyond a limit the parser refuses**, at every level of the grammar;
* `ofTokens_of_writes` — what the parser makes of a text of the grammar;
* `Writes.tree_unique` — the same tokens write one tree only.
-/

import TwoLevel.Proofs.Readings

namespace TwoLevel

/-! ### The nesting of tokens -/

/-- What can be open at a point of a text. -/
inductive Opened where
  /-- A parenthesis that has not been closed yet. -/
  | parenthesis
  /-- A leading NOT whose operand has not ended yet. -/
  | negation
  deriving DecidableEq, Repr

/-- What is still open when an operand has ended: the NOTs right before it have ended with it. -/
def settle : List Opened → List Opened
  | .negation :: opened => settle opened
  | .parenthesis :: opened => .parenthesis :: opened
  | [] => []

/-- What is open after a token, the innermost first. -/
def openAfter (opened : List Opened) : TokenKind → List Opened
  | .opening => .parenthesis :: opened
  | .closing => settle opened.tail
  | .const _ | .var _ => settle opened
  | .op .not => .negation :: opened
  | .prime | .op (.binary _) => opened

/-- The greatest number of parentheses and leading NOTs that are open at one point of the tokens,
when some are open before them. -/
def nestingFrom (opened : List Opened) : List TokenKind → Nat
  | [] => opened.length
  | kind :: rest => max opened.length (nestingFrom (openAfter opened kind) rest)

/-- The greatest number of parentheses and leading NOTs that are open at one point. -/
def nestingOf (kinds : List TokenKind) : Nat := nestingFrom [] kinds

theorem length_settle_le (opened : List Opened) : (settle opened).length ≤ opened.length := by
  induction opened with
  | nil => exact Nat.le_refl _
  | cons first rest ih =>
    cases first with
    | parenthesis => exact Nat.le_refl _
    | negation => exact Nat.le_succ_of_le ih

/-- **What a phrase of the grammar adds to the nesting.** At its deepest point the phrase is inside
all that is open before it; after it, the NOTs right before it have ended. A chain of connectives
does not stand right after a NOT. -/
theorem Writes.nestingFrom_append {level depth : Nat} {kinds : List TokenKind} {expr : Expr}
    (writes : Writes level kinds expr depth) (opened : List Opened)
    (settled : level < 4 → settle opened = opened) (rest : List TokenKind) :
    nestingFrom opened (kinds ++ rest) =
      max (opened.length + depth) (nestingFrom (settle opened) rest) := by
  induction writes generalizing opened rest with
  | const | var => rfl
  | @enclosed kinds expr depth inner ih =>
    have group := ih (.parenthesis :: opened) (fun _ => rfl) (.closing :: rest)
    have close : nestingFrom (.parenthesis :: opened) (.closing :: rest) =
        max (opened.length + 1) (nestingFrom (settle opened) rest) := rfl
    have step : nestingFrom opened (.opening :: (kinds ++ [.closing]) ++ rest) =
        max opened.length (nestingFrom (.parenthesis :: opened) (kinds ++ .closing :: rest)) := by
      rw [List.cons_append, List.append_assoc]
      rfl
    rw [step, group, settle, close, List.length_cons]
    omega
  | @primed kinds expr depth inner ih =>
    have small := length_settle_le opened
    have mark : nestingFrom (settle opened) (.prime :: rest) =
        max (settle opened).length (nestingFrom (settle opened) rest) := rfl
    rw [List.append_assoc, List.singleton_append, ih opened (fun below => absurd below (by decide)), mark]
    omega
  | @negated kinds expr depth inner ih =>
    have operand := ih (.negation :: opened) (fun below => absurd below (by decide)) rest
    have step : nestingFrom opened (.op .not :: kinds ++ rest) =
        max opened.length (nestingFrom (.negation :: opened) (kinds ++ rest)) := rfl
    rw [step, operand, settle, List.length_cons]
    omega
  | @joined op lefts rights left right leftDepth rightDepth first second firstIh secondIh =>
    have low := op.precedence_le
    have same : settle opened = opened := settled (Nat.lt_succ_of_le low)
    have mark : nestingFrom opened (.op (.binary op) :: (rights ++ rest)) =
        max opened.length (nestingFrom opened (rights ++ rest)) := rfl
    rw [List.append_assoc, List.cons_append, firstIh opened settled, same, mark,
      secondIh opened fun _ => same, same]
    omega
  | @adjacent lefts rights left right leftDepth rightDepth first second firstIh secondIh =>
    have same : settle opened = opened := settled (by decide)
    rw [List.append_assoc, firstIh opened settled, same, secondIh opened fun _ => same, same]
    omega
  | looser positive tighter ih => exact ih opened (fun below => settled (Nat.lt_of_succ_lt below)) rest

/-- **The depth of a derivation is the nesting of its tokens.** -/
theorem Writes.depth_eq {level depth : Nat} {kinds : List TokenKind} {expr : Expr}
    (writes : Writes level kinds expr depth) : depth = nestingOf kinds := by
  have whole := writes.nestingFrom_append [] (fun _ => rfl) []
  rw [List.append_nil] at whole
  rw [nestingOf, whole]
  show depth = max (0 + depth) 0
  omega

/-- **Tokens bound the nesting and the height of what they write**, a pair of parentheses counted
once. -/
theorem Writes.bounds {level depth : Nat} {kinds : List TokenKind} {expr : Expr}
    (writes : Writes level kinds expr depth) :
    depth < kinds.countP (· ≠ .closing) ∧ expr.height < kinds.countP (· ≠ .closing) := by
  induction writes with
  | const | var => exact ⟨Nat.zero_lt_one, Nat.zero_lt_one⟩
  | enclosed _ ih =>
    rw [List.countP_cons_of_pos (by decide), List.countP_append]
    exact ⟨Nat.succ_lt_succ ih.1, Nat.lt_succ_of_lt ih.2⟩
  | primed _ ih =>
    rw [List.countP_append, List.countP_singleton, if_pos (by decide), Expr.height]
    exact ⟨Nat.lt_succ_of_lt ih.1, Nat.succ_lt_succ ih.2⟩
  | negated _ ih =>
    rw [List.countP_cons_of_pos (by decide), Expr.height]
    exact ⟨Nat.succ_lt_succ ih.1, Nat.succ_lt_succ ih.2⟩
  | joined _ _ _ firstIh secondIh =>
    rw [List.countP_append, List.countP_cons_of_pos (by simp), Expr.height]
    omega
  | adjacent _ _ firstIh secondIh =>
    rw [List.countP_append, Expr.height]
    omega
  | looser _ _ ih => exact ih

/-! ### Beyond the limits -/

section Refusal

variable {nesting levels level depth : Nat} {expr : Expr} {tokens rest : List Token}

/-- The tree is nested no deeper than the levels left, and no higher than the limit. -/
structure Fits (nesting levels depth : Nat) (expr : Expr) : Prop where
  shallow : depth ≤ levels
  low : expr.height ≤ heightLimit nesting

/-- The result is the error of a limit that the tree breaks: it is nested deeper than the levels
left, or higher than the limit. -/
def Refused {α : Type} (nesting levels depth : Nat) (expr : Expr) (result : Except SyntaxError α) :
    Prop :=
  levels < depth ∧ result = .error (.nestingTooDeep nesting) ∨
    heightLimit nesting < expr.height ∧ result = .error (.treeTooHigh (heightLimit nesting))

namespace Refused

variable {α β : Type} {result : Except SyntaxError α}

/-- What is refused stays refused, whatever was to be done with it. -/
theorem bind (refused : Refused nesting levels depth expr result)
    (next : α → Except SyntaxError β) : Refused nesting levels depth expr (result.bind next) := by
  rcases refused with ⟨deep, rfl⟩ | ⟨high, rfl⟩
  · exact .inl ⟨deep, rfl⟩
  · exact .inr ⟨high, rfl⟩

/-- What refuses a part refuses the whole. -/
theorem whole {larger : Expr} {largerDepth : Nat}
    (refused : Refused nesting levels depth expr result) (deeper : depth ≤ largerDepth)
    (higher : expr.height ≤ larger.height) : Refused nesting levels largerDepth larger result := by
  rcases refused with ⟨deep, error⟩ | ⟨high, error⟩
  · exact .inl ⟨Nat.lt_of_lt_of_le deep deeper, error⟩
  · exact .inr ⟨Nat.lt_of_lt_of_le high higher, error⟩

/-- What is refused inside a parenthesis or a NOT is refused around it, with one level more. -/
theorem outward (refused : Refused nesting levels depth expr result) :
    Refused nesting (levels + 1) (depth + 1) expr result := by
  rcases refused with ⟨deep, error⟩ | ⟨high, error⟩
  · exact .inl ⟨Nat.succ_lt_succ deep, error⟩
  · exact .inr ⟨high, error⟩

/-- What is refused has not been read. -/
theorem ne_ok (refused : Refused nesting levels depth expr result) (value : α) :
    result ≠ .ok value := by
  rcases refused with ⟨_, rfl⟩ | ⟨_, rfl⟩ <;> exact fun same => nomatch same

/-- What is refused does not fit. -/
theorem not_fits (refused : Refused nesting levels depth expr result) :
    ¬Fits nesting levels depth expr := by
  intro fits
  rcases refused with ⟨deep, _⟩ | ⟨high, _⟩
  · exact Nat.not_le_of_lt deep fits.shallow
  · exact Nat.not_le_of_lt high fits.low

end Refused

/-- A tree that is shallow enough and still does not fit is too high. -/
theorem high_of_not_fits (beyond : ¬Fits nesting levels depth expr) (shallow : depth ≤ levels) :
    heightLimit nesting < expr.height :=
  Nat.lt_of_not_le fun low => beyond ⟨shallow, low⟩

theorem negate_refused (high : heightLimit nesting < (Expr.not expr).height) :
    (Measured.of expr).negate nesting = .error (.treeTooHigh (heightLimit nesting)) := by
  rw [Measured.negate]
  exact if_neg (Nat.not_le_of_lt high)

theorem join_refused {op : Connective} {left right : Expr}
    (high : heightLimit nesting < (Expr.binary op left right).height) :
    Measured.join nesting op (.of left) (.of right) =
      .error (.treeTooHigh (heightLimit nesting)) := by
  rw [Measured.join]
  exact if_neg (Nat.not_le_of_lt high)

/-- A chain whose tree so far fits is refused for its next operand, or because the joined tree is
too high. -/
theorem refused_continueAt_of_juncture {op : Connective} {left right : Expr} {others : List Token}
    {leftDepth rightDepth : Nat} (positive : 0 < level) (below : level < 4)
    (found : juncture? level tokens = some (op, others)) (ends : Ends level rest)
    (read : Fits nesting levels rightDepth right →
      plain (readAt nesting levels (level + 1) others) =
        continueAt nesting levels (level + 1) (.of right) rest)
    (refused : ¬Fits nesting levels rightDepth right →
      Refused nesting levels rightDepth right (plain (readAt nesting levels (level + 1) others)))
    (leftShallow : leftDepth ≤ levels)
    (beyond : ¬Fits nesting levels (max leftDepth rightDepth) (.binary op left right)) :
    Refused nesting levels (max leftDepth rightDepth) (.binary op left right)
      (continueAt nesting levels level (.of left) tokens) := by
  rw [continueAt_eq_chainFrom positive below,
    (textTier nesting level).plain_chainFrom_of_some _ found]
  by_cases fits : Fits nesting levels rightDepth right
  · have high := high_of_not_fits beyond (Nat.max_le.mpr ⟨leftShallow, fits.shallow⟩)
    rw [read fits, continueAt_of_ends positive (Nat.lt_succ_of_lt below) ends]
    show Refused nesting levels _ _ ((Measured.join nesting op (.of left) (.of right)).bind _)
    rw [join_refused high]
    exact .inr ⟨high, rfl⟩
  · have higher : right.height ≤ (Expr.binary op left right).height :=
      Nat.le_succ_of_le (Nat.le_max_right _ _)
    exact ((refused fits).whole (Nat.le_max_right _ _) higher).bind _

/-- **Beyond a limit the parser refuses.** What the grammar writes at a level, nested deeper than
the levels left or higher than the limit, is answered with the error of such a limit. -/
theorem Writes.refused {kinds : List TokenKind} (writes : Writes level kinds expr depth)
    (beyond : ¬Fits nesting levels depth expr) (same : tokens.map Token.kind = kinds)
    (ends : Ends level rest) :
    Refused nesting levels depth expr (plain (readAt nesting levels level (tokens ++ rest))) := by
  -- Either a part does not fit and is refused by induction, or the parts fit, are read by
  -- completeness, and the node that is built of them is too high.
  induction writes generalizing levels tokens rest with
  | const | var => exact absurd ⟨Nat.zero_le _, Nat.zero_le _⟩ beyond
  | @enclosed kinds expr depth inner ih =>
    obtain ⟨opening, others, rfl, openingKind, othersKinds⟩ := List.map_eq_cons_iff.mp same
    obtain ⟨group, last, rfl, groupKinds, lastKind⟩ := List.map_eq_append_iff.mp othersKinds
    obtain ⟨closing, rfl, closingKind⟩ := List.map_eq_singleton_iff.mp lastKind
    show Refused nesting levels (depth + 1) expr
      (plain (operand nesting levels (opening :: (group ++ [closing] ++ rest))))
    cases levels with
    | zero => exact .inl ⟨Nat.succ_pos _, plain_operand_zero (.inl openingKind)⟩
    | succ levels =>
      have inside : ¬Fits nesting levels depth expr := fun fits =>
        beyond ⟨Nat.succ_le_succ fits.shallow, fits.low⟩
      rw [plain_operand_opening openingKind, List.append_assoc, List.singleton_append]
      exact (ih inside groupKinds (ends_of_closing closingKind)).outward.bind _
  | @primed kinds expr depth inner ih =>
    obtain ⟨others, last, rfl, othersKinds, lastKind⟩ := List.map_eq_append_iff.mp same
    obtain ⟨mark, rfl, markKind⟩ := List.map_eq_singleton_iff.mp lastKind
    have anyEnds : Ends 5 (mark :: rest) :=
      ⟨fun below => absurd below (by decide),
        fun _ above => juncture?_eq_none_of_lt (Nat.lt_trans (by decide) above) _⟩
    rw [List.append_assoc, List.singleton_append]
    by_cases fits : Fits nesting levels depth expr
    · have high := high_of_not_fits beyond fits.shallow
      rw [inner.read fits.shallow fits.low othersKinds anyEnds]
      show Refused nesting levels depth (.not expr) (plain (primes nesting _ (mark :: rest)))
      rw [plain_primes_cons markKind, negate_refused high]
      exact .inr ⟨high, rfl⟩
    · exact (ih fits othersKinds anyEnds).whole (Nat.le_refl _) (Nat.le_succ _)
  | @negated kinds expr depth inner ih =>
    obtain ⟨mark, others, rfl, markKind, othersKinds⟩ := List.map_eq_cons_iff.mp same
    show Refused nesting levels (depth + 1) (.not expr)
      (plain (operand nesting levels (mark :: (others ++ rest))))
    cases levels with
    | zero => exact .inl ⟨Nat.succ_pos _, plain_operand_zero (.inr markKind)⟩
    | succ levels =>
      rw [plain_operand_not markKind]
      by_cases fits : Fits nesting levels depth expr
      · have high := high_of_not_fits beyond (Nat.succ_le_succ fits.shallow)
        have read : plain (operand nesting levels (others ++ rest)) = .ok (.of expr, rest) :=
          inner.read fits.shallow fits.low othersKinds ends
        rw [read]
        show Refused nesting (levels + 1) _ _ (((Measured.of expr).negate nesting).bind _)
        rw [negate_refused high]
        exact .inr ⟨high, rfl⟩
      · exact ((ih fits othersKinds ends).outward.whole (Nat.le_refl _) (Nat.le_succ _)).bind _
  | @joined op lefts rights left right leftDepth rightDepth first second firstIh secondIh =>
    obtain ⟨leftTokens, others, rfl, leftKinds, othersKinds⟩ := List.map_eq_append_iff.mp same
    obtain ⟨mark, rightTokens, rfl, markKind, rightKinds⟩ := List.map_eq_cons_iff.mp othersKinds
    have leftEnds : Ends op.precedence (mark :: (rightTokens ++ rest)) := ends_of_connective markKind
    rw [List.append_assoc, List.cons_append]
    by_cases fits : Fits nesting levels leftDepth left
    · rw [first.read fits.shallow fits.low leftKinds leftEnds]
      exact refused_continueAt_of_juncture op.precedence_pos (Nat.lt_succ_of_le op.precedence_le)
        (juncture?_of_connective markKind) ends
        (fun rightFits => second.read rightFits.shallow rightFits.low rightKinds ends.tighten)
        (fun rightBeyond => secondIh rightBeyond rightKinds ends.tighten) fits.shallow beyond
    · have higher : left.height ≤ (Expr.binary op left right).height :=
        Nat.le_succ_of_le (Nat.le_max_left _ _)
      exact (firstIh fits leftKinds leftEnds).whole (Nat.le_max_left _ _) higher
  | @adjacent lefts rights left right leftDepth rightDepth first second firstIh secondIh =>
    obtain ⟨leftTokens, rightTokens, rfl, leftKinds, rightKinds⟩ := List.map_eq_append_iff.mp same
    obtain ⟨kind, kinds, nonempty, starts⟩ := second.exists_startsTerm
    obtain ⟨mark, others, rfl, markKind, _⟩ := List.map_eq_cons_iff.mp (rightKinds.trans nonempty)
    rw [← markKind] at starts
    have leftEnds : Ends 3 (mark :: (others ++ rest)) := ends_of_startsTerm starts
    rw [List.append_assoc, List.cons_append]
    by_cases fits : Fits nesting levels leftDepth left
    · rw [first.read fits.shallow fits.low leftKinds leftEnds]
      exact refused_continueAt_of_juncture (by decide) (by decide) (juncture?_of_startsTerm starts)
        ends
        (fun rightFits => second.read rightFits.shallow rightFits.low rightKinds ends.tighten)
        (fun rightBeyond => secondIh rightBeyond rightKinds ends.tighten) fits.shallow beyond
    · have higher : left.height ≤ (Expr.binary .and left right).height :=
        Nat.le_succ_of_le (Nat.le_max_left _ _)
      exact (firstIh fits leftKinds leftEnds).whole (Nat.le_max_left _ _) higher
  | @looser level kinds expr depth positive tighter ih =>
    have below : level < 5 := tighter.level_le
    have refused := ih beyond same ends.tighten
    by_cases connective : level < 4
    · rw [readAt_eq_chain positive connective, Tier.plain_chain]
      exact refused.bind _
    · obtain rfl : level = 4 := by omega
      exact refused

end Refusal

/-! ### Texts of the grammar -/

section Texts

variable {nesting depth : Nat} {expr : Expr} {tokens : List Token}

theorem ofTokens_eq_error {token : Token} {error : SyntaxError}
    (failed : plain (readAt nesting nesting 1 (token :: tokens)) = .error error) :
    Expr.ofTokens nesting (token :: tokens) = .error error := by
  rw [ofTokens_cons, failed]
  rfl

/-- **What the parser makes of a text of the grammar**: the tree it writes, if it fits, and else the
error of a limit that it breaks. -/
theorem ofTokens_of_writes (writes : Writes 1 (tokens.map Token.kind) expr depth) :
    Fits nesting nesting depth expr ∧ Expr.ofTokens nesting tokens = .ok expr ∨
      Refused nesting nesting depth expr (Expr.ofTokens nesting tokens) := by
  by_cases fits : Fits nesting nesting depth expr
  · exact .inl ⟨fits, ofTokens_eq_ok_iff.mpr ⟨depth, fits.shallow, writes, fits.low⟩⟩
  · refine .inr ?_
    have refused := writes.refused fits rfl ends_nil
    obtain ⟨kind, kinds, nonempty, _⟩ := writes.exists_startsTerm
    obtain ⟨token, others, rfl, _⟩ := List.map_eq_cons_iff.mp nonempty
    rw [List.append_nil] at refused
    rcases refused with ⟨deep, error⟩ | ⟨high, error⟩
    · exact .inl ⟨deep, ofTokens_eq_error error⟩
    · exact .inr ⟨high, ofTokens_eq_error error⟩

/-- **The same tokens write one tree only.** Under limits that both trees fit, both are what the
parser reads. -/
theorem Writes.tree_unique {kinds : List TokenKind} {other : Expr} {otherDepth : Nat}
    (writes : Writes 1 kinds expr depth) (otherWrites : Writes 1 kinds other otherDepth) :
    expr = other := by
  let tokens : List Token := kinds.map fun kind => ⟨kind, "", 0⟩
  let nesting := max depth (max expr.height other.height)
  have same : tokens.map Token.kind = kinds := by
    rw [List.map_map]
    exact List.map_id kinds
  have depths : depth = otherDepth := writes.depth_eq.trans otherWrites.depth_eq.symm
  have limit : nesting ≤ heightLimit nesting := Nat.le_max_right _ _
  have read : Expr.ofTokens nesting tokens = .ok expr :=
    ofTokens_eq_ok_iff.mpr ⟨depth, by omega, same.symm ▸ writes, by omega⟩
  have otherRead : Expr.ofTokens nesting tokens = .ok other :=
    ofTokens_eq_ok_iff.mpr ⟨otherDepth, by omega, same.symm ▸ otherWrites, by omega⟩
  exact Except.ok.inj (read.symm.trans otherRead)

end Texts

end TwoLevel
