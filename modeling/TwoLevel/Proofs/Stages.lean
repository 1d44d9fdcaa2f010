/-
**How a text is refused.**

Whether a token may follow what stands before it depends on two things only: whether an operand has
just ended or has to follow, and how many parentheses are open. The parser, if no limit is reached,
refuses a text just where this account of it refuses a token or is incomplete at the end, and with the
error that says so.

* `Stage`, `Stage.advance` — what stands before a point of a text, and which tokens may follow;
* `Stage.report` — the error of the first token that may not follow, or of what is missing at the end;
* `height_lt_of_readAt` — a tree is less high than tokens were taken for it;
* `reportsAt_chain`, `reportsAt_operand` — **the readers of every level report the same**;
* `ofTokens_eq_error_iff` — so does the parser.
-/

import TwoLevel.Proofs.Nesting
import TwoLevel.Proofs.Remainders

namespace TwoLevel

/-! ### Stages -/

/-- What stands before a point of a text, with the number of parentheses that are open. -/
inductive Stage where
  /-- An operand has to follow. -/
  | awaiting (opened : Nat)
  /-- An operand has just ended. -/
  | ended (opened : Nat)
  deriving DecidableEq, Repr

namespace Stage

/-- The stage after one more token, if the token may follow. -/
def advance : Stage → TokenKind → Option Stage
  | awaiting opened, .const _ | awaiting opened, .var _ => some (ended opened)
  | awaiting opened, .opening => some (awaiting (opened + 1))
  | awaiting opened, .op .not => some (awaiting opened)
  | awaiting _, .op (.binary _) | awaiting _, .closing | awaiting _, .prime => none
  | ended opened, .const _ | ended opened, .var _ => some (ended opened)
  | ended opened, .opening => some (awaiting (opened + 1))
  | ended opened, .op _ => some (awaiting opened)
  | ended opened, .prime => some (ended opened)
  | ended 0, .closing => none
  | ended (opened + 1), .closing => some (ended opened)

/-- The error of a token that may not follow. -/
def refusal : Stage → Token → SyntaxError
  | ended _, token => .unexpectedToken token.place
  | awaiting _, token =>
    match token.kind with
    | .op _ => .missingOperand token.place
    | _ => .expectedOperand (some token.place)

/-- The error of a text that ends here, unless an expression ends here too. -/
def atEnd : Stage → Option SyntaxError
  | awaiting _ => some (.expectedOperand none)
  | ended 0 => none
  | ended (_ + 1) => some (.expectedClosing none)

/-- The error of the first of the tokens that may not follow, or else the one at their end. -/
def report (stage : Stage) : List Token → Option SyntaxError
  | [] => stage.atEnd
  | token :: rest =>
    match stage.advance token.kind with
    | some next => next.report rest
    | none => some (stage.refusal token)

section Advance

variable {stage next : Stage} {token : Token} {kind : TokenKind} {rest : List Token} {opened : Nat}

theorem report_of_advance (follows : stage.advance token.kind = some next) :
    stage.report (token :: rest) = next.report rest := by
  rw [report, follows]

theorem report_of_refused (refused : stage.advance token.kind = none) :
    stage.report (token :: rest) = some (stage.refusal token) := by
  rw [report, refused]

/-- An operand may start where one has to follow, and likewise where one has just ended. -/
theorem exists_advance_of_starts (starts : kind.startsTerm = true) (opened : Nat) :
    ∃ next, (awaiting opened).advance kind = some next ∧ (ended opened).advance kind = some next := by
  cases kind with
  | const | var | opening => exact ⟨_, rfl, rfl⟩
  | closing | prime => cases starts
  | op operator =>
    cases operator with
    | not => exact ⟨_, rfl, rfl⟩
    | binary => cases starts

theorem report_ended_of_starts (starts : token.kind.startsTerm = true) (opened : Nat) :
    (ended opened).report (token :: rest) = (awaiting opened).report (token :: rest) := by
  obtain ⟨next, first, second⟩ := exists_advance_of_starts starts opened
  rw [report_of_advance first, report_of_advance second]

/-- Where a chain goes on, an operand has to follow. -/
theorem report_ended_of_juncture {precedence : Nat} {tokens others : List Token} {op : Connective}
    (found : juncture? precedence tokens = some (op, others)) (opened : Nat) :
    (ended opened).report tokens = (awaiting opened).report others := by
  cases tokens with
  | nil => cases found
  | cons token rest =>
    cases starts : token.kind.startsTerm with
    | true =>
      rw [juncture?_cons_of_starts starts, Option.ite_none_right_eq_some] at found
      obtain ⟨_, same⟩ := found
      cases same
      exact report_ended_of_starts starts opened
    | false =>
      rw [juncture?] at found
      split at found
      · next op' kind =>
        rw [Option.ite_none_right_eq_some] at found
        obtain ⟨_, same⟩ := found
        cases same
        exact report_of_advance (by rw [kind]; rfl)
      · rw [starts, Bool.false_and] at found
        cases found

end Advance

end Stage

theorem TokenKind.IsLeaf.advance {kind : TokenKind} {leaf : Expr} (isLeaf : kind.IsLeaf leaf)
    (opened : Nat) : (Stage.awaiting opened).advance kind = some (.ended opened) := by
  cases isLeaf <;> rfl

/-! ### Reports of the readers -/

section Readers

variable {nesting levels level opened : Nat} {tokens rest : List Token} {node : Measured}

/-- **A tree is less high than tokens were taken for it.** -/
theorem height_lt_of_readAt (positive : 0 < level) (below : level ≤ 4)
    (read : plain (readAt nesting levels level tokens) = .ok (node, rest)) :
    node.height + rest.length < tokens.length := by
  obtain ⟨consumed, rfl, _, _, writes, _⟩ := soundAt_readAt positive below _ _ _ read
  have taken := Nat.lt_of_lt_of_le writes.bounds.2 List.countP_le_length
  rw [List.length_map, ← node.height_eq] at taken
  rw [List.length_append]
  exact Nat.add_lt_add_right taken rest.length

/-- What is reported about a text, some of whose parentheses are open, when the tokens after an operand
are known or an error has been found. -/
def reportOf (opened : Nat) : Except SyntaxError (Measured × List Token) → Option SyntaxError
  | .ok read => (Stage.ended opened).report read.2
  | .error error => some error

/-- A second part of a reading reports what is said of the tokens that the first part leaves. -/
theorem reportOf_bind {outer : Nat} {result : Except SyntaxError (Measured × List Token)}
    {next : Measured × List Token → Except SyntaxError (Measured × List Token)}
    (goesOn : ∀ node rest, result = .ok (node, rest) →
      reportOf outer (next (node, rest)) = (Stage.ended opened).report rest) :
    reportOf outer (result.bind next) = reportOf opened result := by
  cases result with
  | error error => rfl
  | ok read => exact goesOn read.1 read.2 rfl

/-- A reader reports what is to be reported where an operand has to follow, if there are no more tokens
than levels of nesting. -/
def ReportsAt (nesting levels level : Nat) : Prop :=
  ∀ tokens, tokens.length ≤ levels → ∀ opened,
    reportOf opened (plain (readAt nesting levels level tokens)) =
      (Stage.awaiting opened).report tokens

theorem exists_negate (low : node.height + 1 ≤ heightLimit nesting) :
    ∃ negated, node.negate nesting = .ok negated ∧ negated.height = node.height + 1 := by
  rw [Measured.negate, if_pos low]
  exact ⟨_, rfl, rfl⟩

theorem exists_join {left right : Measured}
    (low : max left.height right.height + 1 ≤ heightLimit nesting) (op : Connective) :
    ∃ joined, left.join nesting op right = .ok joined ∧
      joined.height = max left.height right.height + 1 := by
  rw [Measured.join, if_pos low]
  exact ⟨_, rfl, rfl⟩

/-- Primes may follow an operand. -/
theorem reportOf_primes (room : node.height + tokens.length ≤ heightLimit nesting) (opened : Nat) :
    reportOf opened (plain (primes nesting node tokens)) = (Stage.ended opened).report tokens := by
  induction tokens generalizing node with
  | nil => rfl
  | cons token rest ih =>
    rw [List.length_cons] at room
    by_cases kind : token.kind = .prime
    · have low : node.height + 1 ≤ heightLimit nesting := by omega
      obtain ⟨negated, negates, height⟩ := exists_negate low
      rw [plain_primes_cons kind, negates, Stage.report_of_advance (by rw [kind]; rfl)]
      exact ih (by omega)
    · rw [primes, if_neg kind]
      rfl

/-- **A chain reports what its operands report.** -/
theorem reportOf_chainFrom (positive : 0 < level) (below : level < 4) (wide : levels ≤ nesting)
    (operands : ReportsAt nesting levels (level + 1)) {left : Measured} {tokens : List Token}
    (few : tokens.length ≤ levels) (room : left.height + tokens.length ≤ heightLimit nesting)
    (opened : Nat) :
    reportOf opened (plain ((textTier nesting level).chainFrom (readAt nesting levels (level + 1)) left
      tokens)) = (Stage.ended opened).report tokens := by
  -- each operand takes at least one token, so that the recursion is on the number of tokens left
  cases found : juncture? level tokens with
  | none =>
    rw [Tier.plain_chainFrom_of_none _ left found]
    rfl
  | some juncture =>
    obtain ⟨op, others⟩ := juncture
    have fewer := length_juncture_le found
    rw [(textTier nesting level).plain_chainFrom_of_some left found,
      Stage.report_ended_of_juncture found, ← operands others (by omega) opened]
    refine reportOf_bind fun right between read => ?_
    have taken : right.height + between.length < others.length :=
      height_lt_of_readAt (by omega) (by omega) read
    have limit : nesting ≤ heightLimit nesting := Nat.le_max_right _ _
    have low : max left.height right.height + 1 ≤ heightLimit nesting := by omega
    obtain ⟨joined, joins, height⟩ := exists_join low op
    have shorter : between.length < tokens.length := by omega
    have fewerLeft : between.length ≤ levels := by omega
    have roomLeft : joined.height + between.length ≤ heightLimit nesting := by omega
    show reportOf opened ((left.join nesting op right).bind _) = _
    rw [joins]
    exact reportOf_chainFrom positive below wide operands fewerLeft roomLeft opened
termination_by tokens.length

theorem reportsAt_chain (positive : 0 < level) (below : level < 4) (wide : levels ≤ nesting)
    (operands : ReportsAt nesting levels (level + 1)) : ReportsAt nesting levels level := by
  intro tokens few opened
  rw [readAt_eq_chain positive below, Tier.plain_chain, ← operands tokens few opened]
  refine reportOf_bind fun node rest read => ?_
  have taken : node.height + rest.length < tokens.length :=
    height_lt_of_readAt (Nat.succ_pos _) (Nat.succ_le_of_lt below) read
  have limit : nesting ≤ heightLimit nesting := Nat.le_max_right _ _
  have fewer : rest.length ≤ levels := by omega
  have room : node.height + rest.length ≤ heightLimit nesting := by omega
  exact reportOf_chainFrom positive below wide operands fewer room opened

theorem reportsAt_of_operands (wide : levels ≤ nesting) (operands : ReportsAt nesting levels 4)
    (positive : 0 < level) (below : level ≤ 4) : ReportsAt nesting levels level :=
  at_level_of_operands operands
    (fun _ positive below => reportsAt_chain positive below wide) positive below

/-- **Operands report what is to be reported**, by induction along their reading. With as many levels
as tokens there is a level for every parenthesis and every NOT. -/
theorem reportsAt_operand (wide : levels ≤ nesting) : ReportsAt nesting levels 4 := by
  intro tokens few
  refine operand_induction (motive := fun levels tokens result =>
      levels ≤ nesting → tokens.length ≤ levels → ∀ opened,
        reportOf opened result = (Stage.awaiting opened).report tokens)
    ?nothing ?leaf ?group ?negation ?tooDeep ?connective ?misplaced levels tokens wide few
  case nothing => exact fun _ _ _ _ => rfl
  case leaf =>
    intro levels token rest leaf isLeaf wide few opened
    have limit : nesting ≤ heightLimit nesting := Nat.le_max_right _ _
    rw [List.length_cons] at few
    have height : (Measured.of leaf).height = 0 := isLeaf.writes.2
    have room : (Measured.of leaf).height + rest.length ≤ heightLimit nesting := by omega
    rw [Stage.report_of_advance (isLeaf.advance opened)]
    exact reportOf_primes room opened
  case group =>
    intro levels token rest kind ih wide few opened
    have wide : levels ≤ nesting := Nat.le_of_succ_le wide
    have few : rest.length ≤ levels := Nat.le_of_succ_le_succ few
    have inner : ReportsAt nesting levels 1 :=
      reportsAt_of_operands wide (fun tokens => ih tokens wide) (by decide) (by decide)
    rw [Stage.report_of_advance (by rw [kind]; rfl), ← inner rest few (opened + 1)]
    refine reportOf_bind fun node left read => ?_
    cases left with
    | nil => rfl
    | cons close others =>
      have closing := closing_of_readAt read
      have taken : node.height + (others.length + 1) < rest.length :=
        height_lt_of_readAt (by decide) (by decide) read
      have limit : nesting ≤ heightLimit nesting := Nat.le_max_right _ _
      have room : node.height + others.length ≤ heightLimit nesting := by omega
      rw [closeGroup, if_pos closing, Stage.report_of_advance (by rw [closing]; rfl)]
      exact reportOf_primes room opened
  case negation =>
    intro levels token rest kind ih wide few opened
    have few : rest.length ≤ levels := Nat.le_of_succ_le_succ few
    rw [Stage.report_of_advance (by rw [kind]; rfl),
      ← ih rest (Nat.le_of_succ_le wide) few opened]
    refine reportOf_bind fun node left read => ?_
    have taken : node.height + left.length < rest.length :=
      height_lt_of_readAt (by decide) (Nat.le_refl 4) read
    have limit : nesting ≤ heightLimit nesting := Nat.le_max_right _ _
    have low : node.height + 1 ≤ heightLimit nesting := by omega
    obtain ⟨negated, negates, _⟩ := exists_negate low
    show reportOf opened ((node.negate nesting).bind _) = _
    rw [negates]
    rfl
  case tooDeep => exact fun token rest _ _ few => absurd few (Nat.not_succ_le_zero _)
  case connective =>
    intro levels token rest op kind _ _ opened
    rw [Stage.report_of_refused (by rw [kind]; rfl), Stage.refusal, kind]
    rfl
  case misplaced =>
    intro levels token rest kind _ _ opened
    rcases kind with kind | kind <;>
      rw [Stage.report_of_refused (by rw [kind]; rfl), Stage.refusal, kind] <;> rfl

end Readers

/-! ### Whole texts -/

/-- **Without limits in the way the parser reports what is to be reported** about a text, and reads the
text if there is nothing to report. -/
theorem ofTokens_eq_error_iff {nesting : Nat} {tokens : List Token} (nonempty : tokens ≠ [])
    (few : tokens.length ≤ nesting) {error : SyntaxError} :
    Expr.ofTokens nesting tokens = .error error ↔
      (Stage.awaiting 0).report tokens = some error := by
  obtain ⟨token, rest, rfl⟩ := List.exists_cons_of_ne_nil nonempty
  have reports : ReportsAt nesting nesting 1 :=
    reportsAt_of_operands (Nat.le_refl _) (reportsAt_operand (Nat.le_refl _)) (by decide) (by decide)
  rw [ofTokens_cons, ← reports (token :: rest) few 0]
  cases read : plain (readAt nesting nesting 1 (token :: rest)) with
  | error other =>
    show Except.error other = Except.error error ↔ some other = some error
    rw [Except.error.injEq, Option.some.injEq]
  | ok result =>
    obtain ⟨node, left⟩ := result
    cases left with
    | nil => exact ⟨(nomatch ·), (nomatch ·)⟩
    | cons close others =>
      have closing := closing_of_readAt read
      show Except.error (.unexpectedToken close.place) = Except.error error ↔
        (Stage.ended 0).report (close :: others) = some error
      rw [Stage.report_of_refused (by rw [closing]; rfl), Except.error.injEq, Option.some.injEq]
      rfl

end TwoLevel
