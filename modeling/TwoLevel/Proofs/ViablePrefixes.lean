/-
**Errors point at the first impossible token.**

A text that cannot be read goes wrong at a token: the tokens before it begin an expression of the
grammar, and with it they do not. The error points at this token and says why it is impossible. Where
there is none the text begins an expression that it does not complete, and the error says what is
missing at its end.

* `InGrammar`, `Viable` — tokens that make up an expression of the grammar, or begin one;
* `inGrammar_iff`, `viable_iff` — **both can be told from the stages** that the tokens go through;
* `EndsInTerm`, `openParentheses`, `Stage.Describes` — what a stage says about the tokens before it;
* `FirstImpossible` — the first token that no expression of the grammar has after those before it;
* `PointsAt` — what the error says about this token;
* `errors_point_at_first_impossible` — **where the errors of the parser point**.
-/

import TwoLevel.Proofs.CutOff
import TwoLevel.Proofs.Productions
import TwoLevel.Proofs.Stages

namespace TwoLevel

/-! ### The grammar by stages -/

/-- The tokens make up an expression of the grammar. -/
def InGrammar (kinds : List TokenKind) : Prop := ∃ expr depth, Produces .or kinds expr depth

/-- The tokens begin an expression of the grammar. -/
def Viable (kinds : List TokenKind) : Prop := ∃ more, InGrammar (kinds ++ more)

namespace Stage

variable {stage next : Stage} {kinds more : List TokenKind} {opened : Nat}

/-- The stage after some more tokens, if all of them may follow. -/
def run (stage : Stage) (kinds : List TokenKind) : Option Stage := kinds.foldlM advance stage

theorem run_cons (stage : Stage) (kind : TokenKind) (kinds : List TokenKind) :
    stage.run (kind :: kinds) = (stage.advance kind).bind fun next => next.run kinds :=
  List.foldlM_cons

theorem run_append (stage : Stage) (kinds more : List TokenKind) :
    stage.run (kinds ++ more) = (stage.run kinds).bind fun next => next.run more :=
  List.foldlM_append

theorem run_append_of_eq_some (goes : stage.run kinds = some next) :
    stage.run (kinds ++ more) = next.run more := by
  rw [run_append, goes]
  rfl

end Stage

/-- What is reported about tokens that may follow is what is reported about those after them. -/
theorem Stage.report_append {stage next : Stage} {tokens : List Token}
    (goes : stage.run (tokens.map Token.kind) = some next) (more : List Token) :
    stage.report (tokens ++ more) = next.report more := by
  induction tokens generalizing stage with
  | nil =>
    cases goes
    rfl
  | cons token rest ih =>
    rw [List.map_cons, run_cons, Option.bind_eq_some_iff] at goes
    obtain ⟨after, follows, goes⟩ := goes
    rw [List.cons_append, report_of_advance follows]
    exact ih goes

/-- **What the grammar writes leads from where an operand has to follow to where one has ended**, with
the same parentheses open. -/
theorem Writes.run_eq {level depth : Nat} {kinds : List TokenKind} {expr : Expr}
    (writes : Writes level kinds expr depth) (opened : Nat) :
    (Stage.awaiting opened).run kinds = some (.ended opened) := by
  induction writes generalizing opened with
  | const | var => rfl
  | enclosed inner ih =>
    rw [Stage.run_cons]
    show (Stage.awaiting (opened + 1)).run _ = _
    rw [Stage.run_append_of_eq_some (ih (opened + 1))]
    rfl
  | primed inner ih =>
    rw [Stage.run_append_of_eq_some (ih opened)]
    rfl
  | negated inner ih =>
    rw [Stage.run_cons]
    exact ih opened
  | joined op first second firstIh secondIh =>
    rw [Stage.run_append_of_eq_some (firstIh opened), Stage.run_cons]
    exact secondIh opened
  | adjacent first second firstIh secondIh =>
    -- the second operand may follow directly as it may where an operand has to follow
    obtain ⟨kind, kinds, rfl, starts⟩ := second.exists_startsTerm
    obtain ⟨next, waiting, ended⟩ := Stage.exists_advance_of_starts starts opened
    rw [Stage.run_append_of_eq_some (firstIh opened), ← secondIh opened, Stage.run_cons,
      Stage.run_cons, waiting, ended]
  | looser positive tighter ih => exact ih opened

/-- The parser reads what leads there and leaves no parenthesis open, so the grammar has it. -/
theorem inGrammar_of_run {kinds : List TokenKind}
    (goes : (Stage.awaiting 0).run kinds = some (.ended 0)) : InGrammar kinds := by
  let tokens : List Token := kinds.map fun kind => ⟨kind, "", 0⟩
  have same : tokens.map Token.kind = kinds := by
    rw [List.map_map]
    exact List.map_id kinds
  have nonempty : tokens ≠ [] := by
    intro empty
    rw [← same, empty] at goes
    cases goes
  have silent : (Stage.awaiting 0).report tokens = none := by
    rw [← same] at goes
    rw [← List.append_nil tokens]
    exact Stage.report_append goes []
  cases read : Expr.ofTokens tokens.length tokens with
  | error error =>
    have reported := (ofTokens_eq_error_iff nonempty (Nat.le_refl _)).mp read
    rw [silent] at reported
    cases reported
  | ok expr =>
    obtain ⟨depth, _, writes, _⟩ := ofTokens_eq_ok_iff.mp read
    exact ⟨expr, depth, produces_or_iff.mpr (same ▸ writes)⟩

/-- **An expression of the grammar can be told from the stages** that its tokens go through. -/
theorem inGrammar_iff {kinds : List TokenKind} :
    InGrammar kinds ↔ (Stage.awaiting 0).run kinds = some (.ended 0) :=
  ⟨fun ⟨_, _, produces⟩ => (produces_or_iff.mp produces).run_eq 0, inGrammar_of_run⟩

/-- From every stage an expression can be completed: by an operand, if one has to follow, and by the
parentheses that are still to be closed. -/
theorem Stage.exists_completion (stage : Stage) : ∃ more, stage.run more = some (.ended 0) := by
  have closings : ∀ opened, ∃ more, (ended opened).run more = some (.ended 0) := by
    intro opened
    induction opened with
    | zero => exact ⟨[], rfl⟩
    | succ opened ih =>
      obtain ⟨more, goes⟩ := ih
      exact ⟨.closing :: more, goes⟩
  cases stage with
  | ended opened => exact closings opened
  | awaiting opened =>
    obtain ⟨more, goes⟩ := closings opened
    exact ⟨.const true :: more, goes⟩

/-- **Tokens begin an expression just where each of them may follow.** -/
theorem viable_iff {kinds : List TokenKind} :
    Viable kinds ↔ ∃ stage, (Stage.awaiting 0).run kinds = some stage := by
  constructor
  · rintro ⟨more, inGrammar⟩
    rw [inGrammar_iff, Stage.run_append, Option.bind_eq_some_iff] at inGrammar
    obtain ⟨stage, goes, _⟩ := inGrammar
    exact ⟨stage, goes⟩
  · rintro ⟨stage, goes⟩
    obtain ⟨more, completes⟩ := stage.exists_completion
    exact ⟨more, inGrammar_iff.mpr ((Stage.run_append_of_eq_some goes).trans completes)⟩

/-! ### What a stage says -/

/-- The last of the tokens ends an operand. -/
def EndsInTerm (kinds : List TokenKind) : Prop := ∃ last ∈ kinds.getLast?, last.endsTerm = true

/-- The number of parentheses that are opened and not closed. -/
def openParentheses (kinds : List TokenKind) : Nat := kinds.count .opening - kinds.count .closing

theorem endsInTerm_concat_iff {kinds : List TokenKind} {kind : TokenKind} :
    EndsInTerm (kinds ++ [kind]) ↔ kind.endsTerm = true := by
  rw [EndsInTerm, List.getLast?_concat]
  exact ⟨fun ⟨_, same, ends⟩ => by cases same; exact ends, fun ends => ⟨kind, rfl, ends⟩⟩

namespace Stage

variable {stage next : Stage} {kinds : List TokenKind} {kind : TokenKind}

/-- Whether an operand has just ended. -/
def isEnded : Stage → Bool
  | awaiting _ => false
  | ended _ => true

/-- The number of parentheses that are open. -/
def opened : Stage → Nat
  | awaiting opened | ended opened => opened

/-- The stage is that of the tokens: it tells whether an operand ends with them, and how many
parentheses they leave open. -/
structure Describes (stage : Stage) (kinds : List TokenKind) : Prop where
  term_iff : EndsInTerm kinds ↔ stage.isEnded = true
  count_eq : kinds.count .opening = kinds.count .closing + stage.opened

/-- **What one more token does to the stage.** -/
theorem Describes.advance (describes : stage.Describes kinds)
    (follows : stage.advance kind = some next) : next.Describes (kinds ++ [kind]) := by
  have count := describes.count_eq
  have step : next.isEnded = kind.endsTerm ∧
      stage.opened + [kind].count .opening = next.opened + [kind].count .closing := by
    unfold Stage.advance at follows
    split at follows <;> cases follows <;> exact ⟨rfl, rfl⟩
  refine ⟨?_, ?_⟩
  · rw [endsInTerm_concat_iff, step.1]
  · rw [List.count_append, List.count_append]
    omega

/-- **What all the tokens do to it.** -/
theorem describes_of_run (goes : (awaiting 0).run kinds = some stage) : stage.Describes kinds := by
  induction kinds using List.reverseRecOn generalizing stage with
  | nil =>
    cases goes
    exact ⟨iff_of_false (fun ⟨_, found, _⟩ => nomatch found) Bool.false_ne_true, rfl⟩
  | append_singleton before last ih =>
    rw [run_append, Option.bind_eq_some_iff] at goes
    obtain ⟨middle, goes, follows⟩ := goes
    rw [run_cons, Option.bind_eq_some_iff] at follows
    obtain ⟨after, follows, same⟩ := follows
    cases same
    exact (ih goes).advance follows

theorem Describes.openParentheses_eq (describes : stage.Describes kinds) :
    openParentheses kinds = stage.opened := by
  have count := describes.count_eq
  rw [openParentheses]
  omega

end Stage

/-! ### The first impossible token -/

section FirstError

variable {nesting position : Nat} {tokens : List Token} {token : Token} {error : SyntaxError}

/-- The kinds of the tokens before a position. -/
def kindsBefore (tokens : List Token) (position : Nat) : List TokenKind :=
  (tokens.take position).map Token.kind

/-- The token stands at the position; the tokens up to it begin no expression of the grammar, and
those up to any earlier one do. -/
structure FirstImpossible (tokens : List Token) (position : Nat) (token : Token) : Prop where
  here : tokens[position]? = some token
  impossible : ¬ Viable (kindsBefore tokens (position + 1))
  viable : ∀ earlier < position, Viable (kindsBefore tokens (earlier + 1))

/-- The error points at the token, and says why it cannot follow those before it: it closes a
parenthesis that is not open, joins nothing, or is no start of the operand that has to follow. -/
structure PointsAt (error : SyntaxError) (before : List TokenKind) (token : Token) : Prop where
  points : error = .unexpectedToken token.place ∨ error = .missingOperand token.place ∨
    error = .expectedOperand (some token.place)
  unexpected_iff : error = .unexpectedToken token.place ↔
    token.kind = .closing ∧ EndsInTerm before ∧ openParentheses before = 0
  missing_iff : error = .missingOperand token.place ↔
    (∃ op, token.kind = .op (.binary op)) ∧ ¬ EndsInTerm before
  expected_iff : error = .expectedOperand (some token.place) ↔
    (token.kind = .closing ∨ token.kind = .prime) ∧ ¬ EndsInTerm before

theorem viable_nil : Viable [] :=
  viable_iff.mpr ⟨_, rfl⟩

theorem kindsBefore_succ (here : tokens[position]? = some token) :
    kindsBefore tokens (position + 1) = kindsBefore tokens position ++ [token.kind] := by
  rw [kindsBefore, List.take_add_one, here, List.map_append]
  rfl

/-- Before the first impossible token the tokens begin an expression, and the stage after them does
not let it follow. -/
theorem FirstImpossible.exists_stage (first : FirstImpossible tokens position token) :
    ∃ stage, (Stage.awaiting 0).run (kindsBefore tokens position) = some stage ∧
      stage.advance token.kind = none := by
  have viable : Viable (kindsBefore tokens position) := by
    cases position with
    | zero => exact viable_nil
    | succ earlier => exact first.viable earlier (Nat.lt_succ_self _)
  obtain ⟨stage, goes⟩ := viable_iff.mp viable
  refine ⟨stage, goes, Option.eq_none_iff_forall_ne_some.mpr fun next follows => ?_⟩
  refine first.impossible (viable_iff.mpr ⟨next, ?_⟩)
  rw [kindsBefore_succ first.here, Stage.run_append_of_eq_some goes, Stage.run_cons, follows]
  rfl

/-- Without an impossible token the text begins an expression. -/
theorem viable_of_forall_not_first
    (none : ∀ position token, ¬ FirstImpossible tokens position token) :
    Viable (tokens.map Token.kind) := by
  have all : ∀ count ≤ tokens.length, Viable (kindsBefore tokens count) := by
    intro count
    induction count using Nat.strongRecOn with
    | _ count ih =>
      intro within
      cases count with
      | zero => exact viable_nil
      | succ position =>
        by_contra impossible
        exact none position tokens[position] ⟨List.getElem?_eq_getElem within, impossible,
          fun earlier before => ih (earlier + 1) (Nat.succ_lt_succ before) (by omega)⟩
  have whole := all tokens.length (Nat.le_refl _)
  rwa [kindsBefore, List.take_length] at whole

/-- After an operand everything may follow but a closing parenthesis without an open one. -/
theorem Stage.ended_refuses {opened : Nat} {kind : TokenKind}
    (refused : (ended opened).advance kind = none) : kind = .closing ∧ opened = 0 := by
  cases kind with
  | closing =>
    cases opened with
    | zero => exact ⟨rfl, rfl⟩
    | succ => cases refused
  | _ => cases refused

/-- Where an operand has to follow, only what starts one may. -/
theorem Stage.awaiting_refuses {opened : Nat} {kind : TokenKind}
    (refused : (awaiting opened).advance kind = none) :
    (∃ op, kind = .op (.binary op)) ∨ kind = .closing ∨ kind = .prime := by
  cases kind with
  | closing => exact .inr (.inl rfl)
  | prime => exact .inr (.inr rfl)
  | op operator =>
    cases operator with
    | not => cases refused
    | binary op => exact .inl ⟨op, rfl⟩
  | _ => cases refused

/-- **What a stage reports about a token that may not follow.** -/
theorem pointsAt_refusal {stage : Stage} {before : List TokenKind}
    (describes : stage.Describes before) (refused : stage.advance token.kind = none) :
    PointsAt (stage.refusal token) before token := by
  cases stage with
  | ended opened =>
    obtain ⟨kind, closed⟩ := Stage.ended_refuses refused
    have ends : EndsInTerm before := describes.term_iff.mpr rfl
    have noneOpen : openParentheses before = 0 := describes.openParentheses_eq.trans closed
    exact ⟨.inl rfl, iff_of_true rfl ⟨kind, ends, noneOpen⟩,
      iff_of_false (by simp [Stage.refusal]) fun needed => needed.2 ends,
      iff_of_false (by simp [Stage.refusal]) fun needed => needed.2 ends⟩
  | awaiting opened =>
    have needed : ¬ EndsInTerm before := fun ends => Bool.false_ne_true (describes.term_iff.mp ends)
    rcases Stage.awaiting_refuses refused with ⟨op, kind⟩ | closing
    · have refusal : (Stage.awaiting opened).refusal token = .missingOperand token.place := by
        rw [Stage.refusal, kind]
      rw [refusal]
      refine ⟨.inr (.inl rfl), iff_of_false (by simp) fun ended => needed ended.2.1,
        iff_of_true rfl ⟨⟨op, kind⟩, needed⟩, iff_of_false (by simp) fun misplaced => ?_⟩
      rw [kind] at misplaced
      rcases misplaced.1 with same | same <;> cases same
    · have refusal :
          (Stage.awaiting opened).refusal token = .expectedOperand (some token.place) := by
        rcases closing with kind | kind <;> rw [Stage.refusal, kind]
      rw [refusal]
      refine ⟨.inr (.inr rfl), iff_of_false (by simp) fun ended => needed ended.2.1,
        iff_of_false (by simp) fun joins => ?_, iff_of_true rfl ⟨closing, needed⟩⟩
      obtain ⟨op, kind⟩ := joins.1
      rw [kind] at closing
      rcases closing with same | same <;> cases same

/-- What is reported at the first impossible token. -/
theorem FirstImpossible.report_eq (first : FirstImpossible tokens position token) {stage : Stage}
    (goes : (Stage.awaiting 0).run (kindsBefore tokens position) = some stage)
    (refused : stage.advance token.kind = none) :
    (Stage.awaiting 0).report tokens = some (stage.refusal token) := by
  obtain ⟨within, same⟩ := List.getElem?_eq_some_iff.mp first.here
  rw [← List.take_append_drop position tokens, Stage.report_append goes,
    List.drop_eq_getElem_cons within, same, Stage.report_of_refused refused]

/-- What is never reported is that another token than a closing parenthesis stands after an
expression in parentheses. -/
theorem Stage.found_eq_none_of_report {stage : Stage} {found : Option Place}
    (reports : stage.report tokens = some (.expectedClosing found)) : found = none := by
  induction tokens generalizing stage with
  | nil =>
    rw [report] at reports
    unfold atEnd at reports
    split at reports <;> cases reports
    rfl
  | cons token rest ih =>
    cases follows : stage.advance token.kind with
    | some next =>
      rw [report_of_advance follows] at reports
      exact ih reports
    | none =>
      rw [report_of_refused follows, Option.some.injEq] at reports
      unfold refusal at reports
      split at reports
      · cases reports
      · split at reports <;> cases reports

/-- Under no limit does the error of an open parenthesis point at a token. -/
theorem found_eq_none {found : Option Place}
    (fails : Expr.ofTokens nesting tokens = .error (.expectedClosing found)) : found = none := by
  have nonempty : tokens ≠ [] := by
    rintro rfl
    cases fails
  -- larger limits, which leave room for all the tokens, give the same error
  have cutOff := cutOff_ofTokens (Nat.le_max_left nesting tokens.length) tokens
  rw [fails] at cutOff
  generalize wider : Expr.ofTokens (max nesting tokens.length) tokens = result at cutOff
  cases cutOff with
  | same =>
    exact Stage.found_eq_none_of_report
      ((ofTokens_eq_error_iff nonempty (Nat.le_max_right _ _)).mp wider)

end FirstError

/-- **Errors point at the first impossible token.** Let a text fail with an error where no limit is in
the way. If with one of its tokens it stops beginning an expression of the grammar, the error points
at the first such token: as unexpected, if it closes a parenthesis after an operand with none open; as
a connective without its operand, or as no start of one, if an operand has to follow. Else the error is
what is missing at the end: the closing parenthesis after an operand, or an operand. Under no limit is
a closing parenthesis missed at a token. -/
theorem errors_point_at_first_impossible :
    (∀ nesting tokens error, tokens ≠ [] → tokens.length ≤ nesting →
      Expr.ofTokens nesting tokens = .error error →
        (∀ position token, FirstImpossible tokens position token →
          PointsAt error (kindsBefore tokens position) token) ∧
        ((∀ position token, ¬ FirstImpossible tokens position token) →
          EndsInTerm (tokens.map Token.kind) ∧ 0 < openParentheses (tokens.map Token.kind) ∧
              error = .expectedClosing none ∨
            ¬ EndsInTerm (tokens.map Token.kind) ∧ error = .expectedOperand none)) ∧
    ∀ nesting tokens place,
      Expr.ofTokens nesting tokens ≠ .error (.expectedClosing (some place)) := by
  refine ⟨fun nesting tokens error nonempty few fails => ?_, fun nesting tokens place fails => ?_⟩
  · have reports := (ofTokens_eq_error_iff nonempty few).mp fails
    refine ⟨fun position token first => ?_, fun none => ?_⟩
    · obtain ⟨stage, goes, refused⟩ := first.exists_stage
      rw [first.report_eq goes refused, Option.some.injEq] at reports
      exact reports ▸ pointsAt_refusal (Stage.describes_of_run goes) refused
    · obtain ⟨stage, goes⟩ := viable_iff.mp (viable_of_forall_not_first none)
      have describes := Stage.describes_of_run goes
      have atEnd : stage.atEnd = some error := by
        rw [← reports, ← List.append_nil tokens]
        exact (Stage.report_append goes []).symm
      cases stage with
      | awaiting opened =>
        cases atEnd
        exact .inr ⟨fun ends => Bool.false_ne_true (describes.term_iff.mp ends), rfl⟩
      | ended opened =>
        cases opened with
        | zero => cases atEnd
        | succ opened =>
          cases atEnd
          exact .inl ⟨describes.term_iff.mpr rfl,
            describes.openParentheses_eq ▸ Nat.succ_pos opened, rfl⟩
  · exact nomatch found_eq_none fails

/-- In a group with a prime after its connective the prime is the first impossible token, although a
closing parenthesis without an open one comes later; without the prime and what follows it an operand
is missing at the end. -/
theorem errors_point_at_first_impossible_prime :
    let opened : List Token := [⟨.opening, "(", 0⟩, ⟨.var "a", "a", 1⟩, ⟨.op (.binary .or), "+", 2⟩]
    let prime : Token := ⟨.prime, "'", 3⟩
    let tokens : List Token := opened ++ [prime, ⟨.closing, ")", 4⟩, ⟨.closing, ")", 5⟩]
    tokens ≠ [] ∧ tokens.length ≤ 6 ∧
      Expr.ofTokens 6 tokens = .error (.expectedOperand (some ⟨"'", 3⟩)) ∧
      FirstImpossible tokens 3 prime ∧
      PointsAt (.expectedOperand (some ⟨"'", 3⟩)) (kindsBefore tokens 3) prime ∧
      (∀ position token, ¬ FirstImpossible opened position token) ∧
      ¬ EndsInTerm (opened.map Token.kind) := by
  intro opened prime tokens
  have fails : Expr.ofTokens 6 tokens = .error (.expectedOperand (some ⟨"'", 3⟩)) := by
    cbv
  have fewFails : Expr.ofTokens 6 opened = .error (.expectedOperand none) := by
    cbv
  have first : FirstImpossible tokens 3 prime := by
    have runs : ∀ earlier < 3,
        ((Stage.awaiting 0).run (kindsBefore tokens (earlier + 1))).isSome = true := by
      decide
    refine ⟨rfl, fun viable => ?_, fun earlier before => viable_iff.mpr ?_⟩
    · obtain ⟨stage, goes⟩ := viable_iff.mp viable
      cases goes
    · exact Option.isSome_iff_exists.mp (runs earlier before)
  have none : ∀ position token, ¬ FirstImpossible opened position token := by
    have runs : ∀ position < opened.length,
        ((Stage.awaiting 0).run (kindsBefore opened (position + 1))).isSome = true := by
      decide
    intro position token found
    obtain ⟨within, _⟩ := List.getElem?_eq_some_iff.mp found.here
    exact found.impossible (viable_iff.mpr (Option.isSome_iff_exists.mp (runs position within)))
  obtain ⟨errors, _⟩ := errors_point_at_first_impossible
  obtain ⟨points, _⟩ := errors 6 tokens _ (List.cons_ne_nil _ _) (by decide) fails
  obtain ⟨_, atEnd⟩ := errors 6 opened _ (List.cons_ne_nil _ _) (by decide) fewFails
  refine ⟨List.cons_ne_nil _ _, by decide, fails, first, points 3 prime first, none, ?_⟩
  rcases atEnd none with ⟨_, _, other⟩ | ⟨needed, _⟩
  · cases other
  · exact needed

end TwoLevel
