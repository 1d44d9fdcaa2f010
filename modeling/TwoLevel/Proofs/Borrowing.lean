/-
**What an expansion borrows.**

The calls of an expansion name the expressions that the program holds. A name that stands alone in
parentheses behind `&` is borrowed, and the program keeps the expression; in any other place the
expression is handed over and lost to the program. The expansion of a negation or a connective
borrows its operands, whatever they are. But an identifier by itself, in any number of parentheses,
has no call around it: it expands to itself, and is handed over.

* `NameUse`, `CallToken.uses` — the names in an expansion, and how they are passed;
* `Spells.words_eq` — the identifiers of an expression are those of its tokens, in their order;
* `uses_borrow_expand` — **every name of an operand is borrowed**, once for each time it is written;
* `identifiers_borrowed_iff` — all identifiers are borrowed just where there is an operator or no
  identifier;
* `lone_identifier_not_borrowed` — an identifier by itself is handed over.
-/

import TwoLevel.Proofs.SharedTokens

namespace TwoLevel

open Embedded

/-! ### The names in calls -/

/-- A name that stands for an expression of the program, and whether it is borrowed. -/
structure NameUse where
  name : String
  borrowed : Bool
  deriving DecidableEq, Repr

namespace CallToken

/-- The names among the tokens of calls that stand for expressions of the program, from left to
right. The words of a path and the truth values do not. A name is borrowed where it is all that
stands in parentheses behind `&`. -/
def uses : List CallToken → List NameUse
  | [] => []
  | word _ :: mark "::" :: word _ :: rest => uses rest
  | mark "&" :: group [word name] :: rest =>
    (if truthValue? name = none then [⟨name, true⟩] else []) ++ uses rest
  | group content :: rest => uses content ++ uses rest
  | word name :: rest => (if truthValue? name = none then [⟨name, false⟩] else []) ++ uses rest
  | mark _ :: rest | literal _ :: rest => uses rest

/-- The names in a call are those in its arguments. -/
theorem uses_call (function : String) (arguments : List CallToken) :
    uses (call function arguments) = uses arguments := by
  rw [call, uses, uses, uses, List.append_nil]

/-- A call behind `&` is no name: the names in it are passed as they are in the call. -/
theorem uses_borrow_call (function : String) (arguments rest : List CallToken) :
    uses (borrow (call function arguments) ++ rest) = uses arguments ++ uses rest := by
  show uses (mark "&" :: group (word "BoolExpr" :: mark "::" :: _ :: _) :: rest) = _
  rw [uses, uses, ← call, uses_call]
  intro _ _ same
  cases same

end CallToken

/-! ### The identifiers of an expression -/

namespace Embedded

/-- The identifiers from left to right. -/
def words : Embedded → List String
  | word name => [name]
  | named _ | const _ => []
  | not operand => operand.words
  | binary _ left right => left.words ++ right.words

/-- Every expression but an identifier expands to a call. -/
theorem exists_call {embedded : Embedded} (more : ∀ name, embedded ≠ .word name) :
    ∃ function arguments, embedded.expand = CallToken.call function arguments := by
  cases embedded with
  | word name => exact absurd rfl (more name)
  | named _ | const _ | not _ | binary _ _ _ => exact ⟨_, _, rfl⟩

/-- The identifier that a token is. -/
def SourceToken.word? : SourceToken → Option String
  | .word text => some text
  | _ => none

theorem mem_filterMap_word?_iff {tokens : List SourceToken} {name : String} :
    name ∈ tokens.filterMap SourceToken.word? ↔ .word name ∈ tokens := by
  rw [List.mem_filterMap]
  constructor
  · rintro ⟨token, member, same⟩
    cases token <;> cases same
    exact member
  · exact fun member => ⟨_, member, rfl⟩

section Spelled

variable {level : Nat} {tokens : List SourceToken} {node : Embedded}

theorem exists_const_of_constant {literal : String} (known : constant literal = .ok node) :
    ∃ value, node = .const value := by
  unfold constant at known
  split at known
  · exact ⟨false, (Except.ok.inj known).symm⟩
  · exact ⟨true, (Except.ok.inj known).symm⟩
  · cases known

/-- The identifiers of an expression are those of its tokens, in their order. -/
theorem Spells.words_eq (spells : Spells level tokens node) :
    node.words = tokens.filterMap SourceToken.word? := by
  induction spells with
  | word | named => rfl
  | integer known =>
    obtain ⟨value, rfl⟩ := exists_const_of_constant known
    rfl
  | enclosed bracket inner ih =>
    rw [ih, List.filterMap_cons, List.filterMap_append]
    exact (List.append_nil _).symm
  | negated negates inner ih => exact ih
  | joined mark first second firstIh secondIh =>
    rw [words, firstIh, secondIh, List.filterMap_append]
    rfl
  | looser positive tighter ih => exact ih

/-- No keyword is an identifier of an expression. -/
theorem Spells.free_words (spells : Spells level tokens node) :
    ∀ name ∈ node.words, name ∉ keywords := by
  induction spells with
  | word free => exact List.forall_mem_singleton.mpr free
  | named => exact List.forall_mem_nil _
  | integer known =>
    obtain ⟨value, rfl⟩ := exists_const_of_constant known
    exact List.forall_mem_nil _
  | enclosed bracket inner ih => exact ih
  | negated negates inner ih => exact ih
  | joined mark first second firstIh secondIh =>
    exact List.forall_mem_append.mpr ⟨firstIh, secondIh⟩
  | looser positive tighter ih => exact ih

/-- Tokens with an operator spell a negation or a connective, others one operand. -/
theorem Spells.mark_mem_iff (spells : Spells level tokens node) :
    (∃ character, .mark character ∈ tokens) ↔
      (∃ operand, node = .not operand) ∨ ∃ op left right, node = .binary op left right := by
  induction spells with
  | word | named => simp
  | integer known =>
    obtain ⟨value, rfl⟩ := exists_const_of_constant known
    simp
  | enclosed bracket inner ih => simp [ih]
  | negated negates inner ih => exact iff_of_true ⟨_, List.mem_cons_self⟩ (.inl ⟨_, rfl⟩)
  | joined mark first second firstIh secondIh =>
    refine iff_of_true ⟨_, List.mem_append_right _ List.mem_cons_self⟩ (.inr ⟨_, _, _, rfl⟩)
  | looser positive tighter ih => exact ih

end Spelled

end Embedded

/-! ### Names and identifiers -/

section Names

open CallToken

variable {embedded : Embedded}

/-- Truth values are keywords. -/
theorem truthValue?_eq_none {name : String} (free : name ∉ keywords) : truthValue? name = none := by
  unfold truthValue?
  rw [if_neg, if_neg]
  · rintro rfl
    exact free (by decide)
  · rintro rfl
    exact free (by decide)

/-- **Every name of an operand is borrowed**, once for each time it is written. By induction on the
operand: an identifier is what `&` stands before, and in a call all operands are behind `&`. -/
theorem uses_borrow_expand (free : ∀ name ∈ embedded.words, name ∉ keywords)
    (rest : List CallToken) :
    uses (borrow embedded.expand ++ rest) = embedded.words.map (⟨·, true⟩) ++ uses rest := by
  induction embedded generalizing rest with
  | word name =>
    show uses (mark "&" :: group [word name] :: rest) = _
    rw [uses, if_pos (truthValue?_eq_none (free name List.mem_cons_self))]
    rfl
  | named literal =>
    rw [Embedded.expand, uses_borrow_call, uses, uses]
    rfl
  | const value =>
    have truth : truthValue? (if value then "true" else "false") ≠ none := by
      cases value <;> decide
    rw [Embedded.expand, uses_borrow_call, uses, uses, if_neg truth]
    · rfl
    · intro _ _ same
      cases same
  | not operand ih =>
    have operandUses := ih free []
    rw [List.append_nil] at operandUses
    rw [Embedded.expand, uses_borrow_call, operandUses, uses, List.append_nil]
    rfl
  | binary op left right leftIh rightIh =>
    obtain ⟨leftFree, rightFree⟩ := List.forall_mem_append.mp free
    have rightUses := rightIh rightFree []
    rw [List.append_nil] at rightUses
    have comma : uses (mark "," :: borrow right.expand) = uses (borrow right.expand) := by
      rw [uses]
      exact fun _ _ _ same => absurd same (by decide)
    rw [Embedded.expand, uses_borrow_call, leftIh leftFree, comma, rightUses, uses, List.append_nil,
      Embedded.words, List.map_append]

/-- The names in an expansion that is a call are all borrowed. -/
theorem uses_expand (free : ∀ name ∈ embedded.words, name ∉ keywords)
    (more : ∀ name, embedded ≠ .word name) :
    uses embedded.expand = embedded.words.map (⟨·, true⟩) := by
  have behind := uses_borrow_expand free []
  obtain ⟨function, arguments, isCall⟩ := exists_call more
  rw [isCall, uses_borrow_call, ← uses_call function, ← isCall] at behind
  simpa [uses] using behind

/-- An identifier by itself expands to itself. -/
theorem uses_expand_word {name : String} (free : name ∉ keywords) :
    uses (Embedded.word name).expand = [⟨name, false⟩] := by
  rw [Embedded.expand, uses, if_pos (truthValue?_eq_none free), uses, List.append_nil]
  intro _ _ same
  cases same

end Names

/-- **Which identifiers are borrowed.** The names in the expansion of accepted tokens are the
identifiers of the tokens, each as often as it is written and in their order. All of them are borrowed
just where the tokens have an operator or no identifier; without an operator an identifier, in any
number of parentheses, expands to itself. -/
theorem identifiers_borrowed_iff {tokens : List SourceToken} {embedded : Embedded}
    (accepted : Embedded.ofTokens tokens = .ok embedded) :
    (CallToken.uses embedded.expand).map NameUse.name = tokens.filterMap SourceToken.word? ∧
    ((∀ use ∈ CallToken.uses embedded.expand, use.borrowed = true) ↔
      (∃ character, .mark character ∈ tokens) ∨ ∀ name, .word name ∉ tokens) ∧
    ∀ name, .word name ∈ tokens → (∀ character, .mark character ∉ tokens) →
      embedded.expand = [.word name] := by
  have spells := Embedded.ofTokens_eq_ok_iff.mp accepted
  have free := spells.free_words
  have member (name : String) : .word name ∈ tokens ↔ name ∈ embedded.words := by
    rw [spells.words_eq, mem_filterMap_word?_iff]
  rw [← spells.words_eq]
  simp only [member, ← not_exists, spells.mark_mem_iff]
  cases embedded with
  | word name =>
    rw [uses_expand_word (free name List.mem_cons_self)]
    refine ⟨rfl, ?_, ?_⟩
    · simp [words]
    · intro other here _
      rw [List.mem_singleton.mp here]
      rfl
  | named _ | const _ =>
    rw [uses_expand free fun name same => nomatch same]
    simp [words]
  | not _ | binary _ _ _ =>
    rw [uses_expand free fun name same => nomatch same]
    simp [Function.comp_def]

/-- The identifiers of `!a & (b | a)`, of which one is written twice. -/
theorem identifiers_borrowed_iff_repeated :
    ∃ embedded, Embedded.ofTokens [.mark '!', .word "a", .mark '&', .opening .round, .word "b",
        .mark '|', .word "a", .closing .round] = .ok embedded ∧
      (CallToken.uses embedded.expand).map NameUse.name = ["a", "b", "a"] ∧
      ∀ use ∈ CallToken.uses embedded.expand, use.borrowed = true := by
  have accepted : Embedded.ofTokens [.mark '!', .word "a", .mark '&', .opening .round, .word "b",
      .mark '|', .word "a", .closing .round] =
        .ok (.binary .and (.not (.word "a")) (.binary .or (.word "b") (.word "a"))) := by
    cbv
  obtain ⟨names, borrowed, _⟩ := identifiers_borrowed_iff accepted
  exact ⟨_, accepted, names, borrowed.mpr (.inl ⟨'!', List.mem_cons_self⟩)⟩

/-- **An identifier by itself is handed over**: the source `a` is accepted, and expands to `a`. -/
theorem lone_identifier_not_borrowed :
    SourceToken.ofText? "a" = some [.word "a"] ∧ Embedded.ofTokens [.word "a"] = .ok (.word "a") ∧
      expandSource "a" = .ok "a" ∧
      ¬ ∀ use ∈ CallToken.uses (Embedded.word "a").expand, use.borrowed = true := by
  have scanned : SourceToken.ofText? "a" = some [.word "a"] :=
    ofText?_letter 'a' (Text.isWordStart_of_isAlpha (by decide)) rfl rfl rfl rfl rfl (by decide)
  have accepted : Embedded.ofTokens [.word "a"] = .ok (.word "a") := by cbv
  refine ⟨scanned, accepted, ?_, ?_⟩
  · rw [expandSource, Embedded.ofSource, scanned]
    show (Embedded.ofTokens [.word "a"]).map _ = _
    rw [accepted]
    rfl
  · rw [uses_expand_word (by decide)]
    decide

end TwoLevel
