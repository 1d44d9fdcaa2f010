/-
**Program source and texts are read alike.**

Some tokens of program source mean the same in a text: identifiers, string literals whose value is
an identifier, the constants `0` and `1`, parentheses, and the marks of NOT, AND, XOR and OR. Source
of these tokens is an expression exactly if the text of the same tokens is one in which no operand
follows another one directly, and its expansion builds the tree of that text.

* `SourceToken.IsShared`, `SourceToken.kind`, `textOf` — the tokens, and how a text has them;
* `Separated` — no operand follows another one directly;
* `Spells.writes`, `Writes.spells` — both grammars write the same trees with the shared tokens;
* `tokenizeFrom_textOf` — the text of shared tokens is read as these tokens;
* `source_reads_as_text` — **the two readers agree on the shared tokens**;
* `wider_word_is_no_text` — identifiers beyond ASCII are not among them.
-/

import TwoLevel.Proofs.CallValues
import TwoLevel.Proofs.RoundTrip
import TwoLevel.Proofs.SourceGrammar

namespace TwoLevel

open Embedded

/-! ### Shared tokens -/

namespace Embedded.SourceToken

/-- A token that means the same in a text. -/
inductive IsShared : SourceToken → Prop where
  | word {name : String} (identifier : IsIdentifier name) (free : name ∉ keywords) :
    IsShared (.word name)
  | string {literal name : String} (value : stringValue? literal = some name)
    (identifier : IsIdentifier name) : IsShared (.string literal)
  | zero : IsShared (.integer "0")
  | one : IsShared (.integer "1")
  | mark {character : Char} (listed : character ∈ ['!', '~', '*', '&', '^', '+', '|']) :
    IsShared (.mark character)
  | opening : IsShared (.opening .round)
  | closing : IsShared (.closing .round)

/-- What a shared token stands for in a text. -/
def kind : SourceToken → TokenKind
  | .word name => .var name
  | .string literal => .var ((stringValue? literal).getD literal)
  | .integer literal => .const (literal == "1")
  | .mark character => (Operator.ofSymbol? character).elim .prime .op
  | .opening _ => .opening
  | .closing _ => .closing
  | .otherLiteral | .documentation => .prime

/-- How a shared token is written in a text, a string literal by its value. -/
def written : SourceToken → String
  | .word name => name
  | .string literal => (stringValue? literal).getD literal
  | .integer literal => literal
  | .mark character => String.singleton character
  | .opening _ => "("
  | .closing _ => ")"
  | .otherLiteral | .documentation => ""

end Embedded.SourceToken

/-- The text of shared tokens, with single spaces between them. -/
def textOf (tokens : List SourceToken) : String :=
  " ".intercalate (tokens.map SourceToken.written)

/-- The number of tokens, with a pair of parentheses counted once. -/
def tokenCount (tokens : List SourceToken) : Nat :=
  tokens.countP fun token => token ≠ .closing .round

/-- No token that ends an operand is directly followed by one that starts an operand. -/
def Separated (kinds : List TokenKind) : Prop :=
  kinds.IsChain fun first second => ¬ (first.endsTerm = true ∧ second.startsTerm = true)

section Kinds

variable {token : SourceToken} {tokens : List SourceToken}

/-- A shared mark negates or joins, in source as in a text. -/
theorem kind_mark_cases {character : Char} (shared : SourceToken.IsShared (.mark character)) :
    Negates character ∧ SourceToken.kind (.mark character) = .op .not ∨
      ∃ op, connective? character = some op ∧
        SourceToken.kind (.mark character) = .op (.binary op) := by
  cases shared with
  | mark listed =>
    simp only [List.mem_cons, List.not_mem_nil, or_false] at listed
    rcases listed with rfl | rfl | rfl | rfl | rfl | rfl | rfl
    · exact .inl ⟨.inl rfl, rfl⟩
    · exact .inl ⟨.inr rfl, rfl⟩
    · exact .inr ⟨.and, rfl, rfl⟩
    · exact .inr ⟨.and, rfl, rfl⟩
    · exact .inr ⟨.xor, rfl, rfl⟩
    · exact .inr ⟨.or, rfl, rfl⟩
    · exact .inr ⟨.or, rfl, rfl⟩

/-- A mark that negates in source does so in a text. -/
theorem kind_of_negates {character : Char} (negates : Negates character) :
    SourceToken.kind (.mark character) = .op .not := by
  rcases negates with rfl | rfl <;> rfl

/-- A mark that joins in source joins in a text by the same connective. -/
theorem kind_of_connective? {character : Char} {op : Connective}
    (mark : connective? character = some op) :
    SourceToken.kind (.mark character) = .op (.binary op) := by
  unfold connective? at mark
  split at mark <;> cases mark <;> rfl

/-- The parentheses of a text are those of source. -/
theorem kind_eq_parenthesis_iff (shared : token.IsShared) :
    (token.kind = .opening ↔ token = .opening .round) ∧
      (token.kind = .closing ↔ token = .closing .round) := by
  cases shared with
  | mark listed =>
    rcases kind_mark_cases (.mark listed) with ⟨_, kind⟩ | ⟨op, _, kind⟩ <;> rw [kind] <;>
      exact ⟨⟨(nomatch ·), (nomatch ·)⟩, ⟨(nomatch ·), (nomatch ·)⟩⟩
  | opening => exact ⟨⟨fun _ => rfl, fun _ => rfl⟩, ⟨(nomatch ·), (nomatch ·)⟩⟩
  | closing => exact ⟨⟨(nomatch ·), (nomatch ·)⟩, ⟨fun _ => rfl, fun _ => rfl⟩⟩
  | _ => exact ⟨⟨(nomatch ·), (nomatch ·)⟩, ⟨(nomatch ·), (nomatch ·)⟩⟩

/-- The shared tokens but for closing parentheses are counted. -/
theorem countP_kind (shared : ∀ token ∈ tokens, token.IsShared) :
    (tokens.map SourceToken.kind).countP (· ≠ .closing) = tokenCount tokens := by
  rw [List.countP_map, tokenCount]
  refine List.countP_congr fun token member => ?_
  simp only [Function.comp_apply, decide_eq_true_eq, ne_eq,
    (kind_eq_parenthesis_iff (shared token member)).2]

/-- A token that a text has for a constant is that constant in source too. -/
theorem exists_spells_const (shared : token.IsShared) {value : Bool}
    (kind : token.kind = .const value) :
    ∃ node, Spells 4 [token] node ∧ node.tree? .var = some (.const value) := by
  cases shared with
  | zero =>
    cases kind
    exact ⟨.const false, .integer rfl, rfl⟩
  | one =>
    cases kind
    exact ⟨.const true, .integer rfl, rfl⟩
  | mark listed =>
    rcases kind_mark_cases (.mark listed) with ⟨_, other⟩ | ⟨op, _, other⟩ <;>
      rw [other] at kind <;> cases kind
  | _ => cases kind

/-- A token that a text has for a variable stands for it in source too. -/
theorem exists_spells_var (shared : token.IsShared) {name : String} (kind : token.kind = .var name) :
    ∃ node, Spells 4 [token] node ∧ node.tree? .var = some (.var name) := by
  cases shared with
  | word identifier free =>
    cases kind
    exact ⟨.word name, .word free, rfl⟩
  | @string literal found value identifier =>
    refine ⟨.named literal, .named literal, ?_⟩
    rw [SourceToken.kind, value] at kind
    cases kind
    rw [tree?, value]
    rfl
  | mark listed =>
    rcases kind_mark_cases (.mark listed) with ⟨_, other⟩ | ⟨op, _, other⟩ <;>
      rw [other] at kind <;> cases kind
  | _ => cases kind

/-- A token that a text has for an operator is a mark for it. -/
theorem exists_mark_of_kind (shared : token.IsShared) {operator : Operator}
    (kind : token.kind = .op operator) :
    ∃ character, token = .mark character ∧
      (Negates character ∧ operator = .not ∨
        ∃ op, connective? character = some op ∧ operator = .binary op) := by
  cases shared with
  | mark listed =>
    refine ⟨_, rfl, ?_⟩
    rcases kind_mark_cases (.mark listed) with ⟨negates, other⟩ | ⟨op, mark, other⟩ <;>
      rw [other] at kind <;> cases kind
    · exact .inl ⟨negates, rfl⟩
    · exact .inr ⟨op, mark, rfl⟩
  | _ => cases kind

/-- No shared token is a prime. -/
theorem kind_ne_prime (shared : token.IsShared) : token.kind ≠ .prime := by
  cases shared with
  | mark listed =>
    rcases kind_mark_cases (.mark listed) with ⟨_, other⟩ | ⟨op, _, other⟩ <;> rw [other] <;>
      exact fun same => nomatch same
  | _ => exact fun same => nomatch same

end Kinds

/-! ### Operands apart -/

section Apart

variable {level depth : Nat} {kinds : List TokenKind} {expr : Expr}

/-- Two operands with nothing in between are not separated. -/
theorem not_separated_of_adjacent {lefts rights : List TokenKind} {left right : Expr}
    {leftLevel rightLevel leftDepth rightDepth : Nat} (first : Writes leftLevel lefts left leftDepth)
    (second : Writes rightLevel rights right rightDepth) : ¬ Separated (lefts ++ rights) := by
  intro separated
  obtain ⟨before, last, rfl, ends⟩ := first.exists_endsTerm
  obtain ⟨next, after, rfl, starts⟩ := second.exists_startsTerm
  obtain ⟨_, _, apart⟩ := List.isChain_append.mp separated
  exact apart last List.getLast?_concat next rfl ⟨ends, starts⟩

/-- A connective separates what stands before it from what stands after it. -/
theorem separated_connective_iff {lefts rights : List TokenKind} (op : Connective) :
    Separated (lefts ++ .op (.binary op) :: rights) ↔ Separated lefts ∧ Separated rights := by
  unfold Separated
  rw [List.isChain_append, List.isChain_cons]
  constructor
  · rintro ⟨before, ⟨_, after⟩, _⟩
    exact ⟨before, after⟩
  · rintro ⟨before, after⟩
    refine ⟨before, ⟨fun next _ both => (nomatch both.1), after⟩, fun last _ next here => ?_⟩
    cases here
    exact fun ⟨_, starts⟩ => nomatch starts

/-- A token that ends no operand may stand before anything. -/
theorem separated_cons_iff {first : TokenKind} (opens : first.endsTerm = false) :
    Separated (first :: kinds) ↔ Separated kinds := by
  unfold Separated
  rw [List.isChain_cons]
  refine and_iff_right fun next _ both => ?_
  rw [opens] at both
  exact nomatch both.1

/-- A closing parenthesis may stand after anything. -/
theorem separated_closing_iff : Separated (kinds ++ [.closing]) ↔ Separated kinds := by
  unfold Separated
  rw [List.isChain_append]
  refine ⟨And.left, fun before => ⟨before, .singleton _, fun last _ next here => ?_⟩⟩
  cases here
  exact fun ⟨_, starts⟩ => nomatch starts

end Apart

/-! ### The two grammars -/

section Grammars

variable {level depth : Nat} {tokens : List SourceToken} {node : Embedded} {expr : Expr}

/-- **What source spells is written in a text**, with the same tree. -/
theorem Embedded.Spells.writes (spells : Spells level tokens node)
    (shared : ∀ token ∈ tokens, token.IsShared) :
    ∃ expr depth, node.tree? .var = some expr ∧
      Writes level (tokens.map SourceToken.kind) expr depth ∧
        Separated (tokens.map SourceToken.kind) := by
  induction spells with
  | @word name => exact ⟨.var name, 0, rfl, .looser (by decide) (.var name), .singleton _⟩
  | named literal =>
    cases shared _ List.mem_cons_self with
    | @string _ name value =>
      refine ⟨.var name, 0, ?_, ?_, .singleton _⟩
      · rw [tree?, value]
        rfl
      · rw [List.map_singleton, SourceToken.kind, value]
        exact .looser (by decide) (.var name)
  | integer known =>
    cases shared _ List.mem_cons_self with
    | zero =>
      cases known
      exact ⟨.const false, 0, rfl, .looser (by decide) (.const false), .singleton _⟩
    | one =>
      cases known
      exact ⟨.const true, 0, rfl, .looser (by decide) (.const true), .singleton _⟩
  | enclosed bracket inner ih =>
    obtain ⟨_, others⟩ := List.forall_mem_cons.mp shared
    obtain ⟨expr, depth, tree, writes, separated⟩ := ih (List.forall_mem_append.mp others).1
    refine ⟨expr, depth + 1, tree, ?_, ?_⟩ <;> rw [List.map_cons, List.map_append]
    · exact .looser (by decide) writes.enclosed
    · exact (separated_cons_iff rfl).mpr (separated_closing_iff.mpr separated)
  | negated negates inner ih =>
    obtain ⟨_, others⟩ := List.forall_mem_cons.mp shared
    obtain ⟨expr, depth, tree, writes, separated⟩ := ih others
    refine ⟨.not expr, depth + 1, by rw [tree?, tree]; rfl, ?_, ?_⟩ <;>
      rw [List.map_cons, kind_of_negates negates]
    · exact writes.negated
    · exact (separated_cons_iff rfl).mpr separated
  | joined mark first second firstIh secondIh =>
    obtain ⟨lefts, others⟩ := List.forall_mem_append.mp shared
    obtain ⟨connective, rights⟩ := List.forall_mem_cons.mp others
    obtain ⟨left, leftDepth, leftTree, leftWrites, leftSeparated⟩ := firstIh lefts
    obtain ⟨right, rightDepth, rightTree, rightWrites, rightSeparated⟩ := secondIh rights
    refine ⟨.binary _ left right, max leftDepth rightDepth, by rw [tree?, leftTree, rightTree]; rfl,
      ?_, ?_⟩ <;> rw [List.map_append, List.map_cons, kind_of_connective? mark]
    · exact .joined _ leftWrites rightWrites
    · exact (separated_connective_iff _).mpr ⟨leftSeparated, rightSeparated⟩
  | looser positive tighter ih =>
    obtain ⟨expr, depth, tree, writes, separated⟩ := ih shared
    exact ⟨expr, depth, tree, .looser positive writes, separated⟩

/-- **What is written in a text with no operand right after another is spelled in source**, with the
same tree. -/
theorem Writes.spells {kinds : List TokenKind} (writes : Writes level kinds expr depth)
    (shared : ∀ token ∈ tokens, token.IsShared) (same : tokens.map SourceToken.kind = kinds)
    (separated : Separated kinds) :
    ∃ node, Spells (min level 4) tokens node ∧ node.tree? .var = some expr := by
  induction writes generalizing tokens with
  | const value =>
    obtain ⟨token, rfl, kind⟩ := List.map_eq_singleton_iff.mp same
    exact exists_spells_const (shared token List.mem_cons_self) kind
  | var name =>
    obtain ⟨token, rfl, kind⟩ := List.map_eq_singleton_iff.mp same
    exact exists_spells_var (shared token List.mem_cons_self) kind
  | enclosed inner ih =>
    obtain ⟨opening, others, rfl, openingKind, othersKinds⟩ := List.map_eq_cons_iff.mp same
    obtain ⟨group, last, rfl, groupKinds, lastKind⟩ := List.map_eq_append_iff.mp othersKinds
    obtain ⟨closing, rfl, closingKind⟩ := List.map_eq_singleton_iff.mp lastKind
    obtain ⟨openingShared, othersShared⟩ := List.forall_mem_cons.mp shared
    obtain ⟨groupShared, lastShared⟩ := List.forall_mem_append.mp othersShared
    have closingShared := lastShared closing List.mem_cons_self
    obtain rfl := (kind_eq_parenthesis_iff openingShared).1.mp openingKind
    obtain rfl := (kind_eq_parenthesis_iff closingShared).2.mp closingKind
    obtain ⟨node, spells, tree⟩ := ih groupShared groupKinds
      (separated_closing_iff.mp ((separated_cons_iff rfl).mp separated))
    exact ⟨node, .enclosed .round spells, tree⟩
  | primed inner ih =>
    obtain ⟨others, last, rfl, _, lastKind⟩ := List.map_eq_append_iff.mp same
    obtain ⟨mark, rfl, markKind⟩ := List.map_eq_singleton_iff.mp lastKind
    exact absurd markKind
      (kind_ne_prime (shared mark (List.mem_append_right _ List.mem_cons_self)))
  | negated inner ih =>
    obtain ⟨mark, others, rfl, markKind, othersKinds⟩ := List.map_eq_cons_iff.mp same
    obtain ⟨markShared, othersShared⟩ := List.forall_mem_cons.mp shared
    obtain ⟨character, rfl, ⟨negates, _⟩ | ⟨op, _, impossible⟩⟩ :=
      exists_mark_of_kind markShared markKind
    · obtain ⟨node, spells, tree⟩ :=
        ih othersShared othersKinds ((separated_cons_iff rfl).mp separated)
      exact ⟨.not node, .negated negates spells, by rw [tree?, tree]; rfl⟩
    · cases impossible
  | joined op first second firstIh secondIh =>
    obtain ⟨lefts, others, rfl, leftKinds, othersKinds⟩ := List.map_eq_append_iff.mp same
    obtain ⟨mark, rights, rfl, markKind, rightKinds⟩ := List.map_eq_cons_iff.mp othersKinds
    obtain ⟨leftShared, othersShared⟩ := List.forall_mem_append.mp shared
    obtain ⟨markShared, rightShared⟩ := List.forall_mem_cons.mp othersShared
    obtain ⟨leftSeparated, rightSeparated⟩ := (separated_connective_iff op).mp separated
    have low := op.precedence_le
    obtain ⟨character, rfl, ⟨_, impossible⟩ | ⟨other, joins, same⟩⟩ :=
      exists_mark_of_kind markShared markKind
    · cases impossible
    · cases same
      obtain ⟨left, leftSpells, leftTree⟩ := firstIh leftShared leftKinds leftSeparated
      obtain ⟨right, rightSpells, rightTree⟩ := secondIh rightShared rightKinds rightSeparated
      rw [Nat.min_eq_left (by omega)] at leftSpells rightSpells
      rw [Nat.min_eq_left (by omega)]
      exact ⟨.binary op left right, .joined joins leftSpells rightSpells,
        by rw [tree?, leftTree, rightTree]; rfl⟩
  | adjacent first second => exact absurd separated (not_separated_of_adjacent first second)
  | @looser level _ _ _ positive tighter ih =>
    obtain ⟨node, spells, tree⟩ := ih shared same separated
    exact ⟨node, spells.loosen (by omega) (by omega), tree⟩

end Grammars

/-! ### The text of shared tokens -/

section Texts

variable {token : SourceToken} {tokens : List SourceToken}

/-- A shared token is one token of a text that ends or goes on with a space after it. -/
theorem munch_written (shared : token.IsShared) {others : List Char}
    (apart : ∀ character ∈ others.head?, character = ' ') :
    ∃ first rest, token.written.toList = first :: rest ∧ Text.isBlank first = false ∧
      munch first (rest ++ others) = some (token.kind, rest, others) := by
  have bound : Boundary others := by
    intro character member
    rw [apart character member]
    rfl
  cases shared with
  | word identifier free => exact munch_name identifier.isName bound
  | string value identifier =>
    rw [SourceToken.written, SourceToken.kind, value]
    exact munch_name identifier.isName bound
  | mark listed =>
    refine ⟨_, [], String.toList_singleton _, ?_⟩
    -- only the head of what follows decides between a mark and a doubled one
    have alone : others = [] ∨ ∃ later, others = ' ' :: later := by
      cases others with
      | nil => exact .inl rfl
      | cons next later => exact .inr ⟨later, by rw [apart next rfl]⟩
    simp only [List.mem_cons, List.not_mem_nil, or_false] at listed
    rcases listed with rfl | rfl | rfl | rfl | rfl | rfl | rfl <;>
      rcases alone with rfl | ⟨later, rfl⟩ <;> exact ⟨by decide, rfl⟩
  | zero | one | opening | closing => exact ⟨_, [], rfl, by decide, rfl⟩

/-- What stands behind the first token of a text. -/
def behind : List SourceToken → List Char
  | [] => []
  | next :: later => ' ' :: (textOf (next :: later)).toList

theorem toList_textOf_cons (token : SourceToken) (others : List SourceToken) :
    (textOf (token :: others)).toList = token.written.toList ++ behind others := by
  unfold textOf
  cases others with
  | nil =>
    rw [List.map_singleton, String.intercalate_singleton, behind, List.append_nil]
  | cons next later =>
    rw [behind, textOf, String.toList_intercalate, String.toList_intercalate]
    simp only [List.map_cons, List.intercalate_cons_cons]
    exact List.append_assoc _ [' '] _

/-- **The text of shared tokens is read as these tokens.** -/
theorem tokenizeFrom_textOf (shared : ∀ token ∈ tokens, token.IsShared) (position : Nat) :
    ∃ read, tokenizeFrom position (textOf tokens).toList = .ok read ∧
      read.map Token.kind = tokens.map SourceToken.kind := by
  induction tokens generalizing position with
  | nil => exact ⟨[], tokenizeFrom.eq_1 position, rfl⟩
  | cons token others ih =>
    obtain ⟨here, later⟩ := List.forall_mem_cons.mp shared
    have apart : ∀ character ∈ (behind others).head?, character = ' ' := by
      cases others with
      | nil =>
        intro _ found
        cases found
      | cons => exact fun _ found => (Option.some.inj found).symm
    obtain ⟨first, rest, characters, solid, munched⟩ := munch_written here apart
    have next : ∀ place, ∃ read, tokenizeFrom place (behind others) = .ok read ∧
        read.map Token.kind = others.map SourceToken.kind := by
      intro place
      cases others with
      | nil => exact ⟨[], tokenizeFrom.eq_1 place, rfl⟩
      | cons =>
        obtain ⟨read, reads, kinds⟩ := ih later (place + 1)
        refine ⟨read, ?_, kinds⟩
        rw [behind, tokenizeFrom, if_pos (by decide), reads]
    obtain ⟨read, reads, kinds⟩ := next (position + 1 + rest.length)
    refine ⟨⟨token.kind, String.ofList (first :: rest), position⟩ :: read, ?_,
      congrArg (token.kind :: ·) kinds⟩
    rw [toList_textOf_cons, characters, List.cons_append, tokenizeFrom_cons position solid munched,
      reads]
    rfl

/-- **What a text of shared tokens is**: what the grammar writes with them within the limits. -/
theorem parse_textOf_eq_ok_iff (shared : ∀ token ∈ tokens, token.IsShared) {nesting : Nat}
    {expr : Expr} : Expr.parse nesting (textOf tokens) = .ok expr ↔
      WritesWithin nesting nesting 1 (tokens.map SourceToken.kind) expr := by
  obtain ⟨read, reads, kinds⟩ := tokenizeFrom_textOf shared 0
  rw [Expr.parse, tokenize, reads, ← kinds]
  exact ofTokens_eq_ok_iff

end Texts

/-! ### The agreement -/

/-- **Program source and texts are read alike.** Under a limit of at least the number of tokens, shared
tokens are an expression of source exactly if their text is one and no operand follows another one
directly. Where both are read, the expansion builds the tree of the text, with the variable of its
name held under each identifier. -/
theorem source_reads_as_text {tokens : List SourceToken} {limit : Nat}
    (shared : ∀ token ∈ tokens, token.IsShared) (enough : tokenCount tokens ≤ limit) :
    ((∃ node, Embedded.ofTokens tokens = .ok node) ↔
      (∃ expr, Expr.parse limit (textOf tokens) = .ok expr) ∧
        Separated (tokens.map SourceToken.kind)) ∧
    ∀ node expr, Embedded.ofTokens tokens = .ok node →
      Expr.parse limit (textOf tokens) = .ok expr →
        CallToken.value? .var node.expand = some expr := by
  have parses : ∀ {node}, Embedded.ofTokens tokens = .ok node →
      ∃ expr, Expr.parse limit (textOf tokens) = .ok expr ∧
        Separated (tokens.map SourceToken.kind) ∧ node.tree? .var = some expr := by
    intro node reads
    obtain ⟨expr, depth, tree, writes, separated⟩ :=
      (Embedded.ofTokens_eq_ok_iff.mp reads).writes shared
    obtain ⟨shallow, low⟩ := writes.bounds
    rw [countP_kind shared] at shallow low
    refine ⟨expr, (parse_textOf_eq_ok_iff shared).mpr ⟨depth, ?_, writes, ?_⟩, separated, tree⟩
    · exact Nat.le_trans (Nat.le_of_lt shallow) enough
    · exact Nat.le_trans (Nat.le_trans (Nat.le_of_lt low) enough) (Nat.le_max_right _ _)
  refine ⟨⟨?_, ?_⟩, ?_⟩
  · rintro ⟨node, reads⟩
    obtain ⟨expr, parse, separated, _⟩ := parses reads
    exact ⟨⟨expr, parse⟩, separated⟩
  · rintro ⟨⟨expr, parse⟩, separated⟩
    obtain ⟨depth, _, writes, _⟩ := (parse_textOf_eq_ok_iff shared).mp parse
    obtain ⟨node, spells, _⟩ := writes.spells shared rfl separated
    exact ⟨node, Embedded.ofTokens_eq_ok_iff.mpr spells⟩
  · intro node expr reads parse
    obtain ⟨other, otherParse, _, tree⟩ := parses reads
    rw [parse] at otherParse
    cases otherParse
    rw [value?_expand, tree]

/-- Shared tokens of every sort: `"a" * (!b | 1)`. -/
def mixedTokens : List SourceToken :=
  [.string "\"a\"", .mark '*', .opening .round, .mark '!', .word "b", .mark '|', .integer "1",
    .closing .round]

/-- The mixed tokens are an expression of source and of a text, with the same tree. -/
theorem source_reads_as_text_mixed :
    (∀ token ∈ mixedTokens, token.IsShared) ∧ tokenCount mixedTokens ≤ 7 ∧
      textOf mixedTokens = "a * ( ! b | 1 )" ∧
      ∃ node expr, Embedded.ofTokens mixedTokens = .ok node ∧
        Expr.parse 7 (textOf mixedTokens) = .ok expr ∧
        CallToken.value? .var node.expand = some expr := by
  have first : IsIdentifier "a" :=
    ⟨⟨'a', [], rfl, .inl rfl, fun _ member => nomatch member⟩, by decide⟩
  have second : IsIdentifier "b" :=
    ⟨⟨'b', [], rfl, .inl rfl, fun _ member => nomatch member⟩, by decide⟩
  have shared : ∀ token ∈ mixedTokens, token.IsShared := by
    simp only [mixedTokens, List.forall_mem_cons]
    exact ⟨.string rfl first, .mark (by decide), .opening, .mark (by decide),
      .word second (by decide), .mark (by decide), .one, .closing, List.forall_mem_nil _⟩
  have enough : tokenCount mixedTokens ≤ 7 := by decide
  obtain ⟨accepts, value⟩ := source_reads_as_text shared enough
  have reads : Embedded.ofTokens mixedTokens =
      .ok (.binary .and (.named "\"a\"") (.binary .or (.not (.word "b")) (.const true))) := by
    cbv
  obtain ⟨⟨expr, parse⟩, _⟩ := accepts.mp ⟨_, reads⟩
  exact ⟨shared, enough, by decide, _, expr, reads, parse, value _ _ reads parse⟩

/-- A letter that starts a word, and nothing else, is a source of one word. -/
theorem ofText?_letter (letter : Char) (starts : Text.isWordStart letter = true)
    (blank : blankLength? [letter] = none) (documentation : documentationLength? [letter] = none)
    (bracket : bracket? letter = none) (literal : literalLength? [letter] = none)
    (mark : mark? [letter] = none) (noMark : letter ≠ byteOrderMark) :
    SourceToken.ofText? (String.ofList [letter]) = some [.word (String.ofList [letter])] := by
  have longer (beginning : List Char) (long : 1 < beginning.length) :
      beginning.isPrefixOf [letter] = false :=
    Bool.eq_false_iff.mpr fun starting =>
      Nat.not_le_of_lt long (List.isPrefixOf_iff_prefix.mp starting).length_le
  have noLiteral : startsLiteral [letter] = false := by
    rw [startsLiteral, List.any_eq_false]
    intro beginning member starting
    rw [longer beginning ((by decide : ∀ known ∈ literalBeginnings, 1 < known.length) _ member)]
      at starting
    cases starting
  have word : wordLength? [letter] = some 1 := by
    have length : wordLength [letter] = 1 := by
      rw [wordLength, if_pos starts]
      rfl
    unfold wordLength?
    simp only [length]
    rfl
  have token : token? [letter] = some (.word (String.ofList [letter]), 1) := by
    unfold token?
    rw [longer faultyLiteral (by decide), literal, mark, noLiteral, word, List.head?_cons,
      Option.bind_some, bracket]
    rfl
  have scanned : scan [letter] = some [.word (String.ofList [letter])] := by
    simp [scan, piece?, blank, documentation, token]
  simp [SourceToken.ofText?, noMark, scanned, balanced]

/-- A word need not be of ASCII letters. -/
theorem ofText?_wider_word : SourceToken.ofText? "é" = some [.word "é"] :=
  ofText?_letter 'é' (by decide +kernel) rfl rfl rfl rfl rfl (by decide)

/-- **Identifiers beyond ASCII are not shared**: they are words of program source and expressions
there, but no text has them, under any limit. -/
theorem wider_word_is_no_text :
    SourceToken.ofText? "é" = some [.word "é"] ∧ "é" ∉ keywords ∧
      String.ofList ("é".toList.map Char.toUpper) ∉ ["AND", "OR", "NOT", "XOR", "NAND", "NOR"] ∧
      Embedded.ofTokens [.word "é"] = .ok (.word "é") ∧
      Separated ([SourceToken.word "é"].map SourceToken.kind) ∧
      ∀ limit expr, Expr.parse limit (textOf [.word "é"]) ≠ .ok expr := by
  have reads : Embedded.ofTokens [.word "é"] = .ok (.word "é") := by cbv
  refine ⟨ofText?_wider_word, by decide, by decide, reads, .singleton _, fun limit expr parse => ?_⟩
  have refused : tokenize (textOf [.word "é"]) = .error (.unrecognizedSymbol 'é' 0) := by cbv
  rw [Expr.parse, refused] at parse
  cases parse

end TwoLevel
