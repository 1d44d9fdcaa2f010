/-
**What is printed is read back.**

A printed tree is a list of tokens again: parentheses stand where the grammar needs them, so that
the tokens write the tree, and names, symbols and marks are told apart wherever they meet.

* `Expr.kinds`, `Expr.depth` — the kinds of the tokens of a printed tree, and how deep they nest;
* `Expr.writes_kinds` — they write the tree at its precedence;
* `IsName` — what the tokenizer takes for a name, and all it makes a variable of;
* `Lexes` — the characters are those tokens, whatever follows them but more of a name;
* `parse_render` — **the round trip**: within the limits, the text of a tree is read as the tree.
-/

import TwoLevel.Expr.Rendering
import TwoLevel.Proofs.Lexemes
import TwoLevel.Proofs.Readings

namespace TwoLevel

open Text

/-! ### The tokens of a printed tree -/

namespace Expr

/-- Put tokens between parentheses where asked. -/
def encloseKinds (parentheses : Bool) (kinds : List TokenKind) : List TokenKind :=
  if parentheses then .opening :: (kinds ++ [.closing]) else kinds

/-- The kinds of the tokens of the written form. -/
def kinds : Expr → List TokenKind
  | const value => [.const value]
  | var name => [.var name]
  | not operand =>
    .op .not :: encloseKinds (operand.precedence < notPrecedence) operand.kinds
  | binary op left right =>
    encloseKinds (left.precedence < op.precedence) left.kinds ++
      .op (.binary op) :: encloseKinds (right.precedence ≤ op.precedence) right.kinds

/-- How deep parentheses and leading NOTs nest in the written form. -/
def depth : Expr → Nat
  | const _ | var _ => 0
  | not operand => operand.depth + (decide (operand.precedence < notPrecedence)).toNat + 1
  | binary op left right =>
    max (left.depth + (decide (left.precedence < op.precedence)).toNat)
      (right.depth + (decide (right.precedence ≤ op.precedence)).toNat)

/-- Parentheses and NOTs nest at most twice as deep as the tree is high. -/
theorem depth_le (expr : Expr) : expr.depth ≤ 2 * expr.height := by
  induction expr with
  | const | var => exact Nat.le_refl _
  | not operand ih =>
    rw [depth, height]
    have pair := Bool.toNat_le (decide (operand.precedence < notPrecedence))
    omega
  | binary op left right leftIh rightIh =>
    rw [depth, height]
    have leftPair := Bool.toNat_le (decide (left.precedence < op.precedence))
    have rightPair := Bool.toNat_le (decide (right.precedence ≤ op.precedence))
    omega

end Expr

/-- A tree is written at any level, between parentheses where it would be too loose. -/
theorem Writes.enclose {level precedence depth : Nat} {kinds : List TokenKind} {expr : Expr}
    {parentheses : Bool} (writes : Writes precedence kinds expr depth) (positive : 0 < level)
    (below : level ≤ 5) (tight : parentheses = false → level ≤ precedence) :
    Writes level (Expr.encloseKinds parentheses kinds) expr (depth + parentheses.toNat) := by
  cases parentheses with
  | false => exact writes.loosen positive (tight rfl)
  | true =>
    have loosest : Writes 1 kinds expr depth := writes.loosen (by decide) writes.level_pos
    exact loosest.enclosed.loosen positive below

/-- **The tokens of a printed tree write the tree** at its precedence. -/
theorem Expr.writes_kinds (expr : Expr) : Writes expr.precedence expr.kinds expr expr.depth := by
  induction expr with
  | const value => exact .const value
  | var name => exact .var name
  | not operand ih =>
    refine .negated (ih.enclose (by decide) (by decide) fun tight => ?_)
    exact Nat.le_of_not_lt (of_decide_eq_false tight)
  | binary op left right leftIh rightIh =>
    have small := op.precedence_le
    refine .joined op (leftIh.enclose op.precedence_pos (by omega) fun tight => ?_)
      (rightIh.enclose (Nat.succ_pos _) (by omega) fun tight => ?_)
    · exact Nat.le_of_not_lt (of_decide_eq_false tight)
    · exact Nat.lt_of_not_le (of_decide_eq_false tight)

/-! ### Names -/

/-- What the tokenizer makes a variable of: a word of letters, digits and underscores that starts
with no digit and is no keyword. -/
structure IsName (name : String) : Prop where
  exists_cons : ∃ first rest, name.toList = first :: rest ∧ isNameStart first = true ∧
    ∀ character ∈ rest, isNameRest character = true
  ofKeyword?_eq : Operator.ofKeyword? name.toList = none

/-! ### From characters to tokens -/

/-- A name that nothing goes on with is one token, a variable. -/
theorem munch_name {name : String} (isName : IsName name) {others : List Char}
    (bound : Boundary others) :
    ∃ first rest, name.toList = first :: rest ∧ isBlank first = false ∧
      munch first (rest ++ others) = some (.var name, rest, others) := by
  obtain ⟨⟨first, rest, characters, starts, continues⟩, word⟩ := isName
  refine ⟨first, rest, characters, isBlank_of_isNameStart starts, ?_⟩
  have kind : wordKind (first :: rest) = .var name := by
    rw [wordKind, ← characters, word]
    simp
  rw [munch_of_isNameStart starts, takeWhile_append_of_head? continues bound,
    dropWhile_append_of_head? continues bound, kind]

/-- The characters are tokens of the kinds, whatever follows them but more of a name. -/
def Lexes (characters : List Char) (kinds : List TokenKind) : Prop :=
  ∀ position rest, Boundary rest → ∃ tokens after, tokens.map Token.kind = kinds ∧
    tokenizeFrom position (characters ++ rest) = (tokenizeFrom after rest).map (tokens ++ ·)

namespace Lexes

variable {characters later : List Char} {kinds laterKinds : List TokenKind}

theorem append (lexes : Lexes characters kinds) (bound : Boundary later)
    (laterLexes : Lexes later laterKinds) : Lexes (characters ++ later) (kinds ++ laterKinds) := by
  intro position rest restBound
  obtain ⟨tokens, middle, same, firstRead⟩ := lexes position (later ++ rest) (bound.append restBound)
  obtain ⟨laterTokens, after, laterSame, laterRead⟩ := laterLexes middle rest restBound
  refine ⟨tokens ++ laterTokens, after, by rw [List.map_append, same, laterSame], ?_⟩
  rw [List.append_assoc, firstRead, laterRead]
  cases tokenizeFrom after rest with
  | error error => rfl
  | ok others => exact congrArg Except.ok (List.append_assoc _ _ _).symm

/-- A blank is skipped. -/
theorem blank (laterLexes : Lexes later laterKinds) : Lexes (' ' :: later) laterKinds := by
  intro position rest bound
  obtain ⟨tokens, after, same, read⟩ := laterLexes (position + 1) rest bound
  refine ⟨tokens, after, same, ?_⟩
  rw [List.cons_append, tokenizeFrom, if_pos (by decide), read]

/-- A character that is a token by itself, whatever follows. -/
theorem cons {first : Char} {kind : TokenKind} (solid : isBlank first = false)
    (read : ∀ rest, munch first rest = some (kind, [], rest))
    (laterLexes : Lexes later laterKinds) : Lexes (first :: later) (kind :: laterKinds) := by
  intro position rest bound
  obtain ⟨tokens, after, same, laterRead⟩ := laterLexes (position + 1) rest bound
  refine ⟨⟨kind, String.ofList [first], position⟩ :: tokens, after, congrArg _ same, ?_⟩
  rw [List.cons_append, tokenizeFrom_cons position solid (read _)]
  show (tokenizeFrom (position + 1) (later ++ rest)).map _ = _
  rw [laterRead]
  cases tokenizeFrom after rest <;> rfl

theorem nil : Lexes [] [] := by
  intro position rest _
  refine ⟨[], position, rfl, ?_⟩
  show tokenizeFrom position rest = _
  cases tokenizeFrom position rest <;> rfl

/-- A name is a variable. -/
theorem name {name : String} (isName : IsName name) : Lexes name.toList [.var name] := by
  intro position others bound
  obtain ⟨first, rest, characters, solid, read⟩ := munch_name isName bound
  refine ⟨[⟨.var name, String.ofList (first :: rest), position⟩], position + 1 + rest.length, rfl, ?_⟩
  rw [characters, List.cons_append, tokenizeFrom_cons position solid read]
  rfl

theorem enclose {text : String} (parentheses : Bool) (lexes : Lexes text.toList kinds) :
    Lexes (Expr.enclose parentheses text).toList (Expr.encloseKinds parentheses kinds) := by
  cases parentheses with
  | false => exact lexes
  | true =>
    have close : Lexes [')'] [.closing] := cons rfl (fun _ => rfl) nil
    have bound : Boundary [')'] := by
      intro character member
      cases member
      rfl
    show Lexes ("(" ++ text ++ ")").toList (.opening :: (kinds ++ [.closing]))
    rw [String.toList_append, String.toList_append]
    exact cons rfl (fun _ => rfl) (lexes.append bound close)

end Lexes

/-- A printed connective is one token. -/
theorem munch_symbol (op : Connective) (rest : List Char) :
    munch op.symbol rest = some (.op (.binary op), [], rest) := by
  cases op <;> rfl

/-- **The characters of a printed tree are its tokens**, if its variables are names. -/
theorem Expr.lexes_render (expr : Expr) (named : ∀ name ∈ expr.leaves, IsName name) :
    Lexes expr.render.toList expr.kinds := by
  induction expr with
  | const value =>
    cases value <;> exact .cons rfl (fun _ => rfl) .nil
  | var name => exact .name (named name (List.mem_singleton.mpr rfl))
  | not operand ih =>
    rw [render, String.toList_append]
    exact .cons rfl (fun _ => rfl) ((ih named).enclose _)
  | binary op left right leftIh rightIh =>
    have first := leftIh fun name member => named name (List.mem_append_left _ member)
    have second := rightIh fun name member => named name (List.mem_append_right _ member)
    have solid : isBlank op.symbol = false := by cases op <;> decide
    have symbol : Lexes (' ' :: op.symbol :: ' ' :: _) _ :=
      .blank (.cons solid (munch_symbol op) (.blank (second.enclose (right.precedence ≤ op.precedence))))
    have bound : ∀ later, Boundary (' ' :: later) := by
      intro later character member
      cases member
      rfl
    simp only [render, String.toList_append, String.toList_singleton, List.append_assoc]
    exact (first.enclose _).append (bound _) symbol

/-- A text of tokens of the kinds is read as them. -/
theorem Lexes.tokenize {text : String} {kinds : List TokenKind} (lexes : Lexes text.toList kinds) :
    ∃ tokens, TwoLevel.tokenize text = .ok tokens ∧ tokens.map Token.kind = kinds := by
  obtain ⟨tokens, after, same, read⟩ := lexes 0 [] (fun _ found => nomatch found)
  refine ⟨tokens, ?_, same⟩
  rw [List.append_nil] at read
  rw [TwoLevel.tokenize, read, tokenizeFrom]
  exact congrArg Except.ok (List.append_nil tokens)

/-- The text of a tree whose variables are names is read as its tokens. -/
theorem tokenize_render (expr : Expr) (named : ∀ name ∈ expr.leaves, IsName name) :
    ∃ tokens, tokenize expr.render = .ok tokens ∧ tokens.map Token.kind = expr.kinds :=
  (expr.lexes_render named).tokenize

/-- **The round trip.** Within the limits, the text of a tree whose variables are names is read as
the tree. -/
theorem parse_render {nesting : Nat} {expr : Expr} (named : ∀ name ∈ expr.leaves, IsName name)
    (shallow : expr.depth ≤ nesting) (low : expr.height ≤ heightLimit nesting) :
    Expr.parse nesting expr.render = .ok expr := by
  obtain ⟨tokens, read, same⟩ := tokenize_render expr named
  rw [Expr.parse, read]
  refine ofTokens_eq_ok_iff.mpr ⟨expr.depth, shallow, ?_, low⟩
  rw [same]
  exact expr.writes_kinds.loosen (by decide) expr.writes_kinds.level_pos

/-! ### The names of a tree that has been read -/

/-- The variables of a tree stand in the tokens that write it. -/
theorem Writes.mem_of_mem_leaves {level depth : Nat} {kinds : List TokenKind} {expr : Expr}
    (writes : Writes level kinds expr depth) {name : String} (member : name ∈ expr.leaves) :
    .var name ∈ kinds := by
  induction writes with
  | const => cases member
  | var other =>
    rw [List.mem_singleton.mp member]
    exact List.mem_singleton.mpr rfl
  | enclosed _ ih => exact List.mem_cons_of_mem _ (List.mem_append_left _ (ih member))
  | primed _ ih => exact List.mem_append_left _ (ih member)
  | negated _ ih => exact List.mem_cons_of_mem _ (ih member)
  | joined _ _ _ leftIh rightIh =>
    rcases List.mem_append.mp member with left | right
    · exact List.mem_append_left _ (leftIh left)
    · exact List.mem_append_right _ (List.mem_cons_of_mem _ (rightIh right))
  | adjacent _ _ leftIh rightIh =>
    rcases List.mem_append.mp member with left | right
    · exact List.mem_append_left _ (leftIh left)
    · exact List.mem_append_right _ (rightIh right)
  | looser _ _ ih => exact ih member

theorem isName_of_wordKind {first : Char} {rest : List Char} {name : String}
    (starts : isNameStart first = true) (continues : ∀ character ∈ rest, isNameRest character = true)
    (word : wordKind (first :: rest) = .var name) : IsName name := by
  rw [wordKind] at word
  split at word
  · cases word
  · next none =>
    cases word
    exact ⟨⟨first, rest, String.toList_ofList, starts, continues⟩, by rwa [String.toList_ofList]⟩

/-- What the tokenizer makes a variable of is a name. -/
theorem IsLexeme.isName {first : Char} {tail : List Char} {kind : TokenKind} {name : String}
    (lexeme : IsLexeme first tail kind) (isVar : kind = .var name) : IsName name := by
  cases lexeme with
  | mark marks =>
    subst isVar
    unfold markKind? at marks
    split at marks <;> cases marks
  | word starts continues => exact isName_of_wordKind starts continues isVar
  | doubled | symbol => cases isVar

theorem isName_of_tokenizeFrom {position : Nat} {characters : List Char} {tokens : List Token}
    (read : tokenizeFrom position characters = .ok tokens) {token : Token} (member : token ∈ tokens)
    {name : String} (kind : token.kind = .var name) : IsName name := by
  revert token
  refine tokenizeFrom_ok_induction
    (motive := fun _ _ tokens => ∀ {token : Token}, token ∈ tokens → token.kind = .var name →
      IsName name) ?_ ?_ ?_ read
  · intro position token member
    cases member
  · intro position first rest tokens white ih
    exact ih
  · intro position first tail kind others tokens lexeme stops ih token member isVar
    rcases List.mem_cons.mp member with rfl | later
    · exact lexeme.isName isVar
    · exact ih later isVar

/-- **The variables of a tree that has been read are names.** -/
theorem isName_of_parse {nesting : Nat} {text : String} {expr : Expr}
    (read : Expr.parse nesting text = .ok expr) : ∀ name ∈ expr.leaves, IsName name := by
  intro name member
  obtain ⟨tokens, tokenized, read⟩ := bind_eq_ok_iff.mp read
  obtain ⟨_, _, writes, _⟩ := ofTokens_eq_ok_iff.mp read
  obtain ⟨token, found, kind⟩ := List.mem_map.mp (writes.mem_of_mem_leaves member)
  exact isName_of_tokenizeFrom tokenized found kind

end TwoLevel
