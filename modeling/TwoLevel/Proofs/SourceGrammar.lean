/-
**What is read from program source.**

The grammar of expressions inside program source as a relation between tokens and the expression
they spell, and the reader against it. The levels are the precedences: connectives from 1 to 3,
operands at 4. Unlike in a text no operand follows another one directly, nothing stands behind an
operand to negate it, and no limit is reached.

* `Spells` — tokens spell an expression at a level;
* `connectiveAt?_eq_some_iff` — the reader's marks of a level are those with its precedence;
* `readAt`, `continueAt` — the reader at a level, and what it does after an expression of that level;
* `Spells.read` — **completeness**: what the grammar spells is read, whatever follows;
* `soundAt_operand` — **soundness**: what is read has been spelled;
* `ofTokens_eq_ok_iff` — the reader accepts what the grammar spells.
-/

import TwoLevel.Embedded.Grammar
import TwoLevel.Proofs.Readings

namespace TwoLevel.Embedded

/-! ### The grammar -/

/-- Whether a mark negates the operand after it. -/
def Negates (character : Char) : Prop := character = '!' ∨ character = '~'

/-- The connective that a mark writes between two operands. -/
def connective? : Char → Option Connective
  | '+' | '|' => some .or
  | '^' => some .xor
  | '*' | '&' => some .and
  | _ => none

/-- The tokens spell the expression at a level of the grammar. -/
inductive Spells : (level : Nat) → List SourceToken → Embedded → Prop where
  | word {name : String} (free : name ∉ keywords) : Spells 4 [.word name] (.word name)
  | named (literal : String) : Spells 4 [.string literal] (.named literal)
  | integer {literal : String} {node : Embedded} (known : constant literal = .ok node) :
    Spells 4 [.integer literal] node
  | enclosed {tokens : List SourceToken} {node : Embedded} (bracket : Bracket)
    (inner : Spells 1 tokens node) :
    Spells 4 (.opening .round :: (tokens ++ [.closing bracket])) node
  | negated {character : Char} {tokens : List SourceToken} {node : Embedded}
    (negates : Negates character) (inner : Spells 4 tokens node) :
    Spells 4 (.mark character :: tokens) (.not node)
  | joined {character : Char} {op : Connective} {lefts rights : List SourceToken}
    {left right : Embedded} (mark : connective? character = some op)
    (first : Spells op.precedence lefts left) (second : Spells (op.precedence + 1) rights right) :
    Spells op.precedence (lefts ++ .mark character :: rights) (.binary op left right)
  | looser {level : Nat} {tokens : List SourceToken} {node : Embedded} (positive : 0 < level)
    (tighter : Spells (level + 1) tokens node) : Spells level tokens node

section Spelling

variable {level : Nat} {tokens : List SourceToken} {node : Embedded}

theorem Spells.level_le (spells : Spells level tokens node) : level ≤ 4 := by
  induction spells with
  | joined => exact Nat.le_trans (Connective.precedence_le _) (by decide)
  | looser _ _ ih => exact Nat.le_of_succ_le ih
  | _ => decide

/-- What is spelled at a level is spelled at every looser one. -/
theorem Spells.loosen {looser : Nat} (positive : 0 < looser) (below : looser ≤ level)
    (spells : Spells level tokens node) : Spells looser tokens node := by
  induction below with
  | refl => exact spells
  | step below ih => exact ih (.looser (Nat.lt_of_lt_of_le positive below) spells)

end Spelling

/-! ### The reader by levels -/

section Reading

variable {levels level : Nat} {tokens rest : List SourceToken} {node : Embedded}

/-- What reads expressions of a level. -/
def readAt (levels : Nat) : (level : Nat) → SourceReader
  | 1 => readTiers sourceTier (operand levels)
  | 2 => (sourceTier 2).chain ((sourceTier 3).chain (operand levels))
  | 3 => (sourceTier 3).chain (operand levels)
  | _ => operand levels

/-- What is read of the tokens after an expression of a level. -/
def continueAt (levels level : Nat) (node : Embedded) (tokens : List SourceToken) :
    Except EmbeddedError (Embedded × List SourceToken) :=
  match level with
  | 4 => .ok (node, tokens)
  | level => plain ((sourceTier level).chainFrom (readAt levels (level + 1)) node tokens)

/-- An expression of the level ends before the tokens: they start with no connective that binds
tighter. -/
def Ends (level : Nat) (tokens : List SourceToken) : Prop :=
  ∀ precedence, level < precedence → juncture? precedence tokens = none

theorem readAt_eq_chain (positive : 0 < level) (below : level < 4) :
    readAt levels level = (sourceTier level).chain (readAt levels (level + 1)) := by
  rcases level_cases positive below with rfl | rfl | rfl <;> rfl

theorem continueAt_eq_chainFrom (below : level < 4) :
    continueAt levels level node tokens =
      plain ((sourceTier level).chainFrom (readAt levels (level + 1)) node tokens) := by
  unfold continueAt
  split
  · exact absurd below (Nat.lt_irrefl 4)
  · rfl

/-- An expression that ends at a level is not gone on with at the next. -/
theorem continueAt_of_ends (below : level < 4) (ends : Ends level rest) :
    continueAt levels (level + 1) node rest = .ok (node, rest) := by
  by_cases connective : level < 3
  · rw [continueAt_eq_chainFrom (Nat.succ_lt_succ connective)]
    exact Tier.plain_chainFrom_of_none _ node (ends _ (Nat.lt_succ_self _))
  · obtain rfl : level = 3 := by omega
    rfl

/-! ### The operands by their first token -/

theorem plain_operand_named (literal : String) :
    plain (operand levels (.string literal :: rest)) = .ok (.named literal, rest) := by
  cases levels <;> rfl

theorem plain_operand_integer (literal : String) :
    plain (operand levels (.integer literal :: rest)) = (constant literal).map (·, rest) := by
  cases levels <;> rw [operand, operandWith] <;> cases constant literal <;> rfl

theorem plain_operand_word (name : String) :
    plain (operand levels (.word name :: rest)) =
      if name ∈ keywords then .error (.keyword name) else .ok (.word name, rest) := by
  have listed : keywords.contains name = true ↔ name ∈ keywords := List.contains_iff_mem
  cases levels <;> rw [operand, operandWith] <;> by_cases keyword : name ∈ keywords <;>
    simp only [listed, keyword, if_true, if_false] <;> rfl

theorem plain_operand_negation {character : Char} (negates : Negates character) :
    plain (operand (levels + 1) (.mark character :: rest)) =
      (plain (operand levels rest)).map fun read => (.not read.1, read.2) := by
  rcases negates with rfl | rfl <;> rw [operand, operandWith] <;>
    cases operand levels rest <;> rfl

/-- After the expression between parentheses, the closing one. -/
def closeGroup : Embedded × List SourceToken → Except EmbeddedError (Embedded × List SourceToken)
  | (node, .closing _ :: others) => .ok (node, others)
  | _ => .error .unexpectedTokenInGroup

theorem plain_operand_opening :
    plain (operand (levels + 1) (.opening .round :: rest)) =
      (plain (readAt levels 1 rest)).bind closeGroup := by
  rw [operand, operandWith, readAt]
  cases readTiers sourceTier (operand levels) rest with
  | error error => rfl
  | ok phrase =>
    obtain ⟨⟨node, others⟩, fewer⟩ := phrase
    cases others with
    | nil => rfl
    | cons close others => cases close <;> rfl

/-- How an operand has been read. -/
inductive ReadsOperand : (levels : Nat) → List SourceToken → Embedded → List SourceToken → Prop where
  | word {levels : Nat} {rest : List SourceToken} {name : String} (free : name ∉ keywords) :
    ReadsOperand levels (.word name :: rest) (.word name) rest
  | named {levels : Nat} {rest : List SourceToken} (literal : String) :
    ReadsOperand levels (.string literal :: rest) (.named literal) rest
  | integer {levels : Nat} {rest : List SourceToken} {literal : String} {node : Embedded}
    (known : constant literal = .ok node) : ReadsOperand levels (.integer literal :: rest) node rest
  | enclosed {levels : Nat} {tokens rest : List SourceToken} {node : Embedded} {bracket : Bracket}
    (inner : plain (readAt levels 1 tokens) = .ok (node, .closing bracket :: rest)) :
    ReadsOperand (levels + 1) (.opening .round :: tokens) node rest
  | negated {levels : Nat} {character : Char} {tokens rest : List SourceToken} {node : Embedded}
    (negates : Negates character) (inner : plain (operand levels tokens) = .ok (node, rest)) :
    ReadsOperand (levels + 1) (.mark character :: tokens) (.not node) rest

/-- What reads the operands one level deeper. -/
def deeper? : (levels : Nat) → Option SourceReader
  | 0 => none
  | levels + 1 => some (operand levels)

theorem operand_eq_operandWith (tokens : List SourceToken) :
    operand levels tokens = operandWith (deeper? levels) tokens := by
  cases levels <;> rw [operand, deeper?]

theorem exists_of_deeper?_eq_some {inner : SourceReader} (found : deeper? levels = some inner) :
    ∃ fewer, levels = fewer + 1 ∧ inner = operand fewer := by
  cases levels with
  | zero => cases found
  | succ fewer => exact ⟨fewer, rfl, (Option.some.inj found).symm⟩

theorem readsOperand_of_negation {character : Char} (negates : Negates character)
    (read : plain (operand (levels + 1) (.mark character :: tokens)) = .ok (node, rest)) :
    ReadsOperand (levels + 1) (.mark character :: tokens) node rest := by
  rw [plain_operand_negation negates] at read
  obtain ⟨⟨inner, left⟩, innerRead, same⟩ := map_eq_ok_iff.mp read
  cases same
  exact .negated negates innerRead

/-- An operand has been read in one of these ways. -/
theorem readsOperand_of_plain (read : plain (operand levels tokens) = .ok (node, rest)) :
    ReadsOperand levels tokens node rest := by
  cases tokens with
  | nil => cases levels <;> cases read
  | cons token others =>
    have ways := read
    rw [operand_eq_operandWith, operandWith.eq_def] at ways
    simp only at ways
    split at ways
    · cases ways
    · next literal =>
      rw [plain_operand_named] at read
      cases read
      exact .named literal
    · next literal =>
      rw [plain_operand_integer] at read
      obtain ⟨value, known, same⟩ := map_eq_ok_iff.mp read
      cases same
      exact .integer known
    · next name =>
      rw [plain_operand_word] at read
      split at read
      · cases read
      · next free =>
        cases read
        exact .word free
    · next found =>
      obtain ⟨fewer, rfl, _⟩ := exists_of_deeper?_eq_some found
      rw [plain_operand_opening, bind_eq_ok_iff] at read
      obtain ⟨⟨inner, left⟩, innerRead, closes⟩ := read
      unfold closeGroup at closes
      split at closes
      · next same =>
        cases same
        cases closes
        exact .enclosed innerRead
      · cases closes
    · next found =>
      obtain ⟨fewer, rfl, _⟩ := exists_of_deeper?_eq_some found
      exact readsOperand_of_negation (.inl rfl) read
    · next found =>
      obtain ⟨fewer, rfl, _⟩ := exists_of_deeper?_eq_some found
      exact readsOperand_of_negation (.inr rfl) read
    · split at ways <;> cases ways
    · cases ways

end Reading

/-! ### Completeness -/

section Complete

variable {levels level : Nat} {tokens rest others : List SourceToken} {node left right : Embedded}

/-- **The marks of a level** are those of the connectives with its precedence. -/
theorem connectiveAt?_eq_some_iff {character : Char} {op : Connective} :
    connectiveAt? level character = some op ↔
      connective? character = some op ∧ op.precedence = level := by
  constructor
  · intro found
    unfold connectiveAt? at found
    split at found <;> cases found <;> exact ⟨rfl, rfl⟩
  · rintro ⟨mark, rfl⟩
    unfold connective? at mark
    split at mark <;> cases mark <;> rfl

theorem juncture?_mark {character : Char} {op : Connective} (mark : connective? character = some op)
    (level : Nat) : juncture? level (.mark character :: rest) =
      if op.precedence = level then some (op, rest) else none := by
  rw [juncture?]
  split
  · next same => rw [connectiveAt?_eq_some_iff.mpr ⟨mark, same⟩, Option.map_some]
  · next other =>
    rw [Option.map_eq_none_iff, Option.eq_none_iff_forall_ne_some]
    intro found here
    obtain ⟨known, same⟩ := connectiveAt?_eq_some_iff.mp here
    exact other (Option.some.inj (mark.symm.trans known) ▸ same)

theorem ends_nil : Ends level [] := fun _ _ => rfl

/-- A closing bracket ends an expression of every level. -/
theorem ends_closing (bracket : Bracket) : Ends level (.closing bracket :: rest) := fun _ _ => rfl

/-- A connective ends the expressions of its level and of all tighter ones. -/
theorem ends_mark {character : Char} {op : Connective} (mark : connective? character = some op) :
    Ends op.precedence (.mark character :: rest) := by
  intro precedence tighter
  rw [juncture?_mark mark]
  exact if_neg (Nat.ne_of_lt tighter)

/-- One more operand of a chain is read and joined. -/
theorem continueAt_of_mark {character : Char} {op : Connective}
    (mark : connective? character = some op)
    (next : plain (readAt levels (op.precedence + 1) others) =
      continueAt levels (op.precedence + 1) right rest) (ends : Ends op.precedence rest) :
    continueAt levels op.precedence left (.mark character :: others) =
      continueAt levels op.precedence (.binary op left right) rest := by
  have connective : op.precedence < 4 := Nat.lt_succ_of_le op.precedence_le
  have found : (sourceTier op.precedence).juncture? (.mark character :: others) =
      some (op, others) := (juncture?_mark mark _).trans (if_pos rfl)
  rw [continueAt_of_ends connective ends] at next
  rw [continueAt_eq_chainFrom connective, continueAt_eq_chainFrom connective,
    Tier.plain_chainFrom_of_some _ _ found, next]
  rfl

/-- **Completeness of the reader.** What the grammar spells at a level is read, and whatever comes
next is gone on with, if there are as many levels of nesting as tokens. -/
theorem Spells.read (spells : Spells level tokens node) (within : tokens.length ≤ levels)
    (ends : Ends level rest) :
    plain (readAt levels level (tokens ++ rest)) = continueAt levels level node rest := by
  induction spells generalizing levels rest with
  | word free => exact (plain_operand_word _).trans (if_neg free)
  | named literal => exact plain_operand_named literal
  | integer known =>
    refine (plain_operand_integer _).trans ?_
    rw [known]
    rfl
  | enclosed bracket inner ih =>
    obtain ⟨levels, rfl⟩ := Nat.exists_eq_add_of_le' (Nat.le_trans (Nat.le_add_left 1 _) within)
    rw [List.length_cons, List.length_append] at within
    show plain (operand (levels + 1) (.opening .round :: (_ ++ [.closing bracket] ++ rest))) = _
    rw [plain_operand_opening, List.append_assoc, List.singleton_append,
      ih (by omega) (ends_closing bracket), continueAt_eq_chainFrom (by decide),
      Tier.plain_chainFrom_of_none _ _ rfl]
    rfl
  | @negated _ tokens node negates inner ih =>
    obtain ⟨levels, rfl⟩ := Nat.exists_eq_add_of_le' (Nat.le_trans (Nat.le_add_left 1 _) within)
    have read : plain (operand levels (tokens ++ rest)) = .ok (node, rest) :=
      ih (Nat.le_of_succ_le_succ within) ends
    show plain (operand (levels + 1) (.mark _ :: (tokens ++ rest))) = _
    rw [plain_operand_negation negates, read]
    rfl
  | joined mark first second firstIh secondIh =>
    rw [List.length_append, List.length_cons] at within
    rw [List.append_assoc, List.cons_append, firstIh (by omega) (ends_mark mark)]
    exact continueAt_of_mark mark
      (secondIh (by omega) fun precedence above => ends precedence (Nat.lt_of_succ_lt above)) ends
  | looser positive tighter ih =>
    have connective := tighter.level_le
    rw [readAt_eq_chain positive connective, Tier.plain_chain,
      ih within fun precedence above => ends precedence (Nat.lt_of_succ_lt above),
      continueAt_of_ends connective ends, continueAt_eq_chainFrom connective]
    rfl

end Complete

/-! ### Soundness -/

section Sound

variable {levels level : Nat} {tokens rest : List SourceToken}

/-- Whatever is read at a level has been spelled at the level. -/
def SoundAt (levels level : Nat) : Prop :=
  ∀ tokens node rest, plain (readAt levels level tokens) = .ok (node, rest) →
    ∃ consumed, tokens = consumed ++ rest ∧ Spells level consumed node

/-- A juncture is a mark for a connective of the level. -/
theorem exists_mark_of_juncture? {op : Connective}
    (found : juncture? level tokens = some (op, rest)) :
    ∃ character, tokens = .mark character :: rest ∧ connective? character = some op ∧
      op.precedence = level := by
  unfold juncture? at found
  split at found
  · next character others =>
    obtain ⟨known, here, same⟩ := Option.map_eq_some_iff.mp found
    cases same
    exact ⟨character, rfl, connectiveAt?_eq_some_iff.mp here⟩
  · cases found

/-- A chain is read soundly if its operands are. -/
theorem soundAt_chain (positive : 0 < level) (below : level < 4)
    (sound : SoundAt levels (level + 1)) : SoundAt levels level := by
  unfold SoundAt
  rw [readAt_eq_chain positive below]
  refine Tier.readsSoundly_chain sound (fun _ _ spells => .looser positive spells) ?_
  intro tokens others op found
  obtain ⟨character, rfl, mark, rfl⟩ := exists_mark_of_juncture? found
  refine ⟨[.mark character], rfl, fun lefts rights left right joined first second joins => ?_⟩
  cases joins
  exact .joined mark first second

/-- An expression of a level with operands that are read soundly is read soundly. -/
theorem soundAt_of_operands (sound : SoundAt levels 4) : SoundAt levels 1 :=
  soundAt_chain (by decide) (by decide)
    (soundAt_chain (by decide) (by decide) (soundAt_chain (by decide) (by decide) sound))

/-- **Soundness of the reader**: an operand that is read has been spelled. By induction on the levels
of nesting that are left. -/
theorem soundAt_operand (levels : Nat) : SoundAt levels 4 := by
  induction levels with
  | zero =>
    intro tokens node rest read
    cases readsOperand_of_plain read with
    | word free => exact ⟨_, rfl, .word free⟩
    | named literal => exact ⟨_, rfl, .named literal⟩
    | integer known => exact ⟨_, rfl, .integer known⟩
  | succ levels ih =>
    intro tokens node rest read
    cases readsOperand_of_plain read with
    | word free => exact ⟨_, rfl, .word free⟩
    | named literal => exact ⟨_, rfl, .named literal⟩
    | integer known => exact ⟨_, rfl, .integer known⟩
    | @enclosed _ _ _ _ bracket inner =>
      obtain ⟨consumed, rfl, spells⟩ := soundAt_of_operands ih _ _ _ inner
      exact ⟨_, by simp, spells.enclosed bracket⟩
    | negated negates inner =>
      obtain ⟨consumed, rfl, spells⟩ := ih _ _ _ inner
      exact ⟨_, rfl, spells.negated negates⟩

end Sound

/-! ### Whole sources -/

/-- The expression that has been read, if no tokens are left. -/
def wholeExpression : Embedded × List SourceToken → Except EmbeddedError Embedded
  | (node, []) => .ok node
  | _ => .error .unexpectedToken

theorem ofTokens_eq_bind (tokens : List SourceToken) :
    ofTokens tokens = (plain (readAt tokens.length 1 tokens)).bind wholeExpression := by
  rw [ofTokens, readAt]
  cases readTiers sourceTier (operand tokens.length) tokens with
  | error error => rfl
  | ok phrase =>
    obtain ⟨⟨node, rest⟩, fewer⟩ := phrase
    cases rest <;> rfl

/-- **What the reader accepts**: the tokens that spell an expression, and only those. -/
theorem ofTokens_eq_ok_iff {tokens : List SourceToken} {node : Embedded} :
    ofTokens tokens = .ok node ↔ Spells 1 tokens node := by
  rw [ofTokens_eq_bind]
  constructor
  · intro read
    obtain ⟨⟨found, rest⟩, read, whole⟩ := bind_eq_ok_iff.mp read
    obtain ⟨consumed, same, spells⟩ := soundAt_of_operands (soundAt_operand _) _ _ _ read
    cases rest with
    | nil =>
      cases whole
      rwa [same, List.append_nil]
    | cons => cases whole
  · intro spells
    have read := spells.read (Nat.le_refl _) ends_nil
    rw [List.append_nil, continueAt_eq_chainFrom (by decide),
      Tier.plain_chainFrom_of_none _ _ rfl] at read
    rw [read]
    rfl

end TwoLevel.Embedded
