/-
**The lexemes of a text.**

A token is read from its first character on, as far as its rule goes. Four rules make lexemes: single
marks, words, doubled symbols and single symbols; the first character decides which of them applies,
and what follows a lexeme only has to keep a word from going on and a single symbol from being
doubled. So a lexeme is read alike wherever it stands.

* `IsLexeme`, `Stops` — the characters of a token, and what may follow them;
* `munch_eq_some_iff` — **what is read at the head of a text**;
* `munch_eq_none_iff` — at which characters nothing is read, whatever follows;
* `tokenizeFrom_induction`, `tokenizeFrom_ok_induction` — **induction along a text**: blanks, lexemes,
  and the first character that starts none;
* `tokenizeFrom_append` — **a blank separates**: what is before it and what is from it on are read
  apart;
* `exists_tokenizeFrom_at` — the place where a text stands makes no difference to the kinds of its
  tokens.
-/

import TwoLevel.Proofs.Chains
import TwoLevel.Proofs.Stretches
import TwoLevel.Token.Reading

namespace TwoLevel

open Text

/-! ### Where a name ends -/

/-- The characters do not go on with a name. -/
def Boundary (characters : List Char) : Prop :=
  ∀ character ∈ characters.head?, isNameRest character = false

theorem Boundary.append {first second : List Char} (firstBound : Boundary first)
    (secondBound : Boundary second) : Boundary (first ++ second) := by
  cases first with
  | nil => exact secondBound
  | cons character rest => exact firstBound

/-! ### Sorts of characters -/

/-- Letters, digits and underscores are no blanks. -/
theorem isBlank_of_isNameRest {character : Char} (continues : isNameRest character = true) :
    isBlank character = false := by
  unfold isNameRest Char.isAlphanum Char.isAlpha at continues
  simp only [Bool.or_eq_true, beq_iff_eq] at continues
  have code : 48 ≤ character.toNat ∧ character.toNat ≤ 122 := by
    rcases continues with ((upper | lower) | digit) | rfl
    · have range := of_decide_eq_true upper
      exact ⟨Nat.le_trans (by decide) range.1, Nat.le_trans range.2 (by decide)⟩
    · have range := Bool.and_eq_true_iff.mp lower
      exact ⟨Nat.le_trans (by decide) (of_decide_eq_true range.1), of_decide_eq_true range.2⟩
    · have range := Bool.and_eq_true_iff.mp digit
      exact ⟨of_decide_eq_true range.1, Nat.le_trans (of_decide_eq_true range.2) (by decide)⟩
    · decide
  rw [isBlank, inRanges, List.any_eq_false]
  intro range member
  simp only [blankRanges, List.mem_cons, List.not_mem_nil, or_false] at member
  rcases member with rfl | rfl | rfl | rfl | rfl | rfl | rfl | rfl | rfl | rfl <;>
    simp only [decide_eq_true_eq] <;> omega

theorem isNameRest_of_isNameStart {character : Char} (starts : isNameStart character = true) :
    isNameRest character = true := by
  unfold isNameStart at starts
  unfold isNameRest Char.isAlphanum
  rw [Bool.or_eq_true] at starts ⊢
  exact starts.imp_left fun letter => Bool.or_eq_true_iff.mpr (.inl letter)

/-- A character that starts a name is no blank and no mark. -/
theorem isBlank_of_isNameStart {character : Char} (starts : isNameStart character = true) :
    isBlank character = false :=
  isBlank_of_isNameRest (isNameRest_of_isNameStart starts)

theorem markKind?_of_isNameStart {character : Char} (starts : isNameStart character = true) :
    markKind? character = none := by
  unfold markKind?
  split
  all_goals first | rfl | exact absurd starts (by decide)

/-- A mark starts no name, is no blank and cannot be doubled. -/
theorem apart_of_markKind? {character : Char} {kind : TokenKind}
    (marks : markKind? character = some kind) :
    isNameStart character = false ∧ isBlank character = false ∧
      Operator.ofDoubled? character = none := by
  unfold markKind? at marks
  split at marks <;> first | exact ⟨rfl, rfl, rfl⟩ | cases marks

/-- A symbol is no mark, starts no name and is no blank. -/
theorem apart_of_ofSymbol? {character : Char} {operator : Operator}
    (writes : Operator.ofSymbol? character = some operator) :
    markKind? character = none ∧ isNameStart character = false ∧ isBlank character = false := by
  have listed : character ∈ operator.symbols := by
    unfold Operator.ofSymbol? at writes
    have found := List.find?_some writes
    exact List.contains_iff_mem.mp found
  rcases operator with _ | op
  · simp only [Operator.symbols, List.mem_cons, List.not_mem_nil, or_false] at listed
    rcases listed with rfl | rfl | rfl <;> exact ⟨rfl, rfl, rfl⟩
  · cases op with
    | and =>
      simp only [Operator.symbols, List.mem_cons, List.not_mem_nil, or_false] at listed
      rcases listed with rfl | rfl | rfl | rfl | rfl <;> exact ⟨rfl, rfl, rfl⟩
    | or | xor =>
      simp only [Operator.symbols, List.mem_cons, List.not_mem_nil, or_false] at listed
      rcases listed with rfl | rfl | rfl <;> exact ⟨rfl, rfl, rfl⟩
    | nand | nor =>
      rw [List.mem_singleton.mp listed]
      exact ⟨rfl, rfl, rfl⟩

/-- A symbol that can be doubled writes the same operator alone. -/
theorem ofSymbol?_of_ofDoubled? {character : Char} {operator : Operator}
    (doubles : Operator.ofDoubled? character = some operator) :
    Operator.ofSymbol? character = some operator := by
  unfold Operator.ofDoubled? at doubles
  split at doubles <;> first | (cases doubles; rfl) | cases doubles

/-! ### Lexemes -/

/-- The characters of a token, the first and those after it, and what they stand for. -/
inductive IsLexeme : (first : Char) → (tail : List Char) → TokenKind → Prop where
  | mark {first : Char} {kind : TokenKind} (marks : markKind? first = some kind) :
    IsLexeme first [] kind
  | word {first : Char} {tail : List Char} (starts : isNameStart first = true)
    (continues : ∀ character ∈ tail, isNameRest character = true) :
    IsLexeme first tail (wordKind (first :: tail))
  | doubled {first : Char} {operator : Operator}
    (doubles : Operator.ofDoubled? first = some operator) : IsLexeme first [first] (.op operator)
  | symbol {first : Char} {operator : Operator}
    (writes : Operator.ofSymbol? first = some operator) : IsLexeme first [] (.op operator)

/-- The token ends before these characters: they do not go on with a word, and they do not double a
symbol that can be doubled. -/
structure Stops (first : Char) (tail others : List Char) : Prop where
  word : isNameStart first = true → Boundary others
  single : Operator.ofDoubled? first ≠ none → tail = [] → others.head? ≠ some first

section Lexemes

variable {first : Char} {rest tail others : List Char} {kind : TokenKind} {operator : Operator}

theorem Stops.nil : Stops first tail [] :=
  ⟨fun _ _ found => (nomatch found), fun _ _ found => (nomatch found)⟩

/-- A token that ends before some characters ends before them also when a blank follows them. -/
theorem Stops.append {later : List Char} (solid : isBlank first = false)
    (stops : Stops first tail others) (blank : ∀ character ∈ later.head?, isBlank character = true) :
    Stops first tail (others ++ later) := by
  cases others with
  | cons next more => exact ⟨stops.word, stops.single⟩
  | nil =>
    refine ⟨fun _ character found => ?_, fun _ _ found => ?_⟩
    · cases continues : isNameRest character with
      | false => rfl
      | true => exact absurd (blank character found) (by simp [isBlank_of_isNameRest continues])
    · exact absurd (blank first found) (by simp [solid])

theorem munch_of_mark (marks : markKind? first = some kind) (rest : List Char) :
    munch first rest = some (kind, [], rest) := by
  unfold munch
  rw [marks]

theorem munch_of_isNameStart (starts : isNameStart first = true) (rest : List Char) :
    munch first rest = some (wordKind (first :: rest.takeWhile isNameRest),
      rest.takeWhile isNameRest, rest.dropWhile isNameRest) := by
  unfold munch
  rw [markKind?_of_isNameStart starts, if_pos starts]

theorem munch_of_ofDoubled? (doubles : Operator.ofDoubled? first = some operator)
    (others : List Char) : munch first (first :: others) = some (.op operator, [first], others) := by
  obtain ⟨noMark, noStart, _⟩ := apart_of_ofSymbol? (ofSymbol?_of_ofDoubled? doubles)
  simp [munch, noMark, noStart, doubles]

theorem munch_of_ofSymbol? (writes : Operator.ofSymbol? first = some operator)
    (single : Operator.ofDoubled? first ≠ none → rest.head? ≠ some first) :
    munch first rest = some (.op operator, [], rest) := by
  obtain ⟨noMark, noStart, _⟩ := apart_of_ofSymbol? writes
  unfold munch
  simp only [noMark, noStart, writes]
  cases doubles : Operator.ofDoubled? first with
  | none => rfl
  | some double =>
    cases rest with
    | nil => rfl
    | cons second others =>
      have other : second ≠ first := fun same =>
        single (by rw [doubles]; exact Option.some_ne_none _) (congrArg some same)
      simp [other]

/-- Something is read at every symbol, by itself or doubled. -/
theorem exists_munch_of_ofSymbol? (writes : Operator.ofSymbol? first = some operator)
    (rest : List Char) : ∃ read, munch first rest = some read := by
  by_cases same : rest.head? = some first
  · obtain ⟨others, rfl⟩ := List.head?_eq_some_iff.mp same
    cases doubles : Operator.ofDoubled? first with
    | none => exact ⟨_, munch_of_ofSymbol? writes fun apart => absurd doubles apart⟩
    | some double => exact ⟨_, munch_of_ofDoubled? doubles others⟩
  · exact ⟨_, munch_of_ofSymbol? writes fun _ => same⟩

/-- A lexeme is read where it stops. -/
theorem IsLexeme.munch (lexeme : IsLexeme first tail kind) (stops : Stops first tail others) :
    munch first (tail ++ others) = some (kind, tail, others) := by
  cases lexeme with
  | mark marks => exact munch_of_mark marks _
  | word starts continues =>
    rw [munch_of_isNameStart starts, takeWhile_append_of_head? continues (stops.word starts),
      dropWhile_append_of_head? continues (stops.word starts)]
  | doubled doubles => exact munch_of_ofDoubled? doubles others
  | symbol writes => exact munch_of_ofSymbol? writes fun doubles => stops.single doubles rfl

/-- What is read is a lexeme, and it stops. -/
theorem isLexeme_of_munch (read : TwoLevel.munch first rest = some (kind, tail, others)) :
    IsLexeme first tail kind ∧ Stops first tail others := by
  have single (noStart : ¬ isNameStart first = true)
      (apart : Operator.ofDoubled? first ≠ none → rest.head? ≠ some first)
      (found : (Operator.ofSymbol? first).map (fun single => (TokenKind.op single, [], rest)) =
        some (kind, tail, others)) : IsLexeme first tail kind ∧ Stops first tail others := by
    obtain ⟨operator, writes, same⟩ := Option.map_eq_some_iff.mp found
    cases same
    exact ⟨.symbol writes, fun starts => absurd starts noStart, fun doubles _ => apart doubles⟩
  unfold TwoLevel.munch at read
  split at read
  · next marks =>
    cases read
    obtain ⟨noStart, _, noDouble⟩ := apart_of_markKind? marks
    exact ⟨.mark marks, fun starts => absurd starts (by simp [noStart]),
      fun doubles => absurd noDouble doubles⟩
  · split at read
    · next starts =>
      cases read
      refine ⟨.word starts fun character member => ?_, fun _ => head?_dropWhile_eq_false _ rest, ?_⟩
      · exact List.all_eq_true.mp List.all_takeWhile character member
      · intro doubles _
        obtain ⟨operator, some⟩ := Option.ne_none_iff_exists'.mp doubles
        rw [(apart_of_ofSymbol? (ofSymbol?_of_ofDoubled? some)).2.1] at starts
        cases starts
    · next noStart =>
      split at read
      · next operator second later doubles =>
        split at read
        · next same =>
          cases read
          subst same
          exact ⟨.doubled doubles, fun starts => absurd starts noStart, nofun⟩
        · next other =>
          exact single noStart (fun _ same => other (Option.some.inj same)) read
      · next none =>
        refine single noStart (fun doubles same => ?_) read
        obtain ⟨operator, some⟩ := Option.ne_none_iff_exists'.mp doubles
        obtain ⟨later, rfl⟩ := List.head?_eq_some_iff.mp same
        exact none operator first later some rfl

/-- **What is read at the head of a text**: a lexeme with which the text starts, and after which it
stops. -/
theorem munch_eq_some_iff : TwoLevel.munch first rest = some (kind, tail, others) ↔
    rest = tail ++ others ∧ IsLexeme first tail kind ∧ Stops first tail others := by
  constructor
  · exact fun read => ⟨(append_of_munch read).symm, isLexeme_of_munch read⟩
  · rintro ⟨rfl, lexeme, stops⟩
    exact lexeme.munch stops

/-- No rule takes the character at the head of a text. -/
structure NoRuleTakes (character : Char) : Prop where
  notBlank : isBlank character = false
  notMark : markKind? character = none
  notStart : isNameStart character = false
  notDoubled : Operator.ofDoubled? character = none
  notSymbol : Operator.ofSymbol? character = none

/-- **Nothing is read** at a character that no rule takes, and only there. -/
theorem munch_eq_none_iff (solid : isBlank first = false) :
    TwoLevel.munch first rest = none ↔ NoRuleTakes first := by
  constructor
  · intro nothing
    have notMark : markKind? first = none := by
      cases marks : markKind? first with
      | none => rfl
      | some kind =>
        rw [munch_of_mark marks] at nothing
        cases nothing
    have notStart : isNameStart first = false := by
      cases starts : isNameStart first with
      | false => rfl
      | true =>
        rw [munch_of_isNameStart starts] at nothing
        cases nothing
    have notSymbol : Operator.ofSymbol? first = none := by
      cases writes : Operator.ofSymbol? first with
      | none => rfl
      | some operator =>
        obtain ⟨read, found⟩ := exists_munch_of_ofSymbol? writes rest
        rw [found] at nothing
        cases nothing
    have notDoubled : Operator.ofDoubled? first = none := by
      cases doubles : Operator.ofDoubled? first with
      | none => rfl
      | some operator =>
        rw [ofSymbol?_of_ofDoubled? doubles] at notSymbol
        cases notSymbol
    exact ⟨solid, notMark, notStart, notDoubled, notSymbol⟩
  · intro noRule
    simp [TwoLevel.munch, noRule.notMark, noRule.notStart, noRule.notDoubled, noRule.notSymbol]

/-- A lexeme starts with no blank. -/
theorem IsLexeme.solid (lexeme : IsLexeme first tail kind) : isBlank first = false := by
  cases lexeme with
  | mark marks => exact (apart_of_markKind? marks).2.1
  | word starts => exact isBlank_of_isNameStart starts
  | doubled doubles => exact (apart_of_ofSymbol? (ofSymbol?_of_ofDoubled? doubles)).2.2
  | symbol writes => exact (apart_of_ofSymbol? writes).2.2

end Lexemes

/-! ### From characters to tokens -/

section Tokens

variable {position : Nat} {first : Char} {rest tail others : List Char} {kind : TokenKind}

/-- A blank is skipped. -/
theorem tokenizeFrom_blank (white : isBlank first = true) :
    tokenizeFrom position (first :: rest) = tokenizeFrom (position + 1) rest := by
  rw [tokenizeFrom, if_pos white]

/-- Blanks are skipped. -/
theorem tokenizeFrom_blanks {blanks : List Char}
    (white : ∀ character ∈ blanks, isBlank character = true) :
    tokenizeFrom position (blanks ++ rest) = tokenizeFrom (position + blanks.length) rest := by
  induction blanks generalizing position with
  | nil => rfl
  | cons first others ih =>
    rw [List.cons_append, tokenizeFrom_blank (white first List.mem_cons_self),
      ih fun character member => white character (List.mem_cons_of_mem _ member),
      List.length_cons, Nat.add_right_comm, Nat.add_assoc]

/-- A token at the head of a text, with the tokens after it. -/
theorem tokenizeFrom_cons (position : Nat) (solid : isBlank first = false)
    (read : munch first rest = some (kind, tail, others)) :
    tokenizeFrom position (first :: rest) =
      (tokenizeFrom (position + 1 + tail.length) others).map
        (⟨kind, String.ofList (first :: tail), position⟩ :: ·) := by
  rw [tokenizeFrom, if_neg (by rw [solid]; decide)]
  split
  · next none =>
    rw [none] at read
    cases read
  · next found =>
    rw [found] at read
    cases read
    cases tokenizeFrom (position + 1 + tail.length) others <;> rfl

/-- A lexeme at the head of a text is a token where it stops. -/
theorem IsLexeme.tokenizeFrom (lexeme : IsLexeme first tail kind) (stops : Stops first tail others)
    (position : Nat) : tokenizeFrom position (first :: (tail ++ others)) =
      (TwoLevel.tokenizeFrom (position + 1 + tail.length) others).map
        (⟨kind, String.ofList (first :: tail), position⟩ :: ·) :=
  tokenizeFrom_cons position lexeme.solid (lexeme.munch stops)

/-- A character that no rule takes is refused. -/
theorem tokenizeFrom_refused (refused : NoRuleTakes first) :
    tokenizeFrom position (first :: rest) = .error (.unrecognizedSymbol first position) := by
  have nothing : munch first rest = none := (munch_eq_none_iff refused.notBlank).mpr refused
  rw [tokenizeFrom, if_neg (by rw [refused.notBlank]; decide)]
  split
  · rfl
  · next found =>
    rw [nothing] at found
    cases found

/-- **Induction along a text.** What relates a place and the characters from it on to their tokens
holds of every text if a blank, a lexeme and a character that no rule takes may be put in front. -/
theorem tokenizeFrom_induction
    {motive : Nat → List Char → Except SyntaxError (List Token) → Prop}
    (nothing : ∀ position, motive position [] (.ok []))
    (blank : ∀ position first rest, isBlank first = true →
      motive (position + 1) rest (tokenizeFrom (position + 1) rest) →
      motive position (first :: rest) (tokenizeFrom (position + 1) rest))
    (refused : ∀ position first rest, NoRuleTakes first →
      motive position (first :: rest) (.error (.unrecognizedSymbol first position)))
    (token : ∀ position first tail kind others, IsLexeme first tail kind → Stops first tail others →
      motive (position + 1 + tail.length) others
        (tokenizeFrom (position + 1 + tail.length) others) →
      motive position (first :: (tail ++ others))
        ((tokenizeFrom (position + 1 + tail.length) others).map
          (⟨kind, String.ofList (first :: tail), position⟩ :: ·)))
    (position : Nat) (characters : List Char) :
    motive position characters (tokenizeFrom position characters) := by
  -- By strong induction on the number of characters: a token takes at least one.
  induction length : characters.length using Nat.strongRecOn generalizing position characters with
  | _ count ih =>
    cases characters with
    | nil =>
      rw [tokenizeFrom]
      exact nothing position
    | cons first rest =>
      rw [List.length_cons] at length
      by_cases white : isBlank first = true
      · rw [tokenizeFrom_blank white]
        exact blank position first rest white (ih rest.length (by omega) _ _ rfl)
      · have solid := Bool.eq_false_iff.mpr white
        cases read : munch first rest with
        | none =>
          have noRule := (munch_eq_none_iff solid).mp read
          rw [tokenizeFrom_refused noRule]
          exact refused position first rest noRule
        | some munched =>
          obtain ⟨kind, tail, others⟩ := munched
          obtain ⟨rfl, lexeme, stops⟩ := munch_eq_some_iff.mp read
          rw [List.length_append] at length
          rw [lexeme.tokenizeFrom stops]
          exact token position first tail kind others lexeme stops
            (ih others.length (by omega) _ _ rfl)

/-- **Induction along a text that has been read**, blank by blank and lexeme by lexeme. -/
theorem tokenizeFrom_ok_induction {motive : Nat → List Char → List Token → Prop}
    (nothing : ∀ position, motive position [] [])
    (blank : ∀ position first rest tokens, isBlank first = true →
      motive (position + 1) rest tokens → motive position (first :: rest) tokens)
    (token : ∀ position first tail kind others tokens, IsLexeme first tail kind →
      Stops first tail others → motive (position + 1 + tail.length) others tokens →
      motive position (first :: (tail ++ others))
        (⟨kind, String.ofList (first :: tail), position⟩ :: tokens))
    {position : Nat} {characters : List Char} {tokens : List Token}
    (read : tokenizeFrom position characters = .ok tokens) : motive position characters tokens := by
  revert tokens
  refine tokenizeFrom_induction
    (motive := fun position characters result =>
      ∀ {tokens}, result = .ok tokens → motive position characters tokens)
    ?_ ?_ ?_ ?_ position characters
  · intro position tokens read
    cases read
    exact nothing position
  · intro position first rest white ih tokens read
    exact blank position first rest tokens white (ih read)
  · intro position first rest noRule tokens read
    cases read
  · intro position first tail kind others lexeme stops ih tokens read
    obtain ⟨later, found, rfl⟩ := map_eq_ok_iff.mp read
    exact token position first tail kind others later lexeme stops (ih found)

/-- **A blank separates**: what is before it and what is from it on are read apart. -/
theorem tokenizeFrom_append (position : Nat) (before : List Char) {after : List Char}
    (blank : ∀ character ∈ after.head?, isBlank character = true) :
    tokenizeFrom position (before ++ after) =
      (tokenizeFrom position before).bind fun tokens =>
        (tokenizeFrom (position + before.length) after).map (tokens ++ ·) := by
  refine tokenizeFrom_induction
    (motive := fun position before result =>
      tokenizeFrom position (before ++ after) = result.bind fun tokens =>
        (tokenizeFrom (position + before.length) after).map (tokens ++ ·))
    ?_ ?_ ?_ ?_ position before
  · intro position
    show tokenizeFrom position after = (tokenizeFrom position after).map _
    cases tokenizeFrom position after <;> rfl
  · intro position first rest white ih
    rw [List.cons_append, tokenizeFrom_blank white, ih, List.length_cons, Nat.add_right_comm,
      Nat.add_assoc]
  · intro position first rest noRule
    rw [List.cons_append, tokenizeFrom_refused noRule]
    rfl
  · intro position first tail kind others lexeme stops ih
    have place : position + 1 + tail.length + others.length =
        position + (first :: (tail ++ others)).length := by
      rw [List.length_cons, List.length_append]
      omega
    rw [List.cons_append, List.append_assoc,
      lexeme.tokenizeFrom (stops.append lexeme.solid blank), ih, place]
    cases TwoLevel.tokenizeFrom (position + 1 + tail.length) others with
    | error error => rfl
    | ok tokens =>
      show ((tokenizeFrom _ after).map _).map _ = (tokenizeFrom _ after).map _
      cases TwoLevel.tokenizeFrom (position + (first :: (tail ++ others)).length) after <;> rfl

/-- A text that has been read is read as tokens of the same kinds at every other place. -/
theorem exists_tokenizeFrom_at {characters : List Char} {tokens : List Token}
    (read : tokenizeFrom position characters = .ok tokens) (place : Nat) :
    ∃ others, tokenizeFrom place characters = .ok others ∧
      others.map Token.kind = tokens.map Token.kind := by
  refine tokenizeFrom_ok_induction
    (motive := fun _ characters tokens => ∀ place, ∃ others,
      tokenizeFrom place characters = .ok others ∧ others.map Token.kind = tokens.map Token.kind)
    ?_ ?_ ?_ read place
  · intro _ place
    exact ⟨[], by rw [tokenizeFrom], rfl⟩
  · intro _ first rest tokens white ih place
    rw [tokenizeFrom_blank white]
    exact ih (place + 1)
  · intro _ first tail kind others tokens lexeme stops ih place
    obtain ⟨later, laterRead, same⟩ := ih (place + 1 + tail.length)
    rw [lexeme.tokenizeFrom stops, laterRead]
    exact ⟨_, rfl, congrArg (kind :: ·) same⟩

end Tokens

end TwoLevel
