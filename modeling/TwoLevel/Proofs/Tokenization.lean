/-
**The tokens of a text, from the outside.**

The tokenizer reads from left to right. Seen on the whole text, its tokens are stretches of the text
that do not overlap, with nothing but blanks between them; each is by itself the token that it is, and
none could have gone on. These facts leave no choice: they hold of one list of tokens only. Where there
is none, the tokenizer stops at the first character that no rule takes, after tokens.

* `Token.StandsIn` — a token is a stretch of the text, a token by itself, and goes on no further;
* `TokenizedFrom` — the tokens of a text from a place on: they follow each other, between blanks;
* `tokenizeFrom_eq_ok_iff` — **these are the tokens that are read**;
* `exists_refused_of_tokenizeFrom` — **an error is a character that no rule takes**, after tokens;
* `tokenize_maximal_munch` — both, on a whole text.
-/

import Mathlib
import TwoLevel.Proofs.Lexemes

namespace TwoLevel

open Text

/-! ### Tokens in a text -/

namespace Token

/-- The place after the token. -/
def stop (token : Token) : Nat := token.position + token.lexeme.length

/-- The token covers the place. -/
def Spans (token : Token) (place : Nat) : Prop := token.position ≤ place ∧ place < token.stop

/-- The token is an identifier or a keyword. -/
def IsWord (token : Token) : Prop :=
  (∃ name, token.kind = .var name) ∨ Operator.ofKeyword? token.lexeme.toList ≠ none

/-- **A token of a text**: it covers some of its characters and its lexeme consists of them, it is what
they are by themselves, and it could not have been longer. -/
structure StandsIn (text : List Char) (token : Token) : Prop where
  nonempty : token.position < token.stop
  lexeme : (text.drop token.position).take token.lexeme.length = token.lexeme.toList
  alone : tokenize token.lexeme = .ok [⟨token.kind, token.lexeme, 0⟩]
  word : token.IsWord → ∀ next ∈ text[token.stop]?, isNameRest next = false
  single : ∀ symbol, symbol = '&' ∨ symbol = '|' → token.lexeme = String.singleton symbol →
    text[token.stop]? ≠ some symbol

end Token

/-- **The tokens of a text from a place on.** They stand in the text one after the other, and every
character that they do not cover is blank. -/
structure TokenizedFrom (text : List Char) (start : Nat) (tokens : List Token) : Prop where
  stands : ∀ token ∈ tokens, start ≤ token.position ∧ token.StandsIn text
  ordered : tokens.Pairwise fun first second => first.stop ≤ second.position
  blank : ∀ place ≥ start, ∀ character ∈ text[place]?,
    (∀ token ∈ tokens, ¬ token.Spans place) → isBlank character = true

/-! ### Words and single symbols -/

section Lexemes

variable {first : Char} {tail others : List Char} {kind : TokenKind}

/-- A keyword has two letters at least. -/
theorem Operator.ofKeyword?_singleton (character : Char) :
    Operator.ofKeyword? [character] = none := by
  refine List.find?_eq_none.mpr fun operator _ same => ?_
  have length := congrArg List.length (beq_iff_eq.mp same)
  rcases operator with _ | op
  · cases length
  · cases op <;> cases length

/-- The rule for words is the one that makes identifiers and keywords. -/
theorem IsLexeme.isNameStart_iff (lexeme : IsLexeme first tail kind) :
    isNameStart first = true ↔
      (∃ name, kind = .var name) ∨ Operator.ofKeyword? (first :: tail) ≠ none := by
  cases lexeme with
  | mark marks =>
    refine iff_of_false (by simp [(apart_of_markKind? marks).1]) ?_
    rintro (⟨name, rfl⟩ | keyword)
    · unfold markKind? at marks
      split at marks <;> cases marks
    · exact keyword (Operator.ofKeyword?_singleton first)
  | word starts =>
    refine iff_of_true starts ?_
    unfold wordKind
    cases keyword : Operator.ofKeyword? (first :: tail) with
    | none => exact .inl ⟨_, rfl⟩
    | some operator => exact .inr (Option.some_ne_none _)
  | doubled doubles =>
    refine iff_of_false (by simp [(apart_of_ofSymbol? (ofSymbol?_of_ofDoubled? doubles)).2.1]) ?_
    rintro (⟨name, same⟩ | keyword)
    · cases same
    · unfold Operator.ofDoubled? at doubles
      split at doubles <;> first | exact keyword (by decide) | cases doubles
  | symbol writes =>
    refine iff_of_false (by simp [(apart_of_ofSymbol? writes).2.1]) ?_
    rintro (⟨name, same⟩ | keyword)
    · cases same
    · exact keyword (Operator.ofKeyword?_singleton first)

theorem ofDoubled?_ne_none_iff : Operator.ofDoubled? first ≠ none ↔ first = '&' ∨ first = '|' := by
  constructor
  · intro doubles
    unfold Operator.ofDoubled? at doubles
    split at doubles
    · exact .inl rfl
    · exact .inr rfl
    · exact absurd rfl doubles
  · rintro (rfl | rfl) <;> decide

/-- A lexeme is the token of its own text. -/
theorem IsLexeme.tokenize (lexeme : IsLexeme first tail kind) :
    tokenize (String.ofList (first :: tail)) =
      .ok [⟨kind, String.ofList (first :: tail), 0⟩] := by
  have read := lexeme.tokenizeFrom .nil 0
  rw [List.append_nil] at read
  rw [TwoLevel.tokenize, String.toList_ofList, read, TwoLevel.tokenizeFrom]
  rfl

end Lexemes

/-- No token stands before the place where reading starts. -/
theorem le_position_of_tokenizeFrom {position : Nat} {characters : List Char} {tokens : List Token}
    (read : tokenizeFrom position characters = .ok tokens) :
    ∀ token ∈ tokens, position ≤ token.position := by
  refine tokenizeFrom_ok_induction
    (motive := fun position _ tokens => ∀ token ∈ tokens, position ≤ token.position) ?_ ?_ ?_ read
  · exact fun _ token member => nomatch member
  · exact fun position first rest tokens white ih token member => Nat.le_of_succ_le (ih token member)
  · intro position first tail kind others tokens lexeme stops ih token member
    rcases List.mem_cons.mp member with rfl | later
    · exact Nat.le_refl position
    · have after := ih token later
      omega

/-- What is one token by itself, from its first character to its last, is a lexeme. -/
theorem exists_isLexeme_of_tokenize {lexeme : String} {kind : TokenKind}
    (alone : tokenize lexeme = .ok [⟨kind, lexeme, 0⟩]) :
    ∃ first tail, lexeme = String.ofList (first :: tail) ∧ IsLexeme first tail kind := by
  rw [tokenize] at alone
  cases characters : lexeme.toList with
  | nil =>
    rw [characters, tokenizeFrom] at alone
    cases alone
  | cons first rest =>
    rw [characters] at alone
    by_cases white : isBlank first = true
    · rw [tokenizeFrom_blank white] at alone
      have later := le_position_of_tokenizeFrom alone _ (List.mem_singleton.mpr rfl)
      exact absurd later (Nat.not_succ_le_zero 0)
    · cases read : munch first rest with
      | none =>
        rw [tokenizeFrom_refused ((munch_eq_none_iff (Bool.eq_false_iff.mpr white)).mp read)] at alone
        cases alone
      | some munched =>
        obtain ⟨kind', tail, others⟩ := munched
        obtain ⟨rfl, isLexeme, stops⟩ := munch_eq_some_iff.mp read
        rw [isLexeme.tokenizeFrom stops] at alone
        obtain ⟨later, _, same⟩ := map_eq_ok_iff.mp alone
        injection same with head _
        injection head with sameKind sameLexeme _
        exact ⟨first, tail, sameLexeme.symm, sameKind ▸ isLexeme⟩

/-! ### Reading and standing -/

section Standing

variable {text : List Char} {start : Nat} {tokens : List Token} {token : Token} {first : Char}
  {rest tail others : List Char} {kind : TokenKind}

/-- The token of a lexeme ends after its characters. -/
theorem stop_mk (first : Char) (tail : List Char) (start : Nat) :
    (Token.mk kind (String.ofList (first :: tail)) start).stop = start + 1 + tail.length := by
  unfold Token.stop
  rw [String.length_ofList, List.length_cons, Nat.add_comm tail.length, ← Nat.add_assoc]

/-- The characters after a stretch of a text. -/
theorem getElem?_after (here : text.drop start = first :: (tail ++ others)) :
    text[start + 1 + tail.length]? = others.head? := by
  have after : text.drop (start + 1 + tail.length) = others := by
    rw [Nat.add_assoc, ← List.drop_drop, here, Nat.add_comm 1, List.drop_succ_cons, List.drop_left]
  rw [← List.head?_drop, after]

/-- A token is not followed by what it could have gone on with just where its lexeme stops. -/
theorem stops_iff (lexeme : IsLexeme first tail kind)
    (here : text.drop start = first :: (tail ++ others)) :
    Stops first tail others ↔
      ((Token.mk kind (String.ofList (first :: tail)) start).IsWord →
        ∀ next ∈ text[start + 1 + tail.length]?, isNameRest next = false) ∧
      ∀ symbol, symbol = '&' ∨ symbol = '|' →
        String.ofList (first :: tail) = String.singleton symbol →
          text[start + 1 + tail.length]? ≠ some symbol := by
  rw [getElem?_after here]
  have isWord : (Token.mk kind (String.ofList (first :: tail)) start).IsWord ↔
      isNameStart first = true := by
    rw [lexeme.isNameStart_iff, Token.IsWord, String.toList_ofList]
  have isSingle (symbol : Char) : String.ofList (first :: tail) = String.singleton symbol ↔
      first = symbol ∧ tail = [] := by
    rw [← String.toList_inj, String.toList_ofList, String.toList_singleton, List.cons.injEq]
  constructor
  · intro stops
    refine ⟨fun word => stops.word (isWord.mp word), fun symbol doubled alone => ?_⟩
    obtain ⟨rfl, rfl⟩ := (isSingle symbol).mp alone
    exact stops.single (ofDoubled?_ne_none_iff.mpr doubled) rfl
  · rintro ⟨word, single⟩
    refine ⟨fun starts => word (isWord.mpr starts), fun doubles alone => ?_⟩
    exact single first (ofDoubled?_ne_none_iff.mp doubles) ((isSingle first).mpr ⟨rfl, alone⟩)

/-- A lexeme that stops is a token of the text. -/
theorem standsIn_of_isLexeme (lexeme : IsLexeme first tail kind) (stops : Stops first tail others)
    (here : text.drop start = first :: (tail ++ others)) :
    (Token.mk kind (String.ofList (first :: tail)) start).StandsIn text := by
  obtain ⟨word, single⟩ := (stops_iff lexeme here).mp stops
  refine ⟨?_, ?_, lexeme.tokenize, ?_, ?_⟩
  · rw [stop_mk]
    show start < start + 1 + tail.length
    omega
  · show (text.drop start).take (String.ofList (first :: tail)).length = _
    rw [here, String.length_ofList, String.toList_ofList, ← List.cons_append, List.take_left]
  · rw [stop_mk]
    exact word
  · rw [stop_mk]
    exact single

/-- A token of the text is a lexeme that stops. -/
theorem Token.StandsIn.exists_isLexeme (stands : token.StandsIn text)
    (here : text.drop token.position = first :: rest) :
    ∃ tail others, rest = tail ++ others ∧
      token = ⟨token.kind, String.ofList (first :: tail), token.position⟩ ∧
      IsLexeme first tail token.kind ∧ Stops first tail others := by
  obtain ⟨kind, lexeme, position⟩ := token
  obtain ⟨_, written, alone, word, single⟩ := stands
  obtain ⟨letter, tail, rfl, isLexeme⟩ := exists_isLexeme_of_tokenize alone
  dsimp only at here written isLexeme
  rw [here, String.length_ofList, String.toList_ofList, List.length_cons, List.take_succ_cons,
    List.cons.injEq] at written
  obtain ⟨rfl, written⟩ := written
  obtain ⟨others, rfl⟩ := List.prefix_iff_eq_take.mpr written.symm
  rw [stop_mk] at word single
  exact ⟨tail, others, rfl, rfl, isLexeme, (stops_iff isLexeme here).mpr ⟨word, single⟩⟩

/-! ### The tokens from a place on -/

/-- From the end of the text on there are no tokens. -/
theorem tokenizedFrom_end_iff (here : text.drop start = []) :
    TokenizedFrom text start tokens ↔ tokens = [] := by
  constructor
  · intro tokenized
    cases tokens with
    | nil => rfl
    | cons token later =>
      obtain ⟨after, stands⟩ := tokenized.stands token List.mem_cons_self
      have past : text.drop token.position = [] := by
        rw [List.drop_eq_nil_iff] at here ⊢
        exact Nat.le_trans here after
      have written := stands.lexeme
      rw [past, List.take_nil] at written
      have nonempty := stands.nonempty
      unfold Token.stop at nonempty
      rw [← String.length_toList, ← written] at nonempty
      exact absurd nonempty (Nat.lt_irrefl _)
  · rintro rfl
    refine ⟨fun _ member => (nomatch member), .nil, fun place after character found _ => ?_⟩
    have past : text.length ≤ place := Nat.le_trans (List.drop_eq_nil_iff.mp here) after
    rw [List.getElem?_eq_none past] at found
    cases found

/-- The character at the head of what is left of a text. -/
theorem getElem?_of_drop (here : text.drop start = first :: rest) : text[start]? = some first := by
  rw [← List.head?_drop, here]
  rfl

/-- What is left of a text after a character. -/
theorem drop_succ (here : text.drop start = first :: rest) : text.drop (start + 1) = rest := by
  rw [← List.drop_drop, here]
  rfl

/-- No token starts at a blank. -/
theorem tokenizedFrom_blank_iff (here : text.drop start = first :: rest)
    (white : isBlank first = true) :
    TokenizedFrom text start tokens ↔ TokenizedFrom text (start + 1) tokens := by
  constructor
  · rintro ⟨stands, ordered, blank⟩
    refine ⟨fun token member => ?_, ordered, fun place after => blank place (Nat.le_of_succ_le after)⟩
    obtain ⟨after, standing⟩ := stands token member
    refine ⟨Nat.lt_of_le_of_ne after fun same => ?_, standing⟩
    obtain ⟨tail, others, _, _, lexeme, _⟩ := standing.exists_isLexeme (same ▸ here)
    rw [lexeme.solid] at white
    cases white
  · rintro ⟨stands, ordered, blank⟩
    refine ⟨fun token member => ?_, ordered, fun place after character found => ?_⟩
    · exact (stands token member).imp_left Nat.le_of_succ_le
    · rcases Nat.eq_or_lt_of_le after with rfl | later
      · rw [getElem?_of_drop here, Option.mem_some_iff] at found
        exact fun _ => found ▸ white
      · exact blank place later character found

/-- A token starts at a character that is not blank, and it is the first one. -/
theorem TokenizedFrom.exists_cons (tokenized : TokenizedFrom text start tokens)
    (here : text.drop start = first :: rest) (solid : isBlank first = false) :
    ∃ token later, tokens = token :: later ∧ token.position = start := by
  obtain ⟨stands, ordered, blank⟩ := tokenized
  by_cases covered : ∃ token ∈ tokens, token.Spans start
  · obtain ⟨token, member, before, after⟩ := covered
    have same : token.position = start := Nat.le_antisymm before (stands token member).1
    cases tokens with
    | nil => cases member
    | cons head later =>
      refine ⟨head, later, rfl, ?_⟩
      rcases List.mem_cons.mp member with rfl | inLater
      · exact same
      · -- The head would have to end where it starts.
        have apart := List.rel_of_pairwise_cons ordered inLater
        obtain ⟨headAfter, headStands⟩ := stands head List.mem_cons_self
        have nonempty := headStands.nonempty
        omega
  · have white := blank start (Nat.le_refl start) first (getElem?_of_drop here)
      fun token member spans => covered ⟨token, member, spans⟩
    rw [white] at solid
    cases solid

/-- No tokens cover a character that no rule takes. -/
theorem not_tokenizedFrom (here : text.drop start = first :: rest) (refused : NoRuleTakes first) :
    ¬ TokenizedFrom text start tokens := by
  intro tokenized
  obtain ⟨token, later, rfl, rfl⟩ := tokenized.exists_cons here refused.notBlank
  obtain ⟨_, stands⟩ := tokenized.stands token List.mem_cons_self
  obtain ⟨tail, others, rfl, _, lexeme, stops⟩ := stands.exists_isLexeme here
  have nothing : munch first (tail ++ others) = none :=
    (munch_eq_none_iff refused.notBlank).mpr refused
  rw [lexeme.munch stops] at nothing
  cases nothing

/-- At a lexeme that stops, the tokens are this one and those after it. -/
theorem tokenizedFrom_token_iff (lexeme : IsLexeme first tail kind)
    (stops : Stops first tail others) (here : text.drop start = first :: (tail ++ others)) :
    TokenizedFrom text start tokens ↔
      ∃ later, TokenizedFrom text (start + 1 + tail.length) later ∧
        ⟨kind, String.ofList (first :: tail), start⟩ :: later = tokens := by
  constructor
  · intro tokenized
    obtain ⟨token, later, rfl, position⟩ := tokenized.exists_cons here lexeme.solid
    obtain ⟨_, stands⟩ := tokenized.stands token List.mem_cons_self
    obtain ⟨tail', others', split, shape, lexeme', stops'⟩ :=
      stands.exists_isLexeme (position ▸ here)
    -- What is read at the head of the text is one lexeme only.
    have read := lexeme'.munch stops'
    rw [← split, lexeme.munch stops] at read
    obtain ⟨sameKind, rfl, rfl⟩ : kind = token.kind ∧ tail = tail' ∧ others = others' := by
      simpa using read
    rw [← sameKind, position] at shape
    subst shape
    refine ⟨later, ⟨fun next member => ?_, tokenized.ordered.tail, ?_⟩, rfl⟩
    · have after := List.rel_of_pairwise_cons tokenized.ordered member
      rw [stop_mk] at after
      exact ⟨after, (tokenized.stands next (List.mem_cons_of_mem _ member)).2⟩
    · intro place after character found uncovered
      refine tokenized.blank place (by omega) character found fun next member spans => ?_
      rcases List.mem_cons.mp member with rfl | inLater
      · have before := spans.2
        rw [stop_mk] at before
        omega
      · exact uncovered next inLater spans
  · rintro ⟨later, ⟨stands, ordered, blank⟩, rfl⟩
    refine ⟨fun token member => ?_, ?_, ?_⟩
    · rcases List.mem_cons.mp member with rfl | inLater
      · exact ⟨Nat.le_refl start, standsIn_of_isLexeme lexeme stops here⟩
      · obtain ⟨after, standing⟩ := stands token inLater
        exact ⟨by omega, standing⟩
    · refine List.pairwise_cons.mpr ⟨fun token member => ?_, ordered⟩
      rw [stop_mk]
      exact (stands token member).1
    · intro place after character found uncovered
      have beyond := uncovered _ List.mem_cons_self
      unfold Token.Spans at beyond
      rw [stop_mk] at beyond
      refine blank place (by dsimp only at beyond; omega) character found fun token member => ?_
      exact uncovered token (List.mem_cons_of_mem _ member)

/-- **The tokens of a text from the outside**: those that are read are the only ones that stand in the
text one after the other with nothing but blanks between them. -/
theorem tokenizeFrom_eq_ok_iff :
    tokenizeFrom start (text.drop start) = .ok tokens ↔ TokenizedFrom text start tokens := by
  refine tokenizeFrom_induction
    (motive := fun start characters result => text.drop start = characters →
      ∀ tokens, result = .ok tokens ↔ TokenizedFrom text start tokens)
    ?nothing ?blank ?refused ?token start (text.drop start) rfl tokens
  case nothing =>
    intro start here tokens
    rw [tokenizedFrom_end_iff here, Except.ok.injEq]
    exact eq_comm
  case blank =>
    intro start first rest white ih here tokens
    rw [tokenizedFrom_blank_iff here white]
    exact ih (drop_succ here) tokens
  case refused =>
    intro start first rest refused here tokens
    exact iff_of_false (fun same => nomatch same) (not_tokenizedFrom here refused)
  case token =>
    intro start first tail kind others lexeme stops ih here tokens
    have after : text.drop (start + 1 + tail.length) = others := by
      rw [← List.drop_drop, drop_succ here, List.drop_left]
    rw [tokenizedFrom_token_iff lexeme stops here, map_eq_ok_iff]
    exact exists_congr fun later => and_congr_left fun _ => ih after later

end Standing

/-! ### Texts without tokens -/

/-- A lexeme that stops before some characters stops before the first of them. -/
theorem Stops.of_append {first : Char} {tail before after : List Char}
    (stops : Stops first tail (before ++ after)) : Stops first tail before := by
  cases before with
  | nil => exact .nil
  | cons next more => exact ⟨stops.word, stops.single⟩

/-- **An error is a character that no rule takes**, and what is before it is tokens. -/
theorem exists_refused_of_tokenizeFrom {position : Nat} {characters : List Char} {error : SyntaxError}
    (failed : tokenizeFrom position characters = .error error) :
    ∃ before symbol after tokens, characters = before ++ symbol :: after ∧
      error = .unrecognizedSymbol symbol (position + before.length) ∧ NoRuleTakes symbol ∧
      tokenizeFrom position before = .ok tokens := by
  refine tokenizeFrom_induction
    (motive := fun position characters result => result = .error error →
      ∃ before symbol after tokens, characters = before ++ symbol :: after ∧
        error = .unrecognizedSymbol symbol (position + before.length) ∧ NoRuleTakes symbol ∧
        tokenizeFrom position before = .ok tokens)
    ?nothing ?blank ?refused ?token position characters failed
  case nothing => exact fun _ same => nomatch same
  case blank =>
    intro position first rest white ih failed
    obtain ⟨before, symbol, after, tokens, rfl, rfl, noRule, read⟩ := ih failed
    refine ⟨first :: before, symbol, after, tokens, rfl, ?_, noRule, ?_⟩
    · rw [List.length_cons, Nat.add_right_comm, Nat.add_assoc]
    · rw [tokenizeFrom_blank white, read]
  case refused =>
    intro position first rest noRule failed
    cases failed
    refine ⟨[], first, rest, [], rfl, rfl, noRule, ?_⟩
    rw [tokenizeFrom]
  case token =>
    intro position first tail kind others lexeme stops ih failed
    obtain ⟨before, symbol, after, tokens, rfl, rfl, noRule, read⟩ :=
      ih (map_eq_error_iff.mp failed)
    refine ⟨first :: (tail ++ before), symbol, after,
      ⟨kind, String.ofList (first :: tail), position⟩ :: tokens, by simp, ?_, noRule, ?_⟩
    · rw [List.length_cons, List.length_append]
      congr 1
      omega
    · rw [lexeme.tokenizeFrom stops.of_append, read]
      rfl

/-- **The tokenizer loses nothing and takes as much as it can.** The tokens of a text are the one list
of stretches of it that follow each other with only blanks between them, each a token by itself that
could not have gone on. A text without tokens has a character that no rule takes, after tokens: this
character and its place are the error. -/
theorem tokenize_maximal_munch (text : String) :
    (∀ tokens, tokenize text = .ok tokens ↔ TokenizedFrom text.toList 0 tokens) ∧
    ∀ error, tokenize text = .error error → ∃ symbol position,
      error = .unrecognizedSymbol symbol position ∧ text.toList[position]? = some symbol ∧
      NoRuleTakes symbol ∧
      ∃ tokens, tokenize (String.ofList (text.toList.take position)) = .ok tokens := by
  refine ⟨fun tokens => tokenizeFrom_eq_ok_iff, fun error failed => ?_⟩
  obtain ⟨before, symbol, after, tokens, characters, rfl, noRule, read⟩ :=
    exists_refused_of_tokenizeFrom failed
  refine ⟨symbol, before.length, by rw [Nat.zero_add], ?_, noRule, tokens, ?_⟩
  · rw [characters, List.getElem?_append_right (Nat.le_refl _), Nat.sub_self]
    rfl
  · rw [characters, List.take_left, tokenize, String.toList_ofList, read]

/-- Of three ampersands the first two are one token. A digit goes on with a name, and a sign that
writes nothing is refused after it. -/
theorem tokenize_maximal_munch_three_ampersands :
    TokenizedFrom "a1 &&&b".toList 0 [⟨.var "a1", "a1", 0⟩, ⟨.op (.binary .and), "&&", 3⟩,
      ⟨.op (.binary .and), "&", 5⟩, ⟨.var "b", "b", 6⟩] ∧
    ∃ symbol position, SyntaxError.unrecognizedSymbol '#' 2 = .unrecognizedSymbol symbol position ∧
      "a1#".toList[position]? = some symbol ∧ NoRuleTakes symbol ∧
      ∃ tokens, tokenize (String.ofList ("a1#".toList.take position)) = .ok tokens := by
  have read : tokenize "a1 &&&b" = .ok [⟨.var "a1", "a1", 0⟩, ⟨.op (.binary .and), "&&", 3⟩,
      ⟨.op (.binary .and), "&", 5⟩, ⟨.var "b", "b", 6⟩] := by
    cbv
  have failed : tokenize "a1#" = .error (.unrecognizedSymbol '#' 2) := by
    cbv
  exact ⟨((tokenize_maximal_munch "a1 &&&b").1 _).mp read,
    (tokenize_maximal_munch "a1#").2 _ failed⟩

end TwoLevel
