/-
**Lines that hold an accepted text.**

A line of a sheet has marks of its own: `#` in front makes it a comment, and the first `=` ends a
label. No rule of the language takes either of them, so that a text which is accepted has none of
them, and is not mistaken for a comment or cut in two. Blanks around it are removed before it is
read; the tokens of what is left are of the same kinds, and so are the tree and all that follows
from it. So the line has one entry, wherever it stands in a sheet, with the evaluation of the text.

* `not_mem_of_tokenizeFrom` — a character that no rule takes is in no text that is read;
* `evaluate_trimText` — **blanks around an accepted text do not matter**;
* `HasOneEntry` — a line with one entry, wherever it stands;
* `hasOneEntry_of_evaluate` — **the lines of an accepted text**, alone and behind a label.
-/

import Mathlib
import TwoLevel.Proofs.Forms
import TwoLevel.Proofs.Sheets
import TwoLevel.Proofs.Spellings
import TwoLevel.Proofs.Stretches

namespace TwoLevel

open Text

/-! ### Accepted texts -/

/-- The text without the blanks at its ends. -/
def trimText (text : String) : String := String.ofList (trimBlanks text.toList)

section Accepted

variable {position : Nat} {characters : List Char} {tokens : List Token} {character : Char}

/-- A character that no rule takes and that does not go on with a name is in no lexeme. -/
theorem IsLexeme.not_mem {first : Char} {tail : List Char} {kind : TokenKind}
    (lexeme : IsLexeme first tail kind) (refused : NoRuleTakes character)
    (ends : isNameRest character = false) : character ∉ first :: tail := by
  cases lexeme with
  | mark marks =>
    intro member
    rw [← List.mem_singleton.mp member, refused.notMark] at marks
    cases marks
  | word starts continues =>
    intro member
    rcases List.mem_cons.mp member with rfl | later
    · rw [refused.notStart] at starts
      cases starts
    · rw [continues character later] at ends
      cases ends
  | doubled doubles =>
    intro member
    rw [List.mem_cons, List.mem_singleton, or_self] at member
    rw [← member, refused.notDoubled] at doubles
    cases doubles
  | symbol writes =>
    intro member
    rw [← List.mem_singleton.mp member, refused.notSymbol] at writes
    cases writes

/-- **A character that no rule takes is in no text that is read**, unless it goes on with a name. -/
theorem not_mem_of_tokenizeFrom (refused : NoRuleTakes character)
    (ends : isNameRest character = false) (read : tokenizeFrom position characters = .ok tokens) :
    character ∉ characters := by
  refine tokenizeFrom_ok_induction (motive := fun _ characters _ => character ∉ characters)
    ?_ ?_ ?_ read
  · exact fun _ => List.not_mem_nil
  · intro _ first rest _ white ih member
    rcases List.mem_cons.mp member with rfl | later
    · rw [refused.notBlank] at white
      cases white
    · exact ih later
  · intro _ first tail kind others _ lexeme _ ih member
    rw [← List.cons_append, List.mem_append] at member
    exact member.elim (lexeme.not_mem refused ends) ih

theorem noRuleTakes_equals : NoRuleTakes '=' := ⟨rfl, rfl, rfl, rfl, rfl⟩

theorem noRuleTakes_hash : NoRuleTakes '#' := ⟨rfl, rfl, rfl, rfl, rfl⟩

/-- Without the blanks at its ends a text is read as tokens of the same kinds. -/
theorem exists_tokenizeFrom_trimBlanks (read : tokenizeFrom position characters = .ok tokens)
    (place : Nat) : ∃ others, tokenizeFrom place (trimBlanks characters) = .ok others ∧
      others.map Token.kind = tokens.map Token.kind := by
  obtain ⟨lead, trail, split, leadBlank, trailBlank, _⟩ := exists_trimBlanks characters
  have skipped (position : Nat) : tokenizeFrom position trail = .ok [] := by
    rw [← List.append_nil trail, tokenizeFrom_blanks trailBlank, tokenizeFrom]
  have trailHead : ∀ character ∈ trail.head?, isBlank character = true :=
    fun character found => trailBlank character (List.mem_of_mem_head? found)
  rw [split, List.append_assoc, tokenizeFrom_blanks leadBlank,
    tokenizeFrom_append _ _ trailHead] at read
  obtain ⟨inner, innerRead, same⟩ := bind_eq_ok_iff.mp read
  rw [skipped] at same
  cases same
  show ∃ others, _ ∧ _ = (inner ++ []).map Token.kind
  rw [List.append_nil]
  exact exists_tokenizeFrom_at innerRead place

variable {limits : Limits} {text : String} {evaluation : Evaluation}

/-- An accepted text has tokens. -/
theorem exists_tokens_of_evaluate (accepted : evaluate limits text = .ok evaluation) :
    ∃ tokens, tokenizeFrom 0 text.toList = .ok tokens ∧ tokens ≠ [] := by
  obtain ⟨expr, parsed, _⟩ := evaluate_eq_ok_iff.mp accepted
  obtain ⟨tokens, read, ofTokens⟩ := bind_eq_ok_iff.mp parsed
  refine ⟨tokens, read, ?_⟩
  rintro rfl
  cases ofTokens

/-- The text that an evaluation repeats makes no difference to the rest of it. -/
theorem tabulate_text (other : String) {expr : Expr} {names : List String}
    (tabulated : tabulate text expr names = .ok evaluation) :
    tabulate other expr names = .ok { evaluation with text := other } := by
  obtain ⟨table, built, tabulated⟩ := bind_eq_ok_iff.mp tabulated
  obtain ⟨trueRows, sopMinimized, tabulated⟩ := bind_eq_ok_iff.mp tabulated
  obtain ⟨falseRows, posMinimized, tabulated⟩ := bind_eq_ok_iff.mp tabulated
  cases tabulated
  exact bind_eq_ok_iff.mpr ⟨table, built, bind_eq_ok_iff.mpr ⟨trueRows, sopMinimized,
    bind_eq_ok_iff.mpr ⟨falseRows, posMinimized, rfl⟩⟩⟩

/-- **Blanks around an accepted text do not matter**: without them it has the same evaluation, but
for the text that this repeats. -/
theorem evaluate_trimText (accepted : evaluate limits text = .ok evaluation) :
    evaluate limits (trimText text) = .ok { evaluation with text := trimText text } := by
  obtain ⟨expr, parsed, few, tabulated⟩ := evaluate_eq_ok_iff.mp accepted
  obtain ⟨tokens, read, ofTokens⟩ := bind_eq_ok_iff.mp parsed
  obtain ⟨others, othersRead, kinds⟩ := exists_tokenizeFrom_trimBlanks read 0
  have alike := ofTokens_eq_of_kinds limits.nesting kinds
  rw [ofTokens] at alike
  have othersOfTokens : Expr.ofTokens limits.nesting others = .ok expr :=
    mapError_eq_ok_iff.mp alike
  refine evaluate_eq_ok_iff.mpr ⟨expr, bind_eq_ok_iff.mpr ⟨others, ?_, othersOfTokens⟩, few,
    tabulate_text (trimText text) tabulated⟩
  rw [tokenize, trimText, String.toList_ofList, othersRead]

/-- Something is left of an accepted text without the blanks at its ends. -/
theorem trimBlanks_ne_nil_of_evaluate (accepted : evaluate limits text = .ok evaluation) :
    trimBlanks text.toList ≠ [] := by
  intro nothing
  obtain ⟨tokens, read, nonempty⟩ := exists_tokens_of_evaluate accepted
  obtain ⟨others, othersRead, kinds⟩ := exists_tokenizeFrom_trimBlanks read 0
  rw [nothing, tokenizeFrom] at othersRead
  cases othersRead
  exact nonempty (List.map_eq_nil_iff.mp kinds.symm)

/-- The marks of a line are not in an accepted text without the blanks at its ends. -/
theorem not_mem_trimBlanks_of_evaluate (accepted : evaluate limits text = .ok evaluation)
    (refused : NoRuleTakes character) (ends : isNameRest character = false) :
    character ∉ trimBlanks text.toList := by
  obtain ⟨tokens, read, _⟩ := exists_tokens_of_evaluate accepted
  obtain ⟨others, othersRead, _⟩ := exists_tokenizeFrom_trimBlanks read 0
  exact not_mem_of_tokenizeFrom refused ends othersRead

end Accepted

/-! ### What a line asks for -/

section Lines

variable {limits : Limits} {line before : List Char}

theorem ne_equals_of_not_mem (single : '=' ∉ line) :
    ∀ character ∈ line, decide (character ≠ '=') = true := by
  intro character member
  exact decide_eq_true (ne_of_mem_of_not_mem member single)

/-- A line without `=` has no label. -/
theorem splitLabel_of_not_mem (single : '=' ∉ line) :
    splitLabel line = (none, String.ofList line) := by
  rw [splitLabel, List.dropWhile_eq_nil_iff.mpr (ne_equals_of_not_mem single)]

/-- A label ends at the first `=`. -/
theorem splitLabel_append (single : '=' ∉ before) (nonempty : trimBlanks before ≠ [])
    (after : List Char) : splitLabel (before ++ '=' :: after) =
      (some (String.ofList (trimBlanks before)), String.ofList (trimBlanks after)) := by
  have others := ne_equals_of_not_mem single
  rw [splitLabel, List.dropWhile_append_of_pos others, List.takeWhile_append_of_pos others,
    List.dropWhile_cons_of_neg (by decide), List.takeWhile_cons_of_neg (by decide),
    List.append_nil]
  simp [nonempty]

/-- A line that is neither blank nor a comment asks for the evaluation of what follows its label. -/
theorem readLine_of_trimBlanks {number : Nat} {text : String} (trim : trimBlanks text.toList = line)
    (nonempty : line ≠ []) (noComment : line.head? ≠ some '#') :
    readLine limits number text = some ⟨number, (splitLabel line).1, (splitLabel line).2,
      evaluate limits (splitLabel line).2⟩ := by
  unfold readLine
  rw [trim]
  split
  · exact absurd rfl nonempty
  · exact absurd rfl noComment
  · rfl

end Lines

/-! ### A line in a sheet -/

/-- The bytes of a text. -/
def utf8Bytes (text : String) : List UInt8 := text.toUTF8.data.toList

theorem toByteArray_utf8Bytes (text : String) : (utf8Bytes text).toByteArray = text.toUTF8 :=
  ByteArray.ext (by rw [List.data_toByteArray, utf8Bytes, Array.toArray_toList])

theorem decoded_utf8Bytes (text : String) : decoded (utf8Bytes text) = text := by
  have same : String.fromUTF8? text.toUTF8 = some text := dif_pos text.isValidUTF8
  rw [decoded, toByteArray_utf8Bytes, same]
  rfl

theorem lineFeed_not_mem_utf8Bytes {text : String} (single : '\n' ∉ text.toList) :
    lineFeed ∉ utf8Bytes text := by
  have encoded : utf8Bytes text = text.toList.flatMap String.utf8EncodeChar := by
    rw [utf8Bytes, String.toUTF8, ← String.utf8Encode_toList, List.utf8Encode,
      List.data_toByteArray]
  rw [encoded, List.mem_flatMap]
  rintro ⟨character, member, byte⟩
  rw [eq_of_lineFeed_mem byte] at member
  exact single member

/-- **The line has one entry**, wherever it stands: between whole lines and the rest of a sheet, it
adds an entry with the number of the line to those before and after it, which are further down by
the lines above them. -/
def HasOneEntry (limits : Limits) (line : String) (label? : Option String) (expression : String)
    (outcome : Except Failure Evaluation) : Prop :=
  ∀ (sheet more : List UInt8) (first second : List SheetEntry), WholeLines sheet →
    (more = [] ∨ more.head? = some lineFeed) → readSheet limits sheet = .ok first →
    readSheet limits more = .ok second →
    readSheet limits (sheet ++ utf8Bytes line ++ more) =
      .ok (first ++ ⟨sheet.count lineFeed + 1, label?, expression, outcome⟩ ::
        second.map (.down (sheet.count lineFeed)))

section Sheet

variable {limits : Limits}

theorem entriesFrom_cons_of_some {start : Nat} {text : String} {entry : SheetEntry}
    (asks : readLine limits start text = some entry) (texts : List String) :
    entriesFrom limits start (text :: texts) = entry :: entriesFrom limits (start + 1) texts :=
  List.filterMap_cons_some asks

theorem entriesFrom_cons_of_none {start : Nat} {text : String}
    (nothing : readLine limits start text = none) (texts : List String) :
    entriesFrom limits start (text :: texts) = entriesFrom limits (start + 1) texts :=
  List.filterMap_cons_none nothing

/-- A line goes as far as the first line feed behind it. -/
theorem exists_splitLines_append {line more : List UInt8} (single : lineFeed ∉ line)
    (ended : more = [] ∨ more.head? = some lineFeed) :
    ∃ later, splitLines (line ++ more) = line :: later ∧ splitLines more = [] :: later := by
  rcases ended with rfl | ended
  · exact ⟨[], by rw [List.append_nil, splitLines_of_not_mem single], rfl⟩
  · obtain ⟨others, rfl⟩ := List.head?_eq_some_iff.mp ended
    refine ⟨splitLines others, ?_, ?_⟩
    · rw [splitLines_append_lineFeed, splitLines_of_not_mem single]
      rfl
    · exact splitLines_append_lineFeed [] others

/-- A line that asks for an evaluation under every number has one entry. -/
theorem hasOneEntry_of_readLine {line expression : String} {label? : Option String}
    {outcome : Except Failure Evaluation} (single : '\n' ∉ line.toList)
    (asks : ∀ number, readLine limits number line = some ⟨number, label?, expression, outcome⟩) :
    HasOneEntry limits line label? expression outcome := by
  intro sheet more first second whole ended firstRead secondRead
  obtain ⟨firstValid, rfl⟩ := readSheet_eq_ok_iff.mp firstRead
  obtain ⟨secondValid, rfl⟩ := readSheet_eq_ok_iff.mp secondRead
  obtain ⟨lines, length, alone, split⟩ := exists_lines whole
  obtain ⟨later, here, below⟩ := exists_splitLines_append (lineFeed_not_mem_utf8Bytes single) ended
  simp only [← mem_splitLines_iff, alone, below] at firstValid secondValid
  refine readSheet_eq_ok_iff.mpr ⟨?_, ?_⟩
  · simp only [← mem_splitLines_iff, List.append_assoc, split, here]
    refine List.forall_mem_append.mpr
      ⟨fun line member => firstValid line (List.mem_append_left _ member), ?_⟩
    refine List.forall_mem_cons.mpr ⟨?_, (List.forall_mem_cons.mp secondValid).2⟩
    rw [toByteArray_utf8Bytes]
    exact line.isValidUTF8
  · -- Alone, what follows starts with an empty line, which says nothing but is counted.
    have rest : entriesFrom limits 1 (([] :: later).map decoded) =
        entriesFrom limits 2 (later.map decoded) :=
      entriesFrom_cons_of_none rfl _
    have behind : 1 + lines.length + 1 = 2 + sheet.count lineFeed := by omega
    rw [List.append_assoc, split, here, alone, below, rest, List.map_append, List.map_append,
      entriesFrom_append, entriesFrom_append, List.map_singleton, entriesFrom_empty,
      List.append_nil, List.map_cons, List.length_map, decoded_utf8Bytes,
      entriesFrom_cons_of_some (asks _), behind, entriesFrom_add, length, Nat.add_comm 1]

end Sheet

section Labels

variable {limits : Limits} {text : String} {evaluation : Evaluation}

/-- A line with an accepted text and blanks around it. -/
theorem readLine_of_evaluate (accepted : evaluate limits text = .ok evaluation) {line : String}
    (trim : trimBlanks line.toList = trimBlanks text.toList) (number : Nat) :
    readLine limits number line =
      some ⟨number, none, trimText text, .ok { evaluation with text := trimText text }⟩ := by
  have noComment : (trimBlanks text.toList).head? ≠ some '#' := fun starts =>
    not_mem_trimBlanks_of_evaluate accepted noRuleTakes_hash rfl (List.mem_of_head? starts)
  have noLabel := not_mem_trimBlanks_of_evaluate accepted noRuleTakes_equals rfl
  rw [readLine_of_trimBlanks trim (trimBlanks_ne_nil_of_evaluate accepted) noComment,
    splitLabel_of_not_mem noLabel]
  show some (SheetEntry.mk number none (trimText text) (evaluate limits (trimText text))) = _
  rw [evaluate_trimText accepted]

/-- A line with an accepted text behind a label. -/
theorem readLine_label_of_evaluate (accepted : evaluate limits text = .ok evaluation)
    {label : String} (single : '=' ∉ label.toList) (named : trimText label ≠ "")
    (noComment : (trimText label).toList.head? ≠ some '#') (number : Nat) :
    readLine limits number (label ++ "=" ++ text) = some ⟨number, some (trimText label),
      trimText text, .ok { evaluation with text := trimText text }⟩ := by
  rw [trimText, String.toList_ofList] at noComment
  have labelLeft : trimBlanks label.toList ≠ [] := by
    intro nothing
    exact named (congrArg String.ofList nothing)
  -- Only the outer blanks go with the ends of the line; `splitLabel` removes those beside the `=`.
  obtain ⟨before, after, trim, beforeTrim, afterTrim, within, starts⟩ :=
    exists_trimBlanks_append labelLeft (trimBlanks_ne_nil_of_evaluate accepted) ['=']
  have trimLine : trimBlanks (label ++ "=" ++ text).toList = before ++ '=' :: after := by
    rw [String.toList_append, String.toList_append, List.append_cons]
    exact trim
  have beforeLeft : trimBlanks before ≠ [] := by
    rw [beforeTrim]
    exact labelLeft
  have lineHead : (before ++ '=' :: after).head? = before.head? := by
    refine List.head?_append_of_ne_nil _ ?_
    rintro rfl
    exact beforeLeft rfl
  rw [← starts, ← lineHead] at noComment
  rw [readLine_of_trimBlanks trimLine (by simp) noComment,
    splitLabel_append (fun member => single (within member)) beforeLeft, beforeTrim, afterTrim]
  show some (SheetEntry.mk number (some (trimText label)) (trimText text)
    (evaluate limits (trimText text))) = _
  rw [evaluate_trimText accepted]

end Labels

/-- **The lines of an accepted text.** A text without line feeds that has an evaluation makes a line
with one entry, with no label; blanks around it make no difference. Behind a label and `=` it makes a
line with one entry too, if there is something in the label other than blanks, no `=` in it, and no
`#` in front. The expression of the entry is the text without the blanks at its ends, and its outcome
the evaluation of the text, but for the text that this repeats. -/
theorem hasOneEntry_of_evaluate {limits : Limits} {text : String} {evaluation : Evaluation}
    (accepted : evaluate limits text = .ok evaluation) (single : '\n' ∉ text.toList) :
    (∀ before after : String,
      (∀ character ∈ before.toList, isBlank character = true ∧ character ≠ '\n') →
      (∀ character ∈ after.toList, isBlank character = true ∧ character ≠ '\n') →
      HasOneEntry limits (before ++ text ++ after) none (trimText text)
        (.ok { evaluation with text := trimText text })) ∧
    ∀ label : String, '\n' ∉ label.toList → '=' ∉ label.toList → trimText label ≠ "" →
      (trimText label).toList.head? ≠ some '#' →
      HasOneEntry limits (label ++ "=" ++ text) (some (trimText label)) (trimText text)
        (.ok { evaluation with text := trimText text }) := by
  constructor
  · intro before after beforeBlank afterBlank
    refine hasOneEntry_of_readLine ?_ (readLine_of_evaluate accepted ?_)
    · simp only [String.toList_append, List.mem_append, not_or]
      exact ⟨⟨fun member => (beforeBlank _ member).2 rfl, single⟩,
        fun member => (afterBlank _ member).2 rfl⟩
    · rw [String.toList_append, String.toList_append]
      exact trimBlanks_append_blanks _ (fun character member => (beforeBlank character member).1)
        fun character member => (afterBlank character member).1
  · intro label labelSingle noEquals named noComment
    refine hasOneEntry_of_readLine ?_ (readLine_label_of_evaluate accepted noEquals named noComment)
    simp only [String.toList_append, List.mem_append, not_or]
    exact ⟨⟨labelSingle, by decide⟩, single⟩

/-- The lines of ` a'` with a carriage return at the end, after a tab and behind a label. -/
theorem hasOneEntry_of_evaluate_carriage_return :
    ∃ evaluation, evaluate .standard " a'\r" = .ok evaluation ∧ evaluation.names = ["a"] ∧
      HasOneEntry .standard "\t a'\r" none "a'" (.ok { evaluation with text := "a'" }) ∧
      HasOneEntry .standard "f = a'\r" (some "f") "a'" (.ok { evaluation with text := "a'" }) := by
  have evaluated : (evaluate .standard " a'\r").map Evaluation.names = .ok ["a"] := by cbv
  obtain ⟨evaluation, accepted, names⟩ := map_eq_ok_iff.mp evaluated
  obtain ⟨alone, labelled⟩ := hasOneEntry_of_evaluate accepted (by decide)
  have text : trimText " a'\r" = "a'" := by decide
  have label : trimText "f " = "f" := by decide
  refine ⟨evaluation, accepted, names, ?_, ?_⟩
  · have entry := alone "\t" "" (by simp [isBlank, inRanges, blankRanges]) (by simp)
    rw [text] at entry
    exact entry
  · have entry := labelled "f " (by decide) (by decide) (by decide) (by decide)
    rw [text, label] at entry
    exact entry

end TwoLevel
