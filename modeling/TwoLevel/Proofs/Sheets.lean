/-
**Sheets put together.**

The lines of two sheets, one below the other, are the lines of the one and then those of the other,
if the first ends with a line feed or is empty. Every line is read by itself: what it says depends
on no other line, and its number is only written down. So the entries of the whole are those of the
two sheets, further down by as many lines as the first has; and one line that is not UTF-8 text, whatever
it says, leaves the whole without entries.

* `IsLine` — a line of some bytes: a stretch without line feeds between two of them or the ends;
* `splitLines_append_lineFeed`, `mem_splitLines_iff` — a sheet is read in its lines;
* `readSheet_cases` — **when a sheet has entries, and which**;
* `isValidUTF8_line` — the lines of a text are texts, since only the line feed has its byte;
* `readSheet_append` — **the entries of two sheets put together**.
-/

import Mathlib
import TwoLevel.Proofs.Chains
import TwoLevel.Sheet

namespace TwoLevel

/-! ### Lines -/

section Lines

variable {line bytes before after : List UInt8}

/-- The byte between two lines. -/
abbrev lineFeed : UInt8 := 10

/-- The bytes make up whole lines: they end with a line feed, unless there are none. -/
def WholeLines (bytes : List UInt8) : Prop := bytes = [] ∨ bytes.getLast? = some lineFeed

/-- The stretch is a line of the bytes: it has no line feed, and stands between two line feeds or
the ends of the bytes. -/
def IsLine (line bytes : List UInt8) : Prop :=
  lineFeed ∉ line ∧ ∃ before after, bytes = before ++ line ++ after ∧ WholeLines before ∧
    (after = [] ∨ after.head? = some lineFeed)

theorem splitLines_of_not_mem (single : lineFeed ∉ line) : splitLines line = [line] := by
  induction line with
  | nil => rfl
  | cons byte rest ih =>
    rw [List.mem_cons, not_or] at single
    rw [splitLines, if_neg (Ne.symm single.1), ih single.2]

/-- A line feed ends the lines before it and starts those after it. -/
theorem splitLines_append_lineFeed (before after : List UInt8) :
    splitLines (before ++ lineFeed :: after) = splitLines before ++ splitLines after := by
  induction before with
  | nil => rfl
  | cons byte rest ih =>
    rw [List.cons_append, splitLines, splitLines, ih]
    split
    · rfl
    · cases split : splitLines rest with
      | nil => exact absurd split (splitLines_ne_nil rest)
      | cons first others => rfl

theorem length_splitLines (bytes : List UInt8) :
    (splitLines bytes).length = bytes.count lineFeed + 1 := by
  induction bytes with
  | nil => rfl
  | cons byte rest ih =>
    rw [splitLines, List.count_cons]
    split
    · next same => simp [same, ih]
    · next other =>
      cases split : splitLines rest with
      | nil => exact absurd split (splitLines_ne_nil rest)
      | cons first others =>
        rw [split] at ih
        simpa [other] using ih

/-- Bytes that make up whole lines are read in as many lines as they have line feeds, before the lines
of what follows; alone, they have an empty line behind the last line feed. -/
theorem exists_lines (whole : WholeLines bytes) :
    ∃ lines, lines.length = bytes.count lineFeed ∧ splitLines bytes = lines ++ [[]] ∧
      ∀ more, splitLines (bytes ++ more) = lines ++ splitLines more := by
  rcases whole with rfl | ended
  · exact ⟨[], rfl, rfl, fun more => rfl⟩
  · obtain ⟨before, rfl⟩ := List.getLast?_eq_some_iff.mp ended
    refine ⟨splitLines before, ?_, splitLines_append_lineFeed before [], fun more => ?_⟩
    · rw [length_splitLines, List.count_append]
      rfl
    · rw [List.append_assoc]
      exact splitLines_append_lineFeed before more

/-- A line of a part is a line of the whole. -/
theorem IsLine.append_right (isLine : IsLine line before) (after : List UInt8) :
    IsLine line (before ++ lineFeed :: after) := by
  obtain ⟨single, first, last, rfl, whole, ended⟩ := isLine
  refine ⟨single, first, last ++ lineFeed :: after, by simp, whole, .inr ?_⟩
  rcases ended with rfl | ended
  · rfl
  · simp [ended]

theorem IsLine.append_left (isLine : IsLine line after) (before : List UInt8) :
    IsLine line (before ++ lineFeed :: after) := by
  obtain ⟨single, first, last, rfl, whole, ended⟩ := isLine
  refine ⟨single, before ++ lineFeed :: first, last, by simp, .inr ?_, ended⟩
  rcases whole with rfl | whole
  · simp
  · simp [List.getLast?_cons, whole]

/-- **A sheet is read in its lines.** -/
theorem mem_splitLines_iff : line ∈ splitLines bytes ↔ IsLine line bytes := by
  constructor
  · -- Any line feed cuts the bytes into two shorter stretches.
    intro member
    induction length : bytes.length using Nat.strongRecOn generalizing bytes with
    | _ count ih =>
      by_cases several : lineFeed ∈ bytes
      · obtain ⟨before, after, rfl⟩ := List.append_of_mem several
        rw [splitLines_append_lineFeed, List.mem_append] at member
        rw [List.length_append, List.length_cons] at length
        rcases member with earlier | later
        · exact (ih _ (by omega) earlier rfl).append_right after
        · exact (ih _ (by omega) later rfl).append_left before
      · rw [splitLines_of_not_mem several, List.mem_singleton] at member
        subst member
        exact ⟨several, [], [], by simp, .inl rfl, .inl rfl⟩
  · rintro ⟨single, before, after, rfl, whole, ended⟩
    obtain ⟨lines, _, _, split⟩ := exists_lines whole
    rw [List.append_assoc, split]
    refine List.mem_append_right _ ?_
    rcases ended with rfl | ended
    · rw [List.append_nil, splitLines_of_not_mem single]
      exact List.mem_singleton_self line
    · obtain ⟨others, rfl⟩ := List.head?_eq_some_iff.mp ended
      rw [splitLines_append_lineFeed, splitLines_of_not_mem single]
      exact List.mem_append_left _ (List.mem_singleton_self line)

end Lines

/-! ### Texts and entries -/

section Entries

variable {limits : Limits}

/-- The text of a line, if it is one. -/
def decoded (line : List UInt8) : String := (String.fromUTF8? line.toByteArray).getD ""

/-- Lines are decoded all together or not at all. -/
theorem mapM_decodeText (lines : List (List UInt8)) :
    (∀ line ∈ lines, line.toByteArray.IsValidUTF8) ∧
        lines.mapM decodeText = .ok (lines.map decoded) ∨
      (∃ line ∈ lines, ¬line.toByteArray.IsValidUTF8) ∧ lines.mapM decodeText = .error .notText := by
  induction lines with
  | nil => exact .inl ⟨fun _ member => (nomatch member), rfl⟩
  | cons line rest ih =>
    rw [List.mapM_cons]
    by_cases valid : line.toByteArray.IsValidUTF8
    · have text : decodeText line = .ok (decoded line) := by
        simp [decodeText, decoded, String.fromUTF8?, valid]
      rw [text]
      rcases ih with ⟨all, texts⟩ | ⟨⟨other, member, invalid⟩, error⟩
      · refine .inl ⟨List.forall_mem_cons.mpr ⟨valid, all⟩, ?_⟩
        rw [texts]
        rfl
      · refine .inr ⟨⟨other, List.mem_cons_of_mem _ member, invalid⟩, ?_⟩
        rw [error]
        rfl
    · have error : decodeText line = .error .notText := by
        simp [decodeText, String.fromUTF8?, valid]
      refine .inr ⟨⟨line, List.mem_cons_self, valid⟩, ?_⟩
      rw [error]
      rfl

/-- The entries of the texts of lines that are numbered from a start on. -/
def entriesFrom (limits : Limits) (start : Nat) (texts : List String) : List SheetEntry :=
  (texts.zipIdx start).filterMap fun (text, number) => readLine limits number text

/-- The entry so many lines further down. -/
def SheetEntry.down (count : Nat) (entry : SheetEntry) : SheetEntry :=
  { entry with line := entry.line + count }

theorem entriesFrom_append (start : Nat) (first second : List String) :
    entriesFrom limits start (first ++ second) =
      entriesFrom limits start first ++ entriesFrom limits (start + first.length) second := by
  unfold entriesFrom
  rw [List.zipIdx_append, List.filterMap_append]

/-- What a line says does not depend on its number. -/
theorem readLine_add (number count : Nat) (text : String) :
    readLine limits (number + count) text = (readLine limits number text).map (.down count) := by
  unfold readLine
  split <;> rfl

theorem entriesFrom_add (start count : Nat) (texts : List String) :
    entriesFrom limits (start + count) texts = (entriesFrom limits start texts).map (.down count) := by
  unfold entriesFrom
  induction texts generalizing start with
  | nil => rfl
  | cons text rest ih =>
    rw [List.zipIdx_cons, List.zipIdx_cons, List.filterMap_cons, List.filterMap_cons]
    simp only [readLine_add]
    have later := ih (start + 1)
    rw [Nat.add_right_comm] at later
    cases readLine limits start text with
    | none => exact later
    | some entry => exact congrArg (entry.down count :: ·) later

/-- The text behind the last line feed of whole lines says nothing. -/
theorem entriesFrom_empty (start : Nat) : entriesFrom limits start [decoded []] = [] := rfl

/-- **When a sheet has entries, and which.** All of its lines are UTF-8 text, and the entries are
those of their texts; or one of them is not, and there are none. -/
theorem readSheet_cases (limits : Limits) (bytes : List UInt8) :
    (∀ line, IsLine line bytes → line.toByteArray.IsValidUTF8) ∧
        readSheet limits bytes = .ok (entriesFrom limits 1 ((splitLines bytes).map decoded)) ∨
      (∃ line, IsLine line bytes ∧ ¬line.toByteArray.IsValidUTF8) ∧
        readSheet limits bytes = .error .notText := by
  unfold readSheet
  simp only [← mem_splitLines_iff]
  rcases mapM_decodeText (splitLines bytes) with ⟨all, texts⟩ | ⟨invalid, error⟩
  · rw [texts]
    exact .inl ⟨all, rfl⟩
  · rw [error]
    exact .inr ⟨invalid, rfl⟩

theorem readSheet_eq_error_iff {bytes : List UInt8} :
    readSheet limits bytes = .error .notText ↔
      ∃ line, IsLine line bytes ∧ ¬line.toByteArray.IsValidUTF8 := by
  rcases readSheet_cases limits bytes with ⟨all, read⟩ | ⟨invalid, error⟩
  · rw [read]
    exact iff_of_false (nomatch ·) fun ⟨line, isLine, invalid⟩ => invalid (all line isLine)
  · exact iff_of_true error invalid

theorem readSheet_eq_ok_iff {bytes : List UInt8} {entries : List SheetEntry} :
    readSheet limits bytes = .ok entries ↔
      (∀ line, IsLine line bytes → line.toByteArray.IsValidUTF8) ∧
        entries = entriesFrom limits 1 ((splitLines bytes).map decoded) := by
  rcases readSheet_cases limits bytes with ⟨all, read⟩ | ⟨⟨line, isLine, invalid⟩, error⟩
  · rw [read, Except.ok.injEq]
    exact ⟨fun same => ⟨all, same.symm⟩, fun same => same.2.symm⟩
  · rw [error]
    exact iff_of_false (nomatch ·) fun valid => invalid (valid.1 line isLine)

end Entries

/-! ### Sheets that are text -/

section Text

theorem ofNat_eq_lineFeed_iff {number : Nat} :
    UInt8.ofNat number = lineFeed ↔ number % 256 = 10 := by
  rw [← UInt8.toNat_inj, UInt8.toNat_ofNat']
  rfl

/-- Only the line feed is encoded with the byte of a line feed. -/
theorem eq_of_lineFeed_mem {character : Char}
    (member : lineFeed ∈ String.utf8EncodeChar character) : character = '\n' := by
  refine Char.ext (UInt32.toNat_inj.mp ?_)
  show character.val.toNat = 10
  unfold String.utf8EncodeChar at member
  simp only at member
  split_ifs at member <;>
    simp only [List.mem_cons, List.not_mem_nil, or_false, eq_comm (a := lineFeed),
      ofNat_eq_lineFeed_iff] at member <;> omega

/-- Characters that encode a line feed between two stretches encode each stretch. -/
theorem exists_encoded {characters : List Char} {before after : List UInt8}
    (encoded : characters.flatMap String.utf8EncodeChar = before ++ lineFeed :: after) :
    ∃ first last, before = List.flatMap String.utf8EncodeChar first ∧
      after = List.flatMap String.utf8EncodeChar last := by
  induction characters generalizing before with
  | nil => exact absurd encoded.symm (by simp)
  | cons character rest ih =>
    rw [List.flatMap_cons, List.append_eq_append_iff] at encoded
    rcases encoded with ⟨middle, rfl, restEq⟩ | ⟨middle, here, later⟩
    · obtain ⟨first, last, rfl, rfl⟩ := ih restEq
      exact ⟨character :: first, last, rfl, rfl⟩
    · cases middle with
      | nil =>
        rw [List.append_nil] at here
        have ahead : rest.flatMap String.utf8EncodeChar = [] ++ lineFeed :: after := later.symm
        obtain ⟨first, last, firstEq, rfl⟩ := ih ahead
        exact ⟨[character], last, by simp [here], rfl⟩
      | cons byte bytes =>
        cases later
        have lineBreak : character = '\n' := by
          refine eq_of_lineFeed_mem ?_
          rw [here]
          simp
        subst lineBreak
        have alone : before = [] ∧ bytes = [] := by
          have length := congrArg List.length here
          rw [List.length_append, List.length_cons] at length
          have one : (String.utf8EncodeChar '\n').length = 1 := rfl
          exact ⟨List.length_eq_zero_iff.mp (by omega), List.length_eq_zero_iff.mp (by omega)⟩
        obtain ⟨rfl, rfl⟩ := alone
        exact ⟨[], rest, rfl, rfl⟩

/-- **The lines of a text are texts.** -/
theorem isValidUTF8_line {bytes line : List UInt8} (valid : bytes.toByteArray.IsValidUTF8)
    (isLine : IsLine line bytes) : line.toByteArray.IsValidUTF8 := by
  obtain ⟨characters, encoded⟩ := valid
  obtain ⟨_, before, after, rfl, whole, ended⟩ := isLine
  have encoded : characters.flatMap String.utf8EncodeChar = before ++ line ++ after := by
    rw [List.utf8Encode] at encoded
    exact (List.toByteArray_inj.mp encoded).symm
  -- what stands before the line feed behind the line, and then after the one before it
  have front : ∃ first, before ++ line = List.flatMap String.utf8EncodeChar first := by
    rcases ended with rfl | ended
    · exact ⟨characters, by rw [encoded, List.append_nil]⟩
    · obtain ⟨others, rfl⟩ := List.head?_eq_some_iff.mp ended
      obtain ⟨first, _, same, _⟩ := exists_encoded encoded
      exact ⟨first, same⟩
  obtain ⟨first, frontEq⟩ := front
  rcases whole with rfl | whole
  · exact ⟨first, congrArg List.toByteArray frontEq⟩
  · obtain ⟨earlier, rfl⟩ := List.getLast?_eq_some_iff.mp whole
    rw [List.append_assoc] at frontEq
    obtain ⟨_, last, _, same⟩ := exists_encoded frontEq.symm
    exact ⟨last, congrArg List.toByteArray same⟩

/-- **A sheet that is text has entries.** -/
theorem exists_readSheet_of_isValidUTF8 (limits : Limits) {bytes : List UInt8}
    (valid : bytes.toByteArray.IsValidUTF8) : ∃ entries, readSheet limits bytes = .ok entries :=
  ⟨_, readSheet_eq_ok_iff.mpr ⟨fun _ isLine => isValidUTF8_line valid isLine, rfl⟩⟩

end Text

/-! ### Two sheets -/

section Together

variable {limits : Limits} {sheet more : List UInt8}

/-- What holds of the empty line holds of all lines of two sheets together just where it holds of all
lines of each: nothing is lost but the empty line behind the last line feed of the first. -/
theorem forall_isLine_append_iff (whole : WholeLines sheet) {holds : List UInt8 → Prop}
    (empty : holds []) :
    (∀ line, IsLine line (sheet ++ more) → holds line) ↔
      (∀ line, IsLine line sheet → holds line) ∧ ∀ line, IsLine line more → holds line := by
  obtain ⟨lines, _, alone, split⟩ := exists_lines whole
  simp only [← mem_splitLines_iff, alone, split, List.forall_mem_append, List.forall_mem_singleton]
  exact and_congr_left fun _ => (and_iff_left empty).symm

/-- The entries of two sheets together are those of the one and then those of the other. -/
theorem entriesFrom_splitLines_append (whole : WholeLines sheet) :
    entriesFrom limits 1 ((splitLines (sheet ++ more)).map decoded) =
      entriesFrom limits 1 ((splitLines sheet).map decoded) ++
        (entriesFrom limits 1 ((splitLines more).map decoded)).map
          (.down (sheet.count lineFeed)) := by
  obtain ⟨lines, length, alone, split⟩ := exists_lines whole
  rw [split, alone, List.map_append, List.map_append, entriesFrom_append, entriesFrom_append,
    List.length_map, length, entriesFrom_add, List.map_singleton, entriesFrom_empty, List.append_nil]

end Together

/-- **The entries of two sheets put together.** If the first sheet is empty or ends with a line feed
and both have entries, the two together have the entries of the first and then those of the second,
these further down by the number of line feeds in the first and else unchanged. The two together
have no entries exactly if some line of either is not UTF-8 text. -/
theorem readSheet_append {limits : Limits} {sheet : List UInt8} (whole : WholeLines sheet)
    (more : List UInt8) :
    (∀ first second, readSheet limits sheet = .ok first → readSheet limits more = .ok second →
      readSheet limits (sheet ++ more) =
        .ok (first ++ second.map (SheetEntry.down (sheet.count lineFeed)))) ∧
    (readSheet limits (sheet ++ more) = .error .notText ↔
      ∃ line, (IsLine line sheet ∨ IsLine line more) ∧ ¬line.toByteArray.IsValidUTF8) := by
  have lines : (∀ line, IsLine line (sheet ++ more) → line.toByteArray.IsValidUTF8) ↔
      (∀ line, IsLine line sheet → line.toByteArray.IsValidUTF8) ∧
        ∀ line, IsLine line more → line.toByteArray.IsValidUTF8 :=
    forall_isLine_append_iff whole ByteArray.isValidUTF8_empty
  constructor
  · intro first second firstRead secondRead
    obtain ⟨firstValid, rfl⟩ := readSheet_eq_ok_iff.mp firstRead
    obtain ⟨secondValid, rfl⟩ := readSheet_eq_ok_iff.mp secondRead
    refine readSheet_eq_ok_iff.mpr ⟨?_, (entriesFrom_splitLines_append whole).symm⟩
    exact lines.mpr ⟨firstValid, secondValid⟩
  · rw [readSheet_eq_error_iff]
    have invalid := not_congr lines
    simp only [not_and_or, not_forall, exists_prop, ← exists_or, ← or_and_right] at invalid
    exact invalid

/-- A comment and an expression, then a blank line and one with a label: the second entry is found
two lines further down than in its own sheet. A comment that is not UTF-8 text leaves the whole
without entries. -/
theorem readSheet_append_comment :
    (∃ entries, readSheet .standard ([35, 10, 65, 10] ++ [13, 10, 66, 61, 48]) = .ok entries ∧
      entries.map (fun entry => (entry.line, entry.label?, entry.expression)) =
        [(2, none, "A"), (4, some "B", "0")]) ∧
    readSheet .standard ([35, 10, 65, 10] ++ [35, 255]) = .error .notText := by
  have whole : WholeLines [35, 10, 65, 10] := .inr rfl
  let shown (entry : SheetEntry) := (entry.line, entry.label?, entry.expression)
  have firstEntries : (readSheet .standard [35, 10, 65, 10]).map (List.map shown) =
      .ok [(2, none, "A")] := by
    cbv
  have secondEntries : (readSheet .standard [13, 10, 66, 61, 48]).map (List.map shown) =
      .ok [(2, some "B", "0")] := by
    cbv
  obtain ⟨first, firstRead, firstShown⟩ := map_eq_ok_iff.mp firstEntries
  obtain ⟨second, secondRead, secondShown⟩ := map_eq_ok_iff.mp secondEntries
  obtain ⟨joined, _⟩ := readSheet_append whole [13, 10, 66, 61, 48]
  obtain ⟨_, invalid⟩ := readSheet_append whole [35, 255]
  refine ⟨⟨_, joined first second firstRead secondRead, ?_⟩, invalid.mpr ⟨[35, 255], .inr ?_, ?_⟩⟩
  · have moved : (second.map (SheetEntry.down 2)).map shown =
        (second.map shown).map fun parts => (parts.1 + 2, parts.2) := by
      rw [List.map_map, List.map_map]
      rfl
    show (first ++ second.map (SheetEntry.down 2)).map shown = _
    rw [List.map_append, firstShown, moved, secondShown]
    rfl
  · exact mem_splitLines_iff.mp (by decide)
  · decide

end TwoLevel
