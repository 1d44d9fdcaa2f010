/-
**All channels of the program agree.**

A text can be given as an argument, behind `--`, or on standard input with any line breaks after it;
the response can be printed or written to a file. Whatever the way, the same response is delivered,
and the exit code says whether everything in it was evaluated, also for the entries of a sheet.

* `formatOf`, `limitsOf` — what options ask for, wherever they stand;
* `Carries` — the ways in which arguments carry a text or a sheet to the program;
* `run_of_carries` — every way leads to the same response;
* `Reaches` — the response is printed, or written to a file if one is named;
* `channels_agree` — **the response to a text and to a sheet, by every channel**.
-/

import TwoLevel.CommandLine.Run
import TwoLevel.Proofs.Arguments
import TwoLevel.Proofs.Sheets
import TwoLevel.Proofs.Stretches

namespace TwoLevel.CommandLine

/-! ### Settings -/

/-- The format that the parts ask for. -/
def formatOf (parts : Parts) : Format :=
  ((parts.lookup (.setting .format)).bind readFormat?).getD .text

/-- The limits that the parts ask for. -/
def limitsOf (parts : Parts) : Limits where
  variableCount := ((parts.lookup (.setting .maxVariables)).bind readNumber?).getD mostVariables
  nesting := ((parts.lookup (.setting .maxDepth)).bind readNumber?).getD defaultNesting

/-- Where the parts find the expressions. -/
def sourceOf (parts : Parts) : Source :=
  match parts.lookup .expression, parts.lookup (.setting .file) with
  | some text, _ => .argument text
  | none, some path => .sheet path
  | none, none => .standardInput

section Settings

variable {parts before after : Parts} {part : Part} {value : String} {arguments : List String}

/-- One more part may stand anywhere. -/
theorem Accepted.insert (accepted : Accepted (before ++ after))
    (fresh : part ∉ (before ++ after).map Prod.fst) (accepts : part.accepts value) :
    Accepted (before ++ (part, value) :: after) := by
  have moved : (before ++ (part, value) :: after).Perm ((part, value) :: (before ++ after)) :=
    List.perm_middle
  constructor
  · rw [(moved.map Prod.fst).nodup_iff, List.map_cons, List.nodup_cons]
    exact ⟨fresh, accepted.nodup⟩
  · intro entry member
    rcases List.mem_cons.mp (moved.mem_iff.mp member) with rfl | old
    · exact accepts
    · exact accepted.accepts entry old

/-- A path that is given is what it says. -/
theorem Accepted.bind_readPath? (accepted : Accepted parts) {setting : Setting}
    (isPath : setting = .file ∨ setting = .outFile) :
    (parts.lookup (.setting setting)).bind readPath? = parts.lookup (.setting setting) := by
  cases found : parts.lookup (.setting setting) with
  | none => rfl
  | some path =>
    obtain ⟨first, last, rfl, _⟩ := List.lookup_eq_some_iff.mp found
    have accepts := accepted.accepts (.setting setting, path) (by simp)
    rcases isPath with rfl | rfl <;> exact readPath?_of_ne accepts

/-- **The settings are looked up in the parts**, unless an expression and a sheet are both named. -/
theorem ofGiven_ofParts (accepted : Accepted parts)
    (single : parts.lookup .expression = none ∨ parts.lookup (.setting .file) = none) :
    Settings.ofGiven (.ofParts parts) = .ok ⟨sourceOf parts, formatOf parts, limitsOf parts,
      parts.lookup (.setting .outFile)⟩ := by
  unfold Settings.ofGiven Given.ofParts sourceOf formatOf limitsOf
  simp only [accepted.bind_readPath? (.inl rfl), accepted.bind_readPath? (.inr rfl)]
  cases expression : parts.lookup .expression <;>
    cases file : parts.lookup (.setting .file) <;> simp_all

end Settings

/-! ### Channels -/

/-- What is to be evaluated: a text, or the bytes of a sheet. -/
inductive Content where
  | text (text : String)
  | sheet (bytes : List UInt8)

/-- The response that the options ask for, if the content can be read. -/
def respondTo (options : Parts) : Content → Option Response
  | .text text => some (respondToText (formatOf options) (limitsOf options) text)
  | .sheet bytes =>
    match readSheet (limitsOf options) bytes with
    | .error _ => none
    | .ok entries => some (respondToSheet (formatOf options) entries)

/-- Whether a character is a line break. -/
def IsBreak (character : Char) : Prop := character = '\r' ∨ character = '\n'

/-- The arguments carry the content to the program, with options and in surroundings: a text among
them, behind `--` or on standard input, with line breaks after it; a sheet in the file named among
them. -/
inductive Carries (surroundings : Surroundings) (options : Parts) :
    Content → List String → Prop where
  | argument {text : String} {before after : Parts} {arguments : List String}
    (plain : text.toList.head? ≠ some '-') (placed : options = before ++ after)
    (spells : Spells (before ++ (.expression, text) :: after) arguments) :
    Carries surroundings options (.text text) arguments
  | marked {text : String} {arguments : List String} (spells : Spells options arguments) :
    Carries surroundings options (.text text) (arguments ++ ["--", text])
  | input {text : String} {breaks : List Char} {arguments : List String}
    (spells : Spells options arguments) (ended : ∀ last ∈ text.toList.getLast?, ¬ IsBreak last)
    (broken : ∀ character ∈ breaks, IsBreak character)
    (held : surroundings.standardInput = text ++ String.ofList breaks) :
    Carries surroundings options (.text text) arguments
  | sheet {path : String} {bytes : List UInt8} {before after : Parts} {arguments : List String}
    (nonempty : path ≠ "") (found : surroundings.contents? path = some bytes)
    (placed : options = before ++ after)
    (spells : Spells (before ++ (.setting .file, path) :: after) arguments) :
    Carries surroundings options (.sheet bytes) arguments

/-- The parts are options for the work on a content. -/
structure OnlyOptions (options : Parts) : Prop where
  accepted : Accepted options
  noExpression : .expression ∉ options.map Prod.fst
  noFile : .setting .file ∉ options.map Prod.fst

/-- A file for the response can be named among options that name none. -/
theorem OnlyOptions.insert_outFile {before after : Parts} {path : String}
    (only : OnlyOptions (before ++ after))
    (fresh : .setting .outFile ∉ (before ++ after).map Prod.fst) (nonempty : path ≠ "") :
    OnlyOptions (before ++ (.setting .outFile, path) :: after) := by
  have absent : ∀ part, part ≠ .setting .outFile → part ∉ (before ++ after).map Prod.fst →
      part ∉ (before ++ (.setting .outFile, path) :: after).map Prod.fst := by
    intro part other absent member
    rw [(List.perm_middle.map Prod.fst).mem_iff, List.map_cons] at member
    exact (List.mem_cons.mp member).elim other absent
  exact ⟨only.accepted.insert fresh nonempty, absent _ (by decide) only.noExpression,
    absent _ (by decide) only.noFile⟩

section Carried

variable {surroundings : Surroundings} {options : Parts} {content : Content}
  {arguments : List String} {response : Response}

/-- The line breaks after a text are dropped, and nothing else. -/
theorem dropFinalBreaks_append {text : String} {breaks : List Char}
    (ended : ∀ last ∈ text.toList.getLast?, ¬ IsBreak last)
    (broken : ∀ character ∈ breaks, IsBreak character) :
    dropFinalBreaks (text ++ String.ofList breaks) = text := by
  unfold dropFinalBreaks
  rw [String.toList_append, String.toList_ofList, List.reverse_append, dropWhile_append_of_head?,
    List.reverse_reverse, String.ofList_toList]
  · intro character member
    rcases broken character (List.mem_reverse.mp member) with rfl | rfl <;> rfl
  · intro last found
    rw [List.head?_reverse] at found
    obtain ⟨noReturn, noFeed⟩ := not_or.mp (ended last found)
    simp [noReturn, noFeed]

/-- A run whose arguments give the parts delivers their response. -/
theorem run_of_parts {parts : Parts} (accepted : Accepted parts)
    (single : parts.lookup .expression = none ∨ parts.lookup (.setting .file) = none)
    (taken : Given.nothing.take arguments = parts.foldlM Given.add .nothing)
    (responds : Settings.respond ⟨sourceOf parts, formatOf parts, limitsOf parts,
      parts.lookup (.setting .outFile)⟩ surroundings = some response) :
    run surroundings arguments =
      deliver surroundings (parts.lookup (.setting .outFile)) response := by
  have settings : Settings.ofArguments arguments = .ok ⟨sourceOf parts, formatOf parts,
      limitsOf parts, parts.lookup (.setting .outFile)⟩ := by
    unfold Settings.ofArguments
    rw [taken, foldlM_add accepted]
    exact ofGiven_ofParts accepted single
  unfold run perform
  rw [settings]
  simp only [responds]

/-- One more part that no option names leaves what the options ask for. -/
theorem asks_insert {before after : Parts} {part : Part}
    (fresh : part ∉ (before ++ after).map Prod.fst) (value : String)
    (other : part = .expression ∨ part = .setting .file ∨ part = .setting .outFile) :
    formatOf (before ++ (part, value) :: after) = formatOf (before ++ after) ∧
      limitsOf (before ++ (part, value) :: after) = limitsOf (before ++ after) := by
  unfold formatOf limitsOf
  simp only [lookup_insert fresh]
  rcases other with rfl | rfl | rfl <;> exact ⟨rfl, rfl⟩

/-- A text among the arguments is responded to, wherever it stands. -/
theorem run_of_expression {before after : Parts} {text : String}
    (only : OnlyOptions (before ++ after))
    (taken : Given.nothing.take arguments =
      (before ++ (.expression, text) :: after).foldlM Given.add .nothing)
    (responds : respondTo (before ++ after) (.text text) = some response) :
    run surroundings arguments =
      deliver surroundings ((before ++ after).lookup (.setting .outFile)) response := by
  have fresh := only.noExpression
  obtain ⟨format, limits⟩ := asks_insert fresh text (.inl rfl)
  have outFile := lookup_insert fresh text (.setting .outFile)
  have noFile := lookup_insert fresh text (.setting .file)
  rw [if_neg (by decide)] at outFile noFile
  rw [lookup_eq_none_of_fresh only.noFile] at noFile
  have source : sourceOf (before ++ (.expression, text) :: after) = .argument text := by
    unfold sourceOf
    rw [lookup_insert fresh, if_pos rfl]
  rw [← outFile]
  refine run_of_parts (only.accepted.insert fresh trivial) (.inr noFile) taken ?_
  rw [source, format, limits]
  exact responds

/-- A sheet that is named among the arguments is responded to, wherever it stands. -/
theorem run_of_sheet {before after : Parts} {path : String} {bytes : List UInt8}
    (only : OnlyOptions (before ++ after)) (nonempty : path ≠ "")
    (found : surroundings.contents? path = some bytes)
    (spells : Spells (before ++ (.setting .file, path) :: after) arguments)
    (responds : respondTo (before ++ after) (.sheet bytes) = some response) :
    run surroundings arguments =
      deliver surroundings ((before ++ after).lookup (.setting .outFile)) response := by
  have fresh := only.noFile
  obtain ⟨format, limits⟩ := asks_insert fresh path (.inr (.inl rfl))
  have outFile := lookup_insert fresh path (.setting .outFile)
  have noExpression := lookup_insert fresh path .expression
  rw [if_neg (by decide)] at outFile noExpression
  rw [lookup_eq_none_of_fresh only.noExpression] at noExpression
  have source : sourceOf (before ++ (.setting .file, path) :: after) = .sheet path := by
    unfold sourceOf
    rw [noExpression, lookup_insert fresh, if_pos rfl]
  rw [← outFile]
  refine run_of_parts (only.accepted.insert fresh nonempty) (.inl noExpression)
    (take_of_spells spells _) ?_
  rw [source, format, limits]
  unfold Settings.respond
  simp only [found]
  exact responds

/-- **Every way leads to the same response.** -/
theorem run_of_carries (only : OnlyOptions options)
    (carries : Carries surroundings options content arguments)
    (responds : respondTo options content = some response) :
    run surroundings arguments =
      deliver surroundings (options.lookup (.setting .outFile)) response := by
  cases carries with
  | argument plain placed spells =>
    subst placed
    exact run_of_expression only (take_of_spells spells _) responds
  | @marked text arguments spells =>
    have placed := List.append_nil options
    have taken := take_append_marked spells .nothing text
    rw [← placed] at only responds ⊢
    exact run_of_expression only taken responds
  | input spells ended broken held =>
    have noFile := lookup_eq_none_of_fresh only.noFile
    have noExpression := lookup_eq_none_of_fresh only.noExpression
    have source : sourceOf options = .standardInput := by
      unfold sourceOf
      rw [noExpression, noFile]
    refine run_of_parts only.accepted (.inr noFile) (take_of_spells spells _) ?_
    rw [source]
    unfold Settings.respond
    simp only [held, dropFinalBreaks_append ended broken]
    exact responds
  | sheet nonempty found placed spells =>
    subst placed
    exact run_of_sheet only nonempty found spells responds

end Carried

/-! ### The agreement -/

/-- The options that decide how a content is worked on. -/
def tuningParts : List Part := [.setting .format, .setting .maxVariables, .setting .maxDepth]

/-- The options are a format and limits, each at most once and with values that they accept. -/
structure Tuning (options : Parts) : Prop where
  accepted : Accepted options
  tunes : ∀ entry ∈ options, entry.1 ∈ tuningParts

/-- The response to the content, whatever carries it: it is printed, or written to a file if one is
named that can be written, and then nothing is printed. The exit code is the same. -/
structure Reaches (options : Parts) (content : Content) (response : Response) : Prop where
  printed : ∀ surroundings arguments, Carries surroundings options content arguments →
    run surroundings arguments = ⟨exitCode response.succeeded, response.output, none⟩
  written : ∀ surroundings arguments before after path, options = before ++ after → path ≠ "" →
    surroundings.writable path = true →
    Carries surroundings (before ++ (.setting .outFile, path) :: after) content arguments →
      run surroundings arguments =
        ⟨exitCode response.succeeded, "", some (path, response.output)⟩

section Agreement

variable {options : Parts} {content : Content} {response : Response}

/-- No other part is among the options. -/
theorem Tuning.not_mem (tuned : Tuning options) {part : Part} (other : part ∉ tuningParts) :
    part ∉ options.map Prod.fst := by
  intro member
  obtain ⟨entry, found, rfl⟩ := List.mem_map.mp member
  exact other (tuned.tunes entry found)

/-- The response to what is to be evaluated is reached in every way. -/
theorem Tuning.reaches (tuned : Tuning options)
    (responds : respondTo options content = some response) : Reaches options content response := by
  have only : OnlyOptions options :=
    ⟨tuned.accepted, tuned.not_mem (by decide), tuned.not_mem (by decide)⟩
  have noOutFile : .setting .outFile ∉ options.map Prod.fst := tuned.not_mem (by decide)
  refine ⟨fun surroundings arguments carries => ?_,
    fun surroundings arguments before after path placed nonempty writable carries => ?_⟩
  · rw [run_of_carries only carries responds, lookup_eq_none_of_fresh noOutFile]
    rfl
  · subst placed
    obtain ⟨format, limits⟩ := asks_insert noOutFile path (.inr (.inr rfl))
    have withFile := only.insert_outFile noOutFile nonempty
    have respondsToo : respondTo (before ++ (.setting .outFile, path) :: after) content =
        some response := by
      rw [← responds]
      unfold respondTo
      rw [format, limits]
    rw [run_of_carries withFile carries respondsToo, lookup_insert noOutFile, if_pos rfl]
    simp only [deliver, writable, if_true]

theorem exitCode_eq_zero_iff {succeeded : Bool} : exitCode succeeded = 0 ↔ succeeded = true := by
  cases succeeded <;> decide

/-- A result is good exactly if it has a value. -/
theorem isOk_iff {ε α : Type} {result : Except ε α} :
    result.isOk = true ↔ ∃ value, result = .ok value := by
  cases result with
  | error error => exact ⟨(nomatch ·), fun ⟨_, same⟩ => nomatch same⟩
  | ok value => exact ⟨fun _ => ⟨value, rfl⟩, fun _ => rfl⟩

theorem succeeded_respondToText (format : Format) (limits : Limits) (text : String) :
    (respondToText format limits text).succeeded = (evaluate limits text).isOk := by
  unfold respondToText
  cases format <;> cases evaluate limits text <;> rfl

end Agreement

/-- **All channels agree.** Under any format and limits a text gets one response: as an argument, if
it does not begin with `-`; behind `--`; and on standard input with any line breaks after it, if it
does not end with one itself. The exit code is zero exactly if the text is evaluated. A sheet that
is text has entries, and gets one response, with exit code zero exactly if all of them are evaluated.
If a file is named that can be written, the response goes there, nothing is printed, and the exit
code stays. -/
theorem channels_agree {options : Parts} (tuned : Tuning options) :
    (∀ text,
      Reaches options (.text text) (respondToText (formatOf options) (limitsOf options) text) ∧
      (exitCode (respondToText (formatOf options) (limitsOf options) text).succeeded = 0 ↔
        ∃ evaluation, evaluate (limitsOf options) text = .ok evaluation)) ∧
    ∀ bytes : List UInt8, bytes.toByteArray.IsValidUTF8 →
      ∃ entries, readSheet (limitsOf options) bytes = .ok entries ∧
        Reaches options (.sheet bytes) (respondToSheet (formatOf options) entries) ∧
        (exitCode (respondToSheet (formatOf options) entries).succeeded = 0 ↔
          ∀ entry ∈ entries, ∃ evaluation, entry.outcome = .ok evaluation) := by
  constructor
  · intro text
    refine ⟨tuned.reaches rfl, ?_⟩
    rw [exitCode_eq_zero_iff, succeeded_respondToText, isOk_iff]
  · intro bytes valid
    obtain ⟨entries, read⟩ := exists_readSheet_of_isValidUTF8 (limitsOf options) valid
    refine ⟨entries, read, tuned.reaches ?_, ?_⟩
    · unfold respondTo
      simp only [read]
    · rw [exitCode_eq_zero_iff]
      unfold respondToSheet
      simp only [List.all_eq_true, SheetEntry.succeeded, isOk_iff]

/-- Options for JSON and one variable. -/
def narrowOptions : Parts := [(.setting .format, "json"), (.setting .maxVariables, "1")]

/-- A variable on standard input, a sheet with a variable, and nothing that cannot be written. -/
def openSurroundings : Surroundings where
  standardInput := "a\r\n"
  contents? path := if path = "sheet" then some [97, 10] else none
  writable _ := true

theorem channels_agree_one_variable :
    Tuning narrowOptions ∧
      run openSurroundings ["--format", "json", "a", "--max-variables=1"] =
        run openSurroundings ["--format=json", "--max-variables", "1"] ∧
      run openSurroundings ["--format=json", "--max-variables=1", "--", "a"] =
        run openSurroundings ["--format=json", "--max-variables", "1"] ∧
      (run openSurroundings ["--format=json", "--max-variables", "1"]).exitCode = 0 ∧
      (run openSurroundings ["--format=json", "-O", "out", "--max-variables", "1"]).printed = "" ∧
      (run openSurroundings ["--format=json", "--max-variables", "1", "-fsheet"]).exitCode = 0 := by
  have tuned : Tuning narrowOptions := by
    refine ⟨⟨by decide, ?_⟩, by decide⟩
    simp only [narrowOptions, List.forall_mem_cons]
    exact ⟨.inr rfl, rfl, List.forall_mem_nil _⟩
  have one : IsPlain "1" := .inl (by decide)
  have joined : Spells narrowOptions ["--format=json", "--max-variables=1"] :=
    .joined .format _ (.joined .maxVariables _ .nil)
  have apart : Spells narrowOptions ["--format=json", "--max-variables", "1"] :=
    .joined .format _ (.apart .maxVariables one .nil)
  have among : Spells [(.setting .format, "json"), (.expression, "a"),
      (.setting .maxVariables, "1")] ["--format", "json", "a", "--max-variables=1"] :=
    .apart .format (.inl (by decide))
      (.expression (.inl (by decide)) (.joined .maxVariables _ .nil))
  have withFile : Spells [(.setting .format, "json"), (.setting .outFile, "out"),
      (.setting .maxVariables, "1")] ["--format=json", "-O", "out", "--max-variables", "1"] :=
    .joined .format _ (.letter rfl (.inl (by decide)) (.apart .maxVariables one .nil))
  have withSheet : Spells [(.setting .format, "json"), (.setting .maxVariables, "1"),
      (.setting .file, "sheet")] ["--format=json", "--max-variables", "1", "-fsheet"] :=
    .joined .format _ (.apart .maxVariables one (.attached rfl ⟨'s', _, rfl, by decide⟩ .nil))
  have ended : ∀ last ∈ "a".toList.getLast?, ¬ IsBreak last := by
    simp [IsBreak]
  have broken : ∀ character ∈ ['\r', '\n'], IsBreak character := by simp [IsBreak]
  obtain ⟨texts, sheets⟩ := channels_agree tuned
  obtain ⟨reaches, good⟩ := texts "a"
  have code := good.mpr (isOk_iff.mp (by cbv))
  have held : openSurroundings.standardInput = "a" ++ String.ofList ['\r', '\n'] := by cbv
  have input := reaches.printed openSurroundings _ (.input apart ended broken held)
  have between : narrowOptions =
      [(.setting .format, "json")] ++ [(.setting .maxVariables, "1")] := rfl
  have argument := reaches.printed openSurroundings _ (.argument (by decide) between among)
  have marked := reaches.printed openSurroundings _ (.marked joined)
  rw [List.cons_append, List.singleton_append] at marked
  have written := reaches.written openSurroundings _ [_] [_] "out" rfl (by decide) rfl
    (.input withFile ended broken held)
  obtain ⟨entries, read, reachesSheet, goodSheet⟩ := sheets [97, 10] ⟨['a', '\n'], rfl⟩
  have whole : (readSheet (limitsOf narrowOptions) [97, 10]).map (·.all SheetEntry.succeeded) =
      .ok true := by
    cbv
  rw [read] at whole
  have sheetCode := goodSheet.mpr fun entry member =>
    isOk_iff.mp (List.all_eq_true.mp (Except.ok.inj whole) entry member)
  have sheet := reachesSheet.printed openSurroundings _
    (.sheet (by decide) rfl (List.append_nil _).symm withSheet)
  rw [input, argument, marked, written, sheet]
  exact ⟨tuned, rfl, rfl, code, rfl, sheetCode⟩

end TwoLevel.CommandLine
