/-
**The journal.**

What is reported about the work while it is done, in order: how many tokens a text has, the size of
its table, every merge and pass of a search, and how the selection went.

* `journalOfText`, `journalOfRows`, `journalOfSheet`: the journal of an evaluation, of a
  minimization and of a sheet.
-/

import TwoLevel.Sheet

namespace TwoLevel

open Text

/-- How much detail an entry of the journal gives. -/
inductive Detail where
  | debug
  | trace
  deriving DecidableEq, Repr, Inhabited

/-- The name of a degree of detail. -/
def Detail.name : Detail → String
  | debug => "DEBUG"
  | trace => "TRACE"

/-- An entry of the journal. -/
structure JournalEntry where
  detail : Detail
  message : String
  deriving DecidableEq, Repr, Inhabited

/-- The entries about a pass: its merges, then what went in and what it hands on. -/
def MergePass.journal (pass : MergePass) : List JournalEntry :=
  pass.merges.map (fun merge => ⟨.trace,
    "pass " ++ toString pass.number ++ ": " ++ merge.left.pattern.render ++ " + "
      ++ merge.right.pattern.render ++ " -> " ++ merge.merged.pattern.render⟩)
    ++ [⟨.debug, "merge pass " ++ toString pass.number ++ ": " ++ toString pass.inputs.length
      ++ " implicants in, " ++ toString pass.outputs.length ++ " merged out"⟩]

/-- The entries about a search; one that needs no pass is not mentioned. -/
def PrimeSearch.journal (search : PrimeSearch) : List JournalEntry :=
  match search with
  | nothing | single _ _ => []
  | merging _ passes =>
    passes.flatMap MergePass.journal
      ++ [⟨.debug, toString search.primes.length ++ " prime implicants after "
        ++ toString passes.length ++ " passes"⟩]

/-- The entries about a selection. -/
def Selection.journal (selection : Selection) : List JournalEntry :=
  ⟨.debug, toString selection.essential.length ++ " essential prime implicants"⟩ ::
    (selection.completion?.map fun completion => JournalEntry.mk .debug
      ("Petrick's method: " ++ toString completion.candidates.length ++ " candidate covers")).toList

/-- The entries about a minimization. -/
def Minimization.journal (minimization : Minimization) : List JournalEntry :=
  minimization.search.journal ++ minimization.selection?.elim [] Selection.journal

/-- The entry about the variables of an expression. -/
def namesReport (names : List String) : JournalEntry :=
  ⟨.debug, "variables: [" ++ ", ".intercalate (names.map quoteMessage) ++ "]"⟩

/-- The entry about a truth table. -/
def TruthTable.report (table : TruthTable) : JournalEntry :=
  ⟨.debug, "truth table: " ++ toString table.width ++ " variables, " ++ toString table.rows.length
    ++ " rows, " ++ toString table.minterms.length ++ " true"⟩

/-- The entries about an evaluation, after the one about the tokens. -/
def Evaluation.journal (evaluation : Evaluation) : List JournalEntry :=
  namesReport evaluation.names :: evaluation.table.report ::
    (evaluation.sop.minimization.journal ++ evaluation.pos.minimization.journal)

/-- The entry about a text that has tokens; one that has not is not mentioned. -/
def tokenReport? (text : String) : Option JournalEntry :=
  match tokenize text with
  | .error _ => none
  | .ok tokens => some ⟨.trace,
    "tokenize(" ++ quoteMessage text ++ ") -> " ++ toString tokens.length ++ " tokens"⟩

/-- The entries about a text and what became of it. -/
def journalOfOutcome (text : String) (outcome : Except Failure Evaluation) : List JournalEntry :=
  (tokenReport? text).toList ++
    match outcome with
    | .ok evaluation => evaluation.journal
    | .error _ => []

/-- The journal of the evaluation of a text. -/
def journalOfText (limits : Limits) (text : String) : List JournalEntry :=
  journalOfOutcome text (evaluate limits text)

/-- The journal of a minimization. -/
def journalOfRows (names : List String) (target dontCare : List Nat) : List JournalEntry :=
  match Minimization.ofIndices names target dontCare with
  | .ok minimization => minimization.journal
  | .error _ => (PrimeSearch.ofIndices names.length target dontCare).journal

/-- The entries about a line of a sheet. -/
def SheetEntry.journal (entry : SheetEntry) : List JournalEntry :=
  journalOfOutcome entry.expression entry.outcome ++
    match entry.outcome with
    | .ok _ => []
    | .error failure => [⟨.debug, "line " ++ toString entry.line ++ ": " ++ failure.message⟩]

/-- The journal of a sheet that can be read. -/
def journalOfSheet (entries : List SheetEntry) : List JournalEntry :=
  entries.flatMap SheetEntry.journal
    ++ [⟨.debug, "evaluated " ++ toString entries.length ++ " batch entries"⟩]

end TwoLevel
