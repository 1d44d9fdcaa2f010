/-
**The printed report.**

The evaluation of a text for a reader: the forms, the chart of prime implicants, the derivation and
the truth table, each in a section of its own between rules.

* `Evaluation.report`: the report on one evaluation;
* `SheetEntry.report`: the report on a line of a sheet.
-/

import TwoLevel.Sheet

namespace TwoLevel

namespace Report

/-- The width of the rules. -/
def ruleWidth : Nat := 47

/-- The width of the column of terms. -/
def termWidth : Nat := 24

/-- A character repeated. -/
def rule (character : Char) (width : Nat) : String := String.ofList (List.replicate width character)

/-- The rule around the report. -/
def heavyRule : String := rule '═' ruleWidth

/-- The rule around the title of a section. -/
def lightRule : String := rule '─' ruleWidth

/-- A section: its title between rules, its lines, and an empty line. -/
def sectionLines (title : String) (lines : List String) : List String :=
  [lightRule, title, lightRule] ++ lines ++ [""]

/-- A text with spaces after it up to a width. -/
def padRight (width : Nat) (text : String) : String :=
  text ++ String.ofList (List.replicate (width - text.length) ' ')

/-- The written form of a truth value. -/
def bit (value : Bool) : String := if value then "1" else "0"

/-- The line for an implicant of the chart. -/
def chartLine (row : ChartRow) : String :=
  padRight termWidth row.term ++ " m(" ++ renderIndices row.covers ++ ")"

/-- The line for a sentence of the derivation. -/
def derivationLine (sentence : String × Nat) : String :=
  toString sentence.2 ++ ". " ++ sentence.1

/-- Cells with bars between them. -/
def cells (texts : List String) : String := " | ".intercalate texts

/-- The header of the truth table, the rule below it, and the rows. -/
def tableLines (names : List String) (table : TruthTable) : List String :=
  let header := cells (names ++ ["F"])
  header :: rule '─' header.length ::
    table.rows.map fun row => cells (row.bits.map bit ++ [bit row.output])

/-- Lines, each with a line break after it. -/
def unlines (lines : List String) : String := String.join (lines.map (· ++ "\n"))

end Report

open Report in
/-- The report on an evaluation. -/
def Evaluation.report (evaluation : Evaluation) : String :=
  unlines <|
    [heavyRule, "   BOOLEAN ALGEBRA CALCULATOR - RESULTS", heavyRule, "",
      "Expression: " ++ evaluation.text,
      "Normalized: " ++ evaluation.normalized,
      "Variables: " ++ ", ".intercalate evaluation.names, ""]
    ++ sectionLines "SIMPLIFIED FORMS"
      ["Minimal SOP: " ++ evaluation.minimalSop, "Minimal POS: " ++ evaluation.minimalPos,
        "Canonical DNF: " ++ evaluation.canonicalDnf, "Canonical CNF: " ++ evaluation.canonicalCnf]
    ++ sectionLines "PRIME IMPLICANT CHART" (evaluation.sop.minimization.chart.map chartLine)
    ++ sectionLines "SIMPLIFICATION STEPS" ((evaluation.derivation.zipIdx 1).map derivationLine)
    ++ sectionLines "TRUTH TABLE" (tableLines evaluation.names evaluation.table)
    ++ [heavyRule]

/-- The line about a failure. -/
def Failure.report (failure : Failure) : String :=
  failure.kind.name ++ ": " ++ failure.message ++ "\n"

/-- The report on what became of a text. -/
def reportOutcome : Except Failure Evaluation → String
  | .ok evaluation => evaluation.report
  | .error failure => failure.report

/-- The report on a line of a sheet, with its number and name in front. -/
def SheetEntry.report (entry : SheetEntry) : String :=
  "[line " ++ toString entry.line ++ "] " ++ entry.name ++ "\n" ++ reportOutcome entry.outcome
    ++ "\n"

end TwoLevel
