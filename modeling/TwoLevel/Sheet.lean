/-
**Sheets of expressions.**

A sheet has one expression on each line, perhaps after a label and `=`. Lines that are blank or
start with `#` say nothing. Each line is evaluated by itself, so that a failure on one leaves the others
alone; but a sheet with a line that is not UTF-8 text has no entries at all.

* `splitLines`: the lines between line feeds;
* `readSheet`: the entries of a sheet.
-/

import TwoLevel.Encoding

namespace TwoLevel

open Text

/-- A line of a sheet that holds an expression, and what became of it. -/
structure SheetEntry where
  /-- The number of the line, the first being one. -/
  line : Nat
  label? : Option String
  expression : String
  outcome : Except Failure Evaluation

/-- Why a sheet cannot be read. -/
inductive SheetError where
  /-- A line is not UTF-8 text. -/
  | notText
  deriving DecidableEq, Repr, Inhabited

/-- The wording of the error. -/
def SheetError.message : SheetError → String
  | notText => "stream did not contain valid UTF-8"

/-- The stretches of bytes between line feeds; the last one is empty after a final line feed. -/
def splitLines : List UInt8 → List (List UInt8)
  | [] => [[]]
  | byte :: rest =>
    if byte = 10 then [] :: splitLines rest
    else
      match splitLines rest with
      | [] => [[byte]]
      | line :: lines => (byte :: line) :: lines

theorem splitLines_ne_nil (bytes : List UInt8) : splitLines bytes ≠ [] := by
  cases bytes with
  | nil => exact List.cons_ne_nil _ _
  | cons byte rest =>
    rw [splitLines]
    split
    · exact List.cons_ne_nil _ _
    · split <;> exact List.cons_ne_nil _ _

/-- The text that the bytes encode, if they are UTF-8. -/
def decodeText (bytes : List UInt8) : Except SheetError String :=
  match String.fromUTF8? bytes.toByteArray with
  | some text => .ok text
  | none => .error .notText

/-- The label, if there is one, and the expression of a line without blanks at its ends. A label
ends at the first `=`. -/
def splitLabel (line : List Char) : Option String × String :=
  match line.dropWhile (· ≠ '=') with
  | [] => (none, String.ofList line)
  | _ :: expression =>
    let label := trimBlanks (line.takeWhile (· ≠ '='))
    (if label.isEmpty then none else some (String.ofList label),
      String.ofList (trimBlanks expression))

/-- What a line asks for: nothing, or the evaluation of an expression. -/
def readLine (limits : Limits) (number : Nat) (text : String) : Option SheetEntry :=
  match trimBlanks text.toList with
  | [] => none
  | '#' :: _ => none
  | line =>
    let (label?, expression) := splitLabel line
    some ⟨number, label?, expression, evaluate limits expression⟩

/-- The entries of a sheet. -/
def readSheet (limits : Limits) (bytes : List UInt8) : Except SheetError (List SheetEntry) := do
  let lines ← (splitLines bytes).mapM decodeText
  return (lines.zipIdx 1).filterMap fun (text, number) => readLine limits number text

namespace SheetEntry

/-- What an entry goes by: its label or else its expression. -/
def name (entry : SheetEntry) : String := entry.label?.getD entry.expression

/-- Whether the expression was evaluated. -/
def succeeded (entry : SheetEntry) : Bool := entry.outcome.isOk

/-- The JSON form of an entry. -/
def toJson (entry : SheetEntry) : JsonValue :=
  .object [("line", .number entry.line), ("label", .ofOption .string entry.label?),
    ("expression", .string entry.expression),
    ("outcome",
      match entry.outcome with
      | .ok evaluation => .object [("result", evaluation.toJson)]
      | .error failure => .object [("error", failure.toJson)])]

end SheetEntry

end TwoLevel
