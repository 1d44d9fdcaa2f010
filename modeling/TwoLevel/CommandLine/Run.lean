/-
**A run of the program.**

What a run prints, writes and returns, as a function of its arguments and of what it finds outside:
the text on standard input, the contents of files, and which files can be written.

* `Settings.respond`: the output asked for, and whether every expression was evaluated;
* `run`: the outcome of a run.
-/

import TwoLevel.CommandLine.Settings
import TwoLevel.Report

namespace TwoLevel.CommandLine

/-- What a run finds outside. -/
structure Surroundings where
  standardInput : String
  /-- The bytes of the file with a path, if it can be read. -/
  contents? : String → Option (List UInt8)
  /-- Whether the file with a path can be written. -/
  writable : String → Bool
  /-- The help, long or short, which the reader of the arguments makes from their descriptions. -/
  helpText : Bool → String := fun _ => ""

/-- What the expressions lead to: the output, and whether all were evaluated. -/
structure Response where
  output : String
  succeeded : Bool
  deriving DecidableEq, Repr, Inhabited

/-- What a run does: its exit code, what it prints, and the path and text of the file it writes. -/
structure Outcome where
  exitCode : Nat
  printed : String
  written? : Option (String × String)
  deriving DecidableEq, Repr, Inhabited

/-- A JSON value over several lines, with a line break at the end. -/
def printJson (value : JsonValue) : String := value.pretty ++ "\n"

/-- The response to one text. -/
def respondToText (format : Format) (limits : Limits) (text : String) : Response :=
  let outcome := evaluate limits text
  match format, outcome with
  | .text, outcome => ⟨reportOutcome outcome, outcome.isOk⟩
  | .json, .ok evaluation => ⟨printJson evaluation.toJson, true⟩
  | .json, .error failure => ⟨printJson failure.toJson, false⟩

/-- The response to the entries of a sheet. -/
def respondToSheet (format : Format) (entries : List SheetEntry) : Response :=
  let output :=
    match format with
    | .text => String.join (entries.map SheetEntry.report)
    | .json => printJson (.ofList SheetEntry.toJson entries)
  ⟨output, entries.all SheetEntry.succeeded⟩

/-- A text without the line breaks at its end. -/
def dropFinalBreaks (text : String) : String :=
  String.ofList (text.toList.reverse.dropWhile fun character =>
    character == '\n' || character == '\r').reverse

/-- The response that the settings ask for; none if the sheet cannot be read. -/
def Settings.respond (settings : Settings) (surroundings : Surroundings) : Option Response :=
  match settings.source with
  | .argument text => some (respondToText settings.format settings.limits text)
  | .standardInput =>
    some (respondToText settings.format settings.limits
      (dropFinalBreaks surroundings.standardInput))
  | .sheet path =>
    match surroundings.contents? path with
    | none => none
    | some bytes =>
      match readSheet settings.limits bytes with
      | .error _ => none
      | .ok entries => some (respondToSheet settings.format entries)

/-- The exit code of a run that went to its end. -/
def exitCode (succeeded : Bool) : Nat := if succeeded then 0 else 1

/-- The outcome of a run that has a response. -/
def deliver (surroundings : Surroundings) (outFile? : Option String) (response : Response) :
    Outcome :=
  match outFile? with
  | none => ⟨exitCode response.succeeded, response.output, none⟩
  | some path =>
    if surroundings.writable path then
      ⟨exitCode response.succeeded, "", some (path, response.output)⟩
    else ⟨exitCode false, "", none⟩

/-- The outcome of a run that does what the settings ask for. -/
def perform (surroundings : Surroundings) (settings : Settings) : Outcome :=
  match settings.respond surroundings with
  | none => ⟨exitCode false, "", none⟩
  | some response => deliver surroundings settings.outFile? response

/-- The name and the version of the program. -/
def versionLine : String := "boolcalc 0.1.0\n"

/-- The outcome of a run. -/
def run (surroundings : Surroundings) (arguments : List String) : Outcome :=
  match Settings.ofArguments arguments with
  | .error (.help long) => ⟨0, surroundings.helpText long, none⟩
  | .error .version => ⟨0, versionLine, none⟩
  | .error .refused => ⟨2, "", none⟩
  | .ok settings => perform surroundings settings

end TwoLevel.CommandLine
