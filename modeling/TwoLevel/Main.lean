/-
**The program.**

Reads what a run needs, lets the library decide what to do, and does it.
-/

import TwoLevel.CommandLine.Run

namespace TwoLevel.CommandLine

/-- The bytes of a file, if it can be read. -/
def readContents (path : String) : IO (Option (List UInt8)) := do
  try
    return some (← IO.FS.readBinFile path).toList
  catch _ => return none

/-- The text on standard input. -/
def readStandardInput : IO String := do (← IO.getStdin).readToEnd

/-- The help that the program prints, in either form. -/
def usage : String := "Usage: boolcalc [OPTIONS] [EXPR]\n"

/-- What a run with the arguments finds outside. Whether a file can be written shows only when it is
written. -/
def lookAround (arguments : List String) : IO Surroundings := do
  let blank : Surroundings := ⟨"", fun _ => none, fun _ => true, fun _ => usage⟩
  match Settings.ofArguments arguments with
  | .error _ => return blank
  | .ok settings =>
    match settings.source with
    | .argument _ => return blank
    | .standardInput => return { blank with standardInput := ← readStandardInput }
    | .sheet path =>
      let contents? ← readContents path
      return { blank with contents? := fun _ => contents? }

/-- Carry out the outcome of a run. -/
def carryOut (outcome : Outcome) : IO UInt32 := do
  try
    if let some (path, text) := outcome.written? then
      IO.FS.writeFile path text
    IO.print outcome.printed
    return outcome.exitCode.toUInt32
  catch failure =>
    IO.eprintln s!"Error writing output file: {failure}"
    return 1

end TwoLevel.CommandLine

open TwoLevel.CommandLine in
/-- Run the program with its arguments. -/
def main (arguments : List String) : IO UInt32 := do
  carryOut (run (← lookAround arguments) arguments)
