/-
**The command line.**

What the arguments of the program ask for. They are taken from left to right, and the first that
cannot be accepted decides, unless the help or the version has been asked for before it. Options
take their value from the same argument or the next one; an option for a value may be given once.

* `Argument.ofText`: what an argument is by itself;
* `Given.take`: the effect of the arguments one after the other;
* `Settings.ofArguments`: what they ask for together.
-/

import TwoLevel.Evaluation

namespace TwoLevel.CommandLine

/-- The form of the output. -/
inductive Format where
  | text
  | json
  deriving DecidableEq, Repr, Inhabited

/-- The options that have a value. -/
inductive Setting where
  | file
  | format
  | maxVariables
  | maxDepth
  | outFile
  deriving DecidableEq, Repr, Inhabited

/-- Why the arguments lead to no work: the help or the version is asked for, or they cannot be
accepted. -/
inductive Stop where
  | help (long : Bool)
  | version
  | refused
  deriving DecidableEq, Repr, Inhabited

/-! ### Single arguments -/

/-- What an argument is. -/
inductive Argument where
  /-- The end of the options. -/
  | endOfOptions
  /-- An argument that is no option. -/
  | operand (text : String)
  /-- A wish for more detail in the journal, which changes no output. -/
  | verbose
  /-- A wish for the help, in its long form or the short one. -/
  | help (long : Bool)
  /-- A wish for the version. -/
  | version
  /-- An option with a value, in the same argument or else in the next. -/
  | setting (setting : Setting) (value? : Option String)
  /-- An option that does not exist, or has a value and must not. -/
  | unknown
  deriving DecidableEq, Repr, Inhabited

namespace Argument

/-- An option by its long name, with the value after `=` if there is one. -/
def ofLongName (name : List Char) (value? : Option String) : Argument :=
  match String.ofList name, value? with
  | "file", value? => setting .file value?
  | "format", value? => setting .format value?
  | "max-variables", value? => setting .maxVariables value?
  | "max-depth", value? => setting .maxDepth value?
  | "out-file", value? => setting .outFile value?
  | "verbose", none => verbose
  | "help", none => help true
  | "version", none => version
  | _, _ => unknown

/-- The value in the rest of a group of letters: what follows, after one `=` if there is one. -/
def attachedValue : List Char → Option String
  | [] => none
  | '=' :: rest => some (String.ofList rest)
  | rest => some (String.ofList rest)

/-- A group of option letters. -/
def ofLetters : List Char → Argument
  | [] => verbose
  | 'v' :: rest => ofLetters rest
  | 'h' :: _ => help false
  | 'V' :: _ => version
  | 'f' :: rest => setting .file (attachedValue rest)
  | 'O' :: rest => setting .outFile (attachedValue rest)
  | _ => unknown

/-- What an argument is. -/
def ofText (text : String) : Argument :=
  match text.toList with
  | ['-', '-'] => endOfOptions
  | '-' :: '-' :: option =>
    match option.dropWhile (· ≠ '=') with
    | [] => ofLongName option none
    | _ :: value => ofLongName (option.takeWhile (· ≠ '=')) (some (String.ofList value))
  | '-' :: letter :: letters => ofLetters (letter :: letters)
  | _ => operand text

/-- Whether the argument after an option can be its value. -/
def canBeValue (text : String) : Bool :=
  match ofText text with
  | operand _ => true
  | _ => false

end Argument

/-! ### Values -/

/-- The greatest number that an option accepts. -/
def greatestNumber : Nat := UInt64.size - 1

/-- A number in decimal digits, perhaps after a plus sign. -/
def readNumber? (text : String) : Option Nat :=
  let digits :=
    match text.toList with
    | '+' :: rest => rest
    | all => all
  if digits.isEmpty || !digits.all Char.isDigit then none
  else
    let number := digits.foldl (fun total digit => 10 * total + (digit.toNat - '0'.toNat)) 0
    if number ≤ greatestNumber then some number else none

/-- The name of a format. -/
def readFormat? : String → Option Format
  | "text" => some .text
  | "json" => some .json
  | _ => none

/-- A path, which is not empty. -/
def readPath? (text : String) : Option String := if text.isEmpty then none else some text

/-! ### All arguments -/

/-- What has been given. -/
structure Given where
  expression? : Option String
  file? : Option String
  format? : Option Format
  maxVariables? : Option Nat
  maxDepth? : Option Nat
  outFile? : Option String
  deriving DecidableEq, Repr, Inhabited

namespace Given

/-- Nothing. -/
def nothing : Given := ⟨none, none, none, none, none, none⟩

/-- The value for something that may be given once, if it is a good one and the first. -/
def once {α : Type} (old? : Option α) (new? : Option α) : Except Stop (Option α) :=
  match old?, new? with
  | none, some value => .ok (some value)
  | _, _ => .error .refused

/-- Add the expression. -/
def addExpression (given : Given) (text : String) : Except Stop Given := do
  return { given with expression? := ← once given.expression? (some text) }

/-- Add the value of an option. -/
def addSetting (given : Given) (setting : Setting) (value : String) : Except Stop Given := do
  match setting with
  | .file => return { given with file? := ← once given.file? (readPath? value) }
  | .format => return { given with format? := ← once given.format? (readFormat? value) }
  | .maxVariables =>
    return { given with maxVariables? := ← once given.maxVariables? (readNumber? value) }
  | .maxDepth => return { given with maxDepth? := ← once given.maxDepth? (readNumber? value) }
  | .outFile => return { given with outFile? := ← once given.outFile? (readPath? value) }

/-- Add the arguments one after the other. -/
def take (given : Given) : List String → Except Stop Given
  | [] => .ok given
  | text :: rest =>
    match Argument.ofText text, rest with
    | .endOfOptions, rest => rest.foldlM addExpression given
    | .operand text, rest => do (← given.addExpression text).take rest
    | .verbose, rest => given.take rest
    | .help long, _ => .error (.help long)
    | .version, _ => .error .version
    | .unknown, _ => .error .refused
    | .setting setting (some value), rest => do (← given.addSetting setting value).take rest
    | .setting _ none, [] => .error .refused
    | .setting setting none, value :: others =>
      if Argument.canBeValue value then do (← given.addSetting setting value).take others
      else .error .refused

end Given

/-- Where the expressions come from. -/
inductive Source where
  | argument (text : String)
  | standardInput
  | sheet (path : String)
  deriving DecidableEq, Repr, Inhabited

/-- What the arguments ask for. -/
structure Settings where
  source : Source
  format : Format
  limits : Limits
  outFile? : Option String
  deriving DecidableEq, Repr, Inhabited

namespace Settings

/-- What has been given, with the usual values for the rest. An expression and a sheet exclude each
other. -/
def ofGiven (given : Given) : Except Stop Settings := do
  let source ←
    match given.expression?, given.file? with
    | some _, some _ => .error .refused
    | some text, none => .ok (.argument text)
    | none, some path => .ok (.sheet path)
    | none, none => .ok .standardInput
  return {
    source := source
    format := given.format?.getD .text
    limits := ⟨given.maxVariables?.getD mostVariables, given.maxDepth?.getD defaultNesting⟩
    outFile? := given.outFile? }

/-- What the arguments ask for. -/
def ofArguments (arguments : List String) : Except Stop Settings := do
  ofGiven (← Given.nothing.take arguments)

end Settings

end TwoLevel.CommandLine
