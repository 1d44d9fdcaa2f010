/-
**Quoted text.**

Two ways to put a text between double quotes: for structured output, where only quotes, backslashes
and control characters are escaped, and for messages, where every blank but the space is escaped
too.

* `quoteData`: the form in structured output;
* `quoteMessage`: the form in messages.
-/

import TwoLevel.Text.Blank

namespace TwoLevel.Text

/-- The digits of a number to base sixteen, with small letters. -/
def hexDigits (number : Nat) : List Char := Nat.toDigits 16 number

/-- The digits to base sixteen, with zeros in front up to four. -/
def hexDigits4 (number : Nat) : List Char :=
  let digits := hexDigits number
  List.replicate (4 - digits.length) '0' ++ digits

/-- A character of structured output: controls have a letter of their own or four digits. -/
def escapeData (character : Char) : List Char :=
  match character with
  | '"' => ['\\', '"']
  | '\\' => ['\\', '\\']
  | '\x08' => ['\\', 'b']
  | '\t' => ['\\', 't']
  | '\n' => ['\\', 'n']
  | '\x0c' => ['\\', 'f']
  | '\r' => ['\\', 'r']
  | other => if other.toNat < 0x20 then ['\\', 'u'] ++ hexDigits4 other.toNat else [other]

/-- A character of a message: controls and blanks have a letter of their own or their digits between
braces, but for the space. -/
def escapeMessage (character : Char) : List Char :=
  match character with
  | '"' => ['\\', '"']
  | '\\' => ['\\', '\\']
  | '\x00' => ['\\', '0']
  | '\t' => ['\\', 't']
  | '\n' => ['\\', 'n']
  | '\r' => ['\\', 'r']
  | ' ' => [' ']
  | other =>
    if other.toNat < 0x20 || (0x7f ≤ other.toNat && other.toNat < 0xa0) || isBlank other then
      ['\\', 'u', '\x7b'] ++ hexDigits other.toNat ++ ['\x7d']
    else [other]

/-- A text between quotes, its characters escaped. -/
def quote (escape : Char → List Char) (text : String) : String :=
  String.ofList ('"' :: (text.toList.flatMap escape ++ ['"']))

/-- The quoted form of a text in structured output. -/
def quoteData (text : String) : String := quote escapeData text

/-- The quoted form of a text in messages. -/
def quoteMessage (text : String) : String := quote escapeMessage text

end TwoLevel.Text
