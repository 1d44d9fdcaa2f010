/-
**Literals of program source.**

How far the literal at the head of a text extends, if there is one: strings with escapes, raw
strings, strings of bytes and strings that end with a zero byte, characters, integers and decimal
fractions. A literal includes the word right after it.

* `quotedLength?`: the length of a string up to its closing quote, by one state for each character;
* `integerLength?`, `fractionLength?`: the length of a number;
* `literalLength?`: the kind and the length of a literal.
-/

import TwoLevel.Text.WordRanges

namespace TwoLevel.Embedded

open Text

/-! ### Words -/

/-- The length of the word at the head of a text, zero without one. -/
def wordLength : List Char → Nat
  | [] => 0
  | first :: rest => if isWordStart first then 1 + (rest.takeWhile isWordRest).length else 0

/-- Whether the text starts with a character that continues a word. -/
def startsInWord (characters : List Char) : Bool := characters.head?.any isWordRest

/-! ### Strings and characters with escapes -/

/-- What a quoted literal may hold. -/
structure QuoteRules where
  /-- Characters beyond ASCII. -/
  wide : Bool
  /-- Escapes of any code point. -/
  codePoints : Bool
  /-- Escapes of two digits beyond ASCII. -/
  bytes : Bool
  /-- The character zero, plain or escaped. -/
  zero : Bool
  /-- Line breaks after a backslash. -/
  continued : Bool
  deriving DecidableEq, Repr, Inhabited

namespace QuoteRules

/-- The rules for characters. -/
def character : QuoteRules := ⟨true, true, false, true, false⟩

/-- The rules for strings. -/
def string : QuoteRules := { character with continued := true }

/-- The rules for single bytes. -/
def byte : QuoteRules := ⟨false, false, true, true, false⟩

/-- The rules for strings of bytes. -/
def byteString : QuoteRules := { byte with continued := true }

/-- The rules for strings that end with a zero byte. -/
def zeroTerminated : QuoteRules := ⟨true, true, true, false, true⟩

end QuoteRules

/-- Where the reading of a quoted literal stands. -/
inductive QuoteState where
  /-- Between characters. -/
  | plain
  /-- After a carriage return, which a line feed has to follow. -/
  | carriage
  /-- After a backslash. -/
  | backslash
  /-- Before the first of two digits. -/
  | highDigit
  /-- Before the second of two digits, after the first. -/
  | lowDigit (high : Char)
  /-- Before the brace of a code point. -/
  | brace
  /-- Among the digits of a code point. -/
  | codePoint (value digits : Nat)
  /-- After an escaped line break, among blanks. -/
  | margin
  /-- Like `margin`, after a carriage return. -/
  | marginCarriage
  deriving DecidableEq, Repr, Inhabited

/-- The value of a digit to base sixteen. -/
def hexValue? (character : Char) : Option Nat :=
  if character.isDigit then some (character.toNat - '0'.toNat)
  else if 'a' ≤ character ∧ character ≤ 'f' then some (character.toNat - 'a'.toNat + 10)
  else if 'A' ≤ character ∧ character ≤ 'F' then some (character.toNat - 'A'.toNat + 10)
  else none

/-- Whether a number is the code point of a character. -/
def isCodePoint (value : Nat) : Bool := value < 0xd800 || (0xdfff < value && value < 0x110000)

namespace QuoteRules

/-- The state after a character that stands for itself. -/
def afterPlain (rules : QuoteRules) : Char → Option QuoteState
  | '\r' => some .carriage
  | '\\' => some .backslash
  | other =>
    if (rules.wide || other.toNat < 0x80) && (rules.zero || other.toNat ≠ 0) then some .plain
    else none

/-- The state after the character behind a backslash. -/
def afterBackslash (rules : QuoteRules) : Char → Option QuoteState
  | 'n' | 'r' | 't' | '\\' | '\'' | '"' => some .plain
  | '0' => if rules.zero then some .plain else none
  | 'x' => some .highDigit
  | 'u' => if rules.codePoints then some .brace else none
  | '\n' => if rules.continued then some .margin else none
  | '\r' => if rules.continued then some .marginCarriage else none
  | _ => none

/-- The state after the second of two digits. -/
def afterDigits (rules : QuoteRules) (high low : Char) : Option QuoteState := do
  let value := 16 * (← hexValue? high) + (← hexValue? low)
  if (rules.bytes || value < 0x80) && (rules.zero || value ≠ 0) then some .plain else none

/-- The state after a character among the digits of a code point. -/
def afterCodePoint (rules : QuoteRules) (value digits : Nat) (character : Char) :
    Option QuoteState :=
  if character = '_' then if digits = 0 then none else some (.codePoint value digits)
  else if character = '\x7d' then
    if digits ≠ 0 && isCodePoint value && (rules.zero || value ≠ 0) then some .plain else none
  else
    match hexValue? character with
    | some digit => if digits = 6 then none else some (.codePoint (16 * value + digit) (digits + 1))
    | none => none

/-- The state after a character. -/
def next? (rules : QuoteRules) : QuoteState → Char → Option QuoteState
  | .plain, character => rules.afterPlain character
  | .carriage, character => if character = '\n' then some .plain else none
  | .backslash, character => rules.afterBackslash character
  | .highDigit, character =>
    if (hexValue? character).isSome then some (.lowDigit character) else none
  | .lowDigit high, character => rules.afterDigits high character
  | .brace, character => if character = '\x7b' then some (.codePoint 0 0) else none
  | .codePoint value digits, character => rules.afterCodePoint value digits character
  | .margin, character =>
    if character = ' ' ∨ character = '\t' ∨ character = '\n' then some .margin
    else if character = '\r' then some .marginCarriage
    else rules.afterPlain character
  | .marginCarriage, character => if character = '\n' then some .margin else none

end QuoteRules

/-- Whether a quote ends the literal in a state. -/
def QuoteState.mayEnd : QuoteState → Bool
  | plain | margin => true
  | _ => false

/-- The length of a string up to and with its closing quote. -/
def quotedLength? (rules : QuoteRules) (state : QuoteState) : List Char → Option Nat
  | [] => none
  | character :: rest =>
    if character = '"' && state.mayEnd then some 1
    else do
      let next ← rules.next? state character
      return (← quotedLength? rules next rest) + 1

/-- The length of an escape, from the state after its backslash. -/
def escapeLength? (rules : QuoteRules) (state : QuoteState) : List Char → Option Nat
  | [] => none
  | character :: rest => do
    let next ← rules.next? state character
    if next = .plain then some 1 else return (← escapeLength? rules next rest) + 1

/-- The length of a character with its closing quote. -/
def characterLength? (rules : QuoteRules) (characters : List Char) : Option Nat :=
  let length? :=
    match characters with
    | [] => none
    | '\\' :: rest => (escapeLength? rules .backslash rest).map (· + 1)
    | first :: _ => if rules.wide || first.toNat < 0x80 then some 1 else none
  length?.bind fun length =>
    if (characters.drop length).head? = some '\'' then some (length + 1) else none

/-! ### Raw strings -/

/-- The greatest number of signs around a raw string. -/
def mostHashes : Nat := 255

/-- The length of a raw string from after its opening quote, which closes with a quote and a number
of `#`. -/
def rawLength? (rules : QuoteRules) (hashes : Nat) : List Char → Option Nat
  | [] => none
  | character :: rest =>
    if character = '"' && rest.take hashes == List.replicate hashes '#' then some (1 + hashes)
    else if character = '\r' && rest.head? ≠ some '\n' then none
    else if (rules.wide || character.toNat < 0x80) && (rules.zero || character.toNat ≠ 0) then
      (rawLength? rules hashes rest).map (· + 1)
    else none

/-- The length of a raw string from after the letters that announce it. -/
def rawStringLength? (rules : QuoteRules) (characters : List Char) : Option Nat := do
  let hashes := (characters.takeWhile (· = '#')).length
  match characters.drop hashes with
  | '"' :: rest =>
    if hashes ≤ mostHashes then return hashes + 1 + (← rawLength? rules hashes rest) else none
  | _ => none

/-! ### Numbers -/

/-- The base of an integer and the number of characters that announce it. -/
def baseOf : List Char → Nat × Nat
  | '0' :: 'x' :: _ => (16, 2)
  | '0' :: 'o' :: _ => (8, 2)
  | '0' :: 'b' :: _ => (2, 2)
  | _ => (10, 0)

/-- The number of digits and underscores, of which one at least is a digit. A decimal number does
not start with an underscore, and a decimal digit that the base does not have is an error. -/
def digitsLength? (base : Nat) (seen : Bool) : List Char → Option Nat
  | [] => if seen then some 0 else none
  | character :: rest =>
    if character = '_' then
      if seen || base ≠ 10 then (digitsLength? base seen rest).map (· + 1) else none
    else
      match hexValue? character with
      | some value =>
        if value < base then (digitsLength? base true rest).map (· + 1)
        else if character.isDigit then none
        else if seen then some 0
        else none
      | none => if seen then some 0 else none

/-- The length of a number with the word after it, given the length without. -/
def withSuffix? (characters : List Char) (length : Nat) : Option Nat :=
  let rest := characters.drop length
  let suffix := wordLength rest
  if suffix = 0 && startsInWord rest then none else some (length + suffix)

/-- The length of an integer. -/
def integerLength? (characters : List Char) : Option Nat := do
  let (base, announced) := baseOf characters
  withSuffix? characters (announced + (← digitsLength? base false (characters.drop announced)))

/-- Whether a character is a decimal digit or an underscore. -/
def isDigitOrUnderscore (character : Char) : Bool := character.isDigit || character == '_'

/-- The length of an exponent, which has a digit. -/
def exponentLength? : List Char → Option Nat
  | [] => none
  | letter :: rest =>
    if letter = 'e' ∨ letter = 'E' then
      let underscores := (rest.takeWhile (· = '_')).length
      let signed := (rest.drop underscores).head?.any fun mark => mark = '+' ∨ mark = '-'
      let sign := if signed then 1 else 0
      let digits := (rest.drop (underscores + sign)).takeWhile isDigitOrUnderscore
      if digits.any Char.isDigit then some (1 + underscores + sign + digits.length) else none
    else none

/-- The length of a decimal number with a point or an exponent. A point that another point or a word
follows belongs to no number. -/
def fractionLength? (characters : List Char) : Option Nat := do
  if !characters.head?.any Char.isDigit then none
  let whole := (characters.takeWhile isDigitOrUnderscore).length
  match characters.drop whole with
  | '.' :: rest =>
    if rest.head?.any fun next => next = '.' || isWordStart next then none
    else
      let mantissa := whole + 1 + (rest.takeWhile isDigitOrUnderscore).length
      withSuffix? characters (mantissa + (exponentLength? (characters.drop mantissa)).getD 0)
  | rest => withSuffix? characters (whole + (← exponentLength? rest))

/-! ### All literals -/

/-- The kinds of literals that matter. -/
inductive LiteralKind where
  | string
  | integer
  | other
  deriving DecidableEq, Repr, Inhabited

/-- A literal that starts with some characters, goes on for a length, and ends with the word after
it. -/
def quotedLiteral? (kind : LiteralKind) (characters : List Char) (announced : Nat)
    (length? : Option Nat) : Option (LiteralKind × Nat) :=
  length?.map fun length =>
    (kind, announced + length + wordLength (characters.drop (announced + length)))

/-- The kind and the length of the literal at the head of a text. -/
def literalLength? (characters : List Char) : Option (LiteralKind × Nat) :=
  match characters with
  | '"' :: rest => quotedLiteral? .string characters 1 (quotedLength? .string .plain rest)
  | 'r' :: rest => quotedLiteral? .string characters 1 (rawStringLength? .string rest)
  | 'b' :: '"' :: rest => quotedLiteral? .other characters 2 (quotedLength? .byteString .plain rest)
  | 'b' :: 'r' :: rest => quotedLiteral? .other characters 2 (rawStringLength? .byteString rest)
  | 'b' :: '\'' :: rest => quotedLiteral? .other characters 2 (characterLength? .byte rest)
  | 'c' :: '"' :: rest =>
    quotedLiteral? .other characters 2 (quotedLength? .zeroTerminated .plain rest)
  | 'c' :: 'r' :: rest => quotedLiteral? .other characters 2 (rawStringLength? .zeroTerminated rest)
  | '\'' :: rest => quotedLiteral? .other characters 1 (characterLength? .character rest)
  | _ =>
    match fractionLength? characters with
    | some length => some (.other, length)
    | none => (integerLength? characters).map fun length => (.integer, length)

end TwoLevel.Embedded
