/-
**From program source to tokens.**

Blanks and ordinary comments separate the tokens of program source. Every function here says how
long something at the head of the text is; the scanner takes that many characters and goes on.

* `blankLength?`, `documentationLength?`: blanks and ordinary comments; comments that document;
* `wordLength?`, `mark?`: identifiers and punctuation;
* `scan`: the tokens of a text, if all of it consists of tokens;
* `SourceToken.ofText?`: the tokens, if the brackets among them are balanced too.
-/

import TwoLevel.Embedded.Literal
import TwoLevel.Embedded.SourceToken

namespace TwoLevel.Embedded

open Text

/-! ### Blanks and comments -/

/-- The length of a comment from after its opening mark, with the comments that it contains; `depth`
comments are open around it. -/
def commentLength? (depth : Nat) : List Char → Option Nat
  | '/' :: '*' :: rest => (commentLength? (depth + 1) rest).map (· + 2)
  | '*' :: '/' :: rest =>
    if depth = 0 then some 2 else (commentLength? (depth - 1) rest).map (· + 2)
  | _ :: rest => (commentLength? depth rest).map (· + 1)
  | [] => none

/-- The number of characters before the end of the line. -/
def lineLength (characters : List Char) : Nat := (characters.takeWhile (· ≠ '\n')).length

/-- Whether a line feed follows each carriage return of a comment. -/
def carriagesPaired : List Char → Bool
  | [] => true
  | '\r' :: '\n' :: rest => carriagesPaired rest
  | '\r' :: _ => false
  | _ :: rest => carriagesPaired rest

/-- The length of a line of a documenting comment from after its mark. -/
def documentationLine? (rest : List Char) : Option Nat :=
  let length := lineLength rest
  if carriagesPaired (rest.take (length + 1)) then some length else none

/-- The length of a documenting comment between marks from after its opening mark. -/
def documentationBlock? (rest : List Char) : Option Nat := do
  let length ← commentLength? 0 rest
  if carriagesPaired (rest.take (length - 2)) then some length else none

/-- The length of a comment that documents what follows or surrounds it. -/
def documentationLength? : List Char → Option Nat
  | '/' :: '/' :: '!' :: rest => (documentationLine? rest).map (· + 3)
  | '/' :: '/' :: '/' :: rest =>
    if rest.head? = some '/' then none else (documentationLine? rest).map (· + 3)
  | '/' :: '*' :: '!' :: rest => (documentationBlock? rest).map (· + 3)
  | '/' :: '*' :: '*' :: rest =>
    if rest.head? = some '*' || rest.head? = some '/' then none
    else (documentationBlock? rest).map (· + 3)
  | _ => none

/-- The length of an ordinary comment. -/
def ordinaryCommentLength? : List Char → Option Nat
  | '/' :: '/' :: rest =>
    let ordinary :=
      match rest with
      | '!' :: _ => false
      | '/' :: next => next.head? = some '/'
      | _ => true
    if ordinary then some (2 + lineLength rest) else none
  | '/' :: '*' :: '*' :: '/' :: _ => some 4
  | '/' :: '*' :: rest =>
    let ordinary :=
      match rest with
      | '!' :: _ => false
      | '*' :: next => next.head? = some '*'
      | _ => true
    if ordinary then (commentLength? 0 rest).map (· + 2) else none
  | _ => none

/-- Whether a character separates tokens: a blank or a mark for the direction of writing. -/
def isSeparator (character : Char) : Bool :=
  isBlank character || character == '\u200e' || character == '\u200f'

/-- The length of a blank or an ordinary comment. -/
def blankLength? (characters : List Char) : Option Nat :=
  if characters.head?.any isSeparator then some 1 else ordinaryCommentLength? characters

/-! ### Words and marks -/

/-- The words that no `r#` can precede. -/
def neverRaw : List String := ["_", "super", "self", "Self", "crate"]

/-- The length of an identifier, perhaps after `r#`. -/
def wordLength? (characters : List Char) : Option Nat :=
  match characters with
  | 'r' :: '#' :: rest =>
    let length := wordLength rest
    if length = 0 || neverRaw.contains (String.ofList (rest.take length)) then none
    else some (length + 2)
  | _ =>
    let length := wordLength characters
    if length = 0 then none else some length

/-- The beginnings of literals, which are no words. -/
def literalBeginnings : List (List Char) :=
  [['r', '"'], ['r', '#', '"'], ['r', '#', '#'], ['b', '"'], ['b', '\''], ['b', 'r', '"'],
    ['b', 'r', '#'], ['c', '"'], ['c', 'r', '"'], ['c', 'r', '#']]

/-- Whether a text starts like a literal. -/
def startsLiteral (characters : List Char) : Bool :=
  literalBeginnings.any fun beginning => beginning.isPrefixOf characters

/-- The punctuation characters, but for the one that starts a lifetime. -/
def markCharacters : List Char :=
  ['~', '!', '@', '#', '$', '%', '^', '&', '*', '-', '=', '+', '|', ';', ':', ',', '<', '.', '>',
    '/', '?']

/-- Whether a word follows that makes a single quote before it the mark of a lifetime: neither a
quote nor a stray `#` comes after it. -/
def startsLifetime (characters : List Char) : Bool :=
  match wordLength? characters with
  | none => false
  | some length =>
    match (characters.drop length).head? with
    | some '\'' => false
    | some '#' => ['r', '#'].isPrefixOf characters
    | _ => true

/-- The punctuation character at the head of a text. -/
def mark? : List Char → Option Char
  | '\'' :: rest => if startsLifetime rest then some '\'' else none
  | '/' :: '/' :: _ | '/' :: '*' :: _ => none
  | character :: _ => if markCharacters.contains character then some character else none
  | [] => none

/-! ### The scanner -/

/-- A bracket. -/
def bracket? : Char → Option SourceToken
  | '(' => some (.opening .round)
  | ')' => some (.closing .round)
  | '[' => some (.opening .square)
  | ']' => some (.closing .square)
  | '\x7b' => some (.opening .curly)
  | '\x7d' => some (.closing .curly)
  | _ => none

/-- What stands in program source for a literal that could not be read. -/
def faultyLiteral : List Char := "(/*ERROR*/)".toList

/-- The token that a literal is. -/
def literalToken (kind : LiteralKind) (text : List Char) : SourceToken :=
  match kind with
  | .string => .string (String.ofList text)
  | .integer => .integer (String.ofList text)
  | .other => .otherLiteral

/-- The token at the head of a text and its length. Literals go before marks and words. -/
def token? (characters : List Char) : Option (SourceToken × Nat) :=
  if faultyLiteral.isPrefixOf characters then some (.otherLiteral, faultyLiteral.length)
  else
    match characters.head?.bind bracket?, literalLength? characters, mark? characters with
    | some bracket, _, _ => some (bracket, 1)
    | none, some (kind, length), _ => some (literalToken kind (characters.take length), length)
    | none, none, some character => some (.mark character, 1)
    | none, none, none =>
      if startsLiteral characters then none
      else (wordLength? characters).map fun length =>
        (.word (String.ofList (characters.take length)), length)

/-- What the head of a text is, a token or nothing, and its length. -/
def piece? (characters : List Char) : Option (Option SourceToken × Nat) :=
  match blankLength? characters, documentationLength? characters with
  | some length, _ => some (none, length)
  | none, some length => some (some .documentation, length)
  | none, none => (token? characters).map fun (token, length) => (some token, length)

/-- The tokens of a text, if all of it consists of tokens. -/
def scan : List Char → Option (List SourceToken)
  | [] => some []
  | first :: rest =>
    match piece? (first :: rest) with
    | none => none
    | some (token?, length) => (scan (rest.drop (length - 1))).map (token?.toList ++ ·)
termination_by characters => characters.length
decreasing_by
  rw [List.length_drop, List.length_cons]
  omega

/-- The mark that may precede a text and says how it is encoded. -/
def byteOrderMark : Char := '\ufeff'

/-- The tokens of a text, if all of it consists of tokens and their brackets are balanced. -/
def SourceToken.ofText? (text : String) : Option (List SourceToken) := do
  let characters :=
    match text.toList with
    | [] => []
    | first :: rest => if first = byteOrderMark then rest else first :: rest
  let tokens ← scan characters
  if balanced [] tokens then some tokens else none

end TwoLevel.Embedded
