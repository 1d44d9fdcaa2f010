/-
**JSON values.**

Values with the members of objects in a fixed order, written on one line or with one element on each
line.

* `JsonValue.compact`: the form without blanks;
* `JsonValue.pretty`: the form with an indentation of two spaces for each level.
-/

import TwoLevel.Text.Quoted

namespace TwoLevel

/-- A JSON value; the members of an object keep their order. -/
inductive JsonValue where
  | null
  | bool (value : Bool)
  | number (value : Nat)
  | string (text : String)
  | array (items : List JsonValue)
  | object (members : List (String × JsonValue))
  deriving Inhabited

namespace JsonValue

/-- The array of the encoded values. -/
def ofList {α : Type} (encode : α → JsonValue) (values : List α) : JsonValue :=
  array (values.map encode)

/-- The encoded value, or null without one. -/
def ofOption {α : Type} (encode : α → JsonValue) (value? : Option α) : JsonValue :=
  value?.elim null encode

mutual

/-- The form without blanks. -/
def compact : JsonValue → String
  | null => "null"
  | bool value => if value then "true" else "false"
  | number value => toString value
  | string text => Text.quoteData text
  | array items => "[" ++ compactItems items ++ "]"
  | object members => "\x7b" ++ compactMembers members ++ "\x7d"

/-- The items of an array with commas between them. -/
def compactItems : List JsonValue → String
  | [] => ""
  | [item] => item.compact
  | item :: rest => item.compact ++ "," ++ compactItems rest

/-- The members of an object with commas between them. -/
def compactMembers : List (String × JsonValue) → String
  | [] => ""
  | [(key, value)] => Text.quoteData key ++ ":" ++ value.compact
  | (key, value) :: rest => Text.quoteData key ++ ":" ++ value.compact ++ "," ++ compactMembers rest

end

/-- The line break before an element at a level of indentation. -/
def lineBreak (level : Nat) : String := "\n" ++ String.ofList (List.replicate (2 * level) ' ')

mutual

/-- The form with one element on each line, for a value at a level of indentation. -/
def prettyAt (level : Nat) : JsonValue → String
  | array (item :: rest) =>
    "[" ++ prettyItems (level + 1) (item :: rest) ++ lineBreak level ++ "]"
  | object (member :: rest) =>
    "\x7b" ++ prettyMembers (level + 1) (member :: rest) ++ lineBreak level ++ "\x7d"
  | array [] => "[]"
  | object [] => "\x7b\x7d"
  | null => "null"
  | bool value => if value then "true" else "false"
  | number value => toString value
  | string text => Text.quoteData text

/-- The items of an array, each on a line of its own. -/
def prettyItems (level : Nat) : List JsonValue → String
  | [] => ""
  | [item] => lineBreak level ++ item.prettyAt level
  | item :: rest => lineBreak level ++ item.prettyAt level ++ "," ++ prettyItems level rest

/-- The members of an object, each on a line of its own. -/
def prettyMembers (level : Nat) : List (String × JsonValue) → String
  | [] => ""
  | [(key, value)] => lineBreak level ++ Text.quoteData key ++ ": " ++ value.prettyAt level
  | (key, value) :: rest =>
    lineBreak level ++ Text.quoteData key ++ ": " ++ value.prettyAt level ++ ","
      ++ prettyMembers level rest

end

/-- The form with one element on each line. -/
def pretty (value : JsonValue) : String := value.prettyAt 0

end JsonValue

end TwoLevel
