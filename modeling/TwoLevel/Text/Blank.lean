/-
**Blank characters.**

The characters with the Unicode property White_Space, and the removal of blanks at both ends of a
text.

* `blankRanges`: the ranges of the property;
* `trimBlanks`: the text between the first and the last character that is not blank.
-/

namespace TwoLevel.Text

/-- The first and last code points of the ranges with the property White_Space. -/
def blankRanges : List (Nat × Nat) :=
  [(0x0009, 0x000d), (0x0020, 0x0020), (0x0085, 0x0085), (0x00a0, 0x00a0), (0x1680, 0x1680),
    (0x2000, 0x200a), (0x2028, 0x2029), (0x202f, 0x202f), (0x205f, 0x205f), (0x3000, 0x3000)]

/-- Whether one of the ranges holds the code point of a character. -/
def inRanges (ranges : List (Nat × Nat)) (character : Char) : Bool :=
  ranges.any fun (first, last) => decide (first ≤ character.toNat ∧ character.toNat ≤ last)

/-- Whether a character is blank. -/
def isBlank (character : Char) : Bool := inRanges blankRanges character

/-- Remove the blanks at both ends. -/
def trimBlanks (characters : List Char) : List Char :=
  ((characters.dropWhile isBlank).reverse.dropWhile isBlank).reverse

end TwoLevel.Text
