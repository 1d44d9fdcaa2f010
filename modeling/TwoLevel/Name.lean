/-
**The order of variable names.**

Names are compared as if their ASCII letters were of one case, with `_` before digits and digits
before everything else; of names that agree in that, the one that has a lowercase letter where the
other has its capital comes first.

* `compareNames`: the order, a comparison of the weights and then of the capitals;
* `sortNames`: the ascending list of distinct names, the order of the columns of a truth table.
-/

import TwoLevel.Sorted

namespace TwoLevel

/-- The weight of a character: `_`, then the digits, then the others by code point, in which ASCII
capitals count as lowercase. -/
def nameWeight (character : Char) : Nat :=
  if character = '_' then 0
  else if character.isDigit then character.toNat
  else 0x110000 + character.toLower.toNat

/-- The weights of a name's characters. -/
def nameWeights (name : String) : List Nat := name.toList.map nameWeight

/-- For each character of a name whether it is anything but an ASCII lowercase letter. -/
def nameCapitals (name : String) : List Bool := name.toList.map fun character => !character.isLower

/-- The order of names. -/
def compareNames (left right : String) : Ordering :=
  (compare (nameWeights left) (nameWeights right)).then
    (compare (nameCapitals left) (nameCapitals right))

/-- The distinct names of a list, ascending. -/
def sortNames (names : List String) : List String := distinctBy compareNames names

end TwoLevel
