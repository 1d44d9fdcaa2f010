/-
**Machine words.**

Row indices are words of 64 bits, and the bits of an index are read by shifting it. The amount of a
shift has to be below the size of a word. What happens if it is not depends on the build of the
program: a checked build stops, and a wrapping one shifts by the low bits of the amount.

* `Word.bit`, `Word.power`: the two shifts of the program, as a wrapping build does them;
* `bit_eq_testBit`: the bit that the first one reads;
* `Build.shift`: what a shift gives in a build, or nothing where the build stops;
* `Build.Reads`: that a build reads rows of a width without stopping.
-/

namespace TwoLevel

namespace Word

/-- The number of bits of a word. -/
def size : Nat := 64

/-- The lowest bit of an index that is shifted to the right by an amount. -/
def bit (index amount : Nat) : Bool := index.toUInt64 >>> amount.toUInt64 &&& 1 == 1

/-- One, shifted to the left by an amount. -/
def power (amount : Nat) : Nat := ((1 : UInt64) <<< amount.toUInt64).toNat

theorem mod_size_lt (amount : Nat) : amount % size < size := Nat.mod_lt _ (by decide)

/-- A shift to the right reads the bit at the low bits of the amount. -/
theorem bit_eq_testBit_mod (index amount : Nat) :
    bit index amount = index.testBit (amount % size) := by
  have low := mod_size_lt amount
  have inWord : (index % 2 ^ size).testBit (amount % size) = index.testBit (amount % size) := by
    rw [Nat.testBit_mod_two_pow, decide_eq_true low, Bool.true_and]
  rw [← inWord, Nat.testBit_eq_decide_div_mod_eq, ← Nat.shiftRight_eq_div_pow, Bool.eq_iff_iff,
    decide_eq_true_iff, bit, beq_iff_eq, ← UInt64.toNat_inj, UInt64.toNat_and,
    UInt64.toNat_shiftRight]
  simp [size, Nat.toUInt64]

/-- Below the size of a word, a shift to the right reads the bit at the amount. -/
theorem bit_eq_testBit (index : Nat) {amount : Nat} (inWord : amount < size) :
    bit index amount = index.testBit amount := by
  rw [bit_eq_testBit_mod, Nat.mod_eq_of_lt inWord]

end Word

/-- How the program was built. -/
inductive Build where
  /-- A shift by the size of a word or more stops the program. -/
  | checked
  /-- A shift by the size of a word or more is one by the low bits of the amount. -/
  | wrapping
  deriving DecidableEq, Repr

namespace Build

variable {α : Type} {build : Build} {amount : Nat}

/-- What a shift by an amount gives, if it does not stop the program. -/
def shift (build : Build) (amount : Nat) (result : α) : Option α :=
  if build = checked ∧ Word.size ≤ amount then none else some result

/-- In the build, no shift stops that reads a row of the width: the greatest amount is one less. -/
def Reads (build : Build) (width : Nat) : Prop := build = checked → width ≤ Word.size

instance (build : Build) (width : Nat) : Decidable (build.Reads width) :=
  inferInstanceAs (Decidable (build = checked → width ≤ Word.size))

/-- Rows of no more bits than a word has are read in every build. -/
theorem reads_of_le (build : Build) {width : Nat} (inWord : width ≤ Word.size) :
    build.Reads width :=
  fun _ => inWord

theorem not_reads_iff {width : Nat} :
    ¬ build.Reads width ↔ build = checked ∧ Word.size < width :=
  Decidable.not_imp_iff_and_not.trans (and_congr_right fun _ => Nat.not_le)

/-- A wrapping build never stops. -/
theorem reads_wrapping (width : Nat) : wrapping.Reads width :=
  fun checked => Build.noConfusion checked

namespace Reads

variable {width : Nat}

theorem mono (reads : build.Reads width) {narrow : Nat} (fewer : narrow ≤ width) :
    build.Reads narrow :=
  fun checked => Nat.le_trans fewer (reads checked)

/-- Where rows of a width are read, a shift by a smaller amount does not stop. -/
theorem shift_eq (reads : build.Reads width) (below : amount < width) (result : α) :
    build.shift amount result = some result := by
  refine if_neg fun stops => ?_
  exact absurd (Nat.lt_of_lt_of_le below (reads stops.1)) (Nat.not_lt.mpr stops.2)

end Reads

/-- Where rows of a width are not read, the first of their shifts stops. -/
theorem shift_of_not_reads {width : Nat} (stops : ¬ build.Reads (width + 1)) (result : α) :
    build.shift width result = none := by
  obtain ⟨checked, beyond⟩ := not_reads_iff.mp stops
  exact if_pos ⟨checked, Nat.le_of_lt_succ beyond⟩

end Build

end TwoLevel
