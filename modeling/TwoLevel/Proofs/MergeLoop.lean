/-
**The loop of merge passes ends.**

Each pass hands on the implicants of the next one, and the loop stops at the first pass that hands
nothing on. Nothing bounds it from outside: it ends because a pass over a level hands on the next
level, whose implicants have one more free position, and no pattern has more of them than positions.

* `LoopRun` — **a run of the loop**, pass by pass, up to the one that hands nothing on;
* `LoopRun.level_of_mem` — what goes into a pass of a run is the level of its number;
* `LoopRun.fresh_of_mem` — after the first pass no two implicants share a pattern;
* `LoopRun.length_le` — a run has at most one pass for each number of free positions;
* `merge_loop_ends` — from single rows on, **the loop has a run of at most one pass more than the
  width**, whatever the size of the indices.
-/

import TwoLevel.Proofs.PrimeImplicants

namespace TwoLevel

/-! ### Runs of the loop -/

/-- The passes are a run of the loop from a number and a list of implicants on: a pass that hands
something on is followed by the pass over it, and one that hands nothing on is the last. -/
inductive LoopRun : Nat → List Implicant → List MergePass → Prop
  | stop {number : Nat} {implicants : List Implicant}
      (last : (MergePass.ofInputs number implicants).outputs = []) :
      LoopRun number implicants [.ofInputs number implicants]
  | next {number : Nat} {implicants : List Implicant} {later : List MergePass}
      (more : (MergePass.ofInputs number implicants).outputs ≠ [])
      (run : LoopRun (number + 1) (MergePass.ofInputs number implicants).outputs later) :
      LoopRun number implicants (.ofInputs number implicants :: later)

/-- The passes of a search are a run of the loop. -/
theorem loopRun_passesFrom (number : Nat) (implicants : List Implicant) :
    LoopRun number implicants (passesFrom number implicants) := by
  induction number, implicants using passesFrom.induct with
  | case1 number implicants pass last =>
    rw [passesFrom, dif_pos last]
    exact .stop last
  | case2 number implicants pass more ih =>
    rw [passesFrom, dif_neg more]
    exact .next more ih

/-- What a pass hands on has each pattern once. -/
theorem nodup_patterns_outputs (pass : MergePass) :
    (pass.outputs.map Implicant.pattern).Nodup :=
  (gatherByPattern_spec _).1

/-- No level has more free positions than the width, unless it is empty. -/
theorem Level.dashes_le {width dashes : Nat} {indices : List Nat} {implicants : List Implicant}
    (level : Level width indices dashes implicants) (nonempty : implicants ≠ []) :
    dashes ≤ width := by
  obtain ⟨implicant, member⟩ := List.exists_mem_of_ne_nil implicants nonempty
  obtain ⟨admissible, count, _⟩ := (level.mem_iff implicant).mp member
  rw [← count, ← admissible.length_eq]
  exact List.count_le_length

namespace LoopRun

variable {number width dashes : Nat} {indices : List Nat} {implicants : List Implicant}
  {passes : List MergePass}

/-- The passes of a run are numbered one after the other. -/
theorem numbers_eq (run : LoopRun number implicants passes) :
    passes.map MergePass.number = List.range' number passes.length := by
  induction run with
  | stop => rfl
  | next more run ih => rw [List.map_cons, ih, List.length_cons, List.range'_succ]; rfl

/-- **What goes into a pass is the level of its number**: each pass adds one to both. -/
theorem level_of_mem (run : LoopRun number implicants passes)
    (level : Level width indices dashes implicants) {pass : MergePass} (member : pass ∈ passes) :
    ∃ later, pass.number = number + later ∧ Level width indices (dashes + later) pass.inputs := by
  induction run generalizing dashes with
  | stop =>
    rw [List.mem_singleton.mp member]
    exact ⟨0, rfl, level⟩
  | @next number implicants _ more run ih =>
    rcases List.mem_cons.mp member with rfl | after
    · exact ⟨0, rfl, level⟩
    · obtain ⟨later, same, reached⟩ := ih (level.outputs number) after
      refine ⟨later + 1, by omega, ?_⟩
      rwa [Nat.add_assoc, Nat.add_comm 1 later] at reached

/-- **After the first pass no two implicants share a pattern**: they are what a pass hands on. -/
theorem fresh_of_mem (run : LoopRun number implicants passes) {pass : MergePass}
    (member : pass ∈ passes) (later : number < pass.number) :
    (pass.inputs.map Implicant.pattern).Nodup := by
  suffices general : pass = .ofInputs number implicants ∨
      (pass.inputs.map Implicant.pattern).Nodup by
    refine general.resolve_left fun first => ?_
    rw [first] at later
    exact Nat.lt_irrefl number later
  clear later
  induction run with
  | stop => exact .inl (List.mem_singleton.mp member)
  | next more run ih =>
    rcases List.mem_cons.mp member with first | after
    · exact .inl first
    · rcases ih after with rfl | fresh
      · exact .inr (nodup_patterns_outputs _)
      · exact .inr fresh

/-- **A run has at most one pass for each number of free positions** from its first level on. -/
theorem length_le (run : LoopRun number implicants passes)
    (level : Level width indices dashes implicants) (start : dashes ≤ width) :
    passes.length + dashes ≤ width + 1 := by
  induction run generalizing dashes with
  | stop =>
    rw [List.length_singleton]
    omega
  | @next number implicants _ more run ih =>
    have above := level.outputs number
    have rest := ih above (above.dashes_le more)
    rw [List.length_cons]
    omega

end LoopRun

/-- **The merge loop ends within one pass more than the width.** For every width, target rows and
rows that may also be covered, whatever the size of the indices, the loop from the implicants of
single rows on has a run, which are the passes of the search if it makes any. Its passes are
numbered from one on, and there are at most one more than the width. Every implicant that goes into
a pass has the width, and one free position less than the number of the pass; and from the second
pass on no two of them share a pattern. -/
theorem merge_loop_ends (width : Nat) (target dontCare : List Nat) :
    ∃ passes, LoopRun 1 (PrimeSearch.seeds width target dontCare) passes ∧
      (target ≠ [] → ¬ LoneRow target dontCare →
        PrimeSearch.ofIndices width target dontCare = .merging (.ofList target) passes) ∧
      passes.map MergePass.number = List.range' 1 passes.length ∧
      passes.length ≤ width + 1 ∧
      ∀ pass ∈ passes,
        (∀ implicant ∈ pass.inputs, implicant.pattern.length = width ∧
          implicant.pattern.dashes + 1 = pass.number) ∧
        (2 ≤ pass.number → (pass.inputs.map Implicant.pattern).Nodup) := by
  have level := Level.seeds width target dontCare
  have run := loopRun_passesFrom 1 (PrimeSearch.seeds width target dontCare)
  refine ⟨_, run, ofIndices_eq_merging width, run.numbers_eq, run.length_le level (Nat.zero_le _),
    fun pass member => ⟨fun implicant inside => ?_, run.fresh_of_mem member⟩⟩
  obtain ⟨later, same, reached⟩ := run.level_of_mem level member
  obtain ⟨admissible, count, _⟩ := (reached.mem_iff implicant).mp inside
  exact ⟨admissible.length_eq, by omega⟩

/-- The bound is reached where all rows of a table are covered: over two columns after three
passes. -/
example : (passesFrom 1 (PrimeSearch.seeds 2 [0, 1, 2, 3] [])).length = 3 := by
  cbv

end TwoLevel
