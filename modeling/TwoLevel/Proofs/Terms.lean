/-
**What terms mean.**

A chain of conjunctions is true where all its terms are, a chain of disjunctions where one is. The
product of a pattern is true in the rows that the pattern fits, and its complemented clause in the
others.

* `eval_chain_and`, `eval_chain_or` — the value of a chain;
* `Pattern.eval_product`, `Pattern.eval_complementedClause` — the value of the two terms of a
  pattern under a valuation;
* `Expr.Over` — an expression over some names that is not too high, as all of these are;
* `Pattern.Matches` — what a pattern demands of a row, position by position;
* `terms_respect_pattern` — **the terms of an implicant decide in every row whether it matches**;
* `row_matched_beyond_word` — a row that does not fit into a word.
-/

import Mathlib.Data.List.Induction
import TwoLevel.Implicant.Term
import TwoLevel.Proofs.Rows

namespace TwoLevel

/-! ### Chains -/

namespace Expr

variable {valuation : String → Bool}

theorem eval_foldl_and (first : Expr) (rest : List Expr) :
    (rest.foldl (binary .and) first).eval valuation =
      (first.eval valuation && rest.all fun term => term.eval valuation) := by
  induction rest generalizing first with
  | nil => exact (Bool.and_true _).symm
  | cons second others ih =>
    rw [List.foldl_cons, ih, eval, List.all_cons, ← Bool.and_assoc]
    rfl

theorem eval_foldl_or (first : Expr) (rest : List Expr) :
    (rest.foldl (binary .or) first).eval valuation =
      (first.eval valuation || rest.any fun term => term.eval valuation) := by
  induction rest generalizing first with
  | nil => exact (Bool.or_false _).symm
  | cons second others ih =>
    rw [List.foldl_cons, ih, eval, List.any_cons, ← Bool.or_assoc]
    rfl

/-- A chain of conjunctions is true where all its terms are. -/
theorem eval_chain_and (terms : List Expr) :
    (chain .and terms (.const true)).eval valuation = terms.all fun term => term.eval valuation := by
  cases terms with
  | nil => rfl
  | cons first rest => exact eval_foldl_and first rest

/-- A chain of disjunctions is true where one of its terms is. -/
theorem eval_chain_or (terms : List Expr) :
    (chain .or terms (.const false)).eval valuation =
      terms.any fun term => term.eval valuation := by
  cases terms with
  | nil => rfl
  | cons first rest => exact eval_foldl_or first rest

/-- A literal is true where its name has the value. -/
theorem eval_literal (value : Bool) (name : String) :
    (literal value name).eval valuation = (valuation name == value) := by
  cases value with
  | true => exact (beq_true (valuation name)).symm
  | false => exact (beq_false (valuation name)).symm

end Expr

/-! ### The terms of a pattern -/

namespace Pattern

variable {pattern : Pattern} {names : List String}

theorem all_literals (width : pattern.length = names.length) (valuation : String → Bool) :
    (pattern.literals false names).all (fun term => term.eval valuation) =
      pattern.fits (rowOf names valuation) := by
  induction pattern generalizing names with
  | nil => rfl
  | cons trit rest ih =>
    cases names with
    | nil => cases width
    | cons name others =>
      have width : rest.length = others.length := Nat.succ.inj width
      have below : rowOf others valuation < 2 ^ rest.length := width ▸ rowOf_lt others valuation
      rw [rowOf, ← width, fits_frontBit trit _ below, ← ih width]
      cases trit with
      | dash => rfl
      | zero =>
        show ((Expr.literal false name).eval valuation && _) = _
        rw [Expr.eval_literal, beq_false]
        rfl
      | one =>
        show ((Expr.literal true name).eval valuation && _) = _
        rw [Expr.eval_literal, beq_true]
        rfl

/-- The literals of the clause are the complements of those of the product. -/
theorem any_literals (valuation : String → Bool) :
    (pattern.literals true names).any (fun term => term.eval valuation) =
      !(pattern.literals false names).all fun term => term.eval valuation := by
  have complements : ∀ value name, (Expr.literal (value != true) name).eval valuation =
      !(Expr.literal (value != false) name).eval valuation := by
    intro value name
    rw [Expr.eval_literal, Expr.eval_literal]
    cases value <;> cases valuation name <;> rfl
  induction pattern generalizing names with
  | nil => rfl
  | cons trit rest ih =>
    cases names with
    | nil => rfl
    | cons name others =>
      rw [literals, literals]
      cases trit.value? with
      | none => exact ih
      | some value =>
        rw [List.any_cons, List.all_cons, ih, complements, Bool.not_and]

/-- **The product of a pattern is true in the rows it fits.** -/
theorem eval_product (width : pattern.length = names.length) (valuation : String → Bool) :
    (pattern.product names).eval valuation = pattern.fits (rowOf names valuation) := by
  rw [product, Expr.eval_chain_and, all_literals width]

/-- **The complemented clause of a pattern is true in the rows it does not fit.** -/
theorem eval_complementedClause (width : pattern.length = names.length)
    (valuation : String → Bool) :
    (pattern.complementedClause names).eval valuation = !pattern.fits (rowOf names valuation) := by
  rw [complementedClause, Expr.eval_chain_or, any_literals, all_literals width]

end Pattern

/-! ### Names and heights -/

namespace Expr

/-- The variables of the expression are among the names, and it is no higher than the bound. -/
structure Over (names : List String) (bound : Nat) (expr : Expr) : Prop where
  inside : ∀ name ∈ expr.leaves, name ∈ names
  low : expr.height ≤ bound

variable {names : List String} {bound : Nat}

theorem over_const (value : Bool) : Over names bound (.const value) :=
  ⟨fun _ member => (nomatch member), Nat.zero_le _⟩

theorem over_literal {name : String} (member : name ∈ names) (value : Bool) :
    Over names 1 (literal value name) := by
  cases value with
  | true => exact ⟨fun other inLeaves => List.mem_singleton.mp inLeaves ▸ member, Nat.zero_le _⟩
  | false => exact ⟨fun other inLeaves => List.mem_singleton.mp inLeaves ▸ member, Nat.le_refl _⟩

/-- Each term of a chain adds at most one to its height. -/
theorem over_foldl (op : Connective) {first : Expr} {rest : List Expr}
    (firstOver : Over names bound first) (restOver : ∀ term ∈ rest, Over names bound term) :
    Over names (bound + rest.length) (rest.foldl (binary op) first) := by
  induction rest using List.reverseRecOn with
  | nil => exact firstOver
  | append_singleton earlier last ih =>
    have earlierOver := ih fun term member => restOver term (List.mem_append_left _ member)
    have lastOver := restOver last (List.mem_append_right _ (List.mem_singleton.mpr rfl))
    rw [List.foldl_append, List.length_append]
    refine ⟨fun name member => ?_, Nat.succ_le_succ (Nat.max_le.mpr ⟨earlierOver.low, ?_⟩)⟩
    · rcases List.mem_append.mp member with left | right
      · exact earlierOver.inside name left
      · exact lastOver.inside name right
    · exact Nat.le_trans lastOver.low (Nat.le_add_right _ _)

theorem over_chain (op : Connective) {terms : List Expr} {empty : Expr}
    (termsOver : ∀ term ∈ terms, Over names bound term) (emptyOver : Over names bound empty) :
    Over names (bound + terms.length) (chain op terms empty) := by
  cases terms with
  | nil => exact emptyOver
  | cons first rest =>
    obtain ⟨inside, low⟩ := over_foldl op (termsOver first List.mem_cons_self)
      fun term member => termsOver term (List.mem_cons_of_mem _ member)
    exact ⟨inside, Nat.le_succ_of_le low⟩

end Expr

namespace Pattern

variable {names : List String}

/-- The literals are literals of the names. -/
theorem exists_literal_of_mem {complement : Bool} {pattern : Pattern} {term : Expr}
    (member : term ∈ pattern.literals complement names) :
    ∃ name ∈ names, ∃ value, term = Expr.literal value name := by
  induction pattern generalizing names with
  | nil => cases member
  | cons trit rest ih =>
    cases names with
    | nil => cases member
    | cons name others =>
      rw [literals] at member
      cases demand : trit.value? with
      | none =>
        rw [demand] at member
        obtain ⟨found, inside, literal⟩ := ih member
        exact ⟨found, List.mem_cons_of_mem _ inside, literal⟩
      | some value =>
        rw [demand] at member
        rcases List.mem_cons.mp member with rfl | later
        · exact ⟨name, List.mem_cons_self, _, rfl⟩
        · obtain ⟨found, inside, literal⟩ := ih later
          exact ⟨found, List.mem_cons_of_mem _ inside, literal⟩

theorem length_literals_le (complement : Bool) (pattern : Pattern) :
    (pattern.literals complement names).length ≤ names.length := by
  induction pattern generalizing names with
  | nil => exact Nat.zero_le _
  | cons trit rest ih =>
    cases names with
    | nil => exact Nat.zero_le _
    | cons name others =>
      rw [literals]
      cases trit.value? with
      | none => exact Nat.le_succ_of_le ih
      | some value => exact Nat.succ_le_succ ih

/-- The terms of a pattern are no higher than there are names, and one for a NOT. -/
theorem over_terms (op : Connective) (complement value : Bool) (pattern : Pattern) :
    Expr.Over names (1 + names.length)
      (Expr.chain op (pattern.literals complement names) (.const value)) := by
  have literals : ∀ term ∈ pattern.literals complement names, Expr.Over names 1 term := by
    intro term member
    obtain ⟨name, inside, positive, rfl⟩ := exists_literal_of_mem member
    exact Expr.over_literal inside positive
  obtain ⟨inside, low⟩ := Expr.over_chain op literals (Expr.over_const value)
  exact ⟨inside, Nat.le_trans low (Nat.add_le_add_left (length_literals_le complement pattern) 1)⟩

end Pattern

/-! ### Terms in rows -/

theorem Trit.admits_iff {trit : Trit} {bit : Bool} :
    trit.admits bit = true ↔ trit = .dash ∨ trit = .ofBool bit := by
  cases trit <;> cases bit <;> decide

/-- No terms other than constants make a constant. -/
theorem Expr.chain_eq_const_iff {op : Connective} {terms : List Expr} {empty value : Bool}
    (noConstant : ∀ term ∈ terms, ∀ other, term ≠ .const other) :
    chain op terms (.const empty) = .const value ↔ terms = [] ∧ empty = value := by
  cases terms with
  | nil => simp [chain]
  | cons first rest =>
    refine iff_of_false (fun same => ?_) (fun same => List.cons_ne_nil _ _ same.1)
    rw [chain] at same
    induction rest using List.reverseRecOn with
    | nil => exact noConstant first List.mem_cons_self value same
    | append_singleton earlier last _ =>
      rw [List.foldl_append] at same
      cases same

namespace Pattern

variable {pattern : Pattern} {names : List String}

/-- At each position the pattern has a dash or the bit of the row, the first position the highest of
the low bits. -/
def Matches (pattern : Pattern) (index : Nat) : Prop :=
  ∀ position (inside : position < pattern.length), pattern[position] = .dash ∨
    pattern[position] = .ofBool (index.testBit (pattern.length - 1 - position))

instance (pattern : Pattern) (index : Nat) : Decidable (pattern.Matches index) :=
  inferInstanceAs (Decidable (∀ position (_ : position < pattern.length), _ ∨ _))

theorem matches_cons {trit : Trit} {rest : Pattern} {index : Nat} :
    Matches (trit :: rest) index ↔
      (trit = .dash ∨ trit = .ofBool (index.testBit rest.length)) ∧ rest.Matches index := by
  constructor
  · intro matching
    refine ⟨matching 0 (Nat.succ_pos _), fun position inside => ?_⟩
    have later := matching (position + 1) (Nat.succ_lt_succ inside)
    have place : rest.length - (position + 1) = rest.length - 1 - position := by omega
    simpa [place] using later
  · rintro ⟨head, tail⟩ position inside
    cases position with
    | zero => exact head
    | succ position =>
      have later := tail position (Nat.lt_of_succ_lt_succ inside)
      have place : rest.length - (position + 1) = rest.length - 1 - position := by omega
      simpa [place] using later

/-- A row fits a pattern just where each of its low bits matches. -/
theorem fits_iff_matches {index : Nat} : pattern.fits index = true ↔ pattern.Matches index := by
  induction pattern with
  | nil => exact iff_of_true rfl fun position inside => absurd inside (Nat.not_lt_zero _)
  | cons trit rest ih => rw [fits_cons, Bool.and_eq_true, ih, matches_cons, Trit.admits_iff]

theorem fits_eq_decide (pattern : Pattern) (index : Nat) :
    pattern.fits index = decide (pattern.Matches index) := by
  rw [Bool.eq_iff_iff, fits_iff_matches, decide_eq_true_eq]

/-- A pattern has no literals just where it is all dashes. -/
theorem literals_eq_nil_iff {complement : Bool} (width : pattern.length = names.length) :
    pattern.literals complement names = [] ↔ pattern = List.replicate names.length .dash := by
  induction pattern generalizing names with
  | nil =>
    rw [← width]
    exact iff_of_true rfl rfl
  | cons trit rest ih =>
    cases names with
    | nil => cases width
    | cons name others =>
      rw [literals, List.length_cons, List.replicate_succ]
      cases trit <;> simp [Trit.value?, ih (Nat.succ.inj width)]

theorem ne_const_of_mem_literals {complement : Bool} {term : Expr}
    (member : term ∈ pattern.literals complement names) (value : Bool) : term ≠ .const value := by
  obtain ⟨name, _, positive, rfl⟩ := exists_literal_of_mem member
  cases positive <;> exact Expr.noConfusion

/-- The product is the constant `1` just where the pattern is all dashes. -/
theorem product_eq_const_iff (width : pattern.length = names.length) :
    pattern.product names = .const true ↔ pattern = List.replicate names.length .dash := by
  rw [product, Expr.chain_eq_const_iff fun _ => ne_const_of_mem_literals, literals_eq_nil_iff width]
  exact and_iff_left rfl

/-- The complemented clause is the constant `0` just where the pattern is all dashes. -/
theorem complementedClause_eq_const_iff (width : pattern.length = names.length) :
    pattern.complementedClause names = .const false ↔
      pattern = List.replicate names.length .dash := by
  rw [complementedClause, Expr.chain_eq_const_iff fun _ => ne_const_of_mem_literals,
    literals_eq_nil_iff width]
  exact and_iff_left rfl

/-- As long as a row fits into a word, a pattern fits an index just where it fits the row that the
index is read as. -/
theorem fits_readRow (inWord : pattern.length ≤ Word.size) (index : Nat) :
    pattern.fits (readRow pattern.length index) = pattern.fits index := by
  rw [readRow_eq_mod inWord, fits_mod]

/-- The product is true in the rows that are read as rows it fits. -/
theorem eval_product_rowValuation (width : pattern.length = names.length)
    (different : names.Nodup) (index : Nat) :
    (pattern.product names).eval (rowValuation names index) =
      pattern.fits (readRow names.length index) := by
  rw [eval_product width, rowOf_rowValuation different]

/-- The complemented clause is true in the others. -/
theorem eval_complementedClause_rowValuation (width : pattern.length = names.length)
    (different : names.Nodup) (index : Nat) :
    (pattern.complementedClause names).eval (rowValuation names index) =
      !pattern.fits (readRow names.length index) := by
  rw [eval_complementedClause width, rowOf_rowValuation different]

/-- **As long as a row fits into a word, the product has the value true in the rows that match**,
whatever bits they have beyond the width. -/
theorem evalRow_product (width : pattern.length = names.length) (different : names.Nodup)
    (inWord : names.length ≤ Word.size) (index : Nat) :
    (pattern.product names).evalRow names index = .ok (decide (pattern.Matches index)) := by
  have inside : ∀ name ∈ (pattern.product names).leaves, name ∈ names :=
    (pattern.over_terms .and false true).inside
  rw [Expr.evalRow_eq inside, eval_product_rowValuation width different, ← width,
    fits_readRow (width ▸ inWord), fits_eq_decide]

/-- **The complemented clause has the other value.** -/
theorem evalRow_complementedClause (width : pattern.length = names.length)
    (different : names.Nodup) (inWord : names.length ≤ Word.size) (index : Nat) :
    (pattern.complementedClause names).evalRow names index =
      .ok (!decide (pattern.Matches index)) := by
  have inside : ∀ name ∈ (pattern.complementedClause names).leaves, name ∈ names :=
    (pattern.over_terms .or true false).inside
  rw [Expr.evalRow_eq inside, eval_complementedClause_rowValuation width different, ← width,
    fits_readRow (width ▸ inWord), fits_eq_decide]

end Pattern

/-- **Terms respect their pattern.** Over different names, as many as the implicant is wide, and as
long as a row fits into a word, every build evaluates the terms in every row: the product has the
value true in the rows whose low bits match the pattern and the value false in all others, and the
complemented clause has the opposite value. At every width the terms are the constants `1` and `0`
just where the pattern is all dashes. -/
theorem terms_respect_pattern (build : Build) {implicant : Implicant} {names : List String}
    (width : implicant.pattern.length = names.length) (different : names.Nodup) :
    (names.length ≤ Word.size → ∀ index,
      (implicant.product names).evalRowIn build names index =
        some (.ok (decide (implicant.pattern.Matches index))) ∧
      (implicant.complementedClause names).evalRowIn build names index =
        some (.ok (!decide (implicant.pattern.Matches index)))) ∧
    (implicant.product names = .const true ↔
      implicant.pattern = List.replicate names.length .dash) ∧
    (implicant.complementedClause names = .const false ↔
      implicant.pattern = List.replicate names.length .dash) := by
  refine ⟨fun inWord index => ?_, Pattern.product_eq_const_iff width,
    Pattern.complementedClause_eq_const_iff width⟩
  have rows := Expr.evalRowIn_of_reads (build.reads_of_le inWord) index
  exact ⟨(rows _).trans (congrArg some (Pattern.evalRow_product width different inWord index)),
    (rows _).trans
      (congrArg some (Pattern.evalRow_complementedClause width different inWord index))⟩

/-- The pattern `-10` over names in any order, in row 14, of which the low bits `110` match. -/
theorem terms_respect_pattern_beyond_width :
    let implicant : Implicant := ⟨[.dash, .one, .zero], .ofList [2, 6]⟩
    let names := ["b", "A", "c"]
    implicant.product names = .and (.var "A") (.not (.var "c")) ∧
      (implicant.product names).evalRowIn .checked names 14 = some (.ok true) ∧
      (implicant.complementedClause names).evalRowIn .checked names 14 = some (.ok false) := by
  intro implicant names
  have matching : implicant.pattern.Matches 14 := by decide
  obtain ⟨inRows, _⟩ := @terms_respect_pattern .checked implicant names rfl (by decide)
  obtain ⟨product, clause⟩ := inRows (by decide) 14
  rw [decide_eq_true matching] at product clause
  exact ⟨rfl, product, clause⟩

/-- **Over 65 names a row is misread.** Its low bits do not match the pattern of row `2 ^ 64 + 1`, but
a checked build stops at row 1, and a wrapping one evaluates the product of the pattern to true. -/
theorem row_matched_beyond_word :
    let implicant : Implicant := ⟨.one :: .replicate 63 .zero ++ [.one], .ofList [2 ^ 64 + 1]⟩
    let names := numberedNames 65
    implicant.pattern.length = names.length ∧ names.Nodup ∧ ¬ implicant.pattern.Matches 1 ∧
      (implicant.product names).evalRowIn .checked names 1 = none ∧
      (implicant.product names).evalRowIn .wrapping names 1 = some (.ok true) := by
  intro implicant names
  decide +kernel

end TwoLevel
