/-
**What the printed forms list.**

A chain of terms is nested to the left, and is written flat: the terms between the spaced symbols,
in parentheses only where a term binds looser than the connective. Products never do, so a sum of
products has no parentheses and can be split into them; a clause does where it has two literals.

* `Expr.render_chain` — the written form of a chain;
* `Pattern.render_product`, `Pattern.render_complementedClause` — the terms of a pattern, written;
* `ListsProducts`, `ListsClauses` — a text that lists products, and one that lists clauses;
* `forms_list_implicants` — **the forms of an evaluation list the implicants and the rows**.
-/

import TwoLevel.Proofs.Forms
import TwoLevel.Proofs.Splitting

namespace TwoLevel

/-! ### Chains -/

namespace Expr

variable {op : Connective} {terms : List Expr} {empty : Expr}

@[simp] theorem enclose_false (text : String) : enclose false text = text := rfl

/-- Two or more terms make a connective. -/
theorem precedence_chain (many : 2 ≤ terms.length) :
    (chain op terms empty).precedence = op.precedence := by
  match terms with
  | [] | [_] => simp at many
  | first :: second :: others =>
    rw [chain]
    induction others using List.reverseRecOn with
    | nil => rfl
    | append_singleton earlier last _ =>
      rw [← List.cons_append, List.foldl_append]
      rfl

/-- Fewer than two terms make no connective. -/
theorem chain_eq_or_mem (few : terms.length < 2) :
    chain op terms empty = empty ∨ chain op terms empty ∈ terms := by
  match terms with
  | [] => exact .inl rfl
  | [term] => exact .inr (List.mem_singleton.mpr rfl)
  | _ :: _ :: _ => simp at few

/-- A chain binds as tight as its connective, or, with fewer than two terms, as tight as they do. -/
theorem precedence_chain_cases {bound : Nat} (tight : ∀ term ∈ terms, bound ≤ term.precedence)
    (emptyTight : bound ≤ empty.precedence) :
    2 ≤ terms.length ∧ (chain op terms empty).precedence = op.precedence ∨
      terms.length < 2 ∧ bound ≤ (chain op terms empty).precedence := by
  by_cases many : 2 ≤ terms.length
  · exact .inl ⟨many, precedence_chain many⟩
  · have few := Nat.lt_of_not_le many
    refine .inr ⟨few, ?_⟩
    rcases @chain_eq_or_mem op terms empty few with same | member
    · rwa [same]
    · exact tight _ member

/-- A left-nested chain is written flat: only a term that binds looser than the connective stands
in parentheses, wherever it stands. -/
theorem enclose_render_foldl {first : Expr} {rest : List Expr}
    (apart : ∀ term ∈ first :: rest, term.precedence ≠ op.precedence) :
    enclose ((rest.foldl (binary op) first).precedence < op.precedence)
        (rest.foldl (binary op) first).render =
      (spaced op.symbol).intercalate ((first :: rest).map fun term =>
        enclose (term.precedence < op.precedence) term.render) := by
  -- From the right: the last term is the right operand of the root, and the left operand is the
  -- chain of the earlier ones, which the same connective joins, so that it is not enclosed.
  induction rest using List.reverseRecOn with
  | nil => exact String.intercalate_singleton.symm
  | append_singleton earlier last ih =>
    have earlierApart : ∀ term ∈ first :: earlier, term.precedence ≠ op.precedence :=
      fun term member => apart term (List.mem_append_left [last] member)
    have lastApart : last.precedence ≠ op.precedence :=
      apart last (List.mem_append_right (first :: earlier) (List.mem_singleton.mpr rfl))
    have looser : decide (last.precedence ≤ op.precedence) =
        decide (last.precedence < op.precedence) :=
      decide_eq_decide.mpr ⟨fun below => Nat.lt_of_le_of_ne below lastApart, Nat.le_of_lt⟩
    rw [List.foldl_append, ← List.cons_append, List.map_append,
      String.intercalate_append_of_ne_nil (by simp) (by simp), ← ih earlierApart]
    show enclose (op.precedence < op.precedence) (_ ++ " " ++ _ ++ " " ++
      enclose (last.precedence ≤ op.precedence) last.render) = _
    rw [decide_eq_false (Nat.lt_irrefl _), enclose_false, looser]
    simp only [spaced, List.map_singleton, String.intercalate_singleton, String.append_assoc]

/-- **A chain is written as its terms between spaced symbols.** A term stands in parentheses where
it binds looser and is not alone. -/
theorem render_chain (apart : ∀ term ∈ terms, term.precedence ≠ op.precedence) :
    (chain op terms empty).render = joined (spaced op.symbol) empty.render (terms.map fun term =>
      enclose (2 ≤ terms.length ∧ term.precedence < op.precedence) term.render) := by
  match terms with
  | [] => rfl
  | [term] => simp [chain, joined, enclose]
  | first :: second :: others =>
    have top : ((second :: others).foldl (binary op) first).precedence = op.precedence :=
      @precedence_chain op (first :: second :: others) empty (by simp)
    have flat := enclose_render_foldl apart
    rw [top, decide_eq_false (Nat.lt_irrefl _), enclose_false] at flat
    simpa [chain, joined] using flat

/-- Terms that bind tighter than the connective are written without parentheses. -/
theorem render_chain_of_tighter (tighter : ∀ term ∈ terms, op.precedence < term.precedence) :
    (chain op terms empty).render =
      joined (spaced op.symbol) empty.render (terms.map render) := by
  rw [render_chain fun term member => Nat.ne_of_gt (tighter term member)]
  congr 1
  refine List.map_congr_left fun term member => ?_
  have tight : ¬ (2 ≤ terms.length ∧ term.precedence < op.precedence) := fun both =>
    Nat.lt_asymm both.2 (tighter term member)
  rw [decide_eq_false tight, enclose_false]

end Expr

/-! ### The terms of a pattern -/

theorem Expr.render_literal (value : Bool) (name : String) :
    (literal value name).render = if value then name else "¬" ++ name := by
  cases value <;> rfl

/-- A character of a literal is the sign of NOT or belongs to a name. -/
theorem Expr.mem_render_literal {value : Bool} {name : String} (named : IsName name)
    {character : Char} (member : character ∈ (literal value name).render.toList) :
    character = '¬' ∨ isNameRest character = true := by
  have ofName : character ∈ name.toList → isNameRest character = true := by
    obtain ⟨⟨first, rest, letters, starts, continues⟩, _⟩ := named
    rw [letters]
    intro listed
    rcases List.mem_cons.mp listed with rfl | later
    · exact isNameRest_of_isNameStart starts
    · exact continues character later
  rw [render_literal] at member
  cases value with
  | true => exact .inr (ofName member)
  | false =>
    rcases List.mem_append.mp (String.toList_append ▸ member) with sign | inName
    · exact .inl (List.mem_singleton.mp sign)
    · exact .inr (ofName inName)

namespace Pattern

variable {names : List String}

theorem four_le_precedence {complement : Bool} {pattern : Pattern} {term : Expr}
    (member : term ∈ pattern.literals complement names) : 4 ≤ term.precedence := by
  obtain ⟨name, _, positive, rfl⟩ := exists_literal_of_mem member
  cases positive with
  | true => exact Nat.le_succ 4
  | false => exact Nat.le_refl 4

theorem length_literals {complement : Bool} {pattern : Pattern}
    (width : pattern.length = names.length) :
    (pattern.literals complement names).length = pattern.literalCount := by
  induction pattern generalizing names with
  | nil => rfl
  | cons trit rest ih =>
    cases names with
    | nil => cases width
    | cons name others =>
      rw [literals, literalCount_cons, ← ih (Nat.succ.inj width)]
      cases trit <;> rfl

/-- Literals are written one after the other, without parentheses. -/
theorem render_literals (op : Connective) (complement empty : Bool) (pattern : Pattern) :
    (Expr.chain op (pattern.literals complement names) (.const empty)).render =
      joined (spaced op.symbol) (Expr.const empty).render
        ((pattern.literals complement names).map Expr.render) :=
  Expr.render_chain_of_tighter fun _ member =>
    Nat.lt_of_lt_of_le (Nat.lt_succ_of_le op.precedence_le) (four_le_precedence member)

/-- The product of a pattern is its literals joined by ` · `. -/
theorem render_product (pattern : Pattern) : (pattern.product names).render =
    joined " · " "1" ((pattern.literals false names).map Expr.render) :=
  render_literals .and false true pattern

/-- The complemented clause of a pattern is the complements of its literals joined by ` + `. -/
theorem render_complementedClause (pattern : Pattern) : (pattern.complementedClause names).render =
    joined " + " "0" ((pattern.literals true names).map Expr.render) :=
  render_literals .or true false pattern

/-- A product binds as tight as AND or as a literal. -/
theorem three_le_precedence_product (pattern : Pattern) :
    3 ≤ (pattern.product names).precedence := by
  have binds : 2 ≤ (pattern.literals false names).length ∧ (pattern.product names).precedence = 3 ∨
      (pattern.literals false names).length < 2 ∧ 4 ≤ (pattern.product names).precedence :=
    Expr.precedence_chain_cases (fun term => four_le_precedence) (Nat.le_succ 4)
  omega

/-- A clause binds as OR where it has at least two literals, and else as tight as a literal. -/
theorem precedence_complementedClause {pattern : Pattern} (width : pattern.length = names.length) :
    2 ≤ pattern.literalCount ∧ (pattern.complementedClause names).precedence = 1 ∨
      pattern.literalCount < 2 ∧ 4 ≤ (pattern.complementedClause names).precedence := by
  rw [← length_literals width]
  exact Expr.precedence_chain_cases (fun term => four_le_precedence) (Nat.le_succ 4)

end Pattern

/-! ### Sums of products -/

/-- A character that belongs to no name and to none of the other signs of a product. -/
def ForeignToProducts (character : Char) : Prop :=
  isNameRest character = false ∧ character ∉ ['¬', ' ', '·', '1']

instance (character : Char) : Decidable (ForeignToProducts character) :=
  inferInstanceAs (Decidable (_ ∧ _))

/-- A product has the characters of its names and of `¬`, ` · ` and `1` only. -/
theorem not_mem_render_product {names : List String} (named : ∀ name ∈ names, IsName name)
    (pattern : Pattern) {character : Char} (foreign : ForeignToProducts character) :
    character ∉ (pattern.product names).render.toList := by
  obtain ⟨noName, noSign⟩ := foreign
  rw [Pattern.render_product]
  refine not_mem_joined (by simp_all) (by simp_all) fun text listed => ?_
  obtain ⟨literal, isLiteral, rfl⟩ := List.mem_map.mp listed
  obtain ⟨name, inside, value, rfl⟩ := Pattern.exists_literal_of_mem isLiteral
  intro member
  rcases Expr.mem_render_literal (named name inside) member with rfl | continues
  · exact noSign List.mem_cons_self
  · exact Bool.false_ne_true (noName.symm.trans continues)

theorem spaced_plus : spaced '+' = " + " := by decide

/-- The text lists the products given: it is `0` without products, and otherwise the products with
` + ` between them, with no parenthesis anywhere. Splitting it at ` + ` gives back the products. -/
structure ListsProducts (products : List String) (text : String) : Prop where
  text_eq : text = joined " + " "0" products
  flat : '(' ∉ text.toList ∧ ')' ∉ text.toList
  split_eq : products ≠ [] → (text.split " + ").toList.map String.Slice.copy = products

/-- **A sum of products lists the products of its patterns.** -/
theorem listsProducts_of_patterns {names : List String} (named : ∀ name ∈ names, IsName name)
    (patterns : List Pattern) :
    ListsProducts (patterns.map fun pattern => (pattern.product names).render)
      (Expr.chain .or (patterns.map fun pattern => pattern.product names)
        (.const false)).render := by
  have text : (Expr.chain .or (patterns.map fun pattern => pattern.product names)
      (.const false)).render =
        joined " + " "0" (patterns.map fun pattern => (pattern.product names).render) := by
    rw [Expr.render_chain_of_tighter, List.map_map]
    · rfl
    · intro term member
      obtain ⟨pattern, _, rfl⟩ := List.mem_map.mp member
      exact Nat.le_of_succ_le pattern.three_le_precedence_product
  have noForeign : ∀ character, ForeignToProducts character →
      ∀ product ∈ patterns.map fun pattern => (pattern.product names).render,
        character ∉ product.toList := by
    intro character foreign product listed
    obtain ⟨pattern, _, rfl⟩ := List.mem_map.mp listed
    exact not_mem_render_product named pattern foreign
  rw [text]
  refine ⟨rfl, ⟨?_, ?_⟩, fun nonempty => ?_⟩
  · exact not_mem_joined (by decide) (by decide) (noForeign '(' (by decide))
  · exact not_mem_joined (by decide) (by decide) (noForeign ')' (by decide))
  · have pieces := split_joined (by decide) "0" nonempty (noForeign '+' (by decide))
    rwa [spaced_plus] at pieces

/-! ### Products of sums -/

/-- The text lists the complemented clauses of the patterns: it is `1` without patterns, and
otherwise the clauses with ` · ` between them, one in parentheses just where it has at least two
literals and there are at least two clauses. A clause itself is its literals with ` + ` between
them, and `0` where the pattern is all dashes. -/
structure ListsClauses (names : List String) (patterns : List Pattern) (text : String) : Prop where
  text_eq : text = joined " · " "1" (patterns.map fun pattern =>
    Expr.enclose (2 ≤ pattern.literalCount ∧ 2 ≤ patterns.length)
      (pattern.complementedClause names).render)
  clause_eq : ∀ pattern ∈ patterns, (pattern.complementedClause names).render =
    joined " + " "0" ((pattern.literals true names).map Expr.render)
  zero : ∀ pattern ∈ patterns, pattern = List.replicate names.length .dash →
    (pattern.complementedClause names).render = "0"

section Clauses

variable {names : List String} {patterns : List Pattern}

theorem Pattern.render_complementedClause_of_dashes {pattern : Pattern}
    (dashes : pattern = List.replicate names.length .dash) :
    (pattern.complementedClause names).render = "0" := by
  have width : pattern.length = names.length := by rw [dashes, List.length_replicate]
  rw [(complementedClause_eq_const_iff width).mpr dashes]
  rfl

/-- **A product of sums lists the clauses of its patterns.** -/
theorem listsClauses_of_patterns (widths : ∀ pattern ∈ patterns, pattern.length = names.length) :
    ListsClauses names patterns
      (Expr.chain .and (patterns.map fun pattern => pattern.complementedClause names)
        (.const true)).render := by
  refine ⟨?_, fun pattern _ => pattern.render_complementedClause,
    fun pattern _ => Pattern.render_complementedClause_of_dashes⟩
  rw [Expr.render_chain, List.length_map, List.map_map]
  · congr 1
    refine List.map_congr_left fun pattern listed => ?_
    have loose : (2 ≤ patterns.length ∧
        (pattern.complementedClause names).precedence < Connective.and.precedence) ↔
        2 ≤ pattern.literalCount ∧ 2 ≤ patterns.length := by
      have binds := Pattern.precedence_complementedClause (widths pattern listed)
      rw [Connective.precedence]
      omega
    exact congrArg (Expr.enclose · _) (decide_eq_decide.mpr loose)
  · intro term member
    obtain ⟨pattern, listed, rfl⟩ := List.mem_map.mp member
    show _ ≠ 3
    have binds := Pattern.precedence_complementedClause (widths pattern listed)
    omega

/-- A row fits the pattern of dashes only, whatever its bits. -/
theorem Pattern.fits_dashes (width index : Nat) :
    fits (List.replicate width .dash) index = true := by
  rw [fits_iff_matches]
  intro position inside
  exact .inl (List.getElem_replicate inside)

/-- Patterns that cost least have nothing beside a pattern of dashes only: it realizes alone what
they realize. -/
theorem Realizes.eq_singleton_of_dashes {target : List Nat}
    (inRange : ∀ index ∈ target, index < 2 ^ names.length)
    (realizes : Realizes names.length target [] patterns)
    (least : ∀ others, Realizes names.length target [] others → cost patterns ≤ cost others)
    (dashes : List.replicate names.length .dash ∈ patterns) :
    patterns = [List.replicate names.length .dash] := by
  let free : Pattern := List.replicate names.length .dash
  have alone : Realizes names.length target [] [free] := by
    refine ⟨fun pattern member => ?_, fun index member => ⟨free, List.mem_cons_self, ?_⟩,
      fun pattern member => ?_⟩
    · rw [List.mem_singleton.mp member, List.length_replicate]
    · rw [Pattern.mem_rows, List.length_replicate]
      exact ⟨inRange index member, Pattern.fits_dashes names.length index⟩
    · rw [List.mem_singleton.mp member]
      exact realizes.inside free dashes
  have few : patterns.length ≤ 1 := length_le_of_cost_le (least [free] alone)
  obtain ⟨only, rfl⟩ := List.length_eq_one_iff.mp
    (Nat.le_antisymm few (List.length_pos_of_mem dashes))
  rw [List.mem_singleton.mp dashes]

end Clauses

/-! ### The forms of an evaluation -/

/-- The rows over the names in which the expression has the value, ascending. -/
def Expr.rowsWhere (expr : Expr) (names : List String) (value : Bool) : List Nat :=
  (List.range (2 ^ names.length)).filter fun index => expr.evalRow names index = .ok value

namespace Evaluation.Arises

variable {limits : Limits} {text : String} {evaluation : Evaluation}

/-- The table lists the rows with an output, ascending. -/
theorem indicesWhere_eq_rowsWhere (arises : evaluation.Arises limits text) (output : Bool) :
    evaluation.table.indicesWhere output =
      evaluation.expr.rowsWhere evaluation.names output := by
  rw [TruthTable.indicesWhere_eq arises.inside arises.built, rowCount_eq arises.narrow,
    Expr.rowsWhere]
  congr 1
  funext index
  rw [Expr.evalRow_eq arises.inside, Bool.eq_iff_iff, beq_iff_eq, decide_eq_true_eq,
    Except.ok.injEq]

/-- The minimal product of sums is the chain of its clauses, also where one of them is `0`: then it
is the only one. -/
theorem pos_expression_eq (arises : evaluation.Arises limits text) :
    evaluation.pos.expression = Expr.chain .and
      ((evaluation.pos.minimization.selected.map Implicant.pattern).map fun pattern =>
        pattern.complementedClause evaluation.names) (.const true) := by
  have expression := Form.expression_productOfSums evaluation.names evaluation.pos.minimization
  rw [← arises.pos_eq] at expression
  rcases expression with chain | ⟨zero, clause⟩
  · exact chain
  · have realizes := Minimization.realizes arises.posMinimized (arises.inTable false)
    obtain ⟨pattern, member, isZero⟩ := List.mem_map.mp clause
    have dashes := (Pattern.complementedClause_eq_const_iff (realizes.length_eq pattern member)).mp
      isZero
    have inRange : ∀ index ∈ evaluation.table.maxterms, index < 2 ^ evaluation.names.length :=
      fun index member => (arises.inTable false).lt (List.mem_append_left _ member)
    have alone := realizes.eq_singleton_of_dashes inRange
      (fun others => Minimization.cost_le arises.posMinimized (arises.inTable false))
      (dashes ▸ member)
    rw [zero, alone, ← dashes, List.map_singleton, isZero]
    rfl

end Evaluation.Arises

/-- **Printed forms list their implicants.** For every evaluation, the minimal sum of products lists
the products of the selected implicants in their order, and the canonical disjunction the full
products of the true rows, ascending; the minimal product of sums lists the clauses of the selected
implicants of the false rows, and the canonical conjunction the full clauses of the false rows,
ascending. -/
theorem forms_list_implicants {limits : Limits} {text : String} {evaluation : Evaluation}
    (evaluated : evaluate limits text = .ok evaluation) :
    ListsProducts
        (evaluation.sop.minimization.selected.map fun implicant => implicant.term evaluation.names)
        evaluation.minimalSop ∧
      ListsProducts
        ((evaluation.expr.rowsWhere evaluation.names true).map fun index =>
          ((Pattern.ofIndex evaluation.names.length index).product evaluation.names).render)
        evaluation.canonicalDnf ∧
      ListsClauses evaluation.names
        (evaluation.pos.minimization.selected.map Implicant.pattern) evaluation.minimalPos ∧
      ListsClauses evaluation.names
        ((evaluation.expr.rowsWhere evaluation.names false).map
          (Pattern.ofIndex evaluation.names.length))
        evaluation.canonicalCnf := by
  have arises := evaluate_eq_ok evaluated
  have trueRows := arises.indicesWhere_eq_rowsWhere true
  have falseRows := arises.indicesWhere_eq_rowsWhere false
  refine ⟨?_, ?_, ?_, ?_⟩
  · have lists := listsProducts_of_patterns arises.named
      (evaluation.sop.minimization.selected.map Implicant.pattern)
    rw [List.map_map, List.map_map] at lists
    rw [Evaluation.minimalSop, arises.sop_eq]
    exact lists
  · have lists := listsProducts_of_patterns arises.named
      ((evaluation.expr.rowsWhere evaluation.names true).map
        (Pattern.ofIndex evaluation.names.length))
    rw [List.map_map, ← trueRows] at lists
    rw [Evaluation.canonicalDnf, TruthTable.dnf_eq arises.inside arises.built, ← trueRows]
    exact lists
  · rw [Evaluation.minimalPos, arises.pos_expression_eq]
    exact listsClauses_of_patterns
      (Minimization.realizes arises.posMinimized (arises.inTable false)).length_eq
  · rw [Evaluation.canonicalCnf, TruthTable.cnf_eq arises.inside arises.built, ← falseRows]
    exact listsClauses_of_patterns (Pattern.length_of_mem_map_ofIndex _)

/-- Exclusive or: two products split apart, and two clauses in parentheses. -/
theorem forms_list_implicants_xor :
    ∃ evaluation, evaluate .standard "A ^ B" = .ok evaluation ∧
      evaluation.minimalSop = "¬A · B + A · ¬B" ∧
      (evaluation.minimalSop.split " + ").toList.map String.Slice.copy = ["¬A · B", "A · ¬B"] ∧
      evaluation.minimalPos = "(A + B) · (¬A + ¬B)" := by
  have selected : (evaluate .standard "A ^ B").map (fun evaluation => (evaluation.names,
      evaluation.sop.minimization.selected.map fun implicant => implicant.term evaluation.names,
      evaluation.pos.minimization.selected.map Implicant.pattern)) =
      .ok (["A", "B"], ["¬A · B", "A · ¬B"], [[.zero, .zero], [.one, .one]]) := by
    cbv
  obtain ⟨evaluation, evaluated, selected⟩ := map_eq_ok_iff.mp selected
  simp only [Prod.mk.injEq] at selected
  obtain ⟨names, products, clauses⟩ := selected
  obtain ⟨sop, _, pos, _⟩ := forms_list_implicants evaluated
  rw [products] at sop
  rw [names, clauses] at pos
  exact ⟨evaluation, evaluated, sop.text_eq, sop.split_eq (by decide), pos.text_eq⟩

end TwoLevel
