/-
**What arguments give.**

An option with its value can be spelled in several ways, and the options and the expression may
stand in any order. What is given depends on neither: for each part of a command line, its value.

* `Part`, `Spells` — the parts of a command line with their values, and the arguments that spell
  them;
* `take_of_spells` — arguments are taken part by part;
* `Given.ofParts`, `foldlM_add` — **what is given is looked up in the parts**, in whatever order
  they are;
* `lookup_insert` — one more part changes nothing but its own value.
-/

import Mathlib.Data.List.Induction
import Mathlib.Data.List.Nodup
import TwoLevel.CommandLine.Settings

namespace TwoLevel.CommandLine

/-! ### Spelled arguments -/

/-- What an argument is for: the expression, or an option. -/
inductive Part where
  | expression
  | setting (setting : Setting)
  deriving DecidableEq, Repr

/-- The parts of a command line with their values. -/
abbrev Parts := List (Part × String)

/-- The long name of an option. -/
def Setting.name : Setting → String
  | file => "file"
  | format => "format"
  | maxVariables => "max-variables"
  | maxDepth => "max-depth"
  | outFile => "out-file"

/-- The letter of an option that has one. -/
def Setting.letter? : Setting → Option Char
  | file => some 'f'
  | outFile => some 'O'
  | format | maxVariables | maxDepth => none

/-- A text that cannot be taken for an option: it does not begin with `-`, or is nothing else. -/
def IsPlain (text : String) : Prop := text.toList.head? ≠ some '-' ∨ text = "-"

/-- The arguments spell the parts, one after the other. -/
inductive Spells : Parts → List String → Prop where
  | nil : Spells [] []
  | expression {text : String} {parts : Parts} {arguments : List String} (plain : IsPlain text)
    (rest : Spells parts arguments) : Spells ((.expression, text) :: parts) (text :: arguments)
  | apart (setting : Setting) {value : String} {parts : Parts} {arguments : List String}
    (plain : IsPlain value) (rest : Spells parts arguments) :
    Spells ((.setting setting, value) :: parts) (("--" ++ setting.name) :: value :: arguments)
  | joined (setting : Setting) (value : String) {parts : Parts} {arguments : List String}
    (rest : Spells parts arguments) :
    Spells ((.setting setting, value) :: parts)
      (("--" ++ setting.name ++ "=" ++ value) :: arguments)
  | letter {setting : Setting} {letter : Char} {value : String} {parts : Parts}
    {arguments : List String} (has : setting.letter? = some letter) (plain : IsPlain value)
    (rest : Spells parts arguments) :
    Spells ((.setting setting, value) :: parts)
      (String.ofList ['-', letter] :: value :: arguments)
  | attached {setting : Setting} {letter : Char} {value : String} {parts : Parts}
    {arguments : List String} (has : setting.letter? = some letter)
    (apparent : ∃ first rest, value.toList = first :: rest ∧ first ≠ '=')
    (rest : Spells parts arguments) :
    Spells ((.setting setting, value) :: parts)
      (String.ofList ('-' :: letter :: value.toList) :: arguments)
  | signed {setting : Setting} {letter : Char} (has : setting.letter? = some letter)
    (value : String) {parts : Parts} {arguments : List String} (rest : Spells parts arguments) :
    Spells ((.setting setting, value) :: parts)
      (String.ofList ('-' :: letter :: '=' :: value.toList) :: arguments)

section Spelled

variable {setting : Setting} {letter : Char} {value text : String}

theorem ofText_of_isPlain (plain : IsPlain text) : Argument.ofText text = .operand text := by
  rcases plain with other | rfl
  · unfold Argument.ofText
    split <;> simp_all
  · rfl

theorem canBeValue_of_isPlain (plain : IsPlain text) : Argument.canBeValue text = true := by
  rw [Argument.canBeValue, ofText_of_isPlain plain]

theorem ofText_name (setting : Setting) :
    Argument.ofText ("--" ++ setting.name) = .setting setting none := by
  cases setting <;> rfl

theorem ofText_joined (setting : Setting) (value : String) :
    Argument.ofText ("--" ++ setting.name ++ "=" ++ value) = .setting setting (some value) := by
  have split : Argument.ofText ("--" ++ setting.name ++ "=" ++ value) =
      .setting setting (some (String.ofList value.toList)) := by
    unfold Argument.ofText
    rw [String.toList_append, String.toList_append, String.toList_append]
    cases setting <;> rfl
  rw [split, String.ofList_toList]

theorem ofText_letter (has : setting.letter? = some letter) :
    Argument.ofText (String.ofList ['-', letter]) = .setting setting none := by
  cases setting <;> cases has <;> rfl

theorem ofText_attached (has : setting.letter? = some letter)
    (apparent : ∃ first rest, value.toList = first :: rest ∧ first ≠ '=') :
    Argument.ofText (String.ofList ('-' :: letter :: value.toList)) =
      .setting setting (some value) := by
  obtain ⟨first, rest, characters, noSign⟩ := apparent
  have attached : Argument.attachedValue (first :: rest) = some value := by
    rw [← String.ofList_toList (s := value), characters]
    unfold Argument.attachedValue
    split
    · next impossible => cases impossible
    · next sign => exact absurd (List.cons.inj sign).1 noSign
    · rfl
  unfold Argument.ofText
  rw [String.toList_ofList, characters]
  cases setting <;> cases has <;> exact congrArg _ attached

theorem ofText_signed (has : setting.letter? = some letter) (value : String) :
    Argument.ofText (String.ofList ('-' :: letter :: '=' :: value.toList)) =
      .setting setting (some value) := by
  have attached : Argument.attachedValue ('=' :: value.toList) = some value := by
    rw [Argument.attachedValue, String.ofList_toList]
  unfold Argument.ofText
  rw [String.toList_ofList]
  cases setting <;> cases has <;> exact congrArg _ attached

end Spelled

/-! ### Taking parts -/

/-- Add the value of a part. -/
def Given.add (given : Given) : Part × String → Except Stop Given
  | (.expression, text) => given.addExpression text
  | (.setting setting, value) => given.addSetting setting value

section Taking

variable {given : Given} {setting : Setting} {argument value text : String}
  {arguments : List String}

theorem take_expression (known : Argument.ofText text = .operand text) :
    given.take (text :: arguments) =
      given.add (.expression, text) >>= fun next => next.take arguments := by
  rw [Given.take.eq_def]
  simp only [known]
  rfl

theorem take_joined (known : Argument.ofText argument = .setting setting (some value)) :
    given.take (argument :: arguments) =
      given.add (.setting setting, value) >>= fun next => next.take arguments := by
  rw [Given.take.eq_def]
  simp only [known]
  rfl

theorem take_apart (known : Argument.ofText argument = .setting setting none)
    (plain : IsPlain value) : given.take (argument :: value :: arguments) =
      given.add (.setting setting, value) >>= fun next => next.take arguments := by
  rw [Given.take.eq_def]
  simp only [known, canBeValue_of_isPlain plain, if_true]
  rfl

/-- **Arguments are taken part by part**, and then those that follow them. -/
theorem take_append_of_spells {parts : Parts} (spells : Spells parts arguments) (given : Given)
    (others : List String) : given.take (arguments ++ others) =
      parts.foldlM Given.add given >>= fun next => next.take others := by
  induction spells generalizing given with
  | nil => rfl
  | expression plain _ ih =>
    rw [List.cons_append, take_expression (ofText_of_isPlain plain), List.foldlM_cons, bind_assoc]
    exact bind_congr ih
  | apart setting plain _ ih =>
    rw [List.cons_append, List.cons_append, take_apart (ofText_name setting) plain,
      List.foldlM_cons, bind_assoc]
    exact bind_congr ih
  | joined setting value _ ih =>
    rw [List.cons_append, take_joined (ofText_joined setting value), List.foldlM_cons, bind_assoc]
    exact bind_congr ih
  | letter has plain _ ih =>
    rw [List.cons_append, List.cons_append, take_apart (ofText_letter has) plain,
      List.foldlM_cons, bind_assoc]
    exact bind_congr ih
  | attached has apparent _ ih =>
    rw [List.cons_append, take_joined (ofText_attached has apparent), List.foldlM_cons, bind_assoc]
    exact bind_congr ih
  | signed has value _ ih =>
    rw [List.cons_append, take_joined (ofText_signed has value), List.foldlM_cons, bind_assoc]
    exact bind_congr ih

theorem take_of_spells {parts : Parts} (spells : Spells parts arguments) (given : Given) :
    given.take arguments = parts.foldlM Given.add given := by
  have alone := take_append_of_spells spells given []
  rw [List.append_nil] at alone
  rw [alone]
  exact bind_pure _

/-- After `--` comes the expression, whatever it begins with. -/
theorem take_append_marked {parts : Parts} (spells : Spells parts arguments) (given : Given)
    (text : String) : given.take (arguments ++ ["--", text]) =
      (parts ++ [(Part.expression, text)]).foldlM Given.add given := by
  have marked : Argument.ofText "--" = .endOfOptions := rfl
  rw [take_append_of_spells spells, List.foldlM_append]
  refine bind_congr fun next => ?_
  rw [Given.take.eq_def]
  simp only [marked]
  rfl

end Taking

/-! ### Looking up what is given -/

section Lookup

variable {parts before after : Parts} {part : Part} {value : String}

/-- What the parts give, each by its value. -/
def Given.ofParts (parts : Parts) : Given where
  expression? := parts.lookup .expression
  file? := (parts.lookup (.setting .file)).bind readPath?
  format? := (parts.lookup (.setting .format)).bind readFormat?
  maxVariables? := (parts.lookup (.setting .maxVariables)).bind readNumber?
  maxDepth? := (parts.lookup (.setting .maxDepth)).bind readNumber?
  outFile? := (parts.lookup (.setting .outFile)).bind readPath?

/-- Whether a part accepts the value. -/
def Part.accepts : Part → String → Prop
  | .expression, _ => True
  | .setting .file, value | .setting .outFile, value => value ≠ ""
  | .setting .format, value => value = "text" ∨ value = "json"
  | .setting .maxVariables, value | .setting .maxDepth, value => (readNumber? value).isSome = true

/-- No part is given twice, and each accepts its value. -/
structure Accepted (parts : Parts) : Prop where
  nodup : (parts.map Prod.fst).Nodup
  accepts : ∀ entry ∈ parts, entry.1.accepts entry.2

theorem lookup_eq_none_of_fresh (fresh : part ∉ parts.map Prod.fst) : parts.lookup part = none := by
  refine List.lookup_eq_none_iff.mpr fun entry member => bne_iff_ne.mpr fun same => fresh ?_
  exact same ▸ List.mem_map_of_mem member

/-- **One more part changes nothing but its own value.** -/
theorem lookup_insert (fresh : part ∉ (before ++ after).map Prod.fst) (value : String)
    (other : Part) :
    (before ++ (part, value) :: after).lookup other =
      if other = part then some value else (before ++ after).lookup other := by
  rw [List.lookup_append, List.lookup_append, List.lookup_cons]
  by_cases same : other = part
  · rw [List.map_append, List.mem_append, not_or] at fresh
    rw [same, lookup_eq_none_of_fresh fresh.1, beq_self_eq_true, if_pos rfl]
    rfl
  · rw [beq_false_of_ne same, if_neg same]

theorem readPath?_of_ne (nonempty : value ≠ "") : readPath? value = some value := by
  have filled : value.isEmpty = false := by simpa using nonempty
  rw [readPath?, filled]
  rfl

theorem exists_readFormat? (listed : value = "text" ∨ value = "json") :
    ∃ format, readFormat? value = some format := by
  rcases listed with rfl | rfl
  · exact ⟨.text, rfl⟩
  · exact ⟨.json, rfl⟩

/-- One more part is added to what the others give. -/
theorem add_ofParts (fresh : part ∉ parts.map Prod.fst) (accepts : part.accepts value) :
    (Given.ofParts parts).add (part, value) = .ok (.ofParts (parts ++ [(part, value)])) := by
  have absent := lookup_eq_none_of_fresh fresh
  have appended : ∀ other, (parts ++ [(part, value)]).lookup other =
      if other = part then some value else parts.lookup other := by
    intro other
    rw [← List.append_nil parts] at fresh
    rw [lookup_insert fresh, List.append_nil]
  cases part with
  | expression =>
    simp [Given.add, Given.addExpression, Given.ofParts, Given.once, appended, absent]
  | setting setting =>
    unfold Given.add Given.addSetting Given.ofParts
    cases setting with
    | file | outFile => simp [Given.once, appended, absent, readPath?_of_ne accepts]
    | format =>
      obtain ⟨format, read⟩ := exists_readFormat? accepts
      simp [Given.once, appended, absent, read]
    | maxVariables | maxDepth =>
      obtain ⟨number, read⟩ := Option.isSome_iff_exists.mp accepts
      simp [Given.once, appended, absent, read]

/-- **What is given is looked up in the parts.** -/
theorem foldlM_add (accepted : Accepted parts) :
    parts.foldlM Given.add .nothing = .ok (.ofParts parts) := by
  induction parts using List.reverseRecOn with
  | nil => rfl
  | append_singleton parts entry ih =>
    obtain ⟨part, value⟩ := entry
    have nodup := accepted.nodup
    rw [List.map_append, List.nodup_append] at nodup
    have accepts := List.forall_mem_append.mp accepted.accepts
    rw [List.foldlM_append, ih ⟨nodup.1, accepts.1⟩]
    show (Given.ofParts parts).add (part, value) >>= pure = _
    rw [bind_pure]
    refine add_ofParts (fun member => ?_) (accepts.2 _ List.mem_cons_self)
    exact nodup.2.2 part member part List.mem_cons_self rfl

end Lookup

end TwoLevel.CommandLine
