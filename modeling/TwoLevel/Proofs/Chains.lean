/-
**What a chain reads.**

The readers return what is left of the tokens with the bound that lets them recur. Here the bound is
dropped, and a chain is put as an equation between what its operands read and what it reads.

* `plain`, `bounded_of_plain` — a result without its bound, which still holds of it;
* `bind_eq_ok_iff` — where a computation in two parts succeeds;
* `plain_chain` — a chain is its first operand, gone on with;
* `plain_chainFrom_of_none`, `plain_chainFrom_of_some` — a chain ends where there is no juncture, and
  goes on by one operand where there is one;
* `Continues`, `continues_of_plain_chainFrom` — a chain that has been read, operand by operand;
* `Continues.juncture?_eq_none`, `Continues.leaves` — what such a chain leaves;
* `ReadsSoundly`, `readsSoundly_chain` — a chain is read soundly if its operands are.
-/

import TwoLevel.Chain

namespace TwoLevel

variable {τ ν ε α β : Type}

/-- A computation in two parts succeeds where both do. -/
theorem bind_eq_ok_iff {first : Except ε α} {next : α → Except ε β} {result : β} :
    first.bind next = .ok result ↔ ∃ value, first = .ok value ∧ next value = .ok result := by
  cases first with
  | error error => exact ⟨(nomatch ·), fun ⟨_, same, _⟩ => (nomatch same)⟩
  | ok value =>
    refine ⟨fun same => ⟨value, rfl, same⟩, fun ⟨other, same, rest⟩ => ?_⟩
    rw [Except.ok.inj same]
    exact rest

theorem map_eq_ok_iff {result : Except ε α} {f : α → β} {value : β} :
    result.map f = .ok value ↔ ∃ given, result = .ok given ∧ f given = value := by
  cases result with
  | error error => exact ⟨(nomatch ·), fun ⟨_, same, _⟩ => (nomatch same)⟩
  | ok given =>
    refine ⟨fun same => ⟨given, rfl, Except.ok.inj same⟩, fun ⟨other, same, mapped⟩ => ?_⟩
    rw [Except.ok.inj same]
    exact congrArg Except.ok mapped

/-- A change of the value leaves an error as it is. -/
theorem map_eq_error_iff {result : Except ε α} {f : α → β} {error : ε} :
    result.map f = .error error ↔ result = .error error := by
  cases result with
  | error other => exact ⟨fun same => congrArg _ (Except.error.inj same),
      fun same => congrArg _ (Except.error.inj same)⟩
  | ok given => exact ⟨(nomatch ·), (nomatch ·)⟩

/-- What has been read, without the bound on what is left. -/
def plain {bounded : ν × List τ → Prop} (result : Except ε { read // bounded read }) :
    Except ε (ν × List τ) :=
  result.map Subtype.val

/-- What has been read is within the bound. -/
theorem bounded_of_plain {bounded : ν × List τ → Prop} {result : Except ε { read // bounded read }}
    {read : ν × List τ} (found : plain result = .ok read) : bounded read := by
  obtain ⟨given, _, rfl⟩ := map_eq_ok_iff.mp found
  exact given.2

namespace Tier

variable {tier : Tier τ ν ε} {next : Reader τ ν ε}

/-- A chain is its first operand, gone on with. -/
theorem plain_chain (tokens : List τ) :
    plain (tier.chain next tokens) =
      (plain (next tokens)).bind fun read => plain (tier.chainFrom next read.1 read.2) := by
  rw [chain]
  cases next tokens with
  | error error => rfl
  | ok phrase =>
    obtain ⟨⟨first, rest⟩, fewer⟩ := phrase
    show plain ((tier.chainFrom next first rest).bind _) = plain (tier.chainFrom next first rest)
    cases tier.chainFrom next first rest <;> rfl

/-- A chain ends where there is no juncture. -/
theorem plain_chainFrom_of_none (tier : Tier τ ν ε) {tokens : List τ} (left : ν)
    (ended : tier.juncture? tokens = none) :
    plain (tier.chainFrom next left tokens) = .ok (left, tokens) := by
  rw [chainFrom]
  split
  · rfl
  · next op others found =>
    rw [ended] at found
    cases found

/-- A chain goes on by one operand where there is a juncture. -/
theorem plain_chainFrom_of_some (tier : Tier τ ν ε) {tokens others : List τ} {op : Connective}
    (left : ν) (found : tier.juncture? tokens = some (op, others)) :
    plain (tier.chainFrom next left tokens) =
      (plain (next others)).bind fun read =>
        (tier.join op left read.1).bind fun joined => plain (tier.chainFrom next joined read.2) := by
  rw [chainFrom]
  split
  · next ended =>
    rw [ended] at found
    cases found
  · next op' others' found' =>
    rw [found] at found'
    cases found'
    cases next others with
    | error error => rfl
    | ok phrase =>
      obtain ⟨⟨right, rest⟩, fewer⟩ := phrase
      show plain ((tier.join op left right).bind _) = (tier.join op left right).bind _
      cases tier.join op left right with
      | error error => rfl
      | ok joined =>
        show plain ((tier.chainFrom next joined rest).bind _) =
          plain (tier.chainFrom next joined rest)
        cases tier.chainFrom next joined rest <;> rfl

/-- How a chain goes on from what has been joined: it ends without a juncture, or one more operand is
read and joined. -/
inductive Continues (tier : Tier τ ν ε) (next : Reader τ ν ε) : ν → List τ → ν → List τ → Prop where
  | ended {left : ν} {tokens : List τ} (nothing : tier.juncture? tokens = none) :
    Continues tier next left tokens left tokens
  | joined {left right whole result : ν} {tokens others between rest : List τ} {op : Connective}
    (found : tier.juncture? tokens = some (op, others))
    (read : plain (next others) = .ok (right, between))
    (joins : tier.join op left right = .ok whole)
    (more : Continues tier next whole between result rest) :
    Continues tier next left tokens result rest

/-- A chain that has been read went on operand by operand. -/
theorem continues_of_plain_chainFrom {left result : ν} {tokens rest : List τ}
    (read : plain (tier.chainFrom next left tokens) = .ok (result, rest)) :
    tier.Continues next left tokens result rest := by
  -- By induction on the tokens left: each operand takes at least one.
  induction length : tokens.length using Nat.strongRecOn generalizing left tokens with
  | _ count ih =>
    cases found : tier.juncture? tokens with
    | none =>
      rw [tier.plain_chainFrom_of_none _ found] at read
      cases read
      exact .ended found
    | some juncture =>
      obtain ⟨op, others⟩ := juncture
      rw [tier.plain_chainFrom_of_some _ found, bind_eq_ok_iff] at read
      obtain ⟨⟨right, between⟩, rightRead, read⟩ := read
      obtain ⟨whole, joins, read⟩ := bind_eq_ok_iff.mp read
      have fewer : between.length < others.length := bounded_of_plain rightRead
      have shorter : between.length < count :=
        length ▸ Nat.lt_of_lt_of_le fewer (tier.length_le found)
      exact .joined found rightRead joins (ih _ shorter read rfl)

/-- A chain leaves no juncture. -/
theorem Continues.juncture?_eq_none {left result : ν} {tokens rest : List τ}
    (goes : tier.Continues next left tokens result rest) : tier.juncture? rest = none := by
  induction goes with
  | ended nothing => exact nothing
  | joined _ _ _ _ ih => exact ih

/-- What holds of the tokens that a chain goes on from, and of those that its operands leave, holds
of those that the chain leaves. -/
theorem Continues.leaves {left result : ν} {tokens rest : List τ} {kept : List τ → Prop}
    (goes : tier.Continues next left tokens result rest) (start : kept tokens)
    (operands : ∀ others node left, plain (next others) = .ok (node, left) → kept left) :
    kept rest := by
  induction goes with
  | ended => exact start
  | joined _ read _ _ ih => exact ih (operands _ _ _ read)

end Tier

/-! ### Soundness -/

/-- Whatever is read is spelled by the tokens that have been taken. -/
def ReadsSoundly (next : Reader τ ν ε) (spells : List τ → ν → Prop) : Prop :=
  ∀ tokens node rest, plain (next tokens) = .ok (node, rest) →
    ∃ consumed, tokens = consumed ++ rest ∧ spells consumed node

namespace Tier

variable {tier : Tier τ ν ε} {next : Reader τ ν ε} {whole part : List τ → ν → Prop}

/-- A juncture takes a separator, and what it separates can be joined. -/
def JoinsSoundly (tier : Tier τ ν ε) (whole part : List τ → ν → Prop) : Prop :=
  ∀ tokens others op, tier.juncture? tokens = some (op, others) →
    ∃ separator, tokens = separator ++ others ∧
      ∀ lefts rights left right joined, whole lefts left → part rights right →
        tier.join op left right = .ok joined → whole (lefts ++ (separator ++ rights)) joined

/-- What goes on with a chain belongs to it. -/
theorem Continues.exists_whole {left node : ν} {tokens rest : List τ}
    (goes : tier.Continues next left tokens node rest) (sound : ReadsSoundly next part)
    (joinsSoundly : tier.JoinsSoundly whole part) {lefts : List τ} (spelled : whole lefts left) :
    ∃ more, tokens = more ++ rest ∧ whole (lefts ++ more) node := by
  induction goes generalizing lefts with
  | ended => exact ⟨[], rfl, by rwa [List.append_nil]⟩
  | joined found read joins _ ih =>
    obtain ⟨rights, rfl, right⟩ := sound _ _ _ read
    obtain ⟨separator, rfl, join⟩ := joinsSoundly _ _ _ found
    obtain ⟨more, rfl, all⟩ := ih (join _ _ _ _ _ spelled right joins)
    refine ⟨separator ++ (rights ++ more), by simp only [List.append_assoc], ?_⟩
    simpa only [List.append_assoc] using all

/-- **A chain is read soundly if its operands are**: an operand alone is a chain, and an operand that
is joined to a chain makes a chain. -/
theorem readsSoundly_chain (sound : ReadsSoundly next part)
    (alone : ∀ consumed node, part consumed node → whole consumed node)
    (joinsSoundly : tier.JoinsSoundly whole part) : ReadsSoundly (tier.chain next) whole := by
  intro tokens node rest read
  rw [plain_chain, bind_eq_ok_iff] at read
  obtain ⟨⟨first, others⟩, firstRead, read⟩ := read
  obtain ⟨consumed, rfl, spelled⟩ := sound tokens first others firstRead
  obtain ⟨more, rfl, all⟩ := (continues_of_plain_chainFrom read).exists_whole sound joinsSoundly
    (alone _ _ spelled)
  exact ⟨consumed ++ more, (List.append_assoc _ _ _).symm, all⟩

end Tier

end TwoLevel
