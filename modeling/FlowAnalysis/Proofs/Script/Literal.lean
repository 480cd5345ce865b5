import FlowAnalysis.Schema.Literal
import FlowAnalysis.Script.Parsed
import Mathlib.Data.List.Basic
import Mathlib.Logic.Relation
import Mathlib.Tactic.MkIffOfInductiveProp

/-!
# Expressions that need no evaluation

The parts of an expression lie inside its parentheses, arrays and the values of its objects
(`Inside`).  A part has no value of its own when it has to be evaluated (`Evaluated`) or is
written in a way that gives none (`Unreadable`).  An expression has a value exactly when every
part has one (`literal?_eq_none_iff`).  The keys of an object are not looked at, so a computed
key is taken for its spelling.
-/

namespace FlowAnalysis.Script.Node

/-! ### The parts of an expression -/

/-- An expression is right inside another: in its parentheses, an element of the array, or the
value of a pair of the object. -/
@[mk_iff]
inductive Inside : Node → Node → Prop
  | parens {n c : Node} (h : n.kind = .parenthesizedExpression) (hc : n.part? = some c) : Inside n c
  | element {n c : Node} (h : n.kind = .array) (hc : c ∈ n.parts) : Inside n c
  | value {n m c : Node} (h : n.kind = .object) (hm : m ∈ n.parts) (hk : m.kind = .pair)
      (hc : m.child? .value = some c) : Inside n c

/-- An expression is a part of another, at any depth. -/
def HasPart : Node → Node → Prop := Relation.ReflTransGen Inside

/-- The kinds of expressions that can be values as they are written. -/
def valueKinds : List Kind :=
  [.string, .templateString, .number, .unaryExpression, .trueValue, .falseValue, .nullValue,
    .array, .object, .parenthesizedExpression]

/-- A minus sign and a number. -/
def IsNegative (n : Node) : Prop :=
  n.kind = .unaryExpression ∧ ∃ argument operator, n.child? .argument = some argument ∧
    argument.kind = .number ∧ n.child? .operator = some operator ∧ operator.text = "-"

/-- The value of an expression itself has to be computed: it is of a kind that is no value (an
identifier, a call, an operator, a spread), an operator with one operand other than minus on a
number, a template with a substitution, or an object with a member that is not a pair (a
spread, a shorthand, a method). -/
@[mk_iff]
inductive Evaluated (n : Node) : Prop
  | expression (h : n.kind ∉ valueKinds)
  | operator (h : n.kind = .unaryExpression) (hn : ¬ n.IsNegative)
  | substitution (h : n.kind = .templateString) (hs : n.hasSubstitution = true)
  | member {m : Node} (h : n.kind = .object) (hm : m ∈ n.parts) (hk : m.kind ≠ .pair)

/-- An expression is written in a way that gives no value: a number, or a minus sign and a number,
that is not in decimal notation, parentheses around nothing, or a pair without a key or a value. -/
@[mk_iff]
inductive Unreadable (n : Node) : Prop
  | number (h : n.kind = .number) (ht : numberLiteral? n.text = none)
  | negative (h : n.IsNegative)
      (ht : numberLiteral? (String.ofList (n.text.toList.filter (· != ' '))) = none)
  | parens (h : n.kind = .parenthesizedExpression) (hc : n.part? = none)
  | pair {m : Node} (h : n.kind = .object) (hm : m ∈ n.parts) (hk : m.kind = .pair)
      (hc : m.child? .key = none ∨ m.child? .value = none)

/-- A pair of an object has a key in brackets. -/
def HasComputedKey (n : Node) : Prop :=
  n.kind = .object ∧ ∃ m ∈ n.parts, m.kind = .pair ∧
    ∃ key, m.child? .key = some key ∧ key.kind = .computedPropertyName

/-- Some part of an expression, or the key of a pair in it, has to be evaluated. -/
def NeedsEvaluation (n : Node) : Prop := ∃ m, n.HasPart m ∧ (m.Evaluated ∨ m.HasComputedKey)

theorem Inside.size_lt {n c : Node} (h : Inside n c) : c.size < n.size := by
  cases h with
  | parens _ hc => exact size_lt_of_part? hc
  | element _ hc => exact size_lt_of_mem (mem_children_of_mem_parts hc)
  | value _ hm _ hc =>
    exact Nat.lt_trans (size_lt_of_child? hc) (size_lt_of_mem (mem_children_of_mem_parts hm))

/-! ### One level of an expression -/

theorem stripParens_of_ne {n : Node} (h : n.kind ≠ .parenthesizedExpression) :
    n.stripParens = n := by
  rw [stripParens, if_neg (by simpa using h)]

theorem literal?_eq_of_part? {n c : Node} (h : n.kind = .parenthesizedExpression)
    (hc : n.part? = some c) : n.literal? = c.literal? := by
  have hstrip : n.stripParens = c.stripParens := by
    rw [stripParens, if_pos (by simpa using h)]
    split
    · next inner hinner => rw [Option.some.inj (hinner.symm.trans hc)]
    · next hnone => cases hnone.symm.trans hc
  rw [literal?, literal?, hstrip]

theorem literals?_eq_none_iff {ns : List Node} :
    literals? ns = none ↔ ∃ n ∈ ns, n.literal? = none := by
  induction ns with
  | nil => simp [literals?]
  | cons n ns ih =>
    rw [literals?, List.exists_mem_cons_iff, ← ih]
    cases n.literal? with
    | none => simp
    | some j => cases literals? ns <;> simp

/-- What keeps the members of an object from having values. -/
theorem literalMembers?_eq_none_iff {ns : List Node} :
    literalMembers? ns = none ↔ ∃ m ∈ ns, m.kind ≠ .pair ∨ m.child? .key = none ∨
      m.child? .value = none ∨ ∃ c, m.child? .value = some c ∧ c.literal? = none := by
  induction ns with
  | nil => simp [literalMembers?]
  | cons m ns ih =>
    rw [literalMembers?, List.exists_mem_cons_iff, ← ih]
    by_cases hk : m.kind = .pair
    · rw [if_pos (by simpa using hk)]
      cases hkey : m.child? .key with
      | none => simp
      | some key =>
        cases hvalue : m.child? .value with
        | none => simp
        | some c =>
          simp only
          cases hj : c.literal? <;> cases literalMembers? ns <;> simp [hk, hj]
    · rw [if_neg (by simpa using hk)]
      simp [hk]

theorem literal?_eq_none_iff_of_parens {n : Node} (hk : n.kind = .parenthesizedExpression) :
    n.literal? = none ↔ n.part? = none ∨ ∃ c, n.part? = some c ∧ c.literal? = none := by
  cases hc : n.part? with
  | some c => simp [literal?_eq_of_part? hk hc]
  | none =>
    have hstrip : n.stripParens = n := by
      rw [stripParens, if_pos (by simpa using hk)]
      split
      · next inner hinner => cases hinner.symm.trans hc
      · rfl
    rw [literal?, hstrip, hk]
    simp

theorem literal?_eq_none_iff_of_unary {n : Node} (hk : n.kind = .unaryExpression) :
    n.literal? = none ↔ n.Evaluated ∨ n.Unreadable := by
  rw [literal?, stripParens_of_ne (by simp [hk])]
  simp only [hk]
  cases ha : n.child? .argument with
  | none => simp [evaluated_iff, IsNegative, hk, ha]
  | some argument =>
    cases ho : n.child? .operator with
    | none => simp [evaluated_iff, IsNegative, hk, ha, ho]
    | some operator =>
      by_cases hminus : argument.kind = .number ∧ operator.text = "-"
      · simp [evaluated_iff, unreadable_iff, IsNegative, valueKinds, hk, ha, ho, hminus]
      · have hnot : ¬ n.IsNegative := by simpa [IsNegative, hk, ha, ho] using hminus
        have htest : (argument.kind == .number && operator.text == "-") = false := by
          simpa [Bool.eq_false_iff] using hminus
        simp [htest, Evaluated.operator hk hnot]

theorem literal?_eq_none_iff_of_object {n : Node} (hk : n.kind = .object) :
    n.literal? = none ↔ (n.Evaluated ∨ n.Unreadable) ∨ ∃ c, Inside n c ∧ c.literal? = none := by
  rw [literal?, stripParens_of_ne (by simp [hk])]
  simp only [hk, Option.map_eq_none_iff, literalMembers?_eq_none_iff]
  constructor
  · rintro ⟨m, hm, h⟩
    by_cases hpair : m.kind = .pair
    · rcases h with h | h | h | ⟨c, hc, hnone⟩
      · exact absurd hpair h
      · exact .inl (.inr (.pair hk hm hpair (.inl h)))
      · exact .inl (.inr (.pair hk hm hpair (.inr h)))
      · exact .inr ⟨c, .value hk hm hpair hc, hnone⟩
    · exact .inl (.inl (.member hk hm hpair))
  · -- of an object only what concerns its members can be the reason
    rintro ((h | h) | ⟨c, hc, hnone⟩)
    · obtain ⟨m, hm, hpair⟩ : ∃ m ∈ n.parts, m.kind ≠ .pair := by
        simpa [evaluated_iff, valueKinds, hk] using h
      exact ⟨m, hm, .inl hpair⟩
    · obtain ⟨m, hm, -, hmissing⟩ : ∃ m ∈ n.parts, m.kind = .pair ∧
          (m.child? .key = none ∨ m.child? .value = none) := by
        simpa [unreadable_iff, IsNegative, hk] using h
      exact ⟨m, hm, .inr (hmissing.imp_right .inl)⟩
    · obtain ⟨m, hm, -, hvalue⟩ : ∃ m ∈ n.parts, m.kind = .pair ∧ m.child? .value = some c := by
        simpa [inside_iff, hk] using hc
      exact ⟨m, hm, .inr (.inr (.inr ⟨c, hvalue, hnone⟩))⟩

/-- **One level of an expression**: it has no value when it has to be evaluated, cannot be read, or
something right inside it has no value. -/
theorem literal?_eq_none_iff_step (n : Node) :
    n.literal? = none ↔ (n.Evaluated ∨ n.Unreadable) ∨ ∃ c, Inside n c ∧ c.literal? = none := by
  by_cases hparens : n.kind = .parenthesizedExpression
  · rw [literal?_eq_none_iff_of_parens hparens]
    simp [evaluated_iff, unreadable_iff, inside_iff, IsNegative, valueKinds, hparens]
  by_cases hunary : n.kind = .unaryExpression
  · rw [literal?_eq_none_iff_of_unary hunary]
    simp [inside_iff, hunary]
  by_cases hobject : n.kind = .object
  · exact literal?_eq_none_iff_of_object hobject
  rw [literal?, stripParens_of_ne hparens]
  simp only
  split
  · next hk => simp [evaluated_iff, unreadable_iff, inside_iff, IsNegative, valueKinds, hk]
  · next hk => simp [evaluated_iff, unreadable_iff, inside_iff, IsNegative, valueKinds, hk]
  · next hk => simp [evaluated_iff, unreadable_iff, inside_iff, IsNegative, valueKinds, hk]
  · next hk => exact absurd hk hunary
  · next hk => simp [evaluated_iff, unreadable_iff, inside_iff, IsNegative, valueKinds, hk]
  · next hk => simp [evaluated_iff, unreadable_iff, inside_iff, IsNegative, valueKinds, hk]
  · next hk => simp [evaluated_iff, unreadable_iff, inside_iff, IsNegative, valueKinds, hk]
  · next hk =>
    rw [Option.map_eq_none_iff, literals?_eq_none_iff]
    simp [evaluated_iff, unreadable_iff, inside_iff, IsNegative, valueKinds, hk]
  · next hk => exact absurd hk hobject
  · simp_all [evaluated_iff, valueKinds]

/-! ### All levels -/

theorem exists_part_of_literal?_eq_none {n : Node} (h : n.literal? = none) :
    ∃ m, n.HasPart m ∧ (m.Evaluated ∨ m.Unreadable) := by
  rcases (literal?_eq_none_iff_step n).1 h with hn | ⟨c, hc, hnone⟩
  · exact ⟨n, .refl, hn⟩
  · obtain ⟨m, hm, hreason⟩ := exists_part_of_literal?_eq_none hnone
    exact ⟨m, .head hc hm, hreason⟩
termination_by n.size
decreasing_by exact hc.size_lt

/-- **An expression has a value exactly when all its parts have one.** -/
theorem literal?_eq_none_iff (n : Node) :
    n.literal? = none ↔ ∃ m, n.HasPart m ∧ (m.Evaluated ∨ m.Unreadable) := by
  refine ⟨exists_part_of_literal?_eq_none, ?_⟩
  rintro ⟨m, hm, hreason⟩
  -- from the part outwards, every level has no value
  induction hm using Relation.ReflTransGen.head_induction_on with
  | refl => exact (literal?_eq_none_iff_step m).2 (.inl hreason)
  | head hc _ ih => exact (literal?_eq_none_iff_step _).2 (.inr ⟨_, hc, ih⟩)

/-- **Defaults are guessed only from computed keys.**  An expression of which a part has to be
evaluated has no value.  One that has a computed key has none exactly when, besides, some part
of it has to be evaluated or cannot be read; so that is when no expression that needs
evaluation is given a value. -/
theorem literal?_unguessed_iff (n : Node) :
    ((∃ m, n.HasPart m ∧ m.Evaluated) → n.literal? = none) ∧
    ((n.NeedsEvaluation → n.literal? = none) ↔
      ((∃ m, n.HasPart m ∧ m.HasComputedKey) →
        ∃ m, n.HasPart m ∧ (m.Evaluated ∨ m.Unreadable))) := by
  rw [literal?_eq_none_iff]
  have hevaluated : (∃ m, n.HasPart m ∧ m.Evaluated) →
      ∃ m, n.HasPart m ∧ (m.Evaluated ∨ m.Unreadable) :=
    fun ⟨m, hm, he⟩ => ⟨m, hm, .inl he⟩
  refine ⟨hevaluated, fun h ⟨m, hm, hkey⟩ => h ⟨m, hm, .inr hkey⟩, fun h ⟨m, hm, hneeds⟩ => ?_⟩
  rcases hneeds with he | hkey
  · exact hevaluated ⟨m, hm, he⟩
  · exact h ⟨m, hm, hkey⟩

/-- The first expression of a script. -/
def firstExpression? (p : ParsedScript) : Option Node := (p.root.parts.head?).bind (·.part?)

/-- An object in parentheses whose key is a variable. -/
def computedKeyScript : String := "(\x7b[k]:1\x7d)"

/-- **A computed key is taken for its spelling**: the expression needs the value of `k`, and is
given a value all the same, with a member called `[k]`. -/
theorem literal?_computedKeyScript :
    ∃ p n value, ParsedScript.parse? computedKeyScript = some p ∧ firstExpression? p = some n ∧
      n.NeedsEvaluation ∧ n.literal? = some value ∧ (value.member? "[k]").isSome := by
  have heval : ((ParsedScript.parse? computedKeyScript).bind fun p =>
      (firstExpression? p).bind fun n =>
      n.part?.bind fun m => m.parts.head?.bind fun pair => (pair.child? .key).bind fun key =>
        n.literal?.map fun value =>
          (n.kind, m.kind, pair.kind, key.kind, (value.member? "[k]").isSome)) =
      some (.parenthesizedExpression, .object, .pair, .computedPropertyName, true) := by
    decide +kernel
  obtain ⟨p, hp, he⟩ := Option.bind_eq_some_iff.1 heval
  obtain ⟨n, hn, he⟩ := Option.bind_eq_some_iff.1 he
  obtain ⟨m, hm, he⟩ := Option.bind_eq_some_iff.1 he
  obtain ⟨pair, hpair, he⟩ := Option.bind_eq_some_iff.1 he
  obtain ⟨key, hkey, he⟩ := Option.bind_eq_some_iff.1 he
  obtain ⟨value, hvalue, he⟩ := Option.map_eq_some_iff.1 he
  simp only [Prod.mk.injEq] at he
  obtain ⟨hnk, hmk, hpairk, hkeyk, hmember⟩ := he
  have hcomputed : m.HasComputedKey :=
    ⟨hmk, pair, List.mem_of_head? hpair, hpairk, key, hkey, hkeyk⟩
  exact ⟨p, n, value, hp, hn, ⟨m, .single (.parens hnk hm), .inr hcomputed⟩, hvalue, hmember⟩

end FlowAnalysis.Script.Node
