/-!
# Histories

A history is a list that grows at its end.  What is true since an entry of a history is decided by
the last entry and by what was true before it (`since_concat_iff`).
-/

namespace FlowAnalysis

variable {α : Type}

/-- An entry had a property after those before it, and every later one has another property. -/
def Since (P : List α → α → Prop) (Q : α → Prop) (es : List α) : Prop :=
  ∃ before e later, es = before ++ e :: later ∧ P before e ∧ ∀ x ∈ later, Q x

theorem since_concat_iff {P : List α → α → Prop} {Q : α → Prop} {es : List α} {a : α} :
    Since P Q (es ++ [a]) ↔ P es a ∨ (Since P Q es ∧ Q a) := by
  constructor
  · rintro ⟨before, e, later, heq, hp, hlater⟩
    -- The last entry is the one with the property, or it comes after it.
    rcases List.eq_nil_or_concat later with rfl | ⟨rest, x, rfl⟩
    · obtain ⟨rfl, he⟩ := List.append_inj' heq rfl
      obtain rfl := List.singleton_inj.1 he
      exact .inl hp
    · rw [List.concat_eq_append] at heq hlater
      rw [← List.cons_append, ← List.append_assoc] at heq
      obtain ⟨rfl, hx⟩ := List.append_inj' heq rfl
      obtain rfl := List.singleton_inj.1 hx
      exact .inr ⟨⟨before, e, rest, rfl, hp, fun x hx => hlater x (by simp [hx])⟩,
        hlater a (by simp)⟩
  · rintro (hp | ⟨⟨before, e, later, rfl, hp, hlater⟩, ha⟩)
    · exact ⟨es, a, [], rfl, hp, fun _ h => absurd h List.not_mem_nil⟩
    · refine ⟨before, e, later ++ [a], by simp, hp, fun x hx => ?_⟩
      rcases List.mem_append.1 hx with hx | hx
      · exact hlater x hx
      · exact List.mem_singleton.1 hx ▸ ha

end FlowAnalysis
