import FlowAnalysis.Registry
import Mathlib.Data.List.Dedup
import Mathlib.Data.List.Induction

/-!
# The names of a registry

A registry that is filled by registering descriptors has at most one descriptor of each name, and
its index by name leads to it (`Named`).  So the bubble of a name is the one descriptor of that name
(`get?_eq_some_iff`), also after names have been registered again, and there are as many descriptors
as different names (`size_ofDescriptors`).
-/

namespace FlowAnalysis.Registry

/-- The names of the descriptors, in the order of the descriptors. -/
def names (r : Registry) : List String := r.descriptors.map (·.name)

/-- The index by name gives the place of each name and knows no other name. -/
def Named (r : Registry) : Prop := ∀ n i, r.byName.get? n = some i ↔ r.names[i]? = some n

theorem named_empty : empty.Named := by
  intro n i
  simp [empty, names, ByName.empty, ByName.get?]

/-- A descriptor in the place of one of the same name leaves the names as they are. -/
theorem names_set {r : Registry} {d : Descriptor} {i : Nat} (h : r.names[i]? = some d.name) :
    (r.descriptors.set i d).map (·.name) = r.names := by
  rw [List.map_set]
  obtain ⟨hi, hn⟩ := List.getElem?_eq_some_iff.1 h
  rw [← hn]
  exact List.set_getElem_self hi

theorem Named.register {r : Registry} (h : r.Named) (d : Descriptor) : (r.register d).Named := by
  intro n i
  rw [Registry.register]
  split
  · next j hj =>
    show r.byName.get? n = some i ↔ ((r.descriptors.set j d).map (·.name))[i]? = some n
    rw [names_set ((h d.name j).1 hj)]
    exact h n i
  · next hnone =>
    show (r.byName.insert d.name r.descriptors.length).get? n = some i ↔
      ((r.descriptors ++ [d]).map (·.name))[i]? = some n
    have hlength : r.names.length = r.descriptors.length := List.length_map _
    have hnew : ∀ j : Nat, r.names[j]? ≠ some d.name := by
      intro j hj
      rw [(h d.name j).2 hj] at hnone
      cases hnone
    rw [ByName.get?_insert, List.map_append, List.map_singleton]
    show _ ↔ (r.names ++ [d.name])[i]? = some n
    -- The new name stands at the end, and every other name where it stood.
    by_cases hlt : i < r.names.length
    · rw [List.getElem?_append_left hlt]
      split
      · next heq =>
        rw [heq]
        simp only [Option.some.injEq, hnew i, iff_false]
        omega
      · exact h n i
    · rw [List.getElem?_append_right (Nat.not_lt.1 hlt)]
      have hend : r.names[i]? = none := List.getElem?_eq_none (Nat.not_lt.1 hlt)
      split
      · next heq =>
        rw [heq, Option.some.injEq, ← hlength, List.getElem?_singleton]
        by_cases hi : i = r.names.length
        · simp [hi]
        · have hpos : i - r.names.length ≠ 0 := by omega
          simp [hpos, Ne.symm hi]
      · next hne =>
        rw [h n i, hend, List.getElem?_singleton]
        split
        · simp [Ne.symm hne]
        · simp

/-- Every registry that is filled by registering descriptors finds its names. -/
theorem named_ofDescriptors (ds : List Descriptor) : (ofDescriptors ds).Named :=
  List.foldlRecOn (motive := Named) ds register named_empty fun _ h d _ => h.register d

section

variable {r : Registry} {n : String} {d : Descriptor}

/-- The bubble of a name is the descriptor of that name. -/
theorem Named.get?_eq_some_iff (h : r.Named) :
    r.get? n = some d ↔ d ∈ r.descriptors ∧ d.name = n := by
  rw [get?, Option.bind_eq_some_iff]
  constructor
  · rintro ⟨i, hi, hd⟩
    have hn : r.names[i]? = some n := (h n i).1 hi
    rw [names, List.getElem?_map, hd] at hn
    exact ⟨List.mem_of_getElem? hd, Option.some.inj hn⟩
  · rintro ⟨hd, rfl⟩
    obtain ⟨i, hi⟩ := List.mem_iff_getElem?.1 hd
    refine ⟨i, (h d.name i).2 ?_, hi⟩
    rw [names, List.getElem?_map, hi]
    rfl

/-- The bubble of a name is the first descriptor of that name, as there is no other. -/
theorem Named.find?_eq_get? (h : r.Named) (n : String) :
    (r.descriptors.find? fun d => d.name == n) = r.get? n := by
  cases hf : r.descriptors.find? fun d => d.name == n with
  | some d =>
    have hn : d.name = n := by simpa using List.find?_some hf
    exact (h.get?_eq_some_iff.2 ⟨List.mem_of_find?_eq_some hf, hn⟩).symm
  | none =>
    cases hg : r.get? n with
    | none => rfl
    | some d =>
      obtain ⟨hd, hn⟩ := h.get?_eq_some_iff.1 hg
      have := List.find?_eq_none.1 hf d hd
      simp [hn] at this

/-- A name that is new comes behind the others. -/
theorem Named.names_register (h : r.Named) (d : Descriptor) :
    (r.register d).names = if d.name ∈ r.names then r.names else r.names ++ [d.name] := by
  rw [Registry.register]
  split
  · next i hi =>
    have hname : r.names[i]? = some d.name := (h d.name i).1 hi
    rw [if_pos (List.mem_of_getElem? hname)]
    exact names_set hname
  · next hnone =>
    have hnew : d.name ∉ r.names := by
      intro hm
      obtain ⟨i, hi⟩ := List.mem_iff_getElem?.1 hm
      rw [(h d.name i).2 hi] at hnone
      cases hnone
    rw [if_neg hnew]
    exact List.map_append

/-- A name has one place in the index, so it does not come twice. -/
theorem Named.nodup_names (h : r.Named) : r.names.Nodup := by
  rw [List.nodup_iff_getElem?_ne_getElem?]
  intro i j hlt hj heq
  have hplace : r.names[j]? = some r.names[j] := List.getElem?_eq_getElem hj
  have hi := (h _ i).2 (heq.trans hplace)
  have hj := (h _ j).2 hplace
  have : i = j := Option.some.inj (hi.symm.trans hj)
  omega

end

theorem ofDescriptors_concat (ds : List Descriptor) (d : Descriptor) :
    ofDescriptors (ds ++ [d]) = (ofDescriptors ds).register d := by
  simp [ofDescriptors]

theorem mem_names_ofDescriptors {ds : List Descriptor} {n : String} :
    n ∈ (ofDescriptors ds).names ↔ n ∈ ds.map (·.name) := by
  induction ds using List.reverseRecOn with
  | nil => rfl
  | append_singleton ds d ih =>
    rw [ofDescriptors_concat, (named_ofDescriptors ds).names_register, List.map_append,
      List.mem_append, ← ih, List.map_singleton, List.mem_singleton]
    split
    · next hm =>
      constructor
      · exact .inl
      · rintro (hn | rfl)
        · exact hn
        · exact hm
    · rw [List.mem_append, List.mem_singleton]

/-- There are as many descriptors as there are different names among those registered. -/
theorem size_ofDescriptors (ds : List Descriptor) :
    (ofDescriptors ds).size = (ds.map (·.name)).dedup.length := by
  have hperm : (ofDescriptors ds).names.Perm (ds.map (·.name)).dedup := by
    refine (List.perm_ext_iff_of_nodup (named_ofDescriptors ds).nodup_names (List.nodup_dedup _)).2
      ?_
    intro n
    rw [mem_names_ofDescriptors, List.mem_dedup]
  rw [← hperm.length_eq, names, List.length_map, size]

end FlowAnalysis.Registry
