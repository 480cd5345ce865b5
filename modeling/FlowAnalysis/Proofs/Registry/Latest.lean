import FlowAnalysis.Proofs.Registry.Classes
import Mathlib.Data.Finset.Card

/-!
# The latest registration of a name

A registry is a map by name in which the last registration wins.  One registration changes what its
own name stands for and nothing else (`get?_register`), so after any sequence of registrations a
name stands for the last descriptor registered under it (`get?_ofDescriptors`).  A name keeps the
place it got when it was first registered (`pairwise_idxOf_names`).

The vector of descriptors is read at the places that the two indices give, without a look
at its length.  That is safe: each place in an index is that of a descriptor with the name
or the class that leads there.
-/

namespace FlowAnalysis.Registry

variable {r : Registry}

/-- A registration changes what its own name stands for, and nothing else. -/
theorem get?_register (h : r.Named) (d : Descriptor) (n : String) :
    (r.register d).get? n = if n = d.name then some d else r.get? n := by
  rcases register_cases h d with ⟨i, old, hold, hget, hr⟩ | ⟨-, hr⟩
  · have hname : r.names[i]? = some d.name := by
      rw [names, List.getElem?_map, hold, ← (h.get?_eq_some_iff.1 hget).2]
      rfl
    rw [hr, get?, get?]
    split
    · next hn =>
      rw [hn, (h d.name i).2 hname]
      exact List.getElem?_set_self (List.getElem?_eq_some_iff.1 hold).1
    · next hn =>
      refine Option.bind_congr fun j hj => List.getElem?_set_ne ?_
      rintro rfl
      rw [(h n i).1 hj] at hname
      exact hn (Option.some.inj hname)
  · rw [hr, get?, get?, ByName.get?_insert]
    split
    · exact List.getElem?_concat_length
    · refine Option.bind_congr fun j hj => List.getElem?_append_left ?_
      have hplace := (List.getElem?_eq_some_iff.1 ((h n j).1 hj)).1
      rwa [names, List.length_map] at hplace

/-- A name stands for the last descriptor registered under it. -/
theorem get?_ofDescriptors (ds : List Descriptor) (n : String) :
    (ofDescriptors ds).get? n = ds.reverse.find? fun d => d.name == n := by
  induction ds using List.reverseRecOn with
  | nil => rfl
  | append_singleton ds d ih =>
    rw [ofDescriptors_concat, get?_register (named_ofDescriptors ds), ih, List.reverse_concat,
      List.find?_cons]
    by_cases hn : n = d.name
    · simp [hn]
    · have hne : (d.name == n) = false := beq_false_of_ne (Ne.symm hn)
      rw [if_neg hn, hne]

/-- Names stand in the order in which they were first registered. -/
theorem pairwise_idxOf_names (ds : List Descriptor) :
    (ofDescriptors ds).names.Pairwise fun m n =>
      (ds.map (·.name)).idxOf m < (ds.map (·.name)).idxOf n := by
  induction ds using List.reverseRecOn with
  | nil => exact .nil
  | append_singleton ds d ih =>
    rw [ofDescriptors_concat, (named_ofDescriptors ds).names_register, List.map_append,
      List.map_singleton]
    -- A later registration moves no first place.
    have hfirst : ∀ m ∈ (ofDescriptors ds).names,
        (ds.map (·.name) ++ [d.name]).idxOf m = (ds.map (·.name)).idxOf m := fun m hm =>
      List.idxOf_append_of_mem (mem_names_ofDescriptors.1 hm)
    have hkept : (ofDescriptors ds).names.Pairwise fun m n =>
        (ds.map (·.name) ++ [d.name]).idxOf m < (ds.map (·.name) ++ [d.name]).idxOf n := by
      refine ih.imp_of_mem fun hm hn hlt => ?_
      rwa [hfirst _ hm, hfirst _ hn]
    split
    · exact hkept
    · next hnew =>
      refine List.pairwise_append.2 ⟨hkept, List.pairwise_singleton _ _, ?_⟩
      rintro m hm n hn
      obtain rfl := List.mem_singleton.1 hn
      have habsent : d.name ∉ ds.map (·.name) := fun hd => hnew (mem_names_ofDescriptors.2 hd)
      rw [hfirst m hm, List.idxOf_append_of_notMem habsent]
      exact Nat.lt_add_right _ (List.idxOf_lt_length_of_mem (mem_names_ofDescriptors.1 hm))

/-- **The last registration of a name wins.**  After any sequence of registrations the names of the
descriptors are those registered, distinct and in the order in which they were first registered;
there is one descriptor for each different name; a name stands for the last descriptor registered
under it, and for none when there is none; and every place in the index by name or by class is that
of a descriptor with that name or class. -/
theorem last_registration_wins (ds : List Descriptor) :
    let r := ofDescriptors ds
    (∀ n, n ∈ r.names ↔ n ∈ ds.map (·.name)) ∧ r.names.Nodup ∧
    r.names.Pairwise (fun m n => (ds.map (·.name)).idxOf m < (ds.map (·.name)).idxOf n) ∧
    r.size = (ds.map (·.name)).toFinset.card ∧
    (∀ n, r.get? n = ds.reverse.find? fun d => d.name == n) ∧
    (∀ n i, r.byName.get? n = some i → ∃ d, r.descriptors[i]? = some d ∧ d.name = n) ∧
    (∀ c i, r.byClass.get? c = some i → ∃ d, r.descriptors[i]? = some d ∧ d.className = c) := by
  intro r
  have hnamed : r.Named := named_ofDescriptors ds
  refine ⟨fun n => mem_names_ofDescriptors, hnamed.nodup_names, pairwise_idxOf_names ds, ?_,
    get?_ofDescriptors ds, ?_, classed_ofDescriptors ds⟩
  · rw [List.card_toFinset]
    exact size_ofDescriptors ds
  · intro n i hi
    have hn : r.names[i]? = some n := (hnamed n i).1 hi
    rw [names, List.getElem?_map] at hn
    exact Option.map_eq_some_iff.1 hn

-- A name that is registered again keeps its place and takes the new class.
example : (ofDescriptors [{ name := "a", className := "X" }, { name := "b", className := "Y" },
      { name := "a", className := "Z" }]).descriptors.map (fun d => (d.name, d.className))
    = [("a", "Z"), ("b", "Y")] := by
  decide +kernel

end FlowAnalysis.Registry
