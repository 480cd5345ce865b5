import FlowAnalysis.Proofs.History
import FlowAnalysis.Proofs.Registry.Names
import Mathlib.Data.List.Induction

/-!
# The classes of a registry

A class leads only to a stored descriptor of that class (`Classed`).  The converse fails: when a
name is registered again with another class, the entry of its old class is taken out of the index,
also when the entry belongs to another name that has the same class.  The class is then lost, until
it is registered again, although a stored descriptor has it.  So a class is found exactly when a
stored descriptor has it and it has not been lost (`class_index_complete_iff`).
-/

namespace FlowAnalysis.Registry

variable {r : Registry} {d : Descriptor} {c : String}

/-- A stored descriptor has the class. -/
def Stores (r : Registry) (c : String) : Prop := ∃ d ∈ r.descriptors, d.className = c

/-- The index by class leads only to descriptors of the class. -/
def Classed (r : Registry) : Prop :=
  ∀ c i, r.byClass.get? c = some i → ∃ d, r.descriptors[i]? = some d ∧ d.className = c

/-- Registering a descriptor gives up a class: it replaces a bubble of
this class by one of another. -/
def GivesUp (r : Registry) (d : Descriptor) (c : String) : Prop :=
  d.className ≠ c ∧ ∃ old, r.get? d.name = some old ∧ old.className = c

/-- A class is lost when some registration gave it up and no later one has it. -/
def Lost (ds : List Descriptor) (c : String) : Prop :=
  Since (fun before d => (ofDescriptors before).GivesUp d c) (fun e => e.className ≠ c) ds

/-! ### One registration -/

/-- A registration puts the descriptor in the place of the one of the same name, or at the end. -/
theorem register_cases (h : r.Named) (d : Descriptor) :
    (∃ i old, r.descriptors[i]? = some old ∧ r.get? d.name = some old ∧
      r.register d = ⟨r.descriptors.set i d, r.byName,
        (r.byClass.erase old.className).insert d.className i⟩) ∨
    (r.get? d.name = none ∧
      r.register d = ⟨r.descriptors ++ [d], r.byName.insert d.name r.descriptors.length,
        r.byClass.insert d.className r.descriptors.length⟩) := by
  rw [register]
  split
  · next i hi =>
    have hname : r.names[i]? = some d.name := (h d.name i).1 hi
    rw [names, List.getElem?_map] at hname
    obtain ⟨old, hold, -⟩ := Option.map_eq_some_iff.1 hname
    refine .inl ⟨i, old, hold, ?_, ?_⟩
    · rw [get?, hi]
      exact hold
    · simp [hold]
  · next hnone => exact .inr ⟨by rw [get?, hnone]; rfl, rfl⟩

theorem classed_empty : empty.Classed := by
  intro c i h
  simp [empty, ByName.empty, ByName.get?] at h

theorem Classed.register (hc : r.Classed) (h : r.Named) (d : Descriptor) :
    (r.register d).Classed := by
  intro c j hj
  rcases register_cases h d with ⟨i, old, hold, -, hr⟩ | ⟨-, hr⟩
  · rw [hr] at hj ⊢
    simp only [ByName.get?_insert, ByName.get?_erase] at hj
    split at hj
    · next heq =>
      obtain rfl := Option.some.inj hj
      exact ⟨d, List.getElem?_set_self (List.getElem?_eq_some_iff.1 hold).1, heq.symm⟩
    · split at hj
      · cases hj
      · next hne =>
        obtain ⟨e, he, hec⟩ := hc c j hj
        -- The place of `d` held another class.
        have hij : i ≠ j := by
          rintro rfl
          rw [hold] at he
          exact hne (Option.some.inj he ▸ hec.symm)
        exact ⟨e, by rw [List.getElem?_set_ne hij, he], hec⟩
  · rw [hr] at hj ⊢
    simp only [ByName.get?_insert] at hj
    split at hj
    · next heq =>
      obtain rfl := Option.some.inj hj
      exact ⟨d, List.getElem?_concat_length, heq.symm⟩
    · obtain ⟨e, he, hec⟩ := hc c j hj
      exact ⟨e, List.getElem?_append_left (List.getElem?_eq_some_iff.1 he).1 ▸ he, hec⟩

/-- The class of the descriptor registered last leads to it. -/
theorem forClass?_register_self (h : r.Named) (d : Descriptor) :
    (r.register d).forClass? d.className = some d := by
  rcases register_cases h d with ⟨i, old, hold, -, hr⟩ | ⟨-, hr⟩
  · rw [hr, forClass?, ByName.get?_insert, if_pos rfl]
    exact List.getElem?_set_self (List.getElem?_eq_some_iff.1 hold).1
  · rw [hr, forClass?, ByName.get?_insert, if_pos rfl]
    exact List.getElem?_concat_length

/-- A class that is given up leads nowhere. -/
theorem forClass?_register_of_givesUp (h : r.Named) (hg : r.GivesUp d c) :
    (r.register d).forClass? c = none := by
  obtain ⟨hne, old', hold', rfl⟩ := hg
  rcases register_cases h d with ⟨i, old, -, hget, hr⟩ | ⟨hget, -⟩
  · rw [hget] at hold'
    obtain rfl := Option.some.inj hold'
    rw [hr, forClass?, ByName.get?_insert, if_neg (Ne.symm hne), ByName.get?_erase, if_pos rfl]
    rfl
  · rw [hget] at hold'
    cases hold'

/-- Any other class leads where it led. -/
theorem forClass?_register_of_ne (h : r.Named) (hc : r.Classed) (hne : d.className ≠ c)
    (hg : ¬ r.GivesUp d c) : (r.register d).forClass? c = r.forClass? c := by
  rcases register_cases h d with ⟨i, old, hold, hget, hr⟩ | ⟨-, hr⟩
  · have holdc : old.className ≠ c := fun he => hg ⟨hne, old, hget, he⟩
    rw [hr, forClass?, forClass?, ByName.get?_insert, if_neg (Ne.symm hne), ByName.get?_erase,
      if_neg (Ne.symm holdc)]
    refine Option.bind_congr fun j hj => List.getElem?_set_ne ?_
    rintro rfl
    obtain ⟨e, he, hec⟩ := hc c i hj
    rw [hold] at he
    exact holdc (Option.some.inj he ▸ hec)
  · rw [hr, forClass?, forClass?, ByName.get?_insert, if_neg (Ne.symm hne)]
    refine Option.bind_congr fun j hj => ?_
    obtain ⟨e, he, -⟩ := hc c j hj
    exact List.getElem?_append_left (List.getElem?_eq_some_iff.1 he).1

/-- A class that is not given up is stored when it was. -/
theorem stores_register_iff (h : r.Named) (hne : d.className ≠ c) (hg : ¬ r.GivesUp d c) :
    (r.register d).Stores c ↔ r.Stores c := by
  rcases register_cases h d with ⟨i, old, hold, hget, hr⟩ | ⟨-, hr⟩
  · have holdc : old.className ≠ c := fun he => hg ⟨hne, old, hget, he⟩
    rw [hr]
    constructor
    · rintro ⟨e, he, hec⟩
      rcases List.mem_or_eq_of_mem_set he with he | rfl
      · exact ⟨e, he, hec⟩
      · exact absurd hec hne
    · rintro ⟨e, he, hec⟩
      obtain ⟨j, hj⟩ := List.mem_iff_getElem?.1 he
      have hij : i ≠ j := by
        rintro rfl
        rw [hold] at hj
        exact holdc (Option.some.inj hj ▸ hec)
      exact ⟨e, List.mem_of_getElem? ((List.getElem?_set_ne hij).trans hj), hec⟩
  · rw [hr]
    simp [Stores, List.mem_append, or_and_right, exists_or, hne]

/-! ### Every registry -/

theorem classed_ofDescriptors (ds : List Descriptor) : (ofDescriptors ds).Classed := by
  induction ds using List.reverseRecOn with
  | nil => exact classed_empty
  | append_singleton ds d ih =>
    rw [ofDescriptors_concat]
    exact ih.register (named_ofDescriptors ds) d

/-- A class leads only to a stored descriptor of the class. -/
theorem Classed.mem_of_forClass? (hc : r.Classed) (h : r.forClass? c = some d) :
    d ∈ r.descriptors ∧ d.className = c := by
  obtain ⟨i, hi, hd⟩ := Option.bind_eq_some_iff.1 h
  obtain ⟨e, he, hec⟩ := hc c i hi
  rw [hd] at he
  obtain rfl := Option.some.inj he
  exact ⟨List.mem_of_getElem? hd, hec⟩

/-- A class is lost by the last registration, or it was lost before and is
not that of the last one. -/
theorem lost_concat (ds : List Descriptor) (d : Descriptor) (c : String) :
    Lost (ds ++ [d]) c ↔ (ofDescriptors ds).GivesUp d c ∨ (Lost ds c ∧ d.className ≠ c) :=
  since_concat_iff

/-- **A class is found exactly when it is stored and not lost.**  Whatever is registered in
whatever order, a class leads only to a stored descriptor of that class, and it leads to one
exactly when a stored descriptor has the class and no registration has given the class up
since it was registered last. -/
theorem class_index_complete_iff (ds : List Descriptor) (c : String) :
    (∀ d, (ofDescriptors ds).forClass? c = some d →
        d ∈ (ofDescriptors ds).descriptors ∧ d.className = c) ∧
      (((ofDescriptors ds).forClass? c).isSome ↔ (ofDescriptors ds).Stores c ∧ ¬ Lost ds c) := by
  refine ⟨fun d hd => (classed_ofDescriptors ds).mem_of_forClass? hd, ?_⟩
  induction ds using List.reverseRecOn with
  | nil => simp [ofDescriptors, empty, Stores, forClass?, ByName.empty, ByName.get?]
  | append_singleton ds d ih =>
    have hnamed := named_ofDescriptors ds
    have hclassed := classed_ofDescriptors ds
    rw [ofDescriptors_concat, lost_concat]
    by_cases hd : d.className = c
    · have hself : ((ofDescriptors ds).register d).forClass? c = some d :=
        hd ▸ forClass?_register_self hnamed d
      have hstored := (hclassed.register hnamed d).mem_of_forClass? hself
      simp [hself, hd, GivesUp, show ((ofDescriptors ds).register d).Stores c from ⟨d, hstored⟩]
    · by_cases hg : (ofDescriptors ds).GivesUp d c
      · simp [forClass?_register_of_givesUp hnamed hg, hg]
      · rw [forClass?_register_of_ne hnamed hclassed hd hg, stores_register_iff hnamed hd hg, ih]
        simp [hg, hd]

/-- Two bubbles share a class, and the first then takes another. -/
def sharedClass : String :=
  "\x7b\"bubbles\":[\x7b\"name\":\"a\",\"className\":\"X\"\x7d,"
    ++ "\x7b\"name\":\"b\",\"className\":\"X\"\x7d,"
    ++ "\x7b\"name\":\"a\",\"className\":\"Y\"\x7d]\x7d"

/-- **A class that two bubbles share is lost when one of them takes another**: the second bubble is
still stored with the class, but the class is not found. -/
theorem forClass?_sharedClass :
    ∃ r, ofText? sharedClass = some r ∧ (∃ d ∈ r.descriptors, d.className = "X") ∧
      r.forClass? "X" = none := by
  have heval : ((ofText? sharedClass).map fun r =>
      (r.descriptors.map (·.className), r.forClass? "X")) = some (["Y", "X"], none) := by
    decide +kernel
  obtain ⟨r, hr, he⟩ := Option.map_eq_some_iff.1 heval
  obtain ⟨hclasses, hnone⟩ := Prod.mk.inj he
  refine ⟨r, hr, ?_, hnone⟩
  have hX : "X" ∈ r.descriptors.map (·.className) := by
    rw [hclasses]
    simp
  exact List.mem_map.1 hX

end FlowAnalysis.Registry
