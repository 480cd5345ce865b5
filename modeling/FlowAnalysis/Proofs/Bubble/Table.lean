import FlowAnalysis.Bubble.Basic
import FlowAnalysis.Table.ById

/-!
# Tables of bubbles

A table keeps its entries in the order of their ids, so an id has one entry, and an insertion
changes no other.  A table of bubbles is keyed when every bubble stands under its own id.
-/

namespace FlowAnalysis

namespace ById

variable {α : Type} {t : ById α} {id : Int} {a : α}

theorem mem_ids_iff : id ∈ t.ids ↔ ∃ a, (id, a) ∈ t.entries := by
  simp [ids]

theorem contains_iff : t.contains id = true ↔ id ∈ t.ids := by
  simp [contains, ids]

/-- An id has the value that stands with it, as no id comes twice. -/
theorem get?_eq_some_iff : t.get? id = some a ↔ (id, a) ∈ t.entries := by
  obtain ⟨es, h⟩ := t
  simp only [get?]
  induction es with
  | nil => simp
  | cons e es ih =>
    obtain ⟨k, b⟩ := e
    obtain ⟨hk, hes⟩ := List.pairwise_cons.1 h
    rw [List.lookup_cons]
    by_cases he : id = k
    · subst he
      simp only [beq_self_eq_true, Option.some.injEq, List.mem_cons, Prod.mk.injEq, true_and]
      constructor
      · intro hb
        exact .inl hb.symm
      · rintro (hb | hm)
        · exact hb.symm
        · exact absurd (hk _ hm) (Int.lt_irrefl _)
    · rw [beq_false_of_ne he, List.mem_cons]
      constructor
      · intro hl
        exact .inr ((ih hes).1 hl)
      · rintro (hb | hm)
        · exact absurd (Prod.mk.inj hb).1 he
        · exact (ih hes).2 hm

theorem values_map {β : Type} (f : α → β) (t : ById α) : (t.map f).values = t.values.map f := by
  simp [values, map]

theorem map_map {β γ : Type} (f : α → β) (g : β → γ) (t : ById α) :
    (t.map f).map g = t.map (g ∘ f) := by
  simp [map]

theorem map_congr {β : Type} {f g : α → β} (h : ∀ a ∈ t.values, f a = g a) : t.map f = t.map g := by
  have hentries : (t.entries.map fun e => (e.1, f e.2)) = t.entries.map fun e => (e.1, g e.2) :=
    List.map_congr_left fun e he => by rw [h e.2 (List.mem_map_of_mem he)]
  simp only [map, hentries]

/-! ### Insertion -/

/-- An entry with a number below all others comes first. -/
theorem insertEntry_of_lt {es : List (Int × α)} (h : ∀ e ∈ es, id < e.1) :
    insertEntry id a es = (id, a) :: es := by
  cases es with
  | nil => rfl
  | cons e es => rw [insertEntry, if_pos (h e List.mem_cons_self)]

/-- An entry with a positive number changes none of those with a negative one. -/
theorem filter_insertEntry_of_pos {id : Int} (hid : 0 < id) (a : α) (es : List (Int × α)) :
    (insertEntry id a es).filter (fun e => e.1 < 0) = es.filter fun e => e.1 < 0 := by
  have hneg : ¬ id < 0 := by omega
  induction es with
  | nil => simp [insertEntry, hneg]
  | cons e es ih =>
    rw [insertEntry]
    split
    · rw [List.filter_cons_of_neg (by simpa using hneg)]
    · split
      · next heq => simp [← heq, hneg]
      · rw [List.filter_cons, List.filter_cons, ih]

end ById

namespace Bubble

/-- Every bubble of a table stands under its own id. -/
def Keyed (t : ById Bubble) : Prop := ∀ e ∈ t.entries, e.2.variableId = e.1

namespace Keyed

variable {t : ById Bubble} {b : Bubble}

theorem mem_entries (h : Keyed t) (hb : b ∈ t.values) : (b.variableId, b) ∈ t.entries := by
  obtain ⟨e, he, rfl⟩ := List.mem_map.1 hb
  rw [h e he]
  exact he

theorem get? (h : Keyed t) (hb : b ∈ t.values) : t.get? b.variableId = some b :=
  ById.get?_eq_some_iff.2 (h.mem_entries hb)

/-- An id stands for one bubble. -/
theorem eq_of_variableId (h : Keyed t) {d : Bubble} (hb : b ∈ t.values) (hd : d ∈ t.values)
    (hid : b.variableId = d.variableId) : b = d := by
  have hget := h.get? hb
  rw [hid, h.get? hd] at hget
  exact (Option.some.inj hget).symm

end Keyed

end Bubble

end FlowAnalysis
