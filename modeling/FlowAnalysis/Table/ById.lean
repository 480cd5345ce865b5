/-!
# Tables by id

A table holds one value per id, in ascending order of the ids.  The order is part of the type, so
two tables with the same entries are equal.
-/

namespace FlowAnalysis

/-- Values by id, in ascending order of the ids. -/
structure ById (α : Type) where
  entries : List (Int × α)
  ascending : entries.Pairwise fun a b => a.1 < b.1

namespace ById

variable {α β : Type}

/-- The table without entries. -/
def empty : ById α := ⟨[], .nil⟩

instance : Inhabited (ById α) := ⟨empty⟩

instance [Repr α] : Repr (ById α) := ⟨fun t n => reprPrec t.entries n⟩

/-- Puts a value into ascending entries, in place of the one with the same id. -/
def insertEntry (id : Int) (a : α) : List (Int × α) → List (Int × α)
  | [] => [(id, a)]
  | (k, b) :: rest =>
    if id < k then (id, a) :: (k, b) :: rest
    else if id = k then (id, a) :: rest
    else (k, b) :: insertEntry id a rest

/-- An entry after an insertion is the new one or an old one. -/
theorem mem_insertEntry {id : Int} {a : α} {es : List (Int × α)} {e : Int × α}
    (h : e ∈ insertEntry id a es) : e = (id, a) ∨ e ∈ es := by
  induction es with
  | nil => simpa [insertEntry] using h
  | cons f rest ih =>
    obtain ⟨k, b⟩ := f
    rw [insertEntry] at h
    split at h
    · simpa using h
    · split at h
      · rcases List.mem_cons.1 h with h | h
        · exact .inl h
        · exact .inr (List.mem_cons_of_mem _ h)
      · rcases List.mem_cons.1 h with h | h
        · exact .inr (h ▸ List.mem_cons_self)
        · exact (ih h).imp_right (List.mem_cons_of_mem _)

/-- An insertion keeps the entries in ascending order. -/
theorem insertEntry_ascending (id : Int) (a : α) {es : List (Int × α)}
    (h : es.Pairwise fun a b => a.1 < b.1) :
    (insertEntry id a es).Pairwise fun a b => a.1 < b.1 := by
  induction es with
  | nil => simp [insertEntry]
  | cons f rest ih =>
    obtain ⟨k, b⟩ := f
    obtain ⟨hf, hr⟩ := List.pairwise_cons.1 h
    rw [insertEntry]
    split
    · next lt =>
      refine List.pairwise_cons.2 ⟨fun e he => ?_, h⟩
      rcases List.mem_cons.1 he with rfl | he
      · exact lt
      · exact Int.lt_trans lt (hf e he)
    · split
      · next eq => exact List.pairwise_cons.2 ⟨fun e he => eq ▸ hf e he, hr⟩
      · next nlt neq =>
        refine List.pairwise_cons.2 ⟨fun e he => ?_, ih hr⟩
        rcases mem_insertEntry he with rfl | he
        · show k < id
          omega
        · exact hf e he

/-- Puts a value into the table, in place of the one with the same id. -/
def insert (t : ById α) (id : Int) (a : α) : ById α :=
  ⟨insertEntry id a t.entries, insertEntry_ascending id a t.ascending⟩

/-- The value of an id. -/
def get? (t : ById α) (id : Int) : Option α := t.entries.lookup id

/-- After an insertion the new id has the new value, and every other id what it had. -/
theorem get?_insert (t : ById α) (id k : Int) (a : α) :
    (t.insert id a).get? k = if k = id then some a else t.get? k := by
  obtain ⟨es, h⟩ := t
  simp only [get?, insert]
  clear h
  by_cases hk : k = id
  · subst hk
    rw [if_pos rfl]
    induction es with
    | nil => simp [insertEntry]
    | cons e rest ih =>
      rw [insertEntry]
      split
      · simp
      · split
        · simp
        · next ne => rw [List.lookup_cons, beq_false_of_ne ne, ih]
  · rw [if_neg hk]
    induction es with
    | nil => simp [insertEntry, List.lookup_cons, beq_false_of_ne hk]
    | cons e rest ih =>
      rw [insertEntry]
      split
      · rw [List.lookup_cons, beq_false_of_ne hk]
      · split
        · next eq => rw [List.lookup_cons, List.lookup_cons, ← eq, beq_false_of_ne hk]
        · rw [List.lookup_cons, List.lookup_cons, ih]

/-- Whether the table has an id. -/
def contains (t : ById α) (id : Int) : Bool := t.entries.any fun e => e.1 == id

/-- The ids, ascending. -/
def ids (t : ById α) : List Int := t.entries.map Prod.fst

/-- The values, in ascending order of their ids. -/
def values (t : ById α) : List α := t.entries.map Prod.snd

/-- The number of entries. -/
def size (t : ById α) : Nat := t.entries.length

/-- The entries that pass a test. -/
def filter (p : Int → α → Bool) (t : ById α) : ById α :=
  ⟨t.entries.filter fun e => p e.1 e.2, t.ascending.filter _⟩

/-- The table with every value changed. -/
def map (f : α → β) (t : ById α) : ById β :=
  ⟨t.entries.map fun e => (e.1, f e.2), List.pairwise_map.2 t.ascending⟩

/-- The table of a list of entries; of two with one id the later wins. -/
def ofList (es : List (Int × α)) : ById α := es.foldl (fun t e => t.insert e.1 e.2) empty

end ById

end FlowAnalysis
