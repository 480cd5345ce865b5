/-!
# Tables by name

A table holds one value per name, in the order in which the names first came in.  That no name comes
twice is part of the type.
-/

namespace FlowAnalysis

/-- Values by name, in order of arrival. -/
structure ByName (α : Type) where
  entries : List (String × α)
  distinct : (entries.map Prod.fst).Nodup

namespace ByName

variable {α β : Type}

/-- The table without entries. -/
def empty : ByName α := ⟨[], .nil⟩

instance : Inhabited (ByName α) := ⟨empty⟩

instance [Repr α] : Repr (ByName α) := ⟨fun t n => reprPrec t.entries n⟩

/-- Puts a value into a list of entries: in place of the one with the same name, or at the end. -/
def insertEntry (name : String) (a : α) : List (String × α) → List (String × α)
  | [] => [(name, a)]
  | (k, b) :: rest => if k = name then (k, a) :: rest else (k, b) :: insertEntry name a rest

/-- A name after an insertion is the new one or an old one. -/
theorem mem_names_insertEntry {name k : String} {a : α} {es : List (String × α)}
    (h : k ∈ (insertEntry name a es).map Prod.fst) : k = name ∨ k ∈ es.map Prod.fst := by
  induction es with
  | nil => simpa [insertEntry] using h
  | cons e rest ih =>
    obtain ⟨l, b⟩ := e
    rw [insertEntry] at h
    split at h
    · exact .inr h
    · rcases List.mem_cons.1 h with h | h
      · exact .inr (List.mem_cons.2 (.inl h))
      · exact (ih h).imp_right (List.mem_cons_of_mem _)

/-- An insertion keeps the names distinct. -/
theorem insertEntry_distinct (name : String) (a : α) {es : List (String × α)}
    (h : (es.map Prod.fst).Nodup) : ((insertEntry name a es).map Prod.fst).Nodup := by
  induction es with
  | nil => simp [insertEntry]
  | cons e rest ih =>
    obtain ⟨k, b⟩ := e
    obtain ⟨hk, hr⟩ := List.nodup_cons.1 h
    rw [insertEntry]
    split
    · exact h
    · next ne =>
      refine List.nodup_cons.2 ⟨fun hm => ?_, ih hr⟩
      rcases mem_names_insertEntry hm with h | h
      · exact ne h
      · exact hk h

/-- What a name has after an insertion into a list of entries. -/
theorem lookup_insertEntry (name k : String) (a : α) (es : List (String × α)) :
    (insertEntry name a es).lookup k = if k = name then some a else es.lookup k := by
  by_cases hk : k = name
  · subst hk
    rw [if_pos rfl]
    induction es with
    | nil => simp [insertEntry]
    | cons e rest ih =>
      rw [insertEntry]
      split
      · next eq => simp [eq]
      · next ne => rw [List.lookup_cons, beq_false_of_ne (Ne.symm ne), ih]
  · rw [if_neg hk]
    induction es with
    | nil => simp [insertEntry, List.lookup_cons, beq_false_of_ne hk]
    | cons e rest ih =>
      rw [insertEntry]
      split
      · next eq => rw [List.lookup_cons, List.lookup_cons, eq, beq_false_of_ne hk]
      · rw [List.lookup_cons, List.lookup_cons, ih]

/-- Puts a value into the table: in place of the one with the same name, or at the end. -/
def insert (t : ByName α) (name : String) (a : α) : ByName α :=
  ⟨insertEntry name a t.entries, insertEntry_distinct name a t.distinct⟩

/-- The table without a name. -/
def erase (t : ByName α) (name : String) : ByName α :=
  ⟨t.entries.filter fun e => e.1 != name,
    t.distinct.sublist (List.filter_sublist.map Prod.fst)⟩

/-- The value of a name. -/
def get? (t : ByName α) (name : String) : Option α := t.entries.lookup name

/-- After an insertion the new name has the new value, and every other name what it had. -/
theorem get?_insert (t : ByName α) (name k : String) (a : α) :
    (t.insert name a).get? k = if k = name then some a else t.get? k :=
  lookup_insertEntry name k a t.entries

/-- After an erasure the name has no value, and every other name what it had. -/
theorem get?_erase (t : ByName α) (name k : String) :
    (t.erase name).get? k = if k = name then none else t.get? k := by
  obtain ⟨es, h⟩ := t
  simp only [get?, erase]
  clear h
  induction es with
  | nil => simp
  | cons e rest ih =>
    by_cases he : e.1 = name
    · rw [List.filter_cons_of_neg (by simp [he]), ih, List.lookup_cons, he]
      split
      · rfl
      · next ne => rw [beq_false_of_ne ne]
    · rw [List.filter_cons_of_pos (by simp [he]), List.lookup_cons, List.lookup_cons, ih]
      split
      · next heq => rw [if_neg (by rw [eq_of_beq heq]; exact he)]
      · rfl

/-- Whether the table has a name. -/
def contains (t : ByName α) (name : String) : Bool := t.entries.any fun e => e.1 == name

/-- The names, in order of arrival. -/
def names (t : ByName α) : List String := t.entries.map Prod.fst

/-- The values, in order of arrival of their names. -/
def values (t : ByName α) : List α := t.entries.map Prod.snd

/-- The number of entries. -/
def size (t : ByName α) : Nat := t.entries.length

/-- The table of a list of entries; of two with one name the later wins. -/
def ofList (es : List (String × α)) : ByName α := es.foldl (fun t e => t.insert e.1 e.2) empty

end ByName

end FlowAnalysis
