import FlowAnalysis.Proofs.Schema.Places
import FlowAnalysis.Proofs.Schema.Requests
import Mathlib.Data.List.Nodup

/-!
# The shape of converted schemas

At every place of a schema that a conversion gives, the properties have distinct names, the required
names are among them, and there is no default (`clean_answer`).  It is enough to look at one layer
of the conversion (`clean_respond`).  An interface has the names of what it extends and its own;
under its own names stand its own members, and no name is required twice.
-/

namespace FlowAnalysis

open Script

/-! ### Entries put in one after another -/

namespace ByName

variable {α β : Type}

/-- Entries put into a list of entries one after another, in place of those with the same name. -/
def insertAll (name : β → String) (value : β → α) (bs : List β) (es : List (String × α)) :
    List (String × α) :=
  bs.foldl (fun es b => insertEntry (name b) (value b) es) es

theorem mem_insertEntry {name : String} {a : α} {es : List (String × α)} {e : String × α}
    (h : e ∈ insertEntry name a es) : e = (name, a) ∨ e ∈ es := by
  induction es with
  | nil => exact .inl (List.mem_singleton.1 h)
  | cons f es ih =>
    rw [insertEntry] at h
    split at h
    · next hf =>
      rcases List.mem_cons.1 h with h | h
      · exact .inl (hf ▸ h)
      · exact .inr (List.mem_cons_of_mem _ h)
    · rcases List.mem_cons.1 h with h | h
      · exact .inr (List.mem_cons.2 (.inl h))
      · exact (ih h).imp_right (List.mem_cons_of_mem _)

theorem mem_names_insertEntry_iff {name k : String} {a : α} {es : List (String × α)} :
    k ∈ (insertEntry name a es).map Prod.fst ↔ k = name ∨ k ∈ es.map Prod.fst := by
  refine ⟨mem_names_insertEntry, fun h => ?_⟩
  induction es with
  | nil => simpa [insertEntry] using h
  | cons e es ih =>
    rw [insertEntry]
    split
    · next he =>
      rcases h with rfl | h
      · exact List.mem_cons.2 (.inl he.symm)
      · exact h
    · rw [List.map_cons, List.mem_cons] at h ⊢
      tauto

variable {name : β → String} {value : β → α} {bs : List β} {es : List (String × α)}

theorem mem_insertAll {e : String × α} (h : e ∈ insertAll name value bs es) :
    e ∈ es ∨ ∃ b ∈ bs, e = (name b, value b) := by
  induction bs generalizing es with
  | nil => exact .inl h
  | cons b bs ih =>
    rcases ih h with h | ⟨c, hc, rfl⟩
    · rcases mem_insertEntry h with rfl | h
      · exact .inr ⟨b, List.mem_cons_self, rfl⟩
      · exact .inl h
    · exact .inr ⟨c, List.mem_cons_of_mem _ hc, rfl⟩

theorem mem_names_insertAll_iff {k : String} :
    k ∈ (insertAll name value bs es).map Prod.fst ↔ k ∈ es.map Prod.fst ∨ k ∈ bs.map name := by
  induction bs generalizing es with
  | nil => simp [insertAll]
  | cons b bs ih =>
    rw [insertAll, List.foldl_cons, ← insertAll, ih, mem_names_insertEntry_iff, List.map_cons,
      List.mem_cons]
    tauto

theorem nodup_insertAll (h : (es.map Prod.fst).Nodup) :
    ((insertAll name value bs es).map Prod.fst).Nodup := by
  induction bs generalizing es with
  | nil => exact h
  | cons b bs ih => exact ih (insertEntry_distinct _ _ h)

/-- Of the entries with one name the last is found. -/
theorem lookup_insertAll (k : String) :
    (insertAll name value bs es).lookup k
      = ((bs.reverse.find? fun b => name b == k).map value).or (es.lookup k) := by
  induction bs generalizing es with
  | nil => rfl
  | cons b bs ih =>
    rw [insertAll, List.foldl_cons, ← insertAll, ih, lookup_insertEntry, List.reverse_cons,
      List.find?_append, Option.map_or, Option.or_assoc]
    by_cases hb : name b = k
    · simp [hb]
    · simp [hb, Ne.symm hb]

/-- When no name comes twice, it does not matter from which end one looks. -/
theorem find?_reverse_of_nodup (h : (es.map Prod.fst).Nodup) (k : String) :
    (es.reverse.find? fun e => e.1 == k).map Prod.snd = es.lookup k := by
  induction es with
  | nil => rfl
  | cons e es ih =>
    obtain ⟨hfirst, hrest⟩ := List.nodup_cons.1 h
    rw [List.reverse_cons, List.find?_append, Option.map_or, ih hrest, List.lookup_cons]
    by_cases hk : k = e.1
    · subst hk
      have hnone : es.lookup e.1 = none := by
        rw [List.lookup_eq_none_iff]
        exact fun f hf => bne_iff_ne.2 fun heq => hfirst (heq ▸ List.mem_map_of_mem hf)
      simp [hnone]
    · simp [beq_false_of_ne hk, Ne.symm hk]

end ByName

namespace Schema

/-! ### Object schemas -/

theorem joinNames_cons (names : List String) (n : String) (more : List String) :
    joinNames names (n :: more) =
    joinNames (if names.contains n then names else names ++ [n]) more :=
  rfl

theorem mem_joinNames_iff {names more : List String} {k : String} :
    k ∈ joinNames names more ↔ k ∈ names ∨ k ∈ more := by
  induction more generalizing names with
  | nil => simp [joinNames]
  | cons n more ih =>
    rw [joinNames_cons, ih]
    split
    · next hn =>
      have : n ∈ names := List.contains_iff_mem.1 hn
      rw [List.mem_cons]
      constructor
      · tauto
      · rintro (h | rfl | h)
        exacts [.inl h, .inl this, .inr h]
    · simp [or_assoc]

theorem nodup_joinNames {names : List String} (h : names.Nodup) (more : List String) :
    (joinNames names more).Nodup := by
  induction more generalizing names with
  | nil => exact h
  | cons n more ih =>
    rw [joinNames_cons]
    split
    · exact ih h
    · next hn =>
      refine ih (List.nodup_append.2 ⟨h, List.nodup_singleton n, fun a ha b hb heq => hn ?_⟩)
      rw [List.contains_iff_mem]
      exact List.mem_singleton.1 hb ▸ heq ▸ ha

section

variable (ps : List Property) (s base : Schema)

theorem properties_ofProperties :
    (ofProperties ps).properties = ByName.insertAll (·.name) (·.schema) ps [] := rfl

theorem properties_extendWith :
    (s.extendWith base).properties = ByName.insertAll Prod.fst Prod.snd base.properties
    s.properties :=
  rfl

variable {ps s base}

theorem mem_keys_ofProperties_iff {k : String} :
    k ∈ (ofProperties ps).keys ↔ k ∈ ps.map (·.name) := by
  rw [keys, properties_ofProperties, ByName.mem_names_insertAll_iff]
  simp

theorem mem_keys_extendWith_iff {k : String} :
    k ∈ (s.extendWith base).keys ↔ k ∈ s.keys ∨ k ∈ base.keys := by
  rw [keys, properties_extendWith, ByName.mem_names_insertAll_iff]
  rfl

theorem property?_ofProperties (k : String) :
    (ofProperties ps).property? k = (ps.reverse.find? fun p => p.name == k).map (·.schema) := by
  rw [property?, properties_ofProperties, ByName.lookup_insertAll]
  exact Option.or_none

/-- What is taken over comes before what was there. -/
theorem property?_extendWith (h : base.keys.Nodup) (k : String) :
    (s.extendWith base).property? k = (base.property? k).or (s.property? k) := by
  rw [property?, properties_extendWith, ByName.lookup_insertAll, ByName.find?_reverse_of_nodup h]
  rfl

end

/-! ### Clean schemas -/

/-- At one level of a schema: the properties have distinct names, the required names are among
them, and there is no default. -/
structure Clean (t : Schema) : Prop where
  distinct : t.keys.Nodup
  required : ∀ name ∈ t.required, name ∈ t.keys
  bare : t.default = none

section

variable {s base : Schema}

/-- A schema with nothing below it. -/
theorem clean_leaf {sh : Shape} (hkeys : (of sh).keys = []) (hrequired : (of sh).required = [])
    (h : ∀ step t, ¬ Below (of sh) step t) : Everywhere Clean (of sh) :=
  everywhere_iff.2 ⟨⟨hkeys ▸ List.nodup_nil, hrequired ▸ fun _ h => absurd h List.not_mem_nil, rfl⟩,
    fun step t ht => absurd ht (h step t)⟩

theorem clean_any : Everywhere Clean any := clean_leaf rfl rfl fun _ _ h => by cases h

theorem clean_typed (type : String) : Everywhere Clean (typed type) :=
  clean_leaf rfl rfl fun _ _ h => by cases h

theorem clean_constant (type : String) (value : Json) :
    Everywhere Clean (of (.constant type value)) :=
  clean_leaf rfl rfl fun _ _ h => by cases h

theorem clean_array (h : Everywhere Clean s) : Everywhere Clean (of (.array s)) := by
  refine everywhere_iff.2 ⟨⟨List.nodup_nil, fun _ h => absurd h List.not_mem_nil, rfl⟩, ?_⟩
  rintro _ _ ⟨⟩
  exact h

theorem clean_anyOf {ms : List Schema} (h : ∀ m ∈ ms, Everywhere Clean m) :
    Everywhere Clean (of (.anyOf ms)) := by
  refine everywhere_iff.2 ⟨⟨List.nodup_nil, fun _ h => absurd h List.not_mem_nil, rfl⟩, ?_⟩
  rintro _ t (_ | _ | hi)
  exact h t (List.mem_of_getElem? hi)

theorem clean_allOf {ms : List Schema} (h : ∀ m ∈ ms, Everywhere Clean m) :
    Everywhere Clean (of (.allOf ms)) := by
  refine everywhere_iff.2 ⟨⟨List.nodup_nil, fun _ h => absurd h List.not_mem_nil, rfl⟩, ?_⟩
  rintro _ t (_ | _ | _ | hi)
  exact h t (List.mem_of_getElem? hi)

theorem clean_object {ps : List (String × Schema)} {rs : List String}
    (hdistinct : (ps.map Prod.fst).Nodup) (hrequired : ∀ r ∈ rs, r ∈ ps.map Prod.fst)
    (h : ∀ p ∈ ps, Everywhere Clean p.2) : Everywhere Clean (of (.object ps rs)) := by
  refine everywhere_iff.2 ⟨⟨hdistinct, hrequired, rfl⟩, ?_⟩
  rintro _ t (hp | _)
  exact h _ hp

/-- The properties of a clean schema are clean. -/
theorem clean_of_mem_properties (h : Everywhere Clean s) {p : String × Schema}
    (hp : p ∈ s.properties) : Everywhere Clean p.2 := by
  obtain ⟨sh, d, e⟩ := s
  cases sh with
  | object ps rs => exact (everywhere_iff.1 h).2 _ _ (.property hp)
  | _ => exact absurd hp List.not_mem_nil

theorem Everywhere.clean (h : Everywhere Clean s) : Clean s := (everywhere_iff.1 h).1

theorem clean_withDescription (h : Everywhere Clean s) (d : Option String) :
    Everywhere Clean (s.withDescription d) := by
  obtain ⟨hs, hbelow⟩ := everywhere_iff.1 h
  obtain ⟨sh, d', e⟩ := s
  exact everywhere_iff.2 ⟨⟨hs.distinct, hs.required, hs.bare⟩,
    fun step t ht => hbelow step t (ht.of_shape_eq rfl)⟩

theorem clean_allOptional (h : Everywhere Clean s) : Everywhere Clean s.allOptional := by
  obtain ⟨sh, d, e⟩ := s
  cases sh with
  | object ps rs =>
    obtain ⟨hs, hbelow⟩ := everywhere_iff.1 h
    refine everywhere_iff.2 ⟨⟨hs.distinct, fun _ h => absurd h List.not_mem_nil, hs.bare⟩, ?_⟩
    rintro _ t (hp | _)
    exact hbelow _ t (.property hp)
  | _ => exact h

theorem clean_wrap (w : Wrapper) (h : Everywhere Clean s) : Everywhere Clean (w.wrap s) := by
  cases w with
  | array => exact clean_array h
  | same => exact h
  | allOptional => exact clean_allOptional h

theorem clean_ofProperties {ps : List Property} (h : ∀ p ∈ ps, Everywhere Clean p.schema) :
    Everywhere Clean (ofProperties ps) := by
  refine clean_object (ByName.nodup_insertAll List.nodup_nil) (fun r hr => ?_) fun e he => ?_
  · obtain ⟨p, hp, rfl⟩ := List.mem_map.1 hr
    exact mem_keys_ofProperties_iff.2 (List.mem_map_of_mem (List.mem_of_mem_filter hp))
  · rcases ByName.mem_insertAll he with he | ⟨p, hp, rfl⟩
    · exact absurd he List.not_mem_nil
    · exact h p hp

theorem clean_extendWith (hs : Everywhere Clean s) (hbase : Everywhere Clean base) :
    Everywhere Clean (s.extendWith base) := by
  refine clean_object (ByName.nodup_insertAll hs.clean.distinct) (fun r hr => ?_) fun e he => ?_
  · refine mem_keys_extendWith_iff.2 ?_
    exact (mem_joinNames_iff.1 hr).imp (hs.clean.required r) (hbase.clean.required r)
  · rcases ByName.mem_insertAll he with he | ⟨p, hp, rfl⟩
    · exact clean_of_mem_properties hs he
    · exact clean_of_mem_properties hbase hp

end

/-! ### Types without a name -/

theorem clean_event (e : Event) : Everywhere Clean e.schema := by
  -- the payloads are flat: typed properties under distinct names
  have payload {ps : List (String × String)} {optional : List String}
      (h : (ps.map Prod.fst).Nodup) :
      Everywhere Clean (Event.payload ps optional) := by
    have hkeys : (ps.map fun p => (p.1, typed p.2)).map Prod.fst = ps.map Prod.fst := by simp
    refine clean_object (hkeys ▸ h) (fun r hr => hkeys ▸ List.mem_of_mem_filter hr) fun p hp => ?_
    obtain ⟨q, -, rfl⟩ := List.mem_map.1 hp
    exact clean_typed q.2
  cases e <;> exact payload (by decide)

theorem clean_ofForeign (name : String) : Everywhere Clean (ofForeign name) := by
  rw [ofForeign]
  split
  · exact clean_event _
  · split
    · exact clean_typed _
    · exact clean_any

theorem clean_ofKeyword (word : String) : Everywhere Clean (ofKeyword word) := by
  unfold ofKeyword
  split
  case h_7 => exact clean_any
  all_goals exact clean_typed _

theorem clean_ofLiteral (n : Node) : Everywhere Clean (ofLiteral n) := by
  rw [ofLiteral]
  split
  · exact clean_any
  · split
    · exact clean_constant _ _
    · exact clean_constant _ _
    · exact clean_constant _ _
    · exact clean_constant _ _
    · exact clean_constant _ _
    · exact clean_typed _
    · exact clean_any

theorem clean_ofLookup (registryType : String) (n : Node) :
    Everywhere Clean (ofLookup registryType n) := by
  rw [ofLookup]
  split
  · split
    · split
      · exact clean_event _
      · exact clean_any
    · exact clean_any
  · exact clean_any

theorem clean_bare (w : Wrapper) : Everywhere Clean w.bare := by
  cases w with
  | array => exact clean_typed _
  | same => exact clean_any
  | allOptional => exact clean_any

/-- What needs no other type is clean. -/
theorem TypeForm.clean_settled {registryType : String} {n : Node} {schema : Schema}
    (h : TypeForm.of registryType n = .settled schema) : Everywhere Clean schema := by
  have wrapped {w : Wrapper} {argument : Option Node} (h : ofWrapper w argument = .settled schema) :
      Everywhere Clean schema := by
    cases argument <;> cases h
    exact clean_bare w
  rw [TypeForm.of] at h
  split at h
  · cases h
  · cases hn : n.child? .name with
    | none =>
      rw [hn] at h
      cases h
      exact clean_any
    | some name =>
      rw [hn, Option.elim_some, ofGeneric] at h
      cases hw : wrapper? name.text with
      | none =>
        rw [hw, Option.elim_none] at h
        split at h <;> cases h
        exact clean_typed _
      | some w =>
        rw [hw] at h
        exact wrapped h
  · exact wrapped h
  · exact wrapped h
  · exact wrapped h
  · exact wrapped h
  · cases h
  · cases h
  · cases h
  · cases h
  · cases h; exact clean_ofKeyword _
  · cases h; exact clean_typed _
  · cases h; exact clean_ofLiteral _
  · cases h; exact clean_ofLookup _ _
  · cases h; exact clean_any

/-! ### Conversion -/

theorem clean_memberProperties {f : Node → Schema} {ms : List (Node × List Node)}
    (h : ∀ t ∈ memberTypes ms, Everywhere Clean (f t)) :
    ∀ p ∈ memberProperties f ms, Everywhere Clean p.schema := by
  intro p hp
  obtain ⟨m, hm, hp⟩ := List.mem_filterMap.1 hp
  obtain ⟨q, hq, rfl⟩ := Option.map_eq_some_iff.1 hp
  refine clean_withDescription ?_ _
  cases ht : memberType? m.1 with
  | none => exact clean_any
  | some t => exact h t (List.mem_filterMap.2 ⟨m, hm, by rw [hq]; exact ht⟩)

theorem clean_foldl_extendWith {s : Schema} (hs : Everywhere Clean s) {bs : List Schema}
    (h : ∀ b ∈ bs, Everywhere Clean b) : Everywhere Clean (bs.foldl extendWith s) := by
  induction bs generalizing s with
  | nil => exact hs
  | cons b bs ih =>
    exact ih (clean_extendWith hs (h b List.mem_cons_self)) fun c hc =>
      h c (List.mem_cons_of_mem _ hc)

theorem clean_interfaceWith {f : Node → Schema} {n : Node}
    (h : ∀ t ∈ bases n ++ memberTypes (bodyMembers n), Everywhere Clean (f t)) :
    Everywhere Clean (interfaceWith f n) := by
  refine clean_foldl_extendWith (clean_ofProperties fun _ h => absurd h List.not_mem_nil)
    fun b hb => ?_
  rcases List.mem_append.1 hb with hb | hb
  · obtain ⟨t, ht, rfl⟩ := List.mem_map.1 hb
    exact h t (List.mem_append_left _ ht)
  · obtain rfl := List.mem_singleton.1 hb
    exact clean_ofProperties (clean_memberProperties fun t ht => h t (List.mem_append_right _ ht))

/-- One layer of the conversion keeps schemas clean. -/
theorem clean_respond {s : Setting} {f : Request → Schema} {r : Request}
    (h : ∀ q ∈ calls s r, Everywhere Clean (f q)) : Everywhere Clean (respond s f r) := by
  cases r with
  | type path n =>
    rw [respond]
    generalize hf : TypeForm.of s.registryType n = form
    obtain ⟨hname, htype⟩ := (forall_mem_calls_type_iff hf).1 h
    cases form with
    | settled schema => exact TypeForm.clean_settled hf
    | reference x => exact hname x (List.mem_singleton_self x)
    | wrapped w inner => exact clean_wrap w (htype inner (List.mem_singleton_self inner))
    | union operands => exact clean_anyOf (List.forall_mem_map.2 htype)
    | intersection operands => exact clean_allOf (List.forall_mem_map.2 htype)
    | members list => exact clean_ofProperties (clean_memberProperties htype)
  | name path name =>
    simp only [respond, calls] at h ⊢
    cases he : expansion? s.declarations path name with
    | some q => exact h q (by rw [he]; exact List.mem_singleton_self q)
    | none =>
      rw [Option.elim_none]
      split
      · exact clean_typed _
      · exact clean_ofForeign name
  | interface path n => exact clean_interfaceWith fun m hm => h _ (List.mem_map_of_mem hm)

/-- **Every schema that a conversion gives is clean everywhere.** -/
theorem clean_answer (s : Setting) (r : Request) : Everywhere Clean (answer s r) := by
  induction r using Request.induction s with
  | h r ih =>
    rw [answer_eq_respond]
    exact clean_respond ih

/-! ### Interfaces -/

section

variable {ss : List Schema}

theorem mem_keys_foldl_extendWith_iff {s : Schema} {k : String} :
    k ∈ (ss.foldl extendWith s).keys ↔ k ∈ s.keys ∨ ∃ t ∈ ss, k ∈ t.keys := by
  induction ss generalizing s with
  | nil => simp
  | cons t ss ih =>
    rw [List.foldl_cons, ih, mem_keys_extendWith_iff]
    simp [or_assoc]

theorem nodup_required_foldl_extendWith {s : Schema} (h : s.required.Nodup) :
    (ss.foldl extendWith s).required.Nodup := by
  induction ss generalizing s with
  | nil => exact h
  | cons t ss ih => exact ih (nodup_joinNames h t.required)

end

/-- The properties that an interface declares itself. -/
def ownProperties (s : Setting) (path : List String) (n : Node) : List Property :=
  memberProperties (convert s path) (bodyMembers n)

section

variable (s : Setting) (path : List String) (n : Node)

theorem interface_eq_interfaceWith : Schema.interface s path n = interfaceWith (convert s path) n :=
  interface_eq_respond s path n

/-- **An interface has the names of what it extends and its own.** -/
theorem mem_keys_interface_iff {k : String} :
    k ∈ (Schema.interface s path n).keys ↔
      (∃ b ∈ bases n, k ∈ (convert s path b).keys) ∨ k ∈ (ownProperties s path n).map (·.name) := by
  rw [interface_eq_interfaceWith, interfaceWith, mem_keys_foldl_extendWith_iff]
  simp only [List.mem_append, List.mem_map, List.mem_singleton, or_and_right, exists_or,
    exists_eq_left, exists_exists_and_eq_and]
  rw [ownWith, mem_keys_ofProperties_iff, mem_keys_ofProperties_iff]
  simp [ownProperties]

/-- **Under its own names an interface has its own members**, the last of each name. -/
theorem property?_interface {k : String} (h : k ∈ (ownProperties s path n).map (·.name)) :
    (Schema.interface s path n).property? k =
      ((ownProperties s path n).reverse.find? fun p => p.name == k).map (·.schema) := by
  have hown : (ownWith (convert s path) n).keys.Nodup := ByName.nodup_insertAll List.nodup_nil
  rw [interface_eq_interfaceWith, interfaceWith, List.foldl_append, List.foldl_cons, List.foldl_nil,
    property?_extendWith hown, ownWith, property?_ofProperties, ← ownProperties]
  obtain ⟨p, hp, rfl⟩ := List.mem_map.1 h
  have hsome : ((ownProperties s path n).reverse.find? fun q => q.name == p.name).isSome :=
    List.find?_isSome.2 ⟨p, List.mem_reverse.2 hp, beq_self_eq_true _⟩
  obtain ⟨q, hq⟩ := Option.isSome_iff_exists.1 hsome
  rw [hq]
  rfl

/-- **An interface requires no name twice.** -/
theorem nodup_required_interface : (Schema.interface s path n).required.Nodup := by
  rw [interface_eq_interfaceWith]
  exact nodup_required_foldl_extendWith List.nodup_nil

end

end Schema

end FlowAnalysis
