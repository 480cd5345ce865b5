import FlowAnalysis.Proofs.Bubble.Numbering
import FlowAnalysis.Proofs.Scope.Coverage

/-!
# Every construction has its own entry

A registered construction in one of the places where bubbles are recorded (`Stands`) is given the id
of the variable that its declarator binds, or a number that no other has.  The variable is looked up
where the name stands, and the names of two declarators never stand at the same place
(`found_pairwise_name_ne`), so two constructions can only share an id when the scope tree has no
variable at one of the names.  Such a name is *stray*: it is then looked up by its text, which may
find nothing, or the variable of another construction.  `locate_one_entry_each` says that this is
the only way to lose a bubble, and that it happens to no declarator that the outline takes as one.
-/

namespace FlowAnalysis.Bubble

open Script Node Outline ParsedScript ScopeTree

/-! ### What is found -/

/-- A node constructs a registered class. -/
def Constructs (registry : Registry) (imports : ByName String) (e : Node) (className : String)
    (d : Descriptor) : Prop :=
  ∃ c name, Construction.of? e = some c ∧ c.className? = some name ∧
    registry.resolve? imports name = some (className, d)

section

variable {p : ParsedScript} {registry : Registry} {options : Options}

theorem stands_of_mem_foundAt {imports : ByName String} {c : Cursor} {f : Found}
    (h : f ∈ foundAt registry imports c) :
    Stands c.node f.site.binding f.node ∧
    Constructs registry imports f.node f.className f.descriptor := by
  obtain ⟨s, hs, hf⟩ := List.mem_filterMap.1 h
  obtain ⟨rfl, hc, name, hname, hclass⟩ := Found.of?_spec hf
  exact ⟨stands_of_mem_at_ hs, f.construction, name, hc, hname, hclass⟩

/-- What is found is a registered construction in one of the places. -/
theorem stands_of_mem_found {f : Found} (h : f ∈ found p registry options) :
    (∃ n ∈ p.root.descendants, Stands n f.site.binding f.node) ∧
      Constructs registry (p.root.imports options.bubblePackage) f.node f.className
      f.descriptor := by
  rw [found_eq_flatMap] at h
  obtain ⟨c, hc, hf⟩ := List.mem_flatMap.1 h
  obtain ⟨hstands, hclass⟩ := stands_of_mem_foundAt hf
  exact ⟨⟨c.node, Cursor.node_mem_descendants hc, hstands⟩, hclass⟩

/-- Every registered construction in one of the places is found. -/
theorem Stands.exists_found {n e : Node} {b : Binding} (h : Stands n b e)
    (hn : n ∈ p.root.descendants) {className : String} {d : Descriptor}
    (hclass : Constructs registry (p.root.imports options.bubblePackage) e className d) :
    ∃ f ∈ found p registry options, f.site.binding = b ∧ f.node = e := by
  rw [← Cursor.map_node_everywhere] at hn
  obtain ⟨c, hc, rfl⟩ := List.mem_map.1 hn
  obtain ⟨s, hs, rfl, rfl⟩ := h.exists_site
  obtain ⟨construction, name, hcon, hname, hresolve⟩ := hclass
  refine ⟨⟨s, construction, className, d⟩, ?_, rfl, rfl⟩
  rw [found_eq_flatMap]
  refine List.mem_flatMap.2 ⟨c, hc, List.mem_filterMap.2 ⟨s, hs, ?_⟩⟩
  simp [Found.of?, hcon, hname, hresolve]

/-! ### Names stand at different places -/

/-- The name and the value of a declarator at which a construction is found. -/
theorem child?_of_mem_foundAt {imports : ByName String} {c : Cursor} {f : Found} {name : Node}
    (hf : f ∈ foundAt registry imports c) (hb : f.site.binding = .named name) :
    c.node.child? .name = some name ∧ c.node.child? .value = some f.node := by
  have hstands := (stands_of_mem_foundAt hf).1
  rw [hb] at hstands
  cases hstands with
  | named _ hname _ he => exact ⟨hname, he⟩

/-- The name of a node and the name of a declarator below it stand at different places. -/
theorem location_ne_of_below {n m name name' e' : Node} (hn : Placed n)
    (hname : n.child? .name = some name) (hm : m ∈ descendantsAll n.children)
    (hname' : m.child? .name = some name') (he' : m.child? .value = some e') :
    name.location ≠ name'.location := by
  intro heq
  obtain ⟨hstart, hstop⟩ := key_eq_of_location_eq heq
  have hnamem := mem_children_of_child? hname
  have hnamem' := mem_children_of_child? hname'
  have hem' := mem_children_of_child? he'
  have hmp : Placed m := hn.of_mem_descendants (mem_descendants_of_below hm)
  have hnamep : Placed name := hn.of_mem_children hnamem
  rcases hn.below_or_apart hnamem hm with hbelow | hapart
  · -- The lower declarator is in the upper name, so its value has no room beside its own name.
    have hwithin : Within e' name :=
      (hmp.within_of_mem_children hem').trans (hnamep.within_of_mem_descendants hbelow)
    have hne : e' ≠ name' := fun heq => by
      have hrole := role_of_child? he'
      rw [heq, role_of_child? hname'] at hrole
      cases hrole
    have hle : e'.stop.key ≤ e'.start.key := by
      rcases apart_of_ne hmp.ordered hem' hnamem' hne with hbefore | hbefore
      · exact le_trans hbefore (hstart ▸ hwithin.start)
      · exact hwithin.stop.trans (hstop ▸ hbefore)
    exact absurd (hmp.of_mem_children hem').start_lt_stop (not_lt.2 hle)
  · refine hnamep.start_ne_of_apart (hmp.of_mem_children hnamem') ?_ hstart
    exact hapart.mono (.refl name) (hmp.within_of_mem_children hnamem')

/-- **No two names to which constructions are bound stand at the same place.** -/
theorem found_pairwise_name_ne (h : p.root.IsRoot) :
    (found p registry options).Pairwise fun f g => ∀ name name', f.site.binding = .named name →
      g.site.binding = .named name' → name.location ≠ name'.location := by
  rw [found_eq_flatMap, List.pairwise_flatMap]
  constructor
  · intro c hc
    -- A declarator has one value, so it records one construction only.
    rw [List.pairwise_iff_forall_sublist]
    intro f g hfg name name' hname hname'
    have hf := hfg.subset List.mem_cons_self
    have hg := hfg.subset (List.mem_cons_of_mem f List.mem_cons_self)
    have hlt := List.rel_of_pairwise_cons
      ((foundAt_pairwise (placed_of_mem_foundAt h hc hf)).sublist hfg) List.mem_cons_self
    have hsame : f.node = g.node := Option.some.inj
      ((child?_of_mem_foundAt hf hname).2.symm.trans (child?_of_mem_foundAt hg hname').2)
    rw [hsame] at hlt
    exact absurd hlt (lt_irrefl _)
  · refine (everywhere_pairwise h).imp_of_mem
      fun {c d} hc hd hcd f hf g hg name name' hname hname' => ?_
    have hcp := placed_of_mem_foundAt h hc hf
    have hdp := placed_of_mem_foundAt h hd hg
    obtain ⟨hnf, -⟩ := child?_of_mem_foundAt hf hname
    obtain ⟨hng, hvg⟩ := child?_of_mem_foundAt hg hname'
    rcases hcd with hbelow | hbefore
    · exact location_ne_of_below hcp hnf hbelow hng hvg
    · have hnf := mem_children_of_child? hnf
      have hng := mem_children_of_child? hng
      have hapart : Apart name name' :=
        .inl (hbefore.mono (hcp.within_of_mem_children hnf) (hdp.within_of_mem_children hng))
      intro heq
      exact (hcp.of_mem_children hnf).start_ne_of_apart (hdp.of_mem_children hng) hapart
        (key_eq_of_location_eq heq).1

end

/-! ### Recording without loss -/

section

variable {p : ParsedScript} {registry : Registry} {options : Options} {t : ById Bubble}

/-- Two constructions are bound to names with one id. -/
def Clash (scopes : ScopeTree) (f g : Found) : Prop :=
  ∃ name name' id, f.site.binding = .named name ∧ g.site.binding = .named name' ∧
    Found.variableId? scopes name = some id ∧ Found.variableId? scopes name' = some id

/-- An id that is given to a construction is not given to a later one, unless the two clash. -/
theorem clash_of_identity? {scopes : ScopeTree} (hs : scopes.Positive) {f g : Found} {i j : Nat}
    {id : Int} {name name' : String} (hf : f.identity? scopes i = some (id, name))
    (hj : (if f.isAnonymous then i + 1 else i) ≤ j) (hg : g.identity? scopes j = some (id, name')) :
    Clash scopes f g := by
  have hfspec := Found.identity?_spec hs hf
  have hgspec := Found.identity?_spec hs hg
  cases hbf : f.site.binding with
  | named n =>
    cases hbg : g.site.binding with
    | named m =>
      exact ⟨n, m, id, hbf, hbg, Found.variableId?_of_identity? hbf hf,
        Found.variableId?_of_identity? hbg hg⟩
    | anonymous =>
      simp only [Found.isAnonymous, hbf, hbg, Bool.false_eq_true, if_false,
        if_true] at hfspec hgspec
      omega
  | anonymous =>
    simp only [Found.isAnonymous, hbf, if_true] at hfspec hj
    split at hgspec <;> omega

/-- When no two constructions clash, each of them has its entry. -/
theorem exists_entry_of_mem_found (hs : p.scopes.Positive) (h : locate p registry options = .ok t)
    (hclash : (found p registry options).Pairwise fun f g => ¬ Clash p.scopes f g) {f : Found}
    (hf : f ∈ found p registry options) : ∃ x ∈ t.entries, EntryOf p.scopes x f := by
  obtain ⟨before, after, hsplit⟩ := List.append_of_mem hf
  rw [locate, hsplit] at h
  rw [hsplit] at hclash
  have hafter := (List.pairwise_cons.1 (List.pairwise_append.1 hclash).2.1).1
  obtain ⟨j, s, id, name, hid, h⟩ := exists_recordAll_after h
  have hget : t.get? id = some (f.toBubble p.scopes id name) := by
    rw [get?_recordAll h, ById.get?_insert, if_pos rfl]
    exact fun g hg k hk name' hg' => hafter g hg (clash_of_identity? hs hid hk hg')
  exact ⟨(id, _), ById.get?_eq_some_iff.1 hget, j, name, hid, rfl⟩

end

/-! ### One entry for each construction -/

section

variable (p : ParsedScript) (registry : Registry) (options : Options)

/-- A bubble describes an expression: the registered class that is
constructed there, and the place. -/
structure Describes (b : Bubble) (e : Node) : Prop where
  location : b.location = e.location
  constructs : ∃ d, Constructs registry (p.root.imports options.bubblePackage) e b.className d ∧
    d.name = b.bubbleName

/-- A registered construction in one of the places of a script. -/
def Recorded (e : Node) : Prop :=
  (∃ n ∈ p.root.descendants, ∃ b, Stands n b e) ∧
    ∃ className d, Constructs registry (p.root.imports options.bubblePackage) e className d

/-- The entries of a table and the constructions of a script correspond
to each other, one to one. -/
structure OneEntryEach (t : ById Bubble) : Prop where
  entry : ∀ e, Recorded p registry options e →
    ∃! x, x ∈ t.entries ∧ Describes p registry options x.2 e
  construction : ∀ x ∈ t.entries,
    ∃! e, Recorded p registry options e ∧ Describes p registry options x.2 e

/-- A declarator binds a registered construction to a single name. -/
def Binds (d name : Node) : Prop :=
  d ∈ p.root.descendants ∧ ∃ e className descriptor, Stands d (.named name) e ∧
    Constructs registry (p.root.imports options.bubblePackage) e className descriptor

/-- The scope tree has no variable where a name stands. -/
def Stray (name : Node) : Prop := p.scopes.variableAt? name.text name.location = none

end

section

variable {p : ParsedScript} {registry : Registry} {options : Options} {t : ById Bubble}
  {name : Node}

theorem exists_binds_of_mem_found {f : Found} (hf : f ∈ found p registry options)
    (hb : f.site.binding = .named name) : ∃ d, Binds p registry options d name := by
  obtain ⟨⟨d, hd, hstands⟩, hclass⟩ := stands_of_mem_found hf
  rw [hb] at hstands
  exact ⟨d, hd, f.node, f.className, f.descriptor, hstands, hclass⟩

theorem Binds.exists_found {d : Node} (h : Binds p registry options d name) :
    ∃ f ∈ found p registry options, f.site.binding = .named name := by
  obtain ⟨hd, e, className, descriptor, hstands, hclass⟩ := h
  obtain ⟨f, hf, hb, -⟩ := hstands.exists_found hd hclass
  exact ⟨f, hf, hb⟩

theorem Stray.variableId? (h : Stray p name) :
    Found.variableId? p.scopes name = p.scopes.resolve? name.text name.line := by
  rw [Found.variableId?, show p.scopes.variableAt? name.text name.location = none from h]
  rfl

theorem stray_of_variableId?_eq_none (h : Found.variableId? p.scopes name = none) : Stray p name :=
  Option.map_eq_none_iff.1 (Option.or_eq_none_iff.1 h).1

/-- Two constructions at one place are the same. -/
theorem eq_of_location_eq (hroot : p.root.IsRoot) {f g : Found} (hf : f ∈ found p registry options)
    (hg : g ∈ found p registry options) (h : f.node.location = g.node.location) : f = g := by
  have hstart := (key_eq_of_location_eq h).1
  by_contra hne
  rcases or_of_pairwise (found_pairwise_start_ne hroot registry options) hf hg hne with h | h
  · exact h hstart
  · exact h hstart.symm

/-- Variables with one id are the same. -/
theorem eq_of_id_eq {s : ScopeTree} (h : s.Valid) {v w : Variable} (hv : v ∈ s.bindings)
    (hw : w ∈ s.bindings) (hid : v.id = w.id) : v = w := by
  by_contra hne
  rcases or_of_pairwise h.pairwise_id_lt hv hw hne with hlt | hlt <;> omega

/-- Two names at which the tree has variables stand at the same place when they have one id. -/
theorem location_eq_of_variableId? (hvalid : p.scopes.Valid) {name' : Node} {id : Int}
    (hname : ¬ Stray p name) (hname' : ¬ Stray p name')
    (hid : Found.variableId? p.scopes name = some id)
    (hid' : Found.variableId? p.scopes name' = some id) : name.location = name'.location := by
  obtain ⟨v, hv⟩ := Option.ne_none_iff_exists'.1 hname
  obtain ⟨w, hw⟩ := Option.ne_none_iff_exists'.1 hname'
  rw [Found.variableId?, hv, Option.map_some, Option.some_or, Option.some.injEq] at hid
  rw [Found.variableId?, hw, Option.map_some, Option.some_or, Option.some.injEq] at hid'
  obtain rfl : v = w :=
    eq_of_id_eq hvalid (List.mem_of_find?_eq_some hv) (List.mem_of_find?_eq_some hw)
    (hid.trans hid'.symm)
  have hvl : v.name = name.text ∧ v.location = name.location := by simpa using List.find?_some hv
  have hwl : v.name = name'.text ∧ v.location = name'.location := by simpa using List.find?_some hw
  exact hvl.2.symm.trans hwl.2

/-- No two constructions clash when every stray name has an id that no other name has. -/
theorem pairwise_not_clash (hroot : p.root.IsRoot) (hvalid : p.scopes.Valid)
    (hstray : ∀ d name, Binds p registry options d name → Stray p name →
      ∃ id, p.scopes.resolve? name.text name.line = some id ∧
        ∀ d' name', Binds p registry options d' name' → name' ≠ name →
          Found.variableId? p.scopes name' ≠ some id) :
    (found p registry options).Pairwise fun f g => ¬ Clash p.scopes f g := by
  refine (found_pairwise_name_ne hroot).imp_of_mem fun {f g} hf hg hne => ?_
  rintro ⟨name, name', id, hbf, hbg, hid, hid'⟩
  have hlocation := hne name name' hbf hbg
  have hnames : name ≠ name' := fun heq => hlocation (congrArg Node.location heq)
  obtain ⟨d, hd⟩ := exists_binds_of_mem_found hf hbf
  obtain ⟨d', hd'⟩ := exists_binds_of_mem_found hg hbg
  by_cases hs : Stray p name
  · obtain ⟨id', hresolve, hother⟩ := hstray d name hd hs
    rw [hs.variableId?, hresolve] at hid
    exact hother d' name' hd' hnames.symm (hid'.trans hid.symm)
  by_cases hs' : Stray p name'
  · obtain ⟨id', hresolve, hother⟩ := hstray d' name' hd' hs'
    rw [hs'.variableId?, hresolve] at hid'
    exact hother d name hd hnames (hid.trans hid'.symm)
  exact hlocation (location_eq_of_variableId? hvalid hs hs' hid hid')

theorem EntryOf.describes {x : Int × Bubble} {f : Found} (h : EntryOf p.scopes x f)
    (hf : f ∈ found p registry options) : Describes p registry options x.2 f.node := by
  obtain ⟨j, text, -, hx⟩ := h
  rw [hx]
  exact ⟨rfl, f.descriptor, (stands_of_mem_found hf).2, rfl⟩

theorem recorded_of_mem_found {f : Found} (hf : f ∈ found p registry options) :
    Recorded p registry options f.node := by
  obtain ⟨⟨n, hn, hstands⟩, hclass⟩ := stands_of_mem_found hf
  exact ⟨⟨n, hn, f.site.binding, hstands⟩, f.className, f.descriptor, hclass⟩

theorem Recorded.exists_found {e : Node} (h : Recorded p registry options e) :
    ∃ f ∈ found p registry options, f.node = e := by
  obtain ⟨⟨n, hn, b, hstands⟩, className, d, hclass⟩ := h
  obtain ⟨f, hf, -, hnode⟩ := hstands.exists_found hn hclass
  exact ⟨f, hf, hnode⟩

/-- When each construction that was found has its entry, entries and constructions correspond. -/
theorem oneEntryEach_of_forall (hroot : p.root.IsRoot) (h : locate p registry options = .ok t)
    (hentry : ∀ f ∈ found p registry options, ∃ x ∈ t.entries, EntryOf p.scopes x f) :
    OneEntryEach p registry options t := by
  constructor
  · intro e he
    obtain ⟨f, hf, rfl⟩ := he.exists_found
    obtain ⟨x, hx, hxf⟩ := hentry f hf
    have hdescribes := hxf.describes hf
    refine ⟨x, ⟨hx, hdescribes⟩, fun y hy => ?_⟩
    -- Another entry for the same expression would be another bubble at the same place.
    have hbubble : y.2 = x.2 :=
      distinct_locate hroot h y.2 (List.mem_map_of_mem hy.1) x.2 (List.mem_map_of_mem hx)
        (congrArg Location.startKey (hy.2.location.trans hdescribes.location.symm))
    have hid : y.1 = x.1 := by rw [← keyed_locate h y hy.1, hbubble, keyed_locate h x hx]
    exact Prod.ext hid hbubble
  · intro x hx
    obtain ⟨f, hf, hxf⟩ := exists_entryOf_of_mem_entries h x hx
    have hdescribes := hxf.describes hf
    refine ⟨f.node, ⟨recorded_of_mem_found hf, hdescribes⟩, fun e he => ?_⟩
    obtain ⟨g, hg, rfl⟩ := he.1.exists_found
    rw [eq_of_location_eq hroot hg hf (he.2.location.symm.trans hdescribes.location)]

/-- A construction that has an entry has it under its id. -/
theorem OneEntryEach.mem_entries (hone : OneEntryEach p registry options t) (hroot : p.root.IsRoot)
    (h : locate p registry options = .ok t) {f : Found} (hf : f ∈ found p registry options)
    (hb : f.site.binding = .named name) {id : Int}
    (hid : Found.variableId? p.scopes name = some id) :
    ∃ b, (id, b) ∈ t.entries ∧ b.location = f.node.location := by
  obtain ⟨⟨id', b⟩, ⟨hx, hdescribes⟩, -⟩ := hone.entry f.node (recorded_of_mem_found hf)
  obtain ⟨g, hg, j, text, hidentity, hbubble⟩ := exists_entryOf_of_mem_entries h _ hx
  have hlocation : g.node.location = f.node.location := by
    rw [← hdescribes.location, hbubble]
    rfl
  obtain rfl := eq_of_location_eq hroot hg hf hlocation
  cases hid.symm.trans (Found.variableId?_of_identity? hb hidentity)
  exact ⟨b, hx, hdescribes.location⟩

/-- Locating fails when a stray name stands for nothing, and only then. -/
theorem exists_error_locate_iff : (∃ u, locate p registry options = .error u) ↔
    ∃ d name, Binds p registry options d name ∧ Stray p name ∧
      p.scopes.resolve? name.text name.line = none := by
  rw [locate, exists_error_recordAll_iff]
  constructor
  · rintro ⟨f, hf, name, hb, hnone⟩
    obtain ⟨d, hd⟩ := exists_binds_of_mem_found hf hb
    have hs := stray_of_variableId?_eq_none hnone
    exact ⟨d, name, hd, hs, hs.variableId?.symm.trans hnone⟩
  · rintro ⟨d, name, hd, hs, hnone⟩
    obtain ⟨f, hf, hb⟩ := hd.exists_found
    exact ⟨f, hf, name, hb, hs.variableId?.trans hnone⟩

/-- Entries and constructions correspond exactly when every stray name stands for a
variable that no other name has. -/
theorem exists_oneEntryEach_iff (hroot : p.root.IsRoot) (hvalid : p.scopes.Valid) :
    (∃ t, locate p registry options = .ok t ∧ OneEntryEach p registry options t) ↔
      ∀ d name, Binds p registry options d name → Stray p name →
        ∃ id, p.scopes.resolve? name.text name.line = some id ∧
          ∀ d' name', Binds p registry options d' name' → name' ≠ name →
            Found.variableId? p.scopes name' ≠ some id := by
  constructor
  · rintro ⟨t, hok, hone⟩ d name hd hs
    cases hresolve : p.scopes.resolve? name.text name.line with
    | none =>
      obtain ⟨u, herror⟩ := exists_error_locate_iff.2 ⟨d, name, hd, hs, hresolve⟩
      cases hok.symm.trans herror
    | some id =>
      refine ⟨id, rfl, fun d' name' hd' hne hid' => ?_⟩
      obtain ⟨f, hf, hbf⟩ := hd.exists_found
      obtain ⟨g, hg, hbg⟩ := hd'.exists_found
      obtain ⟨b, hb, hbl⟩ := hone.mem_entries hroot hok hf hbf (hs.variableId?.trans hresolve)
      obtain ⟨c, hc, hcl⟩ := hone.mem_entries hroot hok hg hbg hid'
      obtain rfl : b = c := Option.some.inj
        ((ById.get?_eq_some_iff.2 hb).symm.trans (ById.get?_eq_some_iff.2 hc))
      obtain rfl := eq_of_location_eq hroot hf hg (hbl.symm.trans hcl)
      exact hne (Binding.named.inj (hbg.symm.trans hbf))
  · intro hstray
    cases hok : locate p registry options with
    | error u =>
      obtain ⟨d, name, hd, hs, hnone⟩ := exists_error_locate_iff.1 ⟨u, hok⟩
      obtain ⟨id, hresolve, -⟩ := hstray d name hd hs
      cases hnone.symm.trans hresolve
    | ok t =>
      refine ⟨t, rfl, oneEntryEach_of_forall hroot hok fun f hf => ?_⟩
      exact exists_entry_of_mem_found hvalid.positive hok
        (pairwise_not_clash hroot hvalid hstray) hf

/-- A declarator that is outlined binds no stray name. -/
theorem Binds.not_stray {source : String} (hp : ParsedScript.parse? source = some p) {d : Node}
    (h : Binds p registry options d name) (ho : Outlined p.root d) : ¬ Stray p name := by
  obtain ⟨hd, e, -, -, hstands, -⟩ := h
  cases hstands with
  | named hk hname hplain _ =>
    have hmem : name ∈ p.root.descendants :=
      mem_descendants_trans hd (mem_descendants_of_mem_children (mem_children_of_child? hname))
    have hplaced : Placed name :=
      (isRoot_of_parse? hp).placed hmem (by simp [hplain]) (by simp [hplain])
    rw [Stray, scopes_eq_build hp, ← ne_eq, Option.ne_none_iff_isSome]
    exact variableAt?_isSome_of_outlined ho hk hname hplain hplaced.text_ne_empty

end

/-- **Every construction has its own entry, up to stray names.**  Locating succeeds with one entry
for each registered construction when the outline takes every declarator that binds one to a name;
in general, exactly when every stray name stands for a variable that no other construction has.  It
fails exactly when a stray name stands for nothing. -/
theorem locate_one_entry_each {source : String} {p : ParsedScript}
    (h : ParsedScript.parse? source = some p) (registry : Registry) (options : Options) :
    ((∀ d name, Binds p registry options d name → Outlined p.root d) →
      ∃ t, locate p registry options = .ok t ∧ OneEntryEach p registry options t) ∧
    ((∃ t, locate p registry options = .ok t ∧ OneEntryEach p registry options t) ↔
      ∀ d name, Binds p registry options d name → Stray p name →
        ∃ id, p.scopes.resolve? name.text name.line = some id ∧
          ∀ d' name', Binds p registry options d' name' → name' ≠ name →
            Found.variableId? p.scopes name' ≠ some id) ∧
    ((∃ u, locate p registry options = .error u) ↔
      ∃ d name, Binds p registry options d name ∧ Stray p name ∧
        p.scopes.resolve? name.text name.line = none) := by
  have hroot := ParsedScript.isRoot_of_parse? h
  have hvalid : p.scopes.Valid := scopes_eq_build h ▸ valid_build source hroot.inOrder
  refine ⟨fun houtlined => ?_, exists_oneEntryEach_iff hroot hvalid, exists_error_locate_iff⟩
  refine (exists_oneEntryEach_iff hroot hvalid).2 fun d name hd hs => ?_
  exact absurd hs (hd.not_stray h (houtlined d name hd))

/-- The name of a binding, if it has one. -/
def Binding.name? : Binding → Option Node
  | .anonymous _ => none
  | .named name => some name

/-- Two declarators and a statement. -/
def plainScript : String := "const x = new A(), y = new A(); new A();"

/-- The names of this script are not stray, so its three bubbles have three entries. -/
theorem locate_plainScript :
    ∃ p t, ParsedScript.parse? plainScript = some p ∧ locate p Analysis.oneClass {} = .ok t ∧
      t.ids = [-1, 1, 2] ∧ OneEntryEach p Analysis.oneClass {} t := by
  have heval : ((ParsedScript.parse? plainScript).bind fun p =>
      (locate p Analysis.oneClass {}).toOption.map fun t => (t.ids,
        (found p Analysis.oneClass {}).all fun f => f.site.binding.name?.all fun name =>
          (p.scopes.variableAt? name.text name.location).isSome)) = some ([-1, 1, 2], true) := by
    decide +kernel
  obtain ⟨p, hp, he⟩ := Option.bind_eq_some_iff.1 heval
  obtain ⟨t, ht, he⟩ := Option.map_eq_some_iff.1 he
  obtain ⟨hids, hall⟩ := Prod.mk.inj he
  have hstray : ∀ d name, Binds p Analysis.oneClass {} d name → ¬ Stray p name := by
    intro d name hd hs
    obtain ⟨f, hf, hb⟩ := hd.exists_found
    have hsome := List.all_eq_true.1 hall f hf
    rw [hb, Binding.name?, Option.all_some, Option.isSome_iff_ne_none] at hsome
    exact hsome hs
  obtain ⟨t', ht', hone⟩ :=
    (locate_one_entry_each hp Analysis.oneClass {}).2.1.2 fun d name hd hs =>
    absurd hs (hstray d name hd)
  have hok := Analysis.eq_ok_of_toOption ht
  cases hok.symm.trans ht'
  exact ⟨p, t, hp, hok, hids, hone⟩

/-- A name that no variable has stands for nothing. -/
theorem variableId?_eq_none {scopes : ScopeTree} (hvalid : scopes.Valid) {name : Node}
    (hplain : ScopeTree.isBuiltin name.text = false)
    (h : ∀ v ∈ scopes.bindings, v.name ≠ name.text) : Found.variableId? scopes name = none := by
  refine Option.or_eq_none_iff.2 ⟨Option.map_eq_none_iff.2 ?_, ?_⟩
  · refine List.find?_eq_none.2 fun v hv hname => h v hv ?_
    have hboth : v.name = name.text ∧ v.location = name.location := by simpa using hname
    exact hboth.1
  · refine Option.eq_none_iff_forall_ne_some.2 fun id hid => ?_
    obtain ⟨v, hv, hname, -⟩ := hvalid.exists_of_resolve? hplain hid
    exact h v (hvalid.mem_visibleAt.1 hv).1 hname

/-- A bubble in a function that is a default in the pattern of a parameter. -/
def defaultScript : String := "function f(\x7ba = () => \x7bconst x = new A();\x7d\x7d) \x7b\x7d"

/-- **The outline does not go into the defaults of a parameter**, so the name stands for nothing and
no bubble of the script is located. -/
theorem locate_defaultScript :
    ∃ p u, ParsedScript.parse? defaultScript = some p ∧
    locate p Analysis.oneClass {} = .error u := by
  have heval : (ParsedScript.parse? defaultScript).map (fun p =>
      ((found p Analysis.oneClass {}).map fun f => f.site.binding.name?.map (·.text),
        p.scopes.bindings.map (·.name))) = some ([some "x"], ["f", "a"]) := by
    decide +kernel
  obtain ⟨p, hp, he⟩ := Option.map_eq_some_iff.1 heval
  obtain ⟨hfound, hbindings⟩ := Prod.mk.inj he
  obtain ⟨f, fs, hfs, htext, -⟩ := List.map_eq_cons_iff.1 hfound
  obtain ⟨name, hname, htext⟩ := Option.map_eq_some_iff.1 htext
  have hf : f ∈ found p Analysis.oneClass {} := by
    rw [hfs]
    exact List.mem_cons_self
  have hb : f.site.binding = .named name := by
    cases hbinding : f.site.binding with
    | named name' =>
      rw [hbinding] at hname
      exact congrArg Binding.named (Option.some.inj hname)
    | anonymous label =>
      rw [hbinding] at hname
      cases hname
  have hunbound : ∀ v ∈ p.scopes.bindings, v.name ≠ name.text := by
    intro v hv
    have hmem := List.mem_map_of_mem (f := fun v : Variable => v.name) hv
    rw [hbindings] at hmem
    rw [htext]
    rintro heq
    rw [heq] at hmem
    revert hmem
    decide
  have hvalid : p.scopes.Valid :=
    scopes_eq_build hp ▸ valid_build defaultScript (inOrder_of_parse? hp)
  have hnone := variableId?_eq_none hvalid (by rw [htext]; decide +kernel) hunbound
  obtain ⟨u, hu⟩ := exists_error_recordAll_iff.2 ⟨f, hf, name, hb, hnone⟩
  exact ⟨p, u, hp, hu⟩

end FlowAnalysis.Bubble
