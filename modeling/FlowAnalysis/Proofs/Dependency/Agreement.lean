import FlowAnalysis.Proofs.Dependency.Growth
import FlowAnalysis.Proofs.Graph.Closure

/-!
# The tree and the list of dependencies agree

What a bubble depends on is given twice: as a list, by a search that takes each name once, and
as a tree, in which a name is cut off only where it stands below itself.  A node of the tree
stands for a name that its descriptor or the use above it leads to, so the tree has no name that
the search does not find.  In the other direction, a name that is cut off has been expanded in
full above (`Grown.expanded_or_above`), so the tree has every name that the search finds, as
long as tools are given only to registered agents: the tools of any other use are found by the
search and left out of the tree.
-/

namespace FlowAnalysis

open Relation

/-! ### Names in one step -/

namespace Descriptor

theorem mem_foldl_distinct {n : String} {ns acc : List String} :
    n ∈ ns.foldl (fun names n => if names.contains n then names else names ++ [n]) acc ↔
      n ∈ acc ∨ n ∈ ns := by
  induction ns generalizing acc with
  | nil => simp
  | cons m ms ih =>
    rw [List.foldl_cons, ih]
    by_cases hm : m ∈ acc
    · rw [if_pos (by simpa using hm)]
      grind
    · rw [if_neg (by simpa using hm)]
      grind

/-- A name is reached in one step when a dependency has it or gives it as a tool. -/
theorem mem_directNames {d : Descriptor} {n : String} :
    n ∈ d.directNames ↔
      ∃ s ∈ d.dependencySpecs, n = s.name ∨ ∃ i ∈ s.instances, n ∈ i.tools := by
  rw [directNames, mem_foldl_distinct, List.mem_flatMap]
  simp [specNames]

/-- Only dependencies in detail have uses. -/
theorem mem_dependencyDetails {d : Descriptor} {s : DependencySpec} (h : s ∈ d.dependencySpecs)
    (hi : s.instances ≠ []) : s ∈ d.dependencyDetails := by
  rw [dependencySpecs] at h
  split at h
  · obtain ⟨n, _, rfl⟩ := List.mem_map.1 h
    exact absurd rfl hi
  · exact h

end Descriptor

namespace DependencySpec

theorem exists_mem_expandedInstances (s : DependencySpec) : ∃ i, i ∈ s.expandedInstances := by
  rw [expandedInstances]
  split
  · exact ⟨{}, List.mem_singleton.2 rfl⟩
  · next h => exact List.exists_mem_of_ne_nil _ (by simpa using h)

theorem mem_expandedInstances {s : DependencySpec} {i : DependencyInstance} (h : i ∈ s.instances) :
    i ∈ s.expandedInstances := by
  have hne : s.instances ≠ [] := List.ne_nil_of_mem h
  rw [expandedInstances, if_neg (by simpa using hne)]
  exact h

/-- A use with tools is one that is given. -/
theorem mem_instances {s : DependencySpec} {i : DependencyInstance} (h : i ∈ s.expandedInstances)
    {t : String} (ht : t ∈ i.tools) : i ∈ s.instances := by
  rw [expandedInstances] at h
  split at h
  · obtain rfl := List.mem_singleton.1 h
    cases ht
  · exact h

end DependencySpec

/-- Tools are given only to uses of registered agents. -/
def Registry.ToolsForAgents (r : Registry) : Prop :=
  ∀ d ∈ r.descriptors, ∀ s ∈ d.dependencyDetails, ∀ i ∈ s.instances, i.tools ≠ [] →
    (r.get? s.name).any (·.isAgent) = true

instance (r : Registry) : Decidable r.ToolsForAgents :=
  inferInstanceAs (Decidable (∀ d ∈ r.descriptors, ∀ s ∈ d.dependencyDetails, ∀ i ∈ s.instances,
    i.tools ≠ [] → (r.get? s.name).any (·.isAgent) = true))

namespace DependencyNode

/-! ### Every name of a tree is led to -/

section

variable {registry : Registry} {path : List String} {use : String × DependencyInstance}
  {n : DependencyNode}

/-- The uses of a descriptor keep to names that it leads to, and to its tools. -/
theorem forall_uses {S : String → Prop} {d : Descriptor} {tools : List String}
    (hnames : ∀ n ∈ d.directNames, S n) (htools : ∀ t ∈ tools, S t) :
    ∀ u ∈ uses d tools, S u.1 ∧ ∀ t ∈ u.2.tools, S t := by
  intro u hu
  rcases List.mem_append.1 hu with hu | hu
  · obtain ⟨s, hs, hu⟩ := List.mem_flatMap.1 hu
    obtain ⟨i, hi, rfl⟩ := List.mem_map.1 hu
    refine ⟨hnames _ (Descriptor.mem_directNames.2 ⟨s, hs, .inl rfl⟩), fun t ht => ?_⟩
    have hi' : i ∈ s.instances := DependencySpec.mem_instances hi ht
    exact hnames t (Descriptor.mem_directNames.2 ⟨s, hs, .inr ⟨i, hi', ht⟩⟩)
  · obtain ⟨t, ht, rfl⟩ := List.mem_map.1 hu
    exact ⟨htools t ht, fun t ht => absurd ht List.not_mem_nil⟩

/-- The uses below a use keep to names that are closed under the steps of the descriptors. -/
theorem forall_lowerUses {S : String → Prop}
    (hS : ∀ {d}, d ∈ registry.descriptors → S d.name → ∀ m ∈ d.directNames, S m)
    (hname : S use.1) (htools : ∀ t ∈ use.2.tools, S t) :
    ∀ u ∈ lowerUses registry path use, S u.1 ∧ ∀ t ∈ u.2.tools, S t := by
  intro u hu
  cases hd : registry.descriptors.find? fun d => d.name == use.1 with
  | none =>
    rw [lowerUses_of_find?_eq_none hd] at hu
    cases hu
  | some d =>
    have hdm : d ∈ registry.descriptors := List.mem_of_find?_eq_some hd
    have hdn : d.name = use.1 := by simpa using List.find?_some hd
    have hown : ∀ t ∈ (if d.isAgent then use.2.tools else []), S t := by
      intro t ht
      split at ht
      · exact htools t ht
      · cases ht
    by_cases hp : use.1 ∈ path
    · rw [lowerUses_of_mem hd hp] at hu
      obtain ⟨t, ht, rfl⟩ := List.mem_map.1 hu
      exact ⟨hown t ht, fun t ht => absurd ht List.not_mem_nil⟩
    · rw [lowerUses_of_not_mem hd hp] at hu
      exact forall_uses (hS hdm (hdn ▸ hname)) hown u hu

/-- Every name of a tree is among names that are closed under the steps of the descriptors, when the
name and the tools of its use are. -/
theorem Grown.forall_name {S : String → Prop}
    (hS : ∀ {d}, d ∈ registry.descriptors → S d.name → ∀ m ∈ d.directNames, S m)
    (h : Grown registry path use n) (hname : S use.1) (htools : ∀ t ∈ use.2.tools, S t) :
    ∀ m ∈ n.walk, S m.name := by
  induction h with
  | @intro path use n name length each ih =>
    intro m hm
    rcases mem_walk.1 hm with rfl | ⟨c, hc, hm⟩
    · rw [name]
      exact hname
    · obtain ⟨i, hi⟩ := List.mem_iff_getElem?.1 hc
      have hlt : i < (lowerUses registry path use).length :=
        length ▸ (List.getElem?_eq_some_iff.1 hi).1
      have hsound := @forall_lowerUses registry path use S hS hname htools _ (List.getElem_mem hlt)
      exact ih i _ c (List.getElem?_eq_getElem hlt) hi hsound.1 hsound.2 m hm

/-! ### Every name that is led to is in the tree -/

/-- An agent has its tools below it, also where it is met again. -/
theorem Grown.exists_tool (h : Grown registry path use n) {d : Descriptor}
    (hd : (registry.descriptors.find? fun d => d.name == use.1) = some d)
    (hagent : d.isAgent = true) {t : String} (ht : t ∈ use.2.tools) : ∃ k ∈ n.walk, k.name = t := by
  have hmem : (t, {}) ∈ lowerUses registry path use := by
    have htool : (t, {}) ∈ toolUses use.2.tools := List.mem_map.2 ⟨t, ht, rfl⟩
    by_cases hp : use.1 ∈ path
    · rw [lowerUses_of_mem hd hp, if_pos hagent]
      exact htool
    · rw [lowerUses_of_not_mem hd hp, if_pos hagent]
      exact List.mem_append_right _ htool
  obtain ⟨k, hk, hgrown⟩ := h.all.exists_of_mem_uses hmem
  exact ⟨k, mem_walk_of_mem hk (self_mem_walk k), hgrown.name_eq⟩

/-- A name that is not met again is expanded in full: below it stand all names that it leads to. -/
theorem Grown.exists_direct (hr : registry.Named) (htools : registry.ToolsForAgents)
    (h : Grown registry path use n) (hp : use.1 ∉ path) {d : Descriptor}
    (hd : (registry.descriptors.find? fun d => d.name == use.1) = some d) {m : String}
    (hm : m ∈ d.directNames) : ∃ k ∈ n.walk, k.name = m := by
  obtain ⟨s, hs, hm⟩ := Descriptor.mem_directNames.1 hm
  have hchild : ∀ i ∈ s.expandedInstances, ∃ k ∈ n.dependencies,
      Grown registry (path.insert use.1) (s.name, i) k := by
    intro i hi
    refine h.all.exists_of_mem_uses ?_
    rw [lowerUses_of_not_mem hd hp]
    exact List.mem_append_left _ (List.mem_flatMap.2 ⟨s, hs, List.mem_map.2 ⟨i, hi, rfl⟩⟩)
  rcases hm with rfl | ⟨i, hi, hmi⟩
  · obtain ⟨i, hi⟩ := s.exists_mem_expandedInstances
    obtain ⟨k, hk, hgrown⟩ := hchild i hi
    exact ⟨k, mem_walk_of_mem hk (self_mem_walk k), hgrown.name_eq⟩
  · -- A tool stands below the use to which it is given, which is a use of an agent.
    obtain ⟨k, hk, hgrown⟩ := hchild i (DependencySpec.mem_expandedInstances hi)
    have hdetail := Descriptor.mem_dependencyDetails hs (List.ne_nil_of_mem hi)
    have hany := htools d (List.mem_of_find?_eq_some hd) s hdetail i hi (List.ne_nil_of_mem hmi)
    obtain ⟨a, ha, hagent⟩ := (Option.any_eq_true _ _).1 hany
    have hfind := (hr.find?_eq_get? s.name).trans ha
    obtain ⟨j, hj, hname⟩ := hgrown.exists_tool hfind hagent hmi
    exact ⟨j, mem_walk_of_mem hk hj, hname⟩

/-- Every name of a tree stands above the tree, or has all names that it leads to in the tree: where
a name is cut off, one above it has been expanded in full. -/
theorem Grown.expanded_or_above (hr : registry.Named) (htools : registry.ToolsForAgents)
    (h : Grown registry path use n) : ∀ k ∈ n.walk, k.name ∈ path ∨
      ∀ d, (registry.descriptors.find? fun d => d.name == k.name) = some d →
        ∀ m ∈ d.directNames, ∃ j ∈ n.walk, j.name = m := by
  induction h with
  | @intro path use n name length each ih =>
    have hgrown : Grown registry path use n := .intro name length each
    -- The name of the node itself is on the path or expanded here.
    have hown : ∀ {k : DependencyNode}, k.name = use.1 → k.name ∈ path ∨
        ∀ d, (registry.descriptors.find? fun d => d.name == k.name) = some d →
          ∀ m ∈ d.directNames, ∃ j ∈ n.walk, j.name = m := by
      intro k hk
      by_cases hp : use.1 ∈ path
      · exact .inl (hk ▸ hp)
      · refine .inr fun d hd m hm => ?_
        rw [hk] at hd
        exact hgrown.exists_direct hr htools hp hd hm
    intro k hk
    rcases mem_walk.1 hk with rfl | ⟨c, hc, hkc⟩
    · exact hown name
    · obtain ⟨i, hi⟩ := List.mem_iff_getElem?.1 hc
      have hlt : i < (lowerUses registry path use).length :=
        length ▸ (List.getElem?_eq_some_iff.1 hi).1
      rcases ih i _ c (List.getElem?_eq_getElem hlt) hi k hkc with hpath | hfull
      · rcases List.mem_insert_iff.1 hpath with heq | hpath
        · exact hown heq
        · exact .inl hpath
      · refine .inr fun d hd m hm => ?_
        obtain ⟨j, hj, hname⟩ := hfull d hd m hm
        exact ⟨j, mem_walk_of_mem hc hj, hname⟩

end

end DependencyNode

/-! ### The tree and the list of a bubble -/

namespace Bubble

section

variable {registry : Registry} {b : Bubble} {n m : String}

theorem mem_successors {d : Descriptor} : m ∈ b.successors registry d ↔
    m ∈ d.directNames ∨
      d.name = b.bubbleName ∧ d.isAgent = true ∧ m ∈ b.configuredTools registry := by
  rw [successors]
  by_cases h : d.name = b.bubbleName ∧ d.isAgent = true
  · rw [if_pos (by simpa using h), List.mem_append]
    simp [h]
  · rw [if_neg (by simpa using h)]
    grind

/-- One name leads to another when a descriptor of the one has the other among its successors. -/
theorem leads_iff (hr : registry.Named) : (b.dependencyRelation registry).Leads n m ↔
    ∃ d, registry.get? n = some d ∧ m ∈ b.successors registry d := by
  have hfind : (b.dependencyRelation registry).lookup n
      = (registry.get? n).map (b.successors registry) := by
    rw [Graph.lookup_eq_find?, dependencyRelation, List.find?_map, Option.map_map,
      ← hr.find?_eq_get?]
    rfl
  rw [Graph.Leads, Graph.successors, hfind]
  cases registry.get? n with
  | none => simp
  | some d => simp

/-- A tool of the bubble itself is one that it leads to. -/
theorem mem_ownTools : m ∈ b.ownTools registry ↔
    ∃ d, registry.get? b.bubbleName = some d ∧ d.isAgent = true ∧
      m ∈ b.configuredTools registry := by
  rw [ownTools]
  cases registry.get? b.bubbleName with
  | none => simp
  | some d => cases hd : d.isAgent <;> simp [hd]

/-- Every name in the tree of a bubble can be reached from the bubble. -/
theorem reached_of_mem_dependencyTree (hr : registry.Named) {k : DependencyNode}
    (hk : k ∈ (b.dependencyTree registry).walk) :
    ReflTransGen (b.dependencyRelation registry).Leads b.bubbleName k.name := by
  refine (grown_dependencyTree hr b).forall_name
    (S := ReflTransGen (b.dependencyRelation registry).Leads b.bubbleName) ?_ .refl ?_ k hk
  · intro d hd hreached m hm
    have hget : registry.get? d.name = some d := hr.get?_eq_some_iff.2 ⟨hd, rfl⟩
    exact hreached.tail ((leads_iff hr).2 ⟨d, hget, mem_successors.2 (.inl hm)⟩)
  · intro t ht
    obtain ⟨d, hget, hagent, ht⟩ := mem_ownTools.1 ht
    have hname : d.name = b.bubbleName := (hr.get?_eq_some_iff.1 hget).2
    exact .single ((leads_iff hr).2 ⟨d, hget, mem_successors.2 (.inr ⟨hname, hagent, ht⟩)⟩)

/-- Every name that can be reached from a bubble is in its tree, when tools
are given only to agents. -/
theorem exists_mem_dependencyTree (hr : registry.Named) (htools : registry.ToolsForAgents)
    (h : ReflTransGen (b.dependencyRelation registry).Leads b.bubbleName n) :
    ∃ k ∈ (b.dependencyTree registry).walk, k.name = n := by
  have hgrown := grown_dependencyTree hr b
  induction h with
  | refl => exact ⟨_, DependencyNode.self_mem_walk _, rfl⟩
  | @tail n m _ hstep ih =>
    obtain ⟨k, hk, rfl⟩ := ih
    obtain ⟨d, hget, hm⟩ := (leads_iff hr).1 hstep
    have hfind := (hr.find?_eq_get? k.name).trans hget
    rcases mem_successors.1 hm with hm | ⟨hname, hagent, hm⟩
    · -- Nothing stands above the tree, so the name is expanded in it.
      have hfull := (hgrown.expanded_or_above hr htools k hk).resolve_left List.not_mem_nil
      exact hfull d hfind m hm
    · have hroot : k.name = b.bubbleName := by rw [← (hr.get?_eq_some_iff.1 hget).2, hname]
      rw [hroot] at hget hfind
      exact hgrown.exists_tool hfind hagent (mem_ownTools.2 ⟨d, hget, hagent, hm⟩)

end

/-- **The tree and the list of dependencies agree.**  For every registry that has been filled with
descriptors and every bubble, each name in the tree other than the bubble's own is in the list; and
when tools are given only to uses of registered agents, each name of the list is in the tree,
whatever cycles the descriptors form. -/
theorem dependencyTree_agrees (ds : List Descriptor) (b : Bubble) :
    let registry := Registry.ofDescriptors ds
    (∀ k ∈ (b.dependencyTree registry).walk, k.name ≠ b.bubbleName →
        k.name ∈ b.flatDependencies registry) ∧
      (registry.ToolsForAgents → ∀ name ∈ b.flatDependencies registry,
        ∃ k ∈ (b.dependencyTree registry).walk, k.name = name) := by
  intro registry
  have hr : registry.Named := Registry.named_ofDescriptors ds
  constructor
  · intro k hk hne
    exact Graph.mem_closure_iff.2 ⟨hne, reached_of_mem_dependencyTree hr hk⟩
  · intro htools name hname
    exact exists_mem_dependencyTree hr htools (Graph.mem_closure_iff.1 hname).2

/-- An agent that depends on itself with a tool, and on a bubble that depends on the agent. -/
def circularAgent : List Descriptor :=
  [{ name := "agent", className := "Agent", isAgent := true,
     dependencyDetails := [⟨"agent", [{ tools := ["mail"] }]⟩, ⟨"search", []⟩] },
   { name := "search", className := "Search", dependencies := ["agent"] }]

/-- A bubble of the agent. -/
def agentBubble : Bubble :=
  { variableId := 1, variableName := "a", bubbleName := "agent", className := "Agent",
    parameters := [],
    hasAwait := false, hasActionCall := false, nodeType := .unknown, location := ⟨1, 0, 1, 0⟩ }

/-- In a circle of dependencies the tree still has the names of the list, among them the tool of an
agent that is met again and not expanded. -/
theorem dependencyTree_circularAgent :
    (Registry.ofDescriptors circularAgent).ToolsForAgents ∧
      ∀ name ∈ ["mail", "search"],
        name ∈ agentBubble.flatDependencies (Registry.ofDescriptors circularAgent) ∧
        ∃ k ∈ (agentBubble.dependencyTree (Registry.ofDescriptors circularAgent)).walk,
        k.name = name := by
  have htools : (Registry.ofDescriptors circularAgent).ToolsForAgents := by decide
  have hsteps : ∀ name ∈ ["mail", "search"], name ≠ "agent" ∧ name ∈
      (agentBubble.dependencyRelation (Registry.ofDescriptors circularAgent)).successors
        "agent" := by
    decide +kernel
  refine ⟨htools, fun name hname => ?_⟩
  obtain ⟨hne, hstep⟩ := hsteps name hname
  have hflat : name ∈ agentBubble.flatDependencies (Registry.ofDescriptors circularAgent) :=
    Graph.mem_closure_iff.2 ⟨hne, .single hstep⟩
  exact ⟨hflat, (dependencyTree_agrees circularAgent agentBubble).2 htools name hflat⟩

end Bubble

end FlowAnalysis
