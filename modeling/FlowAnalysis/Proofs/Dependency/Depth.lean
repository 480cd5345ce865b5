import FlowAnalysis.Proofs.Analysis.Places
import FlowAnalysis.Proofs.Dependency.Agreement

/-!
# How deep a dependency tree is, and where it is cut off

A node whose name stands above it has no dependencies below it, except that an agent keeps the tools
of the instance as which it is used.  That instance is not part of the node; `usedAs?` reads it off
the descriptors on the way from the root.

The tools of a use have no tools themselves, so two nodes met again never follow one another with
something below both.  Every second node on the way from the root is therefore the first of its
name, and the tree is at most twice as deep as there are registered names (`Grown.length_le`), a
depth that one agent with a tool that depends on itself has.
-/

namespace FlowAnalysis

namespace DependencyNode

/-! ### What a node is used as -/

/-- The names above a place, from the root on. -/
def namesAbove (n : DependencyNode) : Place → List String
  | [] => []
  | i :: p => n.name :: (n.dependencies[i]?).elim [] fun m => namesAbove m p

/-- The instance as which the node at a place is used, when the root is used as `used` below the
names `above`.  Below a name that is met for the first time stand the instances of its
descriptor and its own tools; tools are used as an instance without tools, and so is everything
below a name that is met again. -/
def usedAs? (registry : Registry) (n : DependencyNode) (above : List String)
    (used : DependencyInstance) : Place → Option DependencyInstance
  | [] => some used
  | i :: p => do
    let m ← n.dependencies[i]?
    if n.name ∈ above then usedAs? registry m (n.name :: above) {} p
    else
      let d ← registry.get? n.name
      let u ← (uses d (if d.isAgent then used.tools else []))[i]?
      usedAs? registry m (n.name :: above) u.2 p

section

variable {registry : Registry} {path : List String} {use u : String × DependencyInstance}
  {n m : DependencyNode}

theorem weight_le_one (us : List (String × DependencyInstance)) : weight us ≤ 1 := Bool.toNat_le _

/-- What stands below a node that has grown from a use: the use has a descriptor, and the node
below stands for a tool of an agent that is met again, or for a use of the descriptor of a name
that is met for the first time. -/
theorem lowerUses_cases {i : Nat} (h : (lowerUses registry path use)[i]? = some u) :
    ∃ d, (registry.descriptors.find? fun d => d.name == use.1) = some d ∧
      ((use.1 ∈ path ∧ d.isAgent = true ∧ use.2.tools ≠ [] ∧ u.2 = {}) ∨
        (use.1 ∉ path ∧ (uses d (if d.isAgent then use.2.tools else []))[i]? = some u)) := by
  cases hd : registry.descriptors.find? fun d => d.name == use.1 with
  | none =>
    rw [lowerUses_of_find?_eq_none hd] at h
    cases h
  | some d =>
    refine ⟨d, rfl, ?_⟩
    by_cases hp : use.1 ∈ path
    · rw [lowerUses_of_mem hd hp] at h
      by_cases ht : d.isAgent = true ∧ use.2.tools ≠ []
      · obtain ⟨t, -, rfl⟩ := List.mem_map.1 (List.mem_of_getElem? h)
        exact .inl ⟨hp, ht.1, ht.2, rfl⟩
      · rw [toolUses_eq_nil ht] at h
        cases h
    · rw [lowerUses_of_not_mem hd hp] at h
      exact .inr ⟨hp, h⟩

/-- A node below a node that has grown from a use has grown from a use below it. -/
theorem Grown.exists_use (h : Grown registry path use n) {i : Nat}
    (hm : n.dependencies[i]? = some m) :
    ∃ u, (lowerUses registry path use)[i]? = some u ∧ Grown registry (path.insert use.1) u m := by
  have hlt : i < (lowerUses registry path use).length :=
    h.all.length ▸ (List.getElem?_eq_some_iff.1 hm).1
  have hu := List.getElem?_eq_getElem hlt
  exact ⟨_, hu, h.all.each i _ m hu hm⟩

/-- Every use below a use has its node. -/
theorem Grown.exists_node (h : Grown registry path use n) {i : Nat}
    (hu : (lowerUses registry path use)[i]? = some u) :
    ∃ m, n.dependencies[i]? = some m ∧ Grown registry (path.insert use.1) u m := by
  have hlt : i < n.dependencies.length := h.all.length ▸ (List.getElem?_eq_some_iff.1 hu).1
  have hm := List.getElem?_eq_getElem hlt
  exact ⟨_, hm, h.all.each i u _ hu hm⟩

/-! ### The depth -/

/-- A tree that has grown is at most twice as deep as there are names left, and one deeper when it
stands for a use with tools of a name that is met again. -/
theorem Grown.length_le (h : Grown registry path use n) {p : Place} (hp : n.at? p = some m) :
    p.length ≤ 2 * unvisited registry path + if use.1 ∈ path then weight [use] else 0 := by
  induction p generalizing path use n with
  | nil => exact Nat.zero_le _
  | cons i p ih =>
    obtain ⟨c, hc, hm⟩ := Option.bind_eq_some_iff.1 hp
    obtain ⟨u, hu, hgrown⟩ := h.exists_use hc
    have hlength := ih hgrown hm
    have hone := weight_le_one [u]
    rw [List.length_cons]
    obtain ⟨d, hd, ⟨hmem, -, htools, hnone⟩ | ⟨hnew, -⟩⟩ := lowerUses_cases hu
    · -- No name is taken here; the step is paid for by the tools, which the use below lacks.
      have hpos := weight_pos htools
      have hzero : weight [u] = 0 := by simp [weight, hnone]
      rw [List.insert_of_mem hmem, hzero, ite_self] at hlength
      rw [if_pos hmem]
      omega
    · have hdm : d ∈ registry.descriptors := List.mem_of_find?_eq_some hd
      have hdn : d.name = use.1 := by simpa using List.find?_some hd
      have hless : unvisited registry (use.1 :: path) < unvisited registry path :=
        hdn ▸ unvisited_cons_lt hdm (hdn ▸ hnew)
      have hweight : (if u.1 ∈ path.insert use.1 then weight [u] else 0) ≤ 1 := by
        split <;> omega
      rw [List.insert_of_not_mem hnew] at hlength hweight
      rw [if_neg hnew]
      omega

/-! ### Where the tree is cut off -/

/-- The dependencies of a node that is met again are the tools of its use, when it is an agent. -/
theorem Grown.map_name_of_mem (hr : registry.Named) (h : Grown registry path use n)
    (hp : use.1 ∈ path) :
    n.dependencies.map (·.name)
      = if (registry.get? use.1).any (·.isAgent) then use.2.tools else [] := by
  rw [h.all.map_name, ← hr.find?_eq_get?]
  cases hd : registry.descriptors.find? fun d => d.name == use.1 with
  | none =>
    rw [lowerUses_of_find?_eq_none hd]
    rfl
  | some d =>
    rw [lowerUses_of_mem hd hp, toolUses, List.map_map]
    exact List.map_id _

/-- Every node of a tree that has grown is used as some instance, and where its name stands above
it, only the tools of that instance stand below it. -/
theorem Grown.exists_usedAs? (hr : registry.Named) (h : Grown registry path use n)
    {above : List String} (habove : ∀ x, x ∈ above ↔ x ∈ path) {p : Place} (hp : n.at? p = some m) :
    ∃ used, n.usedAs? registry above use.2 p = some used ∧
      (m.name ∈ above ∨ m.name ∈ n.namesAbove p → m.dependencies.map (·.name)
        = if (registry.get? m.name).any (·.isAgent) then used.tools else []) := by
  induction p generalizing path use n above with
  | nil =>
    obtain rfl := Option.some.inj hp
    refine ⟨use.2, rfl, fun hmem => ?_⟩
    have hmem : use.1 ∈ path := by
      have := hmem.resolve_right List.not_mem_nil
      rwa [h.name_eq, habove] at this
    rw [h.name_eq]
    exact h.map_name_of_mem hr hmem
  | cons i p ih =>
    obtain ⟨c, hc, hm⟩ := Option.bind_eq_some_iff.1 hp
    obtain ⟨u, hu, hgrown⟩ := h.exists_use hc
    have habove' : ∀ x, x ∈ n.name :: above ↔ x ∈ path.insert use.1 := by
      intro x
      rw [List.mem_cons, List.mem_insert_iff, habove, h.name_eq]
    obtain ⟨used, hused, hcut⟩ := ih hgrown habove' hm
    refine ⟨used, ?_, fun hmem => hcut ?_⟩
    · rw [usedAs?, hc]
      obtain ⟨d, hd, ⟨hmem, -, -, hnone⟩ | ⟨hnew, hu⟩⟩ := lowerUses_cases hu
      · have hmem : n.name ∈ above := by rwa [h.name_eq, habove]
        rw [hnone] at hused
        simpa [hmem] using hused
      · have hnew : n.name ∉ above := by rwa [h.name_eq, habove]
        have hget : registry.get? n.name = some d := by rw [h.name_eq, ← hr.find?_eq_get?, hd]
        simpa [hnew, hget, hu] using hused
    · rw [namesAbove, hc, Option.elim_some, List.mem_cons] at hmem
      rw [List.mem_cons]
      tauto

end

end DependencyNode

/-! ### The tree of a bubble -/

namespace Bubble

open DependencyNode

/-- The instance as which the node at a place of the tree of a bubble is used; the bubble itself
is used with its own tools. -/
def usedAs? (b : Bubble) (registry : Registry) (p : Place) : Option DependencyInstance :=
  (b.dependencyTree registry).usedAs? registry [] { tools := b.ownTools registry } p

/-- **The tree of a bubble is bounded and cut off where a name is met again.**  For every registry
that has been filled with descriptors, whatever circles they form, and every bubble, no node lies
deeper than twice the number of different names registered.  A node whose name stands above it has
nothing below it unless it is a registered agent, and then it has one node for each tool of the
instance as which it is used, in order. -/
theorem dependencyTree_bounded (ds : List Descriptor) (b : Bubble) :
    let registry := Registry.ofDescriptors ds
    let tree := b.dependencyTree registry
    ∀ p m, tree.at? p = some m →
      p.length ≤ 2 * (ds.map (·.name)).dedup.length ∧
        ∃ used, b.usedAs? registry p = some used ∧
          (m.name ∈ tree.namesAbove p → m.dependencies.map (·.name)
            = if (registry.get? m.name).any (·.isAgent) then used.tools else []) := by
  intro registry tree p m hp
  have hr : registry.Named := Registry.named_ofDescriptors ds
  have hgrown := grown_dependencyTree hr b
  constructor
  · have hall : unvisited registry [] = (ds.map (·.name)).dedup.length := by
      rw [← Registry.size_ofDescriptors, unvisited, remaining]
      simp [Registry.size, registry]
    have hlength := hgrown.length_le hp
    rw [if_neg List.not_mem_nil, hall] at hlength
    exact hlength
  · obtain ⟨used, hused, hcut⟩ := hgrown.exists_usedAs? hr (fun _ => Iff.rfl) hp
    exact ⟨used, hused, fun hmem => hcut (.inr hmem)⟩

/-- An agent that depends on itself, with a tool. -/
def selfAgent : List Descriptor :=
  [{ name := "agent", className := "Agent", isAgent := true,
     dependencyDetails := [⟨"agent", [{ tools := ["mail"] }]⟩] }]

/-- The agent below itself has its tool below it and nothing else, and the tool lies as deep as
the number of names allows. -/
theorem dependencyTree_bounded_selfAgent :
    let registry := Registry.ofDescriptors selfAgent
    let tree := agentBubble.dependencyTree registry
    ∃ m k, tree.at? [0] = some m ∧ m.name ∈ tree.namesAbove [0] ∧
      agentBubble.usedAs? registry [0] = some { tools := ["mail"] } ∧
      m.dependencies.map (·.name) = ["mail"] ∧
      tree.at? [0, 0] = some k ∧ [0, 0].length = 2 * (selfAgent.map (·.name)).dedup.length := by
  intro registry tree
  have huses : (lowerUses registry [] ("agent", {}))[0]? =
      some ("agent", { tools := ["mail"] }) := by
    decide +kernel
  have htools : (lowerUses registry ["agent"] ("agent", { tools := ["mail"] }))[0]?
      = some ("mail", ({} : DependencyInstance)) := by
    decide +kernel
  have hown : agentBubble.ownTools registry = [] := by decide +kernel
  have hgrown := grown_dependencyTree (Registry.named_ofDescriptors selfAgent) agentBubble
  rw [hown] at hgrown
  obtain ⟨m, hm, hgrownm⟩ := hgrown.exists_node huses
  obtain ⟨k, hk, -⟩ := hgrownm.exists_node htools
  have hatm : tree.at? [0] = some m := by simp [at?, tree, registry, hm]
  have hatk : tree.at? [0, 0] = some k := by simp [at?, tree, registry, hm, hk]
  have habove : m.name ∈ tree.namesAbove [0] := by
    rw [hgrownm.name_eq]
    exact List.mem_cons_self
  have hagent : (registry.get? m.name).any (·.isAgent) = true := by
    rw [hgrownm.name_eq]
    decide +kernel
  obtain ⟨-, used, hused, hcut⟩ := dependencyTree_bounded selfAgent agentBubble [0] m hatm
  have hinstance : agentBubble.usedAs? registry [0] = some { tools := ["mail"] } := by
    have hfirst : ((registry.get? "agent").bind fun d => (uses d [])[0]?)
        = some ("agent", { tools := ["mail"] }) := by decide +kernel
    obtain ⟨d, hd, hu⟩ := Option.bind_eq_some_iff.1 hfirst
    have hname : (agentBubble.dependencyTree registry).name = "agent" := rfl
    simp [Bubble.usedAs?, DependencyNode.usedAs?, registry, hm, hown, hname, hd, hu]
  have hdepth := (dependencyTree_bounded selfAgent agentBubble [0, 0] k hatk).1
  refine ⟨m, k, hatm, habove, hinstance, ?_, hatk, ?_⟩
  · rw [hinstance] at hused
    obtain rfl := Option.some.inj hused
    rw [hcut habove, if_pos hagent]
  · exact Nat.le_antisymm hdepth (by decide)

end Bubble

end FlowAnalysis
