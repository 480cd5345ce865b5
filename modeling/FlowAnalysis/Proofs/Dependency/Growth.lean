import FlowAnalysis.Dependency.Tree
import FlowAnalysis.Proofs.Registry.Names

/-!
# How a dependency tree grows

Which names stand below a node depends only on the use that the node stands for and on the names
above it (`lowerUses`): a name that is met again is not expanded, except for the tools of an agent.
`Grown` says that a tree has grown in this way, without its ids; every expanded use has
(`grown_expand`), and so has the tree of a bubble, from a use of the bubble with its configured
tools (`grown_dependencyTree`).
-/

namespace FlowAnalysis

namespace DependencyNode

/-! ### The nodes of a tree -/

mutual

theorem mem_walk {m : DependencyNode} :
    ∀ {n : DependencyNode}, m ∈ n.walk ↔ m = n ∨ ∃ c ∈ n.dependencies, m ∈ c.walk
  | ⟨_, _, _, _, _, ds⟩ => by rw [walk, List.mem_cons, mem_walkAll]

theorem mem_walkAll {m : DependencyNode} :
    ∀ {ds : List DependencyNode}, m ∈ walkAll ds ↔ ∃ c ∈ ds, m ∈ c.walk
  | [] => by simp [walkAll]
  | d :: ds => by
    rw [walkAll, List.mem_append, mem_walkAll]
    simp

end

theorem self_mem_walk (n : DependencyNode) : n ∈ n.walk := mem_walk.2 (.inl rfl)

theorem mem_walk_of_mem {n c m : DependencyNode} (hc : c ∈ n.dependencies) (hm : m ∈ c.walk) :
    m ∈ n.walk :=
  mem_walk.2 (.inr ⟨c, hc, hm⟩)

/-! ### What stands below a use -/

/-- The uses of tools, which have no tools themselves. -/
def toolUses (tools : List String) : List (String × DependencyInstance) :=
  tools.map fun t => (t, {})

/-- The uses that stand below a use, given the names above it. -/
def lowerUses (registry : Registry) (path : List String) (use : String × DependencyInstance) :
    List (String × DependencyInstance) :=
  (registry.descriptors.find? fun d => d.name == use.1).elim [] fun d =>
    let tools := if d.isAgent then use.2.tools else []
    if use.1 ∈ path then toolUses tools else uses d tools

/-- The type of the bubble of a name. -/
def typeOf (registry : Registry) (name : String) : NodeType :=
  (registry.descriptors.find? fun d => d.name == name).elim .unknown (·.nodeType)

/-- A tree has grown from a use below the names of a path: it has the name of the use, and its
subtrees have grown from the uses below, in order. -/
inductive Grown (registry : Registry) :
    List String → String × DependencyInstance → DependencyNode → Prop
  | intro {path : List String} {use : String × DependencyInstance} {n : DependencyNode}
      (name : n.name = use.1) (length : n.dependencies.length =
        (lowerUses registry path use).length)
      (each : ∀ (i : Nat) u m, (lowerUses registry path use)[i]? = some u →
        n.dependencies[i]? = some m →
        Grown registry (path.insert use.1) u m) : Grown registry path use n

/-- Trees have grown from uses, one from each, in order. -/
structure GrownAll (registry : Registry) (path : List String)
    (us : List (String × DependencyInstance)) (ns : List DependencyNode) : Prop where
  length : ns.length = us.length
  each : ∀ (i : Nat) u m, us[i]? = some u → ns[i]? = some m → Grown registry path u m

namespace GrownAll

variable {registry : Registry} {path : List String} {us : List (String × DependencyInstance)}
  {ns : List DependencyNode}

theorem nil (registry : Registry) (path : List String) : GrownAll registry path [] [] :=
  ⟨rfl, fun i u m hu => by simp at hu⟩

theorem cons {u : String × DependencyInstance} {n : DependencyNode} (hn : Grown registry path u n)
    (h : GrownAll registry path us ns) : GrownAll registry path (u :: us) (n :: ns) where
  length := by rw [List.length_cons, List.length_cons, h.length]
  each := by
    intro i v m hv hm
    cases i with
    | zero =>
      cases hv
      cases hm
      exact hn
    | succ i => exact h.each i v m hv hm

/-- Every use has its tree. -/
theorem exists_of_mem_uses (h : GrownAll registry path us ns) {u : String × DependencyInstance}
    (hu : u ∈ us) : ∃ n ∈ ns, Grown registry path u n := by
  obtain ⟨i, hi⟩ := List.mem_iff_getElem?.1 hu
  have hlt : i < ns.length := h.length ▸ (List.getElem?_eq_some_iff.1 hi).1
  exact ⟨ns[i], List.getElem_mem hlt, h.each i u _ hi (List.getElem?_eq_getElem hlt)⟩

end GrownAll

namespace Grown

variable {registry : Registry} {path : List String} {use : String × DependencyInstance}
  {n : DependencyNode}

theorem of_all (name : n.name = use.1)
    (h : GrownAll registry (path.insert use.1) (lowerUses registry path use) n.dependencies) :
    Grown registry path use n :=
  .intro name h.length h.each

theorem name_eq (h : Grown registry path use n) : n.name = use.1 := by
  cases h with
  | intro name _ _ => exact name

theorem all (h : Grown registry path use n) :
    GrownAll registry (path.insert use.1) (lowerUses registry path use) n.dependencies := by
  cases h with
  | intro _ length each => exact ⟨length, each⟩

end Grown

/-- The trees have the names of the uses, in order. -/
theorem GrownAll.map_name {registry : Registry} {path : List String}
    {us : List (String × DependencyInstance)} {ns : List DependencyNode}
    (h : GrownAll registry path us ns) : ns.map (·.name) = us.map (·.1) := by
  refine List.ext_getElem? fun i => ?_
  rw [List.getElem?_map, List.getElem?_map]
  by_cases hi : i < us.length
  · have hu := List.getElem?_eq_getElem hi
    have hn := List.getElem?_eq_getElem (h.length.symm ▸ hi : i < ns.length)
    rw [hu, hn, Option.map_some, Option.map_some, (h.each i _ _ hu hn).name_eq]
  · have hle : us.length ≤ i := Nat.le_of_not_lt hi
    rw [List.getElem?_eq_none hle, List.getElem?_eq_none (h.length.symm ▸ hle : ns.length ≤ i)]
    rfl

/-! ### Expansion -/

section

variable {registry : Registry} {path : List String} {use : String × DependencyInstance}
  {d : Descriptor}

theorem lowerUses_of_find?_eq_none
    (h : (registry.descriptors.find? fun d => d.name == use.1) = none) :
    lowerUses registry path use = [] := by
  rw [lowerUses, h]
  rfl

theorem lowerUses_of_mem (h : (registry.descriptors.find? fun d => d.name == use.1) = some d)
    (hp : use.1 ∈ path) :
    lowerUses registry path use = toolUses (if d.isAgent then use.2.tools else []) := by
  rw [lowerUses, h]
  exact if_pos hp

theorem lowerUses_of_not_mem (h : (registry.descriptors.find? fun d => d.name == use.1) = some d)
    (hp : use.1 ∉ path) :
    lowerUses registry path use = uses d (if d.isAgent then use.2.tools else []) := by
  rw [lowerUses, h]
  exact if_neg hp

/-- A use without an agent or without tools has no tools below it. -/
theorem toolUses_eq_nil (h : ¬ (d.isAgent = true ∧ use.2.tools ≠ [])) :
    toolUses (if d.isAgent then use.2.tools else []) = [] := by
  rw [toolUses, List.map_eq_nil_iff]
  split
  · next ha => exact Classical.not_not.1 fun hne => h ⟨ha, hne⟩
  · rfl

end

/-- What is made of a use: its node, with what stands below it, and the ranks after both. -/
theorem expand_eq (registry : Registry) (path : List String) (use : String × DependencyInstance)
    (parent : String) (ranks : Ranks) :
    expand registry path use parent ranks =
      let next := ranks.next parent use.1
      let id := s!"{parent}.{use.1}#{next.1}"
      let below := expandAll registry (path.insert use.1) (lowerUses registry path use) id next.2
      (⟨use.1, use.2.variableName, typeOf registry use.1, id, Text.hashId id, below.1⟩,
        below.2) := by
  rw [expand]
  dsimp only
  split
  · next hnone =>
    rw [lowerUses_of_find?_eq_none hnone, typeOf, hnone, expandAll]
    rfl
  · next d hd =>
    rw [typeOf, hd]
    by_cases hp : use.1 ∈ path
    · -- A name met again keeps the path as it is.
      rw [lowerUses_of_mem hd hp, List.insert_of_mem hp, dif_pos hp]
      by_cases ht : d.isAgent = true ∧ use.2.tools ≠ []
      · rw [dif_pos ht, if_pos ht.1]
        rfl
      · rw [dif_neg ht, toolUses_eq_nil ht, expandAll]
        rfl
    · rw [lowerUses_of_not_mem hd hp, List.insert_of_not_mem hp, dif_neg hp]
      rfl

/-- What passes from the uses below a use to the use, and from one use to the next, holds of every
expansion. -/
theorem expand_induction (registry : Registry)
    {one : List String → String × DependencyInstance → String → Ranks → Prop}
    {all : List String → List (String × DependencyInstance) → String → Ranks → Prop}
    (below : ∀ path use parent ranks,
      all (path.insert use.1) (lowerUses registry path use)
          s!"{parent}.{use.1}#{(ranks.next parent use.1).1}" (ranks.next parent use.1).2 →
        one path use parent ranks)
    (nil : ∀ path parent ranks, all path [] parent ranks)
    (cons : ∀ path u us parent ranks, one path u parent ranks →
      all path us parent (expand registry path u parent ranks).2 →
        all path (u :: us) parent ranks) :
    (∀ path use parent ranks, one path use parent ranks) ∧
      ∀ path us parent ranks, all path us parent ranks := by
  refine expand.mutual_induct registry one all ?unknown ?known nil ?cons
  case unknown =>
    intro path use parent ranks rank ranks' hr hnone
    refine below path use parent ranks ?_
    rw [lowerUses_of_find?_eq_none hnone]
    exact nil _ _ _
  case known =>
    intro path use parent ranks rank ranks' hr id d hd ihTools ihUses
    refine below path use parent ranks ?_
    rw [hr]
    by_cases hp : use.1 ∈ path
    · rw [lowerUses_of_mem hd hp, List.insert_of_mem hp]
      by_cases ht : d.isAgent = true ∧ use.2.tools ≠ []
      · rw [if_pos ht.1]
        exact ihTools ht
      · rw [toolUses_eq_nil ht]
        exact nil _ _ _
    · rw [lowerUses_of_not_mem hd hp, List.insert_of_not_mem hp]
      exact ihUses hp
  case cons =>
    intro path u us parent ranks node ranks' hu nodes ranks'' hus ihu ihus
    refine cons path u us parent ranks ihu ?_
    rw [hu]
    exact ihus

/-- **Every expanded use has grown** below the names of its path, and so have several, one after the
other. -/
theorem grown_expand (registry : Registry) :
    (∀ path use parent ranks, Grown registry path use (expand registry path use parent ranks).1) ∧
      ∀ path us parent ranks, GrownAll registry path us
      (expandAll registry path us parent ranks).1 := by
  refine expand_induction registry ?below ?nil ?cons
  case below =>
    intro path use parent ranks ih
    rw [expand_eq]
    exact .of_all rfl ih
  case nil =>
    intro path parent ranks
    rw [expandAll]
    exact .nil registry path
  case cons =>
    intro path u us parent ranks ihu ihus
    rw [expandAll]
    exact .cons ihu ihus

end DependencyNode

/-! ### The tree of a bubble -/

namespace Bubble

/-- The tools that stand below a bubble: those configured, when it is a registered agent. -/
def ownTools (b : Bubble) (registry : Registry) : List String :=
  (registry.get? b.bubbleName).elim [] fun d =>
    if d.isAgent then b.configuredTools registry else []

open DependencyNode in
/-- Below a bubble stands what stands below a use of the bubble with its own tools. -/
theorem dependencies_dependencyTree {registry : Registry} (h : registry.Named) (b : Bubble) :
    (b.dependencyTree registry).dependencies =
      (expandAll registry [b.bubbleName]
        (lowerUses registry [] (b.bubbleName, { tools := b.ownTools registry }))
        (toString b.variableId) []).1 := by
  rw [dependencyTree]
  dsimp only
  have hfind := h.find?_eq_get? b.bubbleName
  cases hget : registry.get? b.bubbleName with
  | none =>
    rw [lowerUses_of_find?_eq_none (hfind.trans hget), expandAll]
  | some d =>
    have htools : (if d.isAgent then b.ownTools registry else [])
        = if d.isAgent then b.configuredTools registry else [] := by
      rw [ownTools, hget]
      cases hagent : d.isAgent with
      | false => rfl
      | true => exact if_pos hagent
    rw [lowerUses_of_not_mem (hfind.trans hget) List.not_mem_nil, htools]

open DependencyNode in
/-- **The tree of a bubble has grown** from a use of the bubble with its
own tools, below no name. -/
theorem grown_dependencyTree {registry : Registry} (h : registry.Named) (b : Bubble) :
    Grown registry [] (b.bubbleName, { tools := b.ownTools registry })
    (b.dependencyTree registry) := by
  refine .of_all rfl ?_
  rw [dependencies_dependencyTree h]
  exact (grown_expand registry).2 [b.bubbleName] _ _ _

end Bubble

end FlowAnalysis
