import FlowAnalysis.Proofs.Dependency.Agreement
import FlowAnalysis.Proofs.Graph.Distance

/-!
# The list of dependencies is the transitive closure, nearest first

`DependsOn` says what one name depends on directly, by the descriptors alone.  The graph that is
searched for the dependencies of a bubble has exactly these steps (`leads_eq_dependsOn`), so the
list is what they lead to, and it stands in the order of the distances from the bubble
(`flatDependencies_breadth_first`).
-/

namespace FlowAnalysis.Bubble

open Relation

/-- One name depends directly on another: the descriptor registered under the one leads to the
other, or the one is the bubble's own, a registered agent, and the other one of the tools
configured for the bubble. -/
def DependsOn (b : Bubble) (registry : Registry) (n m : String) : Prop :=
  ∃ d, registry.get? n = some d ∧
    (m ∈ d.directNames ∨
      n = b.bubbleName ∧ d.isAgent = true ∧ m ∈ b.configuredTools registry)

theorem leads_eq_dependsOn {registry : Registry} (hr : registry.Named) (b : Bubble) :
    (b.dependencyRelation registry).Leads = b.DependsOn registry := by
  funext n m
  apply propext
  rw [leads_iff hr, DependsOn]
  -- A descriptor is registered under its own name, so either name tells
  -- whether it is the bubble's own.
  have hname : ∀ d, registry.get? n = some d → d.name = n :=
    fun d hd => (hr.get?_eq_some_iff.1 hd).2
  constructor
  · rintro ⟨d, hd, hm⟩
    have hm := mem_successors.1 hm
    rw [hname d hd] at hm
    exact ⟨d, hd, hm⟩
  · rintro ⟨d, hd, hm⟩
    refine ⟨d, hd, mem_successors.2 ?_⟩
    rw [hname d hd]
    exact hm

/-- **The list of dependencies is the transitive closure, nearest first.**  For every registry that
has been filled with descriptors, whatever circles they form, and every bubble, the list has no name
twice; it has exactly the names other than the bubble's own that one or more steps lead to, be they
registered or not; and no name stands before one that is nearer to the bubble. -/
theorem flatDependencies_breadth_first (ds : List Descriptor) (b : Bubble) :
    let registry := Registry.ofDescriptors ds
    (b.flatDependencies registry).Nodup ∧
      (∀ n, n ∈ b.flatDependencies registry ↔
        n ≠ b.bubbleName ∧ TransGen (b.DependsOn registry) b.bubbleName n) ∧
      (b.flatDependencies registry).Pairwise fun m n =>
        distance (b.DependsOn registry) b.bubbleName m
          ≤ distance (b.DependsOn registry) b.bubbleName n := by
  intro registry
  have hleads := leads_eq_dependsOn (Registry.named_ofDescriptors ds) b
  have hascending := Graph.ascending_closure (b.dependencyRelation registry) b.bubbleName
  have hmem : ∀ n, n ∈ b.flatDependencies registry ↔
      n ≠ b.bubbleName ∧ ReflTransGen (b.dependencyRelation registry).Leads b.bubbleName n :=
    fun n => Graph.mem_closure_iff
  rw [hleads] at hascending hmem
  refine ⟨hascending.1, fun n => ?_, hascending.2⟩
  rw [hmem, reflTransGen_iff_eq_or_transGen]
  constructor
  · rintro ⟨hne, hreached⟩
    exact ⟨hne, hreached.resolve_left hne⟩
  · rintro ⟨hne, hreached⟩
    exact ⟨hne, .inr hreached⟩

end FlowAnalysis.Bubble
