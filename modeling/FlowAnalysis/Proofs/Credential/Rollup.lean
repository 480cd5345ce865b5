import FlowAnalysis.Credential
import FlowAnalysis.Dependency.Tree
import FlowAnalysis.Proofs.Ascending
import FlowAnalysis.Proofs.Bubble.Table
import FlowAnalysis.Proofs.Dependency.Closure

/-!
# The credentials of a bubble are those of all that it involves

A bubble involves its own name and every name that it depends on, however far (`Involves`).  The
list of its dependencies holds these names whether it is stored with the bubble or computed
(`mem_involved_iff`), so the credentials that a bubble needs are those of the registered names among
them, each once and in order, and it makes no difference whether the dependencies have been attached
before (`requiredCredentials_rollup`).
-/

namespace FlowAnalysis

open Relation

namespace Bubble

/-- A name is the bubble's own, or one or more direct dependencies lead to it. -/
def Involves (b : Bubble) (registry : Registry) (n : String) : Prop :=
  ReflTransGen (b.DependsOn registry) b.bubbleName n

/-- A credential belongs to a registered name that the bubble involves. -/
def Needs (b : Bubble) (registry : Registry) (credential : String) : Prop :=
  ∃ n d, b.Involves registry n ∧ registry.get? n = some d ∧ credential ∈ d.credentials

/-- The bubble has no dependencies yet, or those that the registry gives it. -/
def Attached (b : Bubble) (registry : Registry) : Prop :=
  b.dependencies = none ∨ b.dependencies = some (b.flatDependencies registry)

section

variable {registry : Registry} {b : Bubble}

theorem involved_eq (h : b.Attached registry) :
    b.involved registry = b.bubbleName :: b.flatDependencies registry := by
  rw [involved]
  rcases h with h | h
  · rw [h, Option.getD_none]
  · rw [h, Option.getD_some]

/-- The names looked up for a bubble are those that it involves. -/
theorem mem_involved_iff (hr : registry.Named) (h : b.Attached registry) {n : String} :
    n ∈ b.involved registry ↔ b.Involves registry n := by
  have hflat : n ∈ b.flatDependencies registry ↔ n ≠ b.bubbleName ∧ b.Involves registry n := by
    rw [Involves, ← leads_eq_dependsOn hr]
    exact Graph.mem_closure_iff
  rw [involved_eq h, List.mem_cons, hflat]
  constructor
  · rintro (rfl | ⟨_, hn⟩)
    · exact .refl
    · exact hn
  · intro hn
    by_cases hown : n = b.bubbleName
    · exact .inl hown
    · exact .inr ⟨hown, hn⟩

theorem mem_credentials_iff (hr : registry.Named) (h : b.Attached registry) {credential : String} :
    credential ∈ b.credentials registry ↔ b.Needs registry credential := by
  have hown : ∀ n, credential ∈ ((registry.get? n).map (·.credentials)).getD [] ↔
      ∃ d, registry.get? n = some d ∧ credential ∈ d.credentials := by
    intro n
    cases registry.get? n <;> simp
  rw [credentials, mem_eraseReps_mergeSort, List.mem_flatMap]
  constructor
  · rintro ⟨n, hn, hc⟩
    obtain ⟨d, hd, hc⟩ := (hown n).1 hc
    exact ⟨n, d, (mem_involved_iff hr h).1 hn, hd, hc⟩
  · rintro ⟨n, d, hn, hd, hc⟩
    exact ⟨n, (mem_involved_iff hr h).2 hn, (hown n).2 ⟨d, hd, hc⟩⟩

theorem credentials_ascending (b : Bubble) (registry : Registry) :
    (b.credentials registry).Pairwise (· < ·) := pairwise_lt_eraseReps_mergeSort _

/-- Attaching the dependencies changes no credentials. -/
theorem credentials_withDependencies (h : b.Attached registry) :
    (b.withDependencies registry).credentials registry = b.credentials registry := by
  have hsame : (b.withDependencies registry).involved registry = b.involved registry := by
    rw [involved_eq h]
    rfl
  rw [credentials, hsame, credentials]

end

end Bubble

section

variable {registry : Registry} {bubbles : ById Bubble} {id : Int} {names : List String}

theorem get?_requiredCredentials_iff :
    (requiredCredentials registry bubbles).get? id = some names ↔
      ∃ b, bubbles.get? id = some b ∧ b.credentials registry = names ∧ names ≠ [] := by
  rw [ById.get?_eq_some_iff]
  simp only [requiredCredentials, ById.filter, ById.map, List.mem_filter, List.mem_map,
    Prod.mk.injEq, Prod.exists, ById.get?_eq_some_iff]
  constructor
  · rintro ⟨⟨k, b, hb, rfl, hnames⟩, hne⟩
    exact ⟨b, hb, hnames, by simpa using hne⟩
  · rintro ⟨b, hb, hnames, hne⟩
    exact ⟨⟨id, b, hb, rfl, hnames⟩, by simpa using hne⟩

end

/-- **The credentials of a bubble are those of all that it involves.**  For every registry that
has been filled with descriptors, whatever circles they form, and all bubbles whose dependencies
have not been attached or are those of the registry: a bubble has an entry exactly when a name
that it involves is registered with a credential; the entry is strictly ascending and has exactly
the credentials of the registered names that the bubble involves; and attaching the dependencies
leaves all entries as they are. -/
theorem requiredCredentials_rollup (ds : List Descriptor) (bubbles : ById Bubble)
    (h : ∀ b ∈ bubbles.values, b.Attached (Registry.ofDescriptors ds)) :
    let registry := Registry.ofDescriptors ds
    let required := requiredCredentials registry bubbles
    (∀ id, (required.get? id).isSome ↔ ∃ b n d, bubbles.get? id = some b ∧ b.Involves registry n ∧
        registry.get? n = some d ∧ d.credentials ≠ []) ∧
      (∀ id names, required.get? id = some names → names.Pairwise (· < ·) ∧
        ∃ b, bubbles.get? id = some b ∧ ∀ c, c ∈ names ↔ ∃ n d, b.Involves registry n ∧
          registry.get? n = some d ∧ c ∈ d.credentials) ∧
      requiredCredentials registry (bubbles.map fun b => b.withDependencies registry) =
      required := by
  intro registry required
  have hr : registry.Named := Registry.named_ofDescriptors ds
  have hattached : ∀ {id b}, bubbles.get? id = some b → b.Attached registry := fun hb =>
    h _ (List.mem_map_of_mem (ById.get?_eq_some_iff.1 hb))
  refine ⟨fun id => ?_, fun id names hnames => ?_, ?_⟩
  · rw [Option.isSome_iff_exists]
    constructor
    · rintro ⟨names, hnames⟩
      obtain ⟨b, hb, rfl, hne⟩ := get?_requiredCredentials_iff.1 hnames
      obtain ⟨c, hc⟩ := List.exists_mem_of_ne_nil _ hne
      obtain ⟨n, d, hn, hd, hcd⟩ := (Bubble.mem_credentials_iff hr (hattached hb)).1 hc
      exact ⟨b, n, d, hb, hn, hd, List.ne_nil_of_mem hcd⟩
    · rintro ⟨b, n, d, hb, hn, hd, hne⟩
      obtain ⟨c, hc⟩ := List.exists_mem_of_ne_nil _ hne
      have hneeded := (Bubble.mem_credentials_iff hr (hattached hb)).2 ⟨n, d, hn, hd, hc⟩
      exact ⟨_, get?_requiredCredentials_iff.2 ⟨b, hb, rfl, List.ne_nil_of_mem hneeded⟩⟩
  · obtain ⟨b, hb, rfl, _⟩ := get?_requiredCredentials_iff.1 hnames
    refine ⟨b.credentials_ascending registry, b, hb, fun c => ?_⟩
    exact Bubble.mem_credentials_iff hr (hattached hb)
  · have hsame : ((bubbles.map fun b => b.withDependencies registry).map fun b =>
        b.credentials registry)
        = bubbles.map fun b => b.credentials registry :=
      (ById.map_map _ _ bubbles).trans
        (ById.map_congr fun b hb => Bubble.credentials_withDependencies (h b hb))
    show requiredCredentials registry (bubbles.map _) = requiredCredentials registry bubbles
    simp only [requiredCredentials, hsame]

/-- An agent and a circle that leads back to it: a tool needs a sender, and the sender the agent. -/
def mailCircle : List Descriptor :=
  [{ name := "agent", className := "Agent", isAgent := true },
   { name := "mail", className := "Mail", dependencies := ["sender"] },
   { name := "sender", className := "Sender", dependencies := ["agent"], credentials := ["KEY"] }]

/-- A bubble of the agent to which the tool is given. -/
def mailAgent : Bubble :=
  { variableId := 1, variableName := "a", bubbleName := "agent", className := "Agent",
    parameters :=
    [{ name := "tools", value := .str "['mail']", type := .array, location := ⟨1, 10, 1, 18⟩,
                     source := .objectProperty }],
    hasAwait := false, hasActionCall := false, nodeType := .unknown, location := ⟨1, 0, 1, 20⟩ }

/-- The agent needs the credential of the sender, which only its configured tool leads to. -/
theorem requiredCredentials_mailAgent :
    let registry := Registry.ofDescriptors mailCircle
    let bubbles := ById.empty.insert 1 mailAgent
    (∀ b ∈ bubbles.values, b.Attached registry) ∧
      ∃ names, (requiredCredentials registry bubbles).get? 1 = some names ∧ "KEY" ∈ names := by
  intro registry bubbles
  have hattached : ∀ b ∈ bubbles.values, b.Attached registry := by
    intro b hb
    obtain rfl : b = mailAgent := List.mem_singleton.1 hb
    exact .inl rfl
  have hmail : mailAgent.DependsOn registry "agent" "mail" :=
    ⟨_, rfl, .inr (by decide +kernel)⟩
  have hsender : mailAgent.DependsOn registry "mail" "sender" :=
    ⟨_, rfl, .inl (by decide +kernel)⟩
  have hinvolved : mailAgent.Involves registry "sender" := (ReflTransGen.single hmail).tail hsender
  obtain ⟨hsome, hnames, -⟩ := requiredCredentials_rollup mailCircle bubbles hattached
  obtain ⟨names, hget⟩ := Option.isSome_iff_exists.1
    ((hsome 1).2 ⟨mailAgent, "sender", _, rfl, hinvolved, rfl, by decide⟩)
  obtain ⟨-, b, hb, hmem⟩ := hnames 1 names hget
  obtain rfl : mailAgent = b := Option.some.inj hb
  exact ⟨hattached, names, hget, (hmem "KEY").2 ⟨"sender", _, hinvolved, rfl, by decide⟩⟩

end FlowAnalysis
