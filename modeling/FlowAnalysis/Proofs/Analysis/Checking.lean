import FlowAnalysis.Proofs.Analysis.Places
import FlowAnalysis.Proofs.Bubble.Numbering
import FlowAnalysis.Proofs.Workflow.Leaves

/-!
# The checks decide the invariants

`Consistent` says what must hold of an analysis, in terms of the places in its trees and of the
numbers and the positions of its bubbles.  Every check finds nothing exactly when its part of
this holds, for any analysis and not only for those of scripts, so an analysis has no violation
exactly when it is consistent (`violations_eq_nil_iff_consistent`).  Only the trees of
dependencies of the bubbles of the analysis are checked: the same bubble may have a tree in the
workflow in which an id comes twice.
-/

namespace FlowAnalysis

namespace Bubble

theorem mem_countdown {k : Nat} {id : Int} : id ∈ countdown k ↔ -(k : Int) ≤ id ∧ id < 0 := by
  rw [countdown, List.mem_map]
  constructor
  · rintro ⟨i, hi, rfl⟩
    have := List.mem_range.1 hi
    omega
  · rintro ⟨hk, hneg⟩
    refine ⟨(-id - 1).toNat, List.mem_range.2 ?_, ?_⟩ <;> omega

theorem length_countdown (k : Nat) : (countdown k).length = k := by
  rw [countdown, List.length_map, List.length_range]

/-- Descending numbers are those from -1 down exactly when they are the numbers from -1 down to some
number. -/
theorem eq_countdown_iff {ids : List Int} (h : ids.Pairwise (· > ·)) :
    ids = countdown ids.length ↔ ∃ k : Nat, ∀ id, id ∈ ids ↔ -(k : Int) ≤ id ∧ id < 0 := by
  constructor
  · intro heq
    refine ⟨ids.length, fun id => ?_⟩
    rw [← mem_countdown, ← heq]
  · rintro ⟨k, hk⟩
    have hnodup : ∀ {l : List Int}, l.Pairwise (· > ·) → l.Nodup :=
      fun hl => hl.imp fun h => ne_of_gt h
    have hperm : ids.Perm (countdown k) := by
      refine (List.perm_ext_iff_of_nodup (hnodup h) (hnodup (countdown_pairwise k))).2 fun id => ?_
      rw [hk, mem_countdown]
    have heq : ids = countdown k :=
      hperm.eq_of_pairwise (fun a b _ _ hab hba => absurd hab (lt_asymm hba)) h
        (countdown_pairwise k)
    rw [heq, length_countdown]

end Bubble

namespace Analysis

variable {a : Analysis}

/-- What must hold of an analysis. -/
structure Consistent (a : Analysis) : Prop where
  /-- Every leaf is a bubble of the workflow and of the analysis. -/
  known : ∀ p id, a.workflow.leafAt? p = some id → id ∈ a.workflow.bubbles.ids ∧ id ∈ a.bubbles.ids
  /-- Every bubble of the workflow is a leaf. -/
  placed : ∀ id ∈ a.workflow.bubbles.ids, ∃ p, a.workflow.leafAt? p = some id
  /-- No bubble is a leaf at two places. -/
  once : ∀ p q id, a.workflow.leafAt? p = some id → a.workflow.leafAt? q = some id → p = q
  /-- In the tree of dependencies of a bubble of the analysis no two nodes have one id.  The bubbles
  of the workflow have trees of their own, of which nothing is asked. -/
  distinct : ∀ b ∈ a.bubbles.values, ∀ tree, b.dependencyGraph = some tree →
    ∀ p q u, tree.uniqueIdAt? p = some u → tree.uniqueIdAt? q = some u → p = q
  /-- The negative numbers of bubbles are those from -1 down to some number. -/
  numbered : ∃ k : Nat, ∀ id, id ∈ a.bubbles.ids ∧ id < 0 ↔ -(k : Int) ≤ id ∧ id < 0
  /-- Of two bubbles with negative numbers the one with the lower number starts later. -/
  ordered : ∀ b ∈ a.bubbles.values, ∀ c ∈ a.bubbles.values, c.variableId < b.variableId →
    b.variableId < 0 → b.location.startKey < c.location.startKey

/-! ### Leaves -/

theorem unknownLeaves_eq_nil_iff :
    a.unknownLeaves = [] ↔
      ∀ p id, a.workflow.leafAt? p = some id → id ∈ a.workflow.bubbles.ids ∧
      id ∈ a.bubbles.ids := by
  constructor
  · intro hnil p id hp
    have hid : id ∈ a.workflow.bubbleIds := a.workflow.lists_bubbleIds.mem_iff.2 ⟨p, hp⟩
    have hknown := List.filter_eq_nil_iff.1 (List.map_eq_nil_iff.1 hnil) id hid
    simpa [ById.contains_iff] using hknown
  · intro hknown
    have hleaf : ∀ id ∈ a.workflow.bubbleIds, id ∈ a.workflow.bubbles.ids ∧ id ∈ a.bubbles.ids := by
      intro id hid
      obtain ⟨p, hp⟩ := a.workflow.lists_bubbleIds.mem_iff.1 hid
      exact hknown p id hp
    exact unknownLeaves_eq_nil (fun id hid => (hleaf id hid).1) fun id hid => (hleaf id hid).2

theorem unreferencedBubbles_eq_nil_iff :
    a.unreferencedBubbles = [] ↔
      ∀ id ∈ a.workflow.bubbles.ids, ∃ p, a.workflow.leafAt? p = some id := by
  simp only [← a.workflow.lists_bubbleIds.mem_iff]
  refine ⟨fun hnil id hid => ?_, unreferencedBubbles_eq_nil⟩
  simpa using List.filter_eq_nil_iff.1 (List.map_eq_nil_iff.1 hnil) id hid

/-- Nothing comes again exactly when nothing comes twice and nothing has been seen before. -/
theorem repeated_eq_nil_iff {α : Type} [BEq α] [LawfulBEq α] {as seen : List α} :
    repeated seen as = [] ↔ as.Nodup ∧ ∀ a ∈ as, a ∉ seen := by
  refine ⟨fun hnil => ?_, fun h => repeated_eq_nil h.1 h.2⟩
  induction as generalizing seen with
  | nil => simp
  | cons a as ih =>
    rw [repeated] at hnil
    split at hnil
    · cases hnil
    · next hseen =>
      obtain ⟨hnodup, hrest⟩ := ih hnil
      have ha : a ∉ as := fun ha => hrest a ha List.mem_cons_self
      refine ⟨List.nodup_cons.2 ⟨ha, hnodup⟩, fun b hb => ?_⟩
      rcases List.mem_cons.1 hb with rfl | hb
      · simpa using hseen
      · exact fun hm => hrest b hb (List.mem_cons_of_mem _ hm)

theorem repeatedLeaves_eq_nil_iff :
    a.repeatedLeaves = [] ↔
      ∀ p q id, a.workflow.leafAt? p = some id → a.workflow.leafAt? q = some id → p = q := by
  rw [repeatedLeaves, List.map_eq_nil_iff, repeated_eq_nil_iff,
    a.workflow.lists_bubbleIds.nodup_iff]
  simp

/-! ### Dependencies -/

theorem repeatedDependencies_eq_nil_iff :
    a.repeatedDependencies = [] ↔
      ∀ b ∈ a.bubbles.values, ∀ tree, b.dependencyGraph = some tree →
        ∀ p q u, tree.uniqueIdAt? p = some u → tree.uniqueIdAt? q = some u → p = q := by
  rw [repeatedDependencies, List.flatMap_eq_nil_iff]
  simp only [ById.values, List.forall_mem_map]
  refine forall_congr' fun e => forall_congr' fun _ => ?_
  cases e.2.dependencyGraph with
  | none => simp
  | some tree => simp [repeated_eq_nil_iff, tree.lists_uniqueIds.nodup_iff]

/-! ### The numbers of anonymous bubbles -/

/-- The anonymous bubbles, from the highest number down. -/
def anonymousDown (a : Analysis) : List Bubble := (a.bubbles.values.filter (·.isAnonymous)).reverse

theorem anonymousInOrder_eq (a : Analysis) :
    a.anonymousInOrder
      = a.anonymousDown.reverse.mergeSort fun b c => !c.location.startsBefore b.location := by
  rw [anonymousDown, List.reverse_reverse]
  rfl

theorem mem_anonymousDown {b : Bubble} :
    b ∈ a.anonymousDown ↔ b ∈ a.bubbles.values ∧ b.variableId < 0 := by
  simp [anonymousDown, Bubble.isAnonymous]

section

variable (keyed : Bubble.Keyed a.bubbles)

include keyed

theorem anonymousDown_pairwise :
    a.anonymousDown.Pairwise fun b c => c.variableId < b.variableId := by
  rw [anonymousDown, List.pairwise_reverse]
  refine List.Pairwise.filter _ ?_
  rw [ById.values, List.pairwise_map]
  refine a.bubbles.ascending.imp_of_mem fun {e f} he hf hlt => ?_
  rw [keyed e he, keyed f hf]
  exact hlt

theorem mem_map_anonymousDown (id : Int) :
    id ∈ a.anonymousDown.map (·.variableId) ↔ id ∈ a.bubbles.ids ∧ id < 0 := by
  rw [List.mem_map, ById.mem_ids_iff]
  constructor
  · rintro ⟨b, hb, rfl⟩
    obtain ⟨hv, hneg⟩ := mem_anonymousDown.1 hb
    exact ⟨⟨b, keyed.mem_entries hv⟩, hneg⟩
  · rintro ⟨⟨b, hb⟩, hneg⟩
    have hid : b.variableId = id := keyed _ hb
    exact ⟨b, mem_anonymousDown.2 ⟨List.mem_map.2 ⟨_, hb, rfl⟩, hid ▸ hneg⟩, hid⟩

/-- The numbers are those from -1 down exactly when they are the negative
numbers down to some number. -/
theorem map_anonymousDown_eq_countdown_iff :
    a.anonymousDown.map (·.variableId) = Bubble.countdown a.anonymousDown.length ↔
      ∃ k : Nat, ∀ id, id ∈ a.bubbles.ids ∧ id < 0 ↔ -(k : Int) ≤ id ∧ id < 0 := by
  have hdesc : (a.anonymousDown.map (·.variableId)).Pairwise (· > ·) :=
    List.pairwise_map.2 (anonymousDown_pairwise keyed)
  have hiff := Bubble.eq_countdown_iff hdesc
  rw [List.length_map] at hiff
  simpa only [mem_map_anonymousDown keyed] using hiff

/-- Each anonymous bubble starts after the one before it exactly when a
lower number starts later. -/
theorem anonymousDown_pairwise_start_iff :
    (a.anonymousDown.Pairwise fun b c => b.location.startKey < c.location.startKey) ↔
      ∀ b ∈ a.bubbles.values, ∀ c ∈ a.bubbles.values, c.variableId < b.variableId →
        b.variableId < 0 → b.location.startKey < c.location.startKey := by
  have hdesc := anonymousDown_pairwise keyed
  constructor
  · intro hstarts b hb c hc hlt hneg
    have hb' : b ∈ a.anonymousDown := mem_anonymousDown.2 ⟨hb, hneg⟩
    have hc' : c ∈ a.anonymousDown := mem_anonymousDown.2 ⟨hc, hlt.trans hneg⟩
    have hne : b ≠ c := by
      rintro rfl
      exact lt_irrefl _ hlt
    rcases Script.Node.or_of_pairwise (hstarts.and hdesc) hb' hc' hne with h | h
    · exact h.1
    · exact absurd h.2 (lt_asymm hlt)
  · intro hordered
    refine hdesc.imp_of_mem fun {b c} hb hc hlt => ?_
    obtain ⟨hb, hneg⟩ := mem_anonymousDown.1 hb
    exact hordered b hb c (mem_anonymousDown.1 hc).1 hlt hneg

/-- No anonymous bubble is found misnumbered exactly when they are numbered from -1 down in the
order of their positions. -/
theorem misnumbered_anonymousInOrder_eq_nil_iff :
    misnumbered (-1) a.anonymousInOrder = [] ↔
      (∃ k : Nat, ∀ id, id ∈ a.bubbles.ids ∧ id < 0 ↔ -(k : Int) ≤ id ∧ id < 0) ∧
        ∀ b ∈ a.bubbles.values, ∀ c ∈ a.bubbles.values, c.variableId < b.variableId →
          b.variableId < 0 → b.location.startKey < c.location.startKey := by
  have hlength : a.anonymousInOrder.length = a.anonymousDown.length := by
    rw [anonymousInOrder_eq, List.length_mergeSort, List.length_reverse]
  rw [misnumbered_eq_nil_iff_descending, hlength, anonymousInOrder_eq,
    map_variableId_mergeSort_iff (anonymousDown_pairwise keyed),
    map_anonymousDown_eq_countdown_iff keyed, anonymousDown_pairwise_start_iff keyed]

end

/-! ### All checks -/

/-- **An analysis has no violation exactly when it is consistent.**  This holds of every analysis
whose bubbles stand under their own ids, whatever its trees, tables and positions are. -/
theorem violations_eq_nil_iff_consistent (a : Analysis) (keyed : Bubble.Keyed a.bubbles) :
    a.violations = [] ↔ a.Consistent := by
  have hparts : a.violations = [] ↔ a.unknownLeaves = [] ∧ a.unreferencedBubbles = [] ∧
      a.repeatedLeaves = [] ∧ a.repeatedDependencies = [] ∧
      misnumbered (-1) a.anonymousInOrder = [] := by
    simp [violations, List.append_eq_nil_iff]
  rw [hparts, unknownLeaves_eq_nil_iff, unreferencedBubbles_eq_nil_iff, repeatedLeaves_eq_nil_iff,
    repeatedDependencies_eq_nil_iff, misnumbered_anonymousInOrder_eq_nil_iff keyed]
  constructor
  · rintro ⟨hknown, hplaced, honce, hdistinct, hnumbered, hordered⟩
    exact ⟨hknown, hplaced, honce, hdistinct, hnumbered, hordered⟩
  · rintro ⟨hknown, hplaced, honce, hdistinct, hnumbered, hordered⟩
    exact ⟨hknown, hplaced, honce, hdistinct, hnumbered, hordered⟩

/-- A bubble with a number on a line. -/
def bubbleOn (id : Int) (line : Nat) : Bubble :=
  { variableId := id, variableName := "b", bubbleName := "a", className := "A", parameters := [],
    hasAwait := false, hasActionCall := false, nodeType := .service,
    location := ⟨line, 4, line, 11⟩,
    dependencyGraph := some ⟨"a", none, .service, "1", id,
      [⟨"d", none, .tool, "1.d#1", 1, []⟩, ⟨"d", none, .tool, "1.d#2", 2, []⟩]⟩ }

/-- Three bubbles, one of them in each branch of a choice.  The first anonymous one is on line four,
the second one on the given line. -/
def branching (line : Nat) : Analysis :=
  let bubbles := ((ById.empty.insert 3 (bubbleOn 3 2)).insert (-1) (bubbleOn (-1) 4)).insert (-2)
    (bubbleOn (-2) line)
  let tree := [.bubble 3, .choice ⟨3, 0, 8, 1⟩ "x" [.bubble (-1)]
    (some [.attempt ⟨5, 0, 7, 1⟩ [] (some [.bubble (-2)]) none]) false false]
  ⟨bubbles, ⟨tree, bubbles⟩, .empty⟩

/-- With the second anonymous bubble on a later line the analysis is consistent; with both at one
position it has a violation. -/
theorem consistent_branching :
    Bubble.Keyed (branching 6).bubbles ∧ (branching 6).Consistent ∧
      Bubble.Keyed (branching 4).bubbles ∧ (branching 4).violations ≠ [] := by
  have hentries : ∀ line, (branching line).bubbles.entries
      = [(-2, bubbleOn (-2) line), (-1, bubbleOn (-1) 4), (3, bubbleOn 3 2)] := fun _ => rfl
  have hkeyed : ∀ line, Bubble.Keyed (branching line).bubbles := by
    intro line
    rw [Bubble.Keyed, hentries]
    simp [bubbleOn]
  have hnone : (branching 6).violations = [] := by
    have hsorted : (branching 6).anonymousInOrder = [bubbleOn (-1) 4, bubbleOn (-2) 6] := by
      rw [anonymousInOrder, ById.values, hentries]
      simp [List.mergeSort, bubbleOn, Bubble.isAnonymous, Location.startsBefore]
    rw [violations, hsorted]
    decide +kernel
  refine ⟨hkeyed 6, (violations_eq_nil_iff_consistent _ (hkeyed 6)).1 hnone, hkeyed 4,
    fun hnil => ?_⟩
  have hordered := ((violations_eq_nil_iff_consistent _ (hkeyed 4)).1 hnil).ordered
  rw [ById.values, hentries] at hordered
  have hlt : (bubbleOn (-1) 4).location.startKey < (bubbleOn (-2) 4).location.startKey :=
    hordered _ (by simp) _ (by simp) (by decide) (by decide)
  exact lt_irrefl _ hlt

/-- A bubble without dependencies that has, in the workflow, two with one id. -/
def doubledGraph : Analysis :=
  let bubble : Bubble := { bubbleOn 1 1 with dependencyGraph := none }
  let tool : DependencyNode := ⟨"x", none, .tool, "1.x#1", 2, []⟩
  let tree : DependencyNode := ⟨"a", none, .service, "1", 1, [tool, tool]⟩
  ⟨ById.empty.insert 1 bubble,
    ⟨[.bubble 1], ById.empty.insert 1 { bubble with dependencyGraph := some tree }⟩, .empty⟩

/-- **The trees of dependencies in the workflow are not checked**: two nodes of one have one id,
and there is no violation. -/
theorem violations_doubledGraph :
    Bubble.Keyed doubledGraph.bubbles ∧ doubledGraph.violations = [] ∧
      ∃ b ∈ doubledGraph.workflow.bubbles.values, ∃ tree, b.dependencyGraph = some tree ∧
        ∃ p q u, p ≠ q ∧ tree.uniqueIdAt? p = some u ∧ tree.uniqueIdAt? q = some u := by
  refine ⟨?_, ?_, ?_⟩
  · have hentries : doubledGraph.bubbles.entries
        = [(1, { bubbleOn 1 1 with dependencyGraph := none })] := rfl
    rw [Bubble.Keyed, hentries]
    simp [bubbleOn]
  · have hsorted : doubledGraph.anonymousInOrder = [] := List.mergeSort_nil
    rw [violations, hsorted]
    decide +kernel
  · exact ⟨_, List.mem_singleton_self _, _, rfl, [0], [1], "1.x#1", by decide, rfl, rfl⟩

end Analysis

end FlowAnalysis
