import FlowAnalysis.Analysis.Basic
import Mathlib.Data.List.Induction
import Mathlib.Data.List.Nodup

/-!
# Places in trees

A place in a tree says which way to go from each node to the next one below it.  In a workflow a
step is the number of a branch and then the number of a node in it; in a tree of dependencies it is
the number of a dependency.  A function that gathers values from a tree into a list gives the value
at every place once (`Lists`), so the list has no value twice exactly when no value stands at two
places (`Lists.nodup_iff`).  This is so for the leaves of a workflow (`Workflow.lists_bubbleIds`)
and for the ids in a tree of dependencies (`DependencyNode.lists_uniqueIds`).
-/

namespace FlowAnalysis

/-- A place in a tree: the steps that lead to it from the root. -/
abbrev Place := List Nat

/-! ### Values at places -/

section

variable {α β : Type}

/-- A list gives the value at every place, each place once. -/
def Lists (bs : List β) (at? : Place → Option β) : Prop :=
  ∃ es : List (Place × β), es.map Prod.snd = bs ∧ (es.map Prod.fst).Nodup ∧
    ∀ p b, (p, b) ∈ es ↔ at? p = some b

namespace Place

/-- The values of a tree that is reached by a step. -/
def after (i : Nat) (at? : Place → Option β) : Place → Option β
  | [] => none
  | j :: p => if j = i then at? p else none

/-- The values of a list of trees: the first step is to one of them. -/
def among (ts : List α) (at? : α → Place → Option β) : Place → Option β
  | [] => none
  | i :: p => (ts[i]?).bind fun t => at? t p

theorem among_concat (ts : List α) (t : α) (at? : α → Place → Option β) (p : Place) :
    among (ts ++ [t]) at? p = (among ts at? p).or (after ts.length (at? t) p) := by
  cases p with
  | nil => rfl
  | cons i p =>
    rw [among, among, after, List.getElem?_append]
    split
    · next hlt => simp [Nat.ne_of_lt hlt]
    · next hge =>
      have hnone : ts[i]? = none := List.getElem?_eq_none (Nat.not_lt.1 hge)
      rw [hnone, List.getElem?_singleton]
      by_cases hi : i = ts.length
      · simp [hi]
      · have hpos : i - ts.length ≠ 0 := by omega
        simp [hi, hpos]

end Place

open Place

namespace Lists

variable {bs cs : List β} {at? at?' : Place → Option β}

theorem mem_iff (h : Lists bs at?) {b : β} : b ∈ bs ↔ ∃ p, at? p = some b := by
  obtain ⟨es, rfl, -, hes⟩ := h
  constructor
  · intro hb
    obtain ⟨⟨p, b⟩, he, rfl⟩ := List.mem_map.1 hb
    exact ⟨p, (hes p b).1 he⟩
  · rintro ⟨p, hp⟩
    exact List.mem_map.2 ⟨(p, b), (hes p b).2 hp, rfl⟩

/-- No value comes twice exactly when no value stands at two places. -/
theorem nodup_iff (h : Lists bs at?) :
    bs.Nodup ↔ ∀ p q b, at? p = some b → at? q = some b → p = q := by
  obtain ⟨es, rfl, hplaces, hes⟩ := h
  constructor
  · intro hnodup p q b hp hq
    have heq := List.inj_on_of_nodup_map hnodup ((hes p b).2 hp) ((hes q b).2 hq) rfl
    exact congrArg Prod.fst heq
  · intro honce
    refine (List.nodup_map_iff_inj_on hplaces.of_map).2 ?_
    rintro ⟨p, b⟩ hp ⟨q, c⟩ hq rfl
    rw [honce p q b ((hes p b).1 hp) ((hes q b).1 hq)]

theorem congr (h : Lists bs at?) (heq : ∀ p, at?' p = at? p) : Lists bs at?' := by
  rw [funext heq]
  exact h

theorem nil : Lists ([] : List β) fun _ => none :=
  ⟨[], rfl, List.nodup_nil, fun _ _ => by simp⟩

/-- A value at the root and nowhere else. -/
theorem root (b : β) : Lists [b] fun p => if p = [] then some b else none := by
  refine ⟨[([], b)], rfl, List.nodup_singleton _, fun p c => ?_⟩
  by_cases hp : p = []
  · simp [hp, eq_comm]
  · simp [hp]

/-- The places of a tree that is reached by a step all begin with it. -/
theorem step (i : Nat) (h : Lists bs at?) : Lists bs (after i at?) := by
  obtain ⟨es, rfl, hplaces, hes⟩ := h
  refine ⟨es.map fun e => (i :: e.1, e.2), by simp, ?_, fun p b => ?_⟩
  · have hmap : (es.map fun e => (i :: e.1, e.2)).map Prod.fst =
        (es.map Prod.fst).map (i :: ·) := by
      simp
    rw [hmap]
    exact hplaces.map List.cons_injective
  · cases p with
    | nil => simp [after]
    | cons j p =>
      rw [after]
      by_cases hj : j = i
      · simp [hj, hes]
      · simp [hj, Ne.symm hj]

/-- Two lists one after the other give the values of both, when no place has two values. -/
theorem append (h : Lists bs at?) (h' : Lists cs at?')
    (hdisjoint : ∀ p, at? p = none ∨ at?' p = none) :
    Lists (bs ++ cs) fun p => (at? p).or (at?' p) := by
  obtain ⟨es, rfl, hplaces, hes⟩ := h
  obtain ⟨fs, rfl, hplaces', hfs⟩ := h'
  refine ⟨es ++ fs, List.map_append, ?_, fun p b => ?_⟩
  · rw [List.map_append, List.nodup_append]
    refine ⟨hplaces, hplaces', ?_⟩
    rintro p hp _ hq rfl
    obtain ⟨⟨p, b⟩, he, rfl⟩ := List.mem_map.1 hp
    obtain ⟨⟨q, c⟩, hf, rfl⟩ := List.mem_map.1 hq
    have hb := (hes q b).1 he
    have hc := (hfs q c).1 hf
    rcases hdisjoint q with hnone | hnone
    · rw [hnone] at hb
      cases hb
    · rw [hnone] at hc
      cases hc
  · rw [List.mem_append, hes, hfs]
    rcases hdisjoint p with hnone | hnone <;> simp [hnone]

/-- The values of a list of trees, one tree after the other. -/
theorem flatMap {ts : List α} {f : α → List β} {at? : α → Place → Option β}
    (h : ∀ t ∈ ts, Lists (f t) (at? t)) : Lists (ts.flatMap f) (among ts at?) := by
  induction ts using List.reverseRecOn with
  | nil => exact nil.congr fun p => by cases p <;> rfl
  | append_singleton ts t ih =>
    have hbefore := ih fun u hu => h u (List.mem_append_left _ hu)
    have hlast := (h t (List.mem_append_right _ (List.mem_singleton.2 rfl))).step ts.length
    rw [List.flatMap_append, List.flatMap_singleton]
    refine (hbefore.append hlast fun p => ?_).congr (among_concat ts t at?)
    cases p with
    | nil => exact .inl rfl
    | cons i p =>
      rw [among, after]
      by_cases hi : i = ts.length
      · simp [hi]
      · simp [hi]

end Lists

end

open Place

/-! ### Workflows -/

namespace WorkflowNode

/-- The bubble that a leaf stands for. -/
def leaf? : WorkflowNode → Option Int
  | .bubble id => some id
  | _ => none

/-- The node at a place: every two steps name a branch and a node in it. -/
def at? (n : WorkflowNode) : Place → Option WorkflowNode
  | [] => some n
  | [_] => none
  | i :: j :: p => ((n.branches[i]?).bind (·[j]?)).bind fun m => at? m p

/-- The bubble that the node at a place stands for, when it is a leaf. -/
def leafAt? (n : WorkflowNode) (p : Place) : Option Int := (n.at? p).bind leaf?

theorem bubbleIdsAll_eq_flatMap (ns : List WorkflowNode) :
    bubbleIdsAll ns = ns.flatMap bubbleIds := by
  induction ns with
  | nil => rfl
  | cons n ns ih => rw [bubbleIdsAll, List.flatMap_cons, ih]

theorem bubbleIdsOf_eq_flatMap (ns : Option (List WorkflowNode)) :
    bubbleIdsOf ns = ns.toList.flatMap bubbleIdsAll := by
  cases ns with
  | none => rfl
  | some ns => simp [bubbleIdsOf]

/-- The bubbles in a node are the one it stands for and those in its branches. -/
theorem bubbleIds_eq (n : WorkflowNode) :
    n.bubbleIds = n.leaf?.toList ++ n.branches.flatMap (·.flatMap bubbleIds) := by
  simp only [← bubbleIdsAll_eq_flatMap]
  cases n with
  | bubble id => rfl
  | choice | attempt => simp [bubbleIds, leaf?, branches, bubbleIdsOf_eq_flatMap]
  | loop | code | call | parallel => simp [bubbleIds, leaf?, branches]

/-- The leaf at the root, or a leaf in the branches. -/
theorem leafAt?_eq (n : WorkflowNode) (p : Place) :
    n.leafAt? p
      = (if p = [] then n.leaf? else none).or
        (among n.branches (fun ms => among ms leafAt?) p) := by
  cases p with
  | nil => simp [leafAt?, at?, among]
  | cons i p =>
    cases p with
    | nil => simp [leafAt?, at?, among]
    | cons j p => simp [leafAt?, at?, among, Option.bind_assoc]

/-- The bubbles in a node are those at its places. -/
theorem lists_bubbleIds (n : WorkflowNode) : Lists n.bubbleIds n.leafAt? := by
  induction n using branches_induction with
  | step n ih =>
    have hbranches : Lists (n.branches.flatMap (·.flatMap bubbleIds))
        (among n.branches fun ms => among ms leafAt?) :=
      .flatMap fun ms hms => .flatMap (ih ms hms)
    rw [bubbleIds_eq]
    cases hleaf : n.leaf? with
    | none => exact hbranches.congr fun p => by simp [leafAt?_eq, hleaf]
    | some id =>
      refine ((Lists.root id).append hbranches fun p => ?_).congr fun p => by rw [leafAt?_eq, hleaf]
      cases p with
      | nil => exact .inr rfl
      | cons => exact .inl rfl

end WorkflowNode

namespace Workflow

/-- The bubble at a place of the tree: the first step is to a node of the root. -/
def leafAt? (w : Workflow) : Place → Option Int := among w.root WorkflowNode.leafAt?

theorem lists_bubbleIds (w : Workflow) : Lists w.bubbleIds w.leafAt? := by
  rw [bubbleIds, WorkflowNode.bubbleIdsAll_eq_flatMap]
  exact .flatMap fun n _ => n.lists_bubbleIds

end Workflow

/-! ### Trees of dependencies -/

namespace DependencyNode

/-- The node at a place. -/
def at? (n : DependencyNode) : Place → Option DependencyNode
  | [] => some n
  | i :: p => (n.dependencies[i]?).bind fun d => at? d p

/-- The id of the node at a place. -/
def uniqueIdAt? (n : DependencyNode) (p : Place) : Option String := (n.at? p).map (·.uniqueId)

theorem walkAll_eq_flatMap (ds : List DependencyNode) : walkAll ds = ds.flatMap walk := by
  induction ds with
  | nil => rfl
  | cons d ds ih => rw [walkAll, List.flatMap_cons, ih]

theorem map_uniqueId_walk (n : DependencyNode) :
    n.walk.map (·.uniqueId)
      = n.uniqueId :: n.dependencies.flatMap fun d => d.walk.map (·.uniqueId) := by
  obtain ⟨name, variableName, nodeType, uniqueId, variableId, dependencies⟩ := n
  rw [walk, walkAll_eq_flatMap, List.map_cons, List.map_flatMap]

/-- The ids in a tree are those at its places. -/
theorem lists_uniqueIds (n : DependencyNode) : Lists (n.walk.map (·.uniqueId)) n.uniqueIdAt? := by
  induction n using dependencies_induction with
  | step n ih =>
    rw [map_uniqueId_walk]
    refine ((Lists.root n.uniqueId).append (.flatMap ih) fun p => ?_).congr fun p => ?_
    · cases p with
      | nil => exact .inr rfl
      | cons => exact .inl rfl
    · cases p with
      | nil => rfl
      | cons i p =>
        simp only [uniqueIdAt?, at?, among, Option.map_bind]
        rfl

end DependencyNode

end FlowAnalysis
