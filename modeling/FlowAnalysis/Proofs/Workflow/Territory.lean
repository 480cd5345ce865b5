import FlowAnalysis.Proofs.Script.Construction
import FlowAnalysis.Proofs.Workflow.Agenda

/-!
# Where items stand

An item stands at a node, or it enters a callable.  What an item leads to stands below its node, at
nodes that are apart from each other (`spread_leads`), and so do the arguments of a construction
(`spread_argumentParts`) and what the body of a callable leads to (`spread_ofBody`).  So one turn
after the other the builder looks at ever smaller parts of the script, and at no part twice.
-/

namespace FlowAnalysis

open Script

namespace Script.Node

/-- Nodes that lie in a node, apart from each other. -/
structure Spread (n : Node) (ms : List Node) : Prop where
  below : ∀ m ∈ ms, m ∈ n.descendants
  apart : ms.Pairwise Apart

namespace Spread

variable {n m : Node} {ms : List Node}

theorem nil (n : Node) : Spread n [] := ⟨fun _ h => absurd h List.not_mem_nil, .nil⟩

theorem self (n : Node) : Spread n [n] :=
  ⟨fun _ h => List.mem_singleton.1 h ▸ self_mem_descendants n, List.pairwise_singleton _ _⟩

theorem mono (h : Spread m ms) (hm : m ∈ n.descendants) : Spread n ms :=
  ⟨fun k hk => mem_descendants_trans hm (h.below k hk), h.apart⟩

theorem parts (h : Placed n) : Spread n n.parts where
  below := fun _ hm => mem_descendants_of_mem_children (mem_children_of_mem_parts hm)
  apart := (h.ordered.filter _).imp Or.inl

theorem filterMap_snd_cons (r : Role) (o : Option Node) (fs : List (Role × Option Node)) :
    ((r, o) :: fs).filterMap Prod.snd = o.toList ++ fs.filterMap Prod.snd := by
  cases o <;> rfl

/-- Nodes in children of different roles. -/
theorem fields (h : Placed n) (fs : List (Role × Option Node))
    (hfs : ∀ f ∈ fs, ∀ m ∈ f.2, ∃ c, n.child? f.1 = some c ∧ m ∈ c.descendants)
    (hroles : (fs.map Prod.fst).Nodup) : Spread n (fs.filterMap Prod.snd) where
  below := by
    intro m hm
    obtain ⟨f, hf, hfm⟩ := List.mem_filterMap.1 hm
    obtain ⟨c, hc, hmc⟩ := hfs f hf m hfm
    exact mem_descendants_trans (mem_descendants_of_mem_children (mem_children_of_child? hc)) hmc
  apart := by
    rw [List.pairwise_filterMap]
    refine (List.pairwise_map.1 hroles).imp_of_mem fun {f g} hf hg hne m hm k hk => ?_
    obtain ⟨c, hc, hmc⟩ := hfs f hf m hm
    obtain ⟨d, hd, hkd⟩ := hfs g hg k hk
    have hcm := mem_children_of_child? hc
    have hdm := mem_children_of_child? hd
    have hcd : c ≠ d := by
      rintro rfl
      exact hne (Option.some.inj ((role_of_child? hc).symm.trans (role_of_child? hd)))
    exact (apart_of_ne h.ordered hcm hdm hcd).mono
      ((h.of_mem_children hcm).within_of_mem_descendants hmc)
      ((h.of_mem_children hdm).within_of_mem_descendants hkd)

end Spread

end Script.Node

namespace Workflow

open Node

variable {t : CallTable} {n e : Node}

theorem spread_argumentParts (h : Placed n) : Spread n (argumentParts n) := by
  rw [argumentParts]
  cases ha : n.child? .arguments with
  | none => exact .nil n
  | some a =>
    have ham := mem_children_of_child? ha
    exact (Spread.parts (h.of_mem_children ham)).mono (mem_descendants_of_mem_children ham)

/-- The arguments of a call behind any parentheses and `await`. -/
theorem spread_argumentParts_stripAwait (h : Placed n) : Spread n (argumentParts n.stripAwait) :=
  have hm := stripAwait_mem_descendants n
  (spread_argumentParts (h.of_mem_descendants hm)).mono hm

theorem parallelArgument?_mem_descendants {a : Node} (h : n.parallelArgument? = some a) :
    a ∈ n.descendants := by
  refine mem_descendants_trans (stripAwait_mem_descendants n) ?_
  simp only [parallelArgument?, Option.bind_eq_bind] at h
  split at h
  · obtain ⟨f, _, h⟩ := Option.bind_eq_some_iff.1 h
    split at h
    · obtain ⟨g, hg, h⟩ := Option.bind_eq_some_iff.1 h
      exact mem_descendants_trans (mem_descendants_of_mem_children (mem_children_of_child? hg))
        (mem_descendants_of_mem_children (mem_children_of_part? h))
    · cases h
  · cases h

/-- The value that a statement computes: that of a declarator, the right side of an assignment,
or the expression itself. -/
theorem computed?_cases {binding : Option String} (h : computed? n = some (e, binding)) :
    (∃ d ∈ n.parts, d.kind = .variableDeclarator ∧ d.child? .value = some e) ∨
      (∃ a, n.part? = some a ∧ a.kind = .assignmentExpression ∧ a.child? .right = some e) ∨
      n.part? = some e := by
  rw [computed?] at h
  split at h
  · rw [declaredValue?] at h
    split at h
    · next d hd =>
      obtain ⟨v, hv, he⟩ := Option.map_eq_some_iff.1 h
      cases he
      obtain ⟨hm, hk⟩ := List.mem_filter.1 (hd ▸ List.mem_singleton.2 rfl)
      exact .inl ⟨d, hm, by simpa using hk, hv⟩
    · cases h
  · next a ha =>
    have hpart : a = n.part? := by
      rw [Statement.of] at ha
      split at ha <;> cases ha
      rfl
    obtain ⟨m, hm, h⟩ := Option.bind_eq_some_iff.1 h
    rw [hpart] at hm
    rw [assignedValue?] at h
    split at h
    · next hk =>
      obtain ⟨v, hv, he⟩ := Option.map_eq_some_iff.1 h
      cases he
      exact .inr (.inl ⟨m, hm, by simpa using hk, hv⟩)
    · cases h
      exact .inr (.inr hm)
  · next a ha =>
    have hpart : a = n.part? := by
      rw [Statement.of] at ha
      split at ha <;> cases ha
      rfl
    obtain ⟨m, hm, he⟩ := Option.map_eq_some_iff.1 h
    cases he
    exact .inr (.inr (hpart ▸ hm))
  · cases h

/-- The value that a statement computes is below the statement. -/
theorem computed?_mem_descendants {binding : Option String} (h : computed? n = some (e, binding)) :
    e ∈ n.descendants := by
  rcases computed?_cases h with ⟨d, hd, _, he⟩ | ⟨a, ha, _, he⟩ | he
  · exact mem_descendants_trans (mem_descendants_of_mem_children (mem_children_of_mem_parts hd))
      (mem_descendants_of_mem_children (mem_children_of_child? he))
  · exact mem_descendants_trans (mem_descendants_of_mem_children (mem_children_of_part? ha))
      (mem_descendants_of_mem_children (mem_children_of_child? he))
  · exact mem_descendants_of_mem_children (mem_children_of_part? he)

namespace Item

/-- The node at which an item stands. -/
def node? : Item → Option Node
  | scan n | task n | value n _ | statement n | block n => some n
  | enter _ _ => none

/-- The nodes at which items stand. -/
def nodes (is : List Item) : List Node := is.filterMap node?

@[simp]
theorem nodes_append (is js : List Item) : nodes (is ++ js) = nodes is ++ nodes js :=
  List.filterMap_append

@[simp]
theorem nodes_map_scan (ns : List Node) : nodes (ns.map scan) = ns := by
  rw [nodes, List.filterMap_map]
  exact List.filterMap_some

@[simp]
theorem nodes_map_task (ns : List Node) : nodes (ns.map task) = ns := by
  rw [nodes, List.filterMap_map]
  exact List.filterMap_some

@[simp]
theorem nodes_map_statement (ns : List Node) : nodes (ns.map statement) = ns := by
  rw [nodes, List.filterMap_map]
  exact List.filterMap_some

@[simp]
theorem nodes_ofCall (e : Node) (name : String) (c : Callable) :
    nodes (ofCall e name c) = argumentParts e.stripAwait := by
  rw [ofCall, nodes_append, nodes_map_scan]
  exact List.append_nil _

@[simp]
theorem nodes_ofClause (n : Node) (r : Role) : nodes (ofClause n r) = (n.child? r).toList := by
  rw [ofClause]
  cases n.child? r <;> rfl

@[simp]
theorem nodes_ofBranch (b : Option Node) : nodes (ofBranch b) = b.toList := by
  rw [ofBranch]
  cases b <;> rfl

/-- The value of an item is the value of its statement, and the callable of an
item is the one of its name. -/
def Fits (t : CallTable) : Item → Prop
  | value n e => e = n ∨ ∃ binding, computed? n = some (e, binding)
  | enter name c => t.get? name = some c
  | _ => True

theorem spread_ofStatement (h : Placed n) : Spread n (nodes (ofStatement n)) := by
  -- What a statement leads to lies in children of different roles: in a child itself, in its
  -- part or in its own child.
  have child : ∀ {r : Role}, ∀ m ∈ n.child? r, ∃ c, n.child? r = some c ∧ m ∈ c.descendants :=
    fun m hm => ⟨m, hm, self_mem_descendants m⟩
  have childPart : ∀ {r : Role}, ∀ m ∈ (n.child? r).bind (·.part?),
      ∃ c, n.child? r = some c ∧ m ∈ c.descendants := by
    intro r m hm
    obtain ⟨c, hc, hm⟩ := Option.bind_eq_some_iff.1 hm
    exact ⟨c, hc, mem_descendants_of_mem_children (mem_children_of_part? hm)⟩
  have childChild : ∀ {r r' : Role}, ∀ m ∈ (n.child? r).bind (·.child? r'),
      ∃ c, n.child? r = some c ∧ m ∈ c.descendants := by
    intro r r' m hm
    obtain ⟨c, hc, hm⟩ := Option.bind_eq_some_iff.1 hm
    exact ⟨c, hc, mem_descendants_of_mem_children (mem_children_of_child? hm)⟩
  rw [ofStatement]
  split
  · next heq =>
    rw [Statement.of] at heq
    split at heq <;> cases heq
    have :=
      Spread.fields h [(.condition, n.child? .condition), (.consequence, n.child? .consequence),
      (.alternative, (n.child? .alternative).bind (·.part?))]
      (by simpa using ⟨child, child, childPart⟩)
      (by simp)
    simpa [Spread.filterMap_snd_cons] using this
  · next heq =>
    rw [Statement.of] at heq
    split at heq <;> cases heq
    have :=
      Spread.fields h [(.initializer, n.child? .initializer), (.condition, n.child? .condition),
      (.increment, n.child? .increment), (.body, n.child? .body)]
      (by simpa using ⟨child, child, child, child⟩) (by simp)
    simpa [Spread.filterMap_snd_cons] using this
  · next heq =>
    rw [Statement.of] at heq
    split at heq <;> cases heq
    have := Spread.fields h [(.right, n.child? .right), (.body, n.child? .body)]
      (by simpa using ⟨child, child⟩) (by simp)
    simpa [Spread.filterMap_snd_cons] using this
  · next heq =>
    have := Spread.fields h [(.condition, n.child? .condition), (.body, n.child? .body)]
      (by simpa using ⟨child, child⟩) (by simp)
    rw [Statement.of] at heq
    split at heq <;> cases heq <;> simpa [Spread.filterMap_snd_cons] using this
  · next heq =>
    rw [Statement.of] at heq
    split at heq <;> cases heq
    have := Spread.fields h [(.body, n.child? .body),
      (.handler, (n.child? .handler).bind (·.child? .body)),
      (.finalizer, (n.child? .finalizer).bind (·.child? .body))]
      (by simpa using ⟨child, childChild, childChild⟩) (by simp)
    simpa [Spread.filterMap_snd_cons] using this
  · rw [nodes_map_statement]
    exact .parts h
  · split
    · exact .self n
    · rw [nodes_map_scan]
      exact .parts h

/-- What an item leads to stands below its node, apart from each other. -/
theorem spread_leads {i : Item} (hi : i.Fits t) (hn : i.node? = some n) (h : Placed n) :
    Spread n (nodes (i.leads t)) := by
  cases i with
  | scan m =>
    obtain rfl := Option.some.inj hn
    rw [leads]
    split
    · rw [nodes_ofCall]
      exact spread_argumentParts_stripAwait h
    · rw [nodes_map_scan]
      exact .parts h
  | task m =>
    obtain rfl := Option.some.inj hn
    rw [leads]
    split
    · rw [nodes_ofCall]
      exact spread_argumentParts_stripAwait h
    · exact .self m
  | value m e =>
    obtain rfl := Option.some.inj hn
    have he : e ∈ m.descendants := by
      rcases hi with rfl | ⟨_, hc⟩
      · exact self_mem_descendants e
      · exact computed?_mem_descendants hc
    -- A value that is neither a call nor a list of tasks sends the builder
    -- back to the whole statement.
    rw [leads]
    split
    · rw [nodes_ofCall]
      exact (spread_argumentParts_stripAwait (h.of_mem_descendants he)).mono he
    · rw [ofValue]
      split
      · next a ha =>
        have ham := mem_descendants_trans he (parallelArgument?_mem_descendants ha)
        have hparts := (Spread.parts (h.of_mem_descendants ham)).mono ham
        split
        · rwa [nodes_map_task]
        · rwa [nodes_map_scan]
      · rw [nodes_map_scan]
        exact .parts h
  | statement m =>
    obtain rfl := Option.some.inj hn
    exact spread_ofStatement h
  | block m =>
    obtain rfl := Option.some.inj hn
    rw [leads]
    split
    · rw [nodes_map_statement]
      exact .parts h
    · exact .self m
  | enter name c => cases hn

theorem spread_ofBody {c : Callable} {b : Node} (hb : c.body = some b) (h : Placed b) :
    Spread b (nodes (ofBody c)) := by
  rw [ofBody, hb]
  dsimp only
  split
  · rw [nodes_map_statement]
    exact .parts h
  · exact .self b

theorem fits_of_mem_map_scan {i : Item} {ns : List Node} (h : i ∈ ns.map scan) : i.Fits t := by
  obtain ⟨m, _, rfl⟩ := List.mem_map.1 h
  trivial

theorem fits_of_mem_ofCall {i : Item} {name : String} {c : Callable}
    (hk : known? t e = some (name, c)) (h : i ∈ ofCall e name c) : i.Fits t := by
  rcases List.mem_append.1 h with h | h
  · exact fits_of_mem_map_scan h
  · obtain rfl := List.mem_singleton.1 h
    exact get?_of_known? hk

theorem fits_of_mem_ofStatement {i : Item} (h : i ∈ ofStatement n) : i.Fits t := by
  have clause : ∀ {r : Role}, i ∈ ofClause n r → i.Fits t := by
    intro r h
    obtain ⟨m, _, rfl⟩ := Option.map_eq_some_iff.1 (Option.mem_toList.1 h)
    trivial
  have branch : ∀ {b : Option Node}, i ∈ ofBranch b → i.Fits t := by
    intro b h
    obtain ⟨m, _, rfl⟩ := Option.map_eq_some_iff.1 (Option.mem_toList.1 h)
    trivial
  rw [ofStatement] at h
  split at h
  · simp only [List.mem_append] at h
    rcases h with h | h | h
    · exact clause h
    · exact branch h
    · exact branch h
  · simp only [List.mem_append] at h
    rcases h with h | h | h | h
    · exact clause h
    · exact clause h
    · exact clause h
    · exact branch h
  · exact (List.mem_append.1 h).elim clause branch
  · exact (List.mem_append.1 h).elim clause branch
  · simp only [List.mem_append] at h
    rcases h with h | h | h <;> exact branch h
  · obtain ⟨m, _, rfl⟩ := List.mem_map.1 h
    trivial
  · split at h
    · next hc =>
      obtain rfl := List.mem_singleton.1 h
      exact .inr ⟨_, hc⟩
    · exact fits_of_mem_map_scan h

theorem fits_of_mem_leads {i j : Item} (h : j ∈ i.leads t) : j.Fits t := by
  cases i with
  | scan m =>
    rw [leads] at h
    split at h
    · next hk =>
      split at hk
      · exact fits_of_mem_ofCall hk h
      · cases hk
    · exact fits_of_mem_map_scan h
  | task m =>
    rw [leads] at h
    split at h
    · next hk => exact fits_of_mem_ofCall hk h
    · obtain rfl := List.mem_singleton.1 h
      trivial
  | value m e =>
    rw [leads] at h
    split at h
    · next hk => exact fits_of_mem_ofCall hk h
    · rw [ofValue] at h
      split at h
      · split at h
        · obtain ⟨k, _, rfl⟩ := List.mem_map.1 h
          trivial
        · exact fits_of_mem_map_scan h
      · exact fits_of_mem_map_scan h
  | statement m => exact fits_of_mem_ofStatement h
  | block m =>
    rw [leads] at h
    split at h
    · obtain ⟨k, _, rfl⟩ := List.mem_map.1 h
      trivial
    · obtain rfl := List.mem_singleton.1 h
      trivial
  | enter name c => cases h

theorem fits_of_mem_ofBody {c : Callable} {i : Item} (h : i ∈ ofBody c) : i.Fits t := by
  rw [ofBody] at h
  split at h
  · split at h
    · obtain ⟨k, _, rfl⟩ := List.mem_map.1 h
      trivial
    · obtain rfl := List.mem_singleton.1 h
      exact .inl rfl
  · cases h

theorem mem_descendants_of_expression? {i : Item} (hi : i.Fits t) (hn : i.node? = some n)
    (he : i.expression? = some e) : e ∈ n.descendants := by
  cases i with
  | scan m | task m =>
    cases hn
    cases he
    exact self_mem_descendants _
  | value m v =>
    cases hn
    cases he
    rcases hi with rfl | ⟨_, hc⟩
    · exact self_mem_descendants _
    · exact computed?_mem_descendants hc
  | statement m | block m | enter name c => cases he

theorem exists_node?_of_expression? {i : Item} (hi : i.Fits t) (he : i.expression? = some e) :
    ∃ n, i.node? = some n ∧ e ∈ n.descendants := by
  have hn : ∃ n, i.node? = some n := by
    cases i with
    | scan m | task m | value m v => exact ⟨m, rfl⟩
    | statement m | block m | enter name c => cases he
  obtain ⟨n, hn⟩ := hn
  exact ⟨n, hn, mem_descendants_of_expression? hi hn he⟩

/-- An expression that is a bubble stands at the node of an item. -/
theorem exists_node?_of_claim? {s : Setting} {used : List Int} {i : Item} {id : Int}
    {c : Construction} (h : i.claim? s used = some (id, c)) :
    ∃ n e, i.node? = some n ∧ i.expression? = some e ∧ Construction.of? e = some c := by
  obtain ⟨e, he, hfind⟩ := Option.bind_eq_some_iff.1 h
  cases i with
  | scan m | task m | value m v => exact ⟨m, e, rfl, he, of?_of_findBubble? hfind⟩
  | statement m | block m | enter name c => cases he

end Item

/-! ### Turns -/

/-- The bodies of the callables lie in a script, apart from each other. -/
structure Housed (root : Node) (t : CallTable) : Prop where
  placed : ∀ {name c b}, t.get? name = some c → c.body = some b → b ∈ root.descendants ∧ Placed b
  apart : ∀ {name name' c c' b b'}, name ≠ name' → t.get? name = some c → t.get? name' = some c' →
    c.body = some b → c'.body = some b' → Apart b b'

/-- An item stands in a script. -/
structure Item.In (root : Node) (t : CallTable) (i : Item) : Prop where
  fits : i.Fits t
  placed : ∀ n ∈ i.node?, n ∈ root.descendants ∧ Placed n

namespace Job

open Item

variable {s : Setting} {p : Progress} {j k : Job} {root : Node}

@[simp]
theorem map_item_jobs (stack : List String) (is : List Item) : (jobs stack is).map item = is := by
  rw [jobs, List.map_map]
  exact List.map_id _

/-- What a turn at a node leads to stands below the node, apart from each other. -/
theorem spread_step (hj : j.item.Fits s.calls) (hn : j.item.node? = some n) (h : Placed n) :
    Spread n (nodes ((j.step s p).jobs.map item)) := by
  cases hc : j.item.claim? s p.used with
  | some r =>
    obtain ⟨id, c⟩ := r
    obtain ⟨m, e, hm, he, hof⟩ := exists_node?_of_claim? hc
    have hen := mem_descendants_of_expression? hj hn he
    have hxn := mem_descendants_trans hen (wraps_of_of? hof).mem_descendants
    rw [step_of_claim hc, map_item_jobs, nodes_map_scan]
    exact (spread_argumentParts (h.of_mem_descendants hxn)).mono hxn
  | none =>
    rw [step_of_claim?_eq_none hc ?_, map_item_jobs]
    · exact spread_leads hj hn h
    · intro name c he
      rw [he] at hn
      cases hn

theorem mem_of_mem_jobs {stack : List String} {is : List Item} (h : k ∈ jobs stack is) :
    k.stack = stack ∧ k.item ∈ is := by
  obtain ⟨i, hi, rfl⟩ := List.mem_map.1 h
  exact ⟨rfl, hi⟩

theorem fits_step (hk : k ∈ (j.step s p).jobs) : k.item.Fits s.calls := by
  have hd := j.does_step s p
  generalize j.step s p = st at hk hd
  cases hd with
  | claim => exact fits_of_mem_map_scan (mem_of_mem_jobs hk).2
  | enter => exact fits_of_mem_ofBody (mem_of_mem_jobs hk).2
  | pass => cases hk
  | follow => exact fits_of_mem_leads (mem_of_mem_jobs hk).2

/-- What a turn leads to stands in the script. -/
theorem in_step (hh : Housed root s.calls) (hj : j.item.In root s.calls)
    (hk : k ∈ (j.step s p).jobs) : k.item.In root s.calls := by
  refine ⟨fits_step hk, fun m hm => ?_⟩
  have hnodes : m ∈ nodes ((j.step s p).jobs.map item) :=
    List.mem_filterMap.2 ⟨k.item, List.mem_map_of_mem hk, hm⟩
  cases hn : j.item.node? with
  | some n =>
    obtain ⟨hin, hp⟩ := hj.placed n hn
    have hmn := (spread_step hj.fits hn hp).below m hnodes
    exact ⟨mem_descendants_trans hin hmn, hp.of_mem_descendants hmn⟩
  | none =>
    -- Only a callable has no node, and then its body is entered.
    obtain ⟨stack, i⟩ := j
    cases i with
    | enter name c =>
      rw [step_enter] at hnodes
      split at hnodes
      · rw [map_item_jobs] at hnodes
        cases hb : c.body with
        | none =>
          rw [ofBody, hb] at hnodes
          cases hnodes
        | some b =>
          obtain ⟨hin, hp⟩ := hh.placed hj.fits hb
          have hmb := (spread_ofBody hb hp).below m hnodes
          exact ⟨mem_descendants_trans hin hmb, hp.of_mem_descendants hmb⟩
      · cases hnodes
    | _ => cases hn

end Job

end Workflow

end FlowAnalysis
