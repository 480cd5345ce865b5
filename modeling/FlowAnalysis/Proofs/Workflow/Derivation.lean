import FlowAnalysis.Proofs.Workflow.Territory

/-!
# How the nodes of a workflow come about

`Yields` says, without the functions of the builder, how nodes come about: one after the other, as
the leaf of a bubble, around other nodes, or as a call.  A call holds what is found in its
arguments, and the nodes of the body of its callable when it is expanded there.  Every function of
the builder puts its nodes together in these ways (`yields_block`), so a fact about all workflows
follows by induction on `Yields`.  The statements that become choices stand in the region of the
script that the workflow is built from (`Region`).
-/

namespace FlowAnalysis.Workflow

open Script WorkflowNode

/-- The nodes of the body of a callable. -/
def expansion (s : Setting) (stack : List String) (c : Callable) : Builder (List WorkflowNode) :=
  match c.body with
  | some b =>
    if b.kind == .statementBlock then statements s stack b.parts
    else List.singleton <$> value s stack b b none .result
  | none => pure []

theorem run_entered (s : Setting) (stack : List String) (name : String) (c : Callable)
    (p : Progress) :
    (entered s stack name c).run p
      = if expands s stack p name then (expansion s (name :: stack) c).run (p.expanding name)
        else ([], p) := by
  rw [entered, run_bind, run_get]
  dsimp only
  split
  · rfl
  · rfl

/-- What a workflow is built from: everything below a node of the region, and
the bodies of the callables. -/
structure Region (s : Setting) (R : Node → Prop) : Prop where
  below : ∀ {n d}, R n → d ∈ n.descendants → R d
  bodies : ∀ {name c b}, s.calls.get? name = some c → c.body = some b → R b

namespace Region

variable {s : Setting} {R : Node → Prop} {n : Node}

theorem child (hR : Region s R) (hn : R n) {r : Role} {c : Node} (hc : n.child? r = some c) : R c :=
  hR.below hn (Node.mem_descendants_of_mem_children (Node.mem_children_of_child? hc))

theorem parts (hR : Region s R) (hn : R n) : ∀ m ∈ n.parts, R m := fun _ hm =>
  hR.below hn (Node.mem_descendants_of_mem_children (Node.mem_children_of_mem_parts hm))

theorem arguments (hR : Region s R) (hn : R n) : ∀ m ∈ argumentParts n, R m := by
  intro m hm
  obtain ⟨g, hg, hmg⟩ := mem_argumentParts.1 hm
  exact hR.parts (hR.child hn hg) m hmg

/-- The arguments of a located bubble. -/
theorem construction (hR : Region s R) (hn : R n) {used : List Int} {id : Int} {c : Construction}
    (h : findBubble? s used n = some (id, c)) : ∀ m ∈ argumentParts c.node, R m :=
  hR.arguments (hR.below hn (wraps_of_of? (of?_of_findBubble? h)).mem_descendants)

/-- The nodes that a statement looks into. -/
theorem nodes (hR : Region s R) (hn : R n) : ∀ m ∈ (Statement.of n).nodes, R m := by
  intro m hm
  have child : ∀ {r : Role}, m ∈ (n.child? r).toList → R m :=
    fun h => hR.child hn (Option.mem_toList.1 h)
  have part : m ∈ n.part?.toList → R m := fun h =>
    hR.below hn (Node.mem_descendants_of_mem_children
      (Node.mem_children_of_part? (Option.mem_toList.1 h)))
  have childPart : ∀ {r : Role}, m ∈ ((n.child? r).bind (·.part?)).toList → R m := by
    intro r h
    obtain ⟨c, hc, h⟩ := Option.bind_eq_some_iff.1 (Option.mem_toList.1 h)
    exact hR.below (hR.child hn hc)
      (Node.mem_descendants_of_mem_children (Node.mem_children_of_part? h))
  have childChild : ∀ {r r' : Role}, m ∈ ((n.child? r).bind (·.child? r')).toList → R m := by
    intro r r' h
    obtain ⟨c, hc, h⟩ := Option.bind_eq_some_iff.1 (Option.mem_toList.1 h)
    exact hR.child (hR.child hn hc) h
  rw [Statement.of] at hm
  split at hm
  all_goals simp only [Statement.nodes, List.mem_append, List.not_mem_nil] at hm
  · exact hm.elim (fun hm => hm.elim child child) childPart
  · exact child hm
  · exact child hm
  · exact hm.elim child child
  · exact hm.elim child child
  · exact hm.elim (fun hm => hm.elim child childChild) childChild
  · exact part hm
  · exact part hm

end Region

/-- From a progress, inside the bodies of the callables named, these nodes come about, and the
progress is then the second one. -/
inductive Yields (s : Setting) (R : Node → Prop) :
    List String → Progress → List WorkflowNode → Progress → Prop
  | nil {stack : List String} {p : Progress} : Yields s R stack p [] p
  | append {stack : List String} {p q r : Progress} {ns ms : List WorkflowNode}
      (first : Yields s R stack p ns q) (second : Yields s R stack q ms r) : Yields s R stack p
        (ns ++ ms) r
  /-- A bubble, and what is found in the arguments of its construction. -/
  | leaf {stack : List String} {p q : Progress} {e : Node} {id : Int} {c : Construction}
      {inner : List WorkflowNode} (found : findBubble? s p.used e = some (id, c))
      (arguments : Yields s R stack (p.placing id) inner q) : Yields s R stack p
        (.bubble id :: inner) q
  | choice {stack : List String} {p q r : Progress} {n : Node}
      {condition consequence alternative : Option Node} {children : List WorkflowNode}
      {otherwise : Option (List WorkflowNode)}
      (within : R n) (shape : Statement.of n = .choice condition consequence alternative)
      (first : Yields s R stack p children q) (second : Yields s R stack q (otherwise.getD []) r) :
      Yields s R stack p [.choice n.location (conditionText condition) children otherwise
        ((consequence.map terminates).getD false) ((alternative.map terminates).getD false)] r
  | loop {stack : List String} {p q : Progress} {kind : LoopKind} {location : Location}
      {condition : String} {children : List WorkflowNode} (inner : Yields s R stack p children q) :
      Yields s R stack p [.loop kind location condition children] q
  | attempt {stack : List String} {p q r t : Progress} {location : Location}
      {children : List WorkflowNode} {handler finalizer : Option (List WorkflowNode)}
      (first : Yields s R stack p children q) (second : Yields s R stack q (handler.getD []) r)
      (third : Yields s R stack r (finalizer.getD []) t) :
      Yields s R stack p [.attempt location children handler finalizer] t
  | code {stack : List String} {p q : Progress} {kind : CodeKind} {location : Location}
      {text : String} {children : List WorkflowNode} (inner : Yields s R stack p children q) :
      Yields s R stack p [.code kind location text children] q
  | parallel {stack : List String} {p q : Progress} {location : Location} {binding : Option String}
      {text : String} {children : List WorkflowNode} (inner : Yields s R stack p children q) :
      Yields s R stack p [.parallel location binding text children] q
  /-- A call that is not expanded holds what is found in its arguments. -/
  | call {stack : List String} {p q : Progress} {n e : Node} {name : String} {c : Callable}
      {binding : Option String} {arguments : List WorkflowNode}
      (known : known? s.calls e = some (name, c)) (within : e ∈ n.descendants)
      (searched : (collectAll s stack (argumentParts e.stripAwait)).run p = (arguments, q))
      (first : Yields s R stack p arguments q) (closed : expands s stack q name ≠ true) :
      Yields s R stack p [callNode s n c binding arguments] q
  /-- A call that is expanded holds the nodes of the body of its callable too. -/
  | expanded {stack : List String} {p q r : Progress} {n e : Node} {name : String} {c : Callable}
      {binding : Option String} {arguments body : List WorkflowNode}
      (known : known? s.calls e = some (name, c)) (within : e ∈ n.descendants)
      (searched : (collectAll s stack (argumentParts e.stripAwait)).run p = (arguments, q))
      (first : Yields s R stack p arguments q) (opened : expands s stack q name = true)
      (filled : (expansion s (name :: stack) c).run (q.expanding name) = (body, r))
      (second : Yields s R (name :: stack) (q.expanding name) body r) :
      Yields s R stack p [callNode s n c binding (arguments ++ body)] r

/-- From every progress the nodes in the result of a computation come about. -/
def Gives {α : Type} (s : Setting) (R : Node → Prop) (stack : List String) (b : Builder α)
    (nodes : α → List WorkflowNode) : Prop :=
  ∀ p, Yields s R stack p (nodes (b.run p).1) (b.run p).2

section

variable {s : Setting} {R : Node → Prop} {stack : List String} {p q : Progress}

theorem Yields.plain {kind : CodeKind} {n : Node} {children : List WorkflowNode}
    (h : Yields s R stack p children q) : Yields s R stack p [Workflow.plain kind n children] q :=
  .code h

theorem Yields.single {kind : CodeKind} {n : Node} {children : List WorkflowNode}
    (h : Yields s R stack p children q) :
    Yields s R stack p [Workflow.single kind n children] q := by
  unfold Workflow.single
  split
  · exact h
  · exact h.plain

theorem Yields.cons {n : WorkflowNode} {ns : List WorkflowNode} {r : Progress}
    (first : Yields s R stack p [n] q) (second : Yields s R stack q ns r) :
    Yields s R stack p (n :: ns) r :=
  .append first second

end

variable {s : Setting} {R : Node → Prop}

-- The induction is that of the builder itself, on the callables that are idle
-- and the size of the node.
mutual

theorem yields_collectAll (hR : Region s R) (stack : List String) (ns : List Node)
    (hns : ∀ n ∈ ns, R n) : Gives s R stack (collectAll s stack ns) id :=
  match ns, hns with
  | [], _ => by
    rw [collectAll]
    exact fun p => .nil
  | n :: ns, hns => by
    obtain ⟨hn, hns⟩ := List.forall_mem_cons.1 hns
    rw [collectAll]
    exact fun p => .append (yields_collect hR stack n hn p) (yields_collectAll hR stack ns hns _)
termination_by (idle s stack, Node.sizeAll ns, 3)
decreasing_by
  · rw [Node.sizeAll]
    exact below_of_le (Nat.le_add_right _ _) (by decide)
  · rw [Node.sizeAll]
    exact below_of_lt (by have := Node.size_pos n; omega)

theorem yields_collect (hR : Region s R) (stack : List String) (n : Node) (hn : R n) :
    Gives s R stack (collect s stack n) id := by
  intro p
  rw [collect, run_bind, run_leaves?]
  cases h : findBubble? s p.used n with
  | some r =>
    obtain ⟨i, c⟩ := r
    exact .leaf h (yields_collectAll hR stack (argumentParts c.node) (hR.construction hn h) _)
  | none =>
    have parts := yields_collectAll hR stack n.parts (hR.parts hn) p
    dsimp only
    by_cases hk : (n.kind == .callExpression) = true
    · rw [if_pos hk, run_bind, run_call?]
      cases hc : known? s.calls n with
      | some r =>
        obtain ⟨name, c⟩ := r
        exact yields_call hR stack n hn hc n (Node.self_mem_descendants n) none p
      | none => exact parts
    · rw [if_neg hk, run_bind, run_pure]
      exact parts
termination_by (idle s stack, n.size, 2)
decreasing_by
  · exact below_of_lt (Node.sizeAll_parts_lt n)
  · exact below_of_le (Nat.le_refl _) (by decide)
  · exact below_of_lt (sizeAll_argumentParts_lt_of_findBubble? h)

theorem yields_call (hR : Region s R) (stack : List String) (e : Node) (he : R e) {name : String}
    {c : Callable} (h : known? s.calls e = some (name, c)) (n : Node) (hn : e ∈ n.descendants)
    (binding : Option String) (p : Progress) :
    let r := (collectAll s stack (argumentParts e.stripAwait)).run p
    let t := (entered s stack name c).run r.2
    Yields s R stack p [callNode s n c binding (r.1 ++ t.1)] t.2 := by
  intro r t
  have hcall : R e.stripAwait := hR.below he (Node.stripAwait_mem_descendants e)
  have hargs : Yields s R stack p r.1 r.2 :=
    yields_collectAll hR stack (argumentParts e.stripAwait) (hR.arguments hcall) p
  have ht : t = if expands s stack r.2 name then
      (expansion s (name :: stack) c).run (r.2.expanding name) else ([], r.2) :=
    run_entered s stack name c r.2
  by_cases he : expands s stack r.2 name = true
  · rw [if_pos he] at ht
    have hbody := yields_expansion hR stack c (get?_of_known? h) he
    rw [← ht] at hbody
    exact .expanded h hn rfl hargs he ht.symm hbody
  · rw [if_neg he] at ht
    rw [ht, List.append_nil]
    exact .call h hn rfl hargs he
termination_by (idle s stack, e.size, 1)
decreasing_by
  · exact below_of_lt (Nat.lt_of_lt_of_le (sizeAll_argumentParts_lt _) (Node.size_stripAwait_le e))
  · exact below_of_lt (Node.size_pos e)

theorem yields_expansion (hR : Region s R) (stack : List String) {name : String} (c : Callable)
    (hc : s.calls.get? name = some c) {p : Progress} (_he : expands s stack p name = true) :
    Yields s R (name :: stack) (p.expanding name)
      ((expansion s (name :: stack) c).run (p.expanding name)).1
      ((expansion s (name :: stack) c).run (p.expanding name)).2 := by
  rw [expansion]
  cases hb : c.body with
  | none => exact .nil
  | some b =>
    have hbody : R b := hR.bodies hc hb
    dsimp only
    split
    · exact yields_statements hR (name :: stack) b.parts (hR.parts hbody) _
    · exact yields_value hR (name :: stack) b b hbody (Node.self_mem_descendants b) none .result _
termination_by (idle s stack, 0, 0)
decreasing_by
  · exact Prod.Lex.left _ _ (idle_cons_lt (mem_names_of_get? hc) _he)
  · exact Prod.Lex.left _ _ (idle_cons_lt (mem_names_of_get? hc) _he)

theorem yields_task (hR : Region s R) (stack : List String) (n : Node) (hn : R n) :
    Gives s R stack (task s stack n) fun node => [node] := by
  intro p
  rw [task, run_bind, run_leaves?]
  cases h : findBubble? s p.used n with
  | some r =>
    obtain ⟨i, c⟩ := r
    exact .single
      (.leaf h (yields_collectAll hR stack (argumentParts c.node) (hR.construction hn h) _))
  | none =>
    dsimp only
    rw [run_bind, run_call?]
    cases hc : known? s.calls n with
    | some r =>
      obtain ⟨name, c⟩ := r
      exact yields_call hR stack n hn hc n (Node.self_mem_descendants n) none p
    | none => exact .code (yields_collect hR stack n hn p)
termination_by (idle s stack, n.size, 3)
decreasing_by
  · exact below_of_le (Nat.le_refl _) (by decide)
  · exact below_of_le (Nat.le_refl _) (by decide)
  · exact below_of_lt (sizeAll_argumentParts_lt_of_findBubble? h)

theorem yields_tasks (hR : Region s R) (stack : List String) (ns : List Node)
    (hns : ∀ n ∈ ns, R n) : Gives s R stack (tasks s stack ns) id :=
  match ns, hns with
  | [], _ => by
    rw [tasks]
    exact fun p => .nil
  | n :: ns, hns => by
    obtain ⟨hn, hns⟩ := List.forall_mem_cons.1 hns
    rw [tasks]
    exact fun p => .cons (yields_task hR stack n hn p) (yields_tasks hR stack ns hns _)
termination_by (idle s stack, Node.sizeAll ns, 4)
decreasing_by
  · rw [Node.sizeAll]
    exact below_of_le (Nat.le_add_right _ _) (by decide)
  · rw [Node.sizeAll]
    exact below_of_lt (by have := Node.size_pos n; omega)

theorem yields_value (hR : Region s R) (stack : List String) (n e : Node) (hn : R n)
    (hen : e ∈ n.descendants) (binding : Option String) (kind : CodeKind) :
    Gives s R stack (value s stack n e binding kind) fun node => [node] := by
  intro p
  have he : R e := hR.below hn hen
  rw [value, run_bind, run_leaves?]
  cases h : findBubble? s p.used e with
  | some r =>
    obtain ⟨i, c⟩ := r
    exact .single
      (.leaf h (yields_collectAll hR stack (argumentParts c.node) (hR.construction he h) _))
  | none =>
    dsimp only
    rw [run_bind, run_call?]
    cases hc : known? s.calls e with
    | some r =>
      obtain ⟨name, c⟩ := r
      exact yields_call hR stack e he hc n hen binding p
    | none =>
      dsimp only
      rw [run_bind, run_parallel?]
      cases ha : e.parallelArgument? with
      | some a =>
        have hparts := hR.parts (hR.below he (parallelArgument?_mem_descendants ha))
        dsimp only
        split
        · exact .parallel (yields_tasks hR stack a.parts hparts p)
        · exact .parallel (yields_collectAll hR stack a.parts hparts p)
      | none => exact .plain (yields_collectAll hR stack n.parts (hR.parts hn) p)
termination_by (idle s stack, max n.size e.size, 2)
decreasing_by
  · exact below_of_lt (Nat.lt_of_lt_of_le (Node.sizeAll_parts_lt n) (Nat.le_max_left _ _))
  · exact below_of_lt (Nat.lt_of_lt_of_le (Nat.lt_trans (Node.sizeAll_parts_lt a)
      (Node.size_parallelArgument?_lt ha)) (Nat.le_max_right _ _))
  · exact below_of_lt (Nat.lt_of_lt_of_le (Nat.lt_trans (Node.sizeAll_parts_lt a)
      (Node.size_parallelArgument?_lt ha)) (Nat.le_max_right _ _))
  · exact below_of_le (Nat.le_max_right _ _) (by decide)
  · exact below_of_lt (Nat.lt_of_lt_of_le (sizeAll_argumentParts_lt_of_findBubble? h)
      (Nat.le_max_right _ _))

theorem yields_statements (hR : Region s R) (stack : List String) (ns : List Node)
    (hns : ∀ n ∈ ns, R n) : Gives s R stack (statements s stack ns) id :=
  match ns, hns with
  | [], _ => by
    rw [statements]
    exact fun p => .nil
  | n :: ns, hns => by
    obtain ⟨hn, hns⟩ := List.forall_mem_cons.1 hns
    rw [statements]
    exact fun p => .cons (yields_statement hR stack n hn p) (yields_statements hR stack ns hns _)
termination_by (idle s stack, Node.sizeAll ns, 5)
decreasing_by
  · rw [Node.sizeAll]
    exact below_of_le (Nat.le_add_right _ _) (by decide)
  · rw [Node.sizeAll]
    exact below_of_lt (by have := Node.size_pos n; omega)

theorem yields_statement (hR : Region s R) (stack : List String) (n : Node) (hn : R n) :
    Gives s R stack (statement s stack n) fun node => [node] := by
  intro p
  have hnodes := hR.nodes hn
  rw [statement]
  split
  · next condition consequence alternative hs =>
    simp only [hs, Statement.nodes, List.forall_mem_append, Option.mem_toList] at hnodes
    obtain ⟨⟨-, hthen⟩, helse⟩ := hnodes
    have tests := yields_clause hR stack n hn .condition p
    exact .choice hn hs (.append tests (yields_branch hR stack n consequence _ hthen _))
      (yields_branch hR stack n alternative _ helse _)
  · next body hs =>
    simp only [hs, Statement.nodes, Option.mem_toList] at hnodes
    have start := yields_clause hR stack n hn .initializer p
    have test := yields_clause hR stack n hn .condition
    have step := yields_clause hR stack n hn .increment
    exact .loop (.append (.append (.append start (test _)) (step _))
      (yields_branch hR stack n body _ hnodes _))
  · next body hs =>
    simp only [hs, Statement.nodes, Option.mem_toList] at hnodes
    exact .loop (.append (yields_clause hR stack n hn .right p)
      (yields_branch hR stack n body _ hnodes _))
  · next condition body hs =>
    simp only [hs, Statement.nodes, List.forall_mem_append, Option.mem_toList] at hnodes
    exact .loop
      (.append (yields_clause hR stack n hn .condition p)
        (yields_branch hR stack n body _ hnodes.2 _))
  · next body handler finalizer hs =>
    simp only [hs, Statement.nodes, List.forall_mem_append, Option.mem_toList] at hnodes
    obtain ⟨⟨hbody, hhandler⟩, hfinalizer⟩ := hnodes
    exact .attempt (yields_branch hR stack n body _ hbody p)
      (yields_branch hR stack n handler _ hhandler _)
      (yields_branch hR stack n finalizer _ hfinalizer _)
  · next hs => exact .code (yields_statements hR stack n.parts (hR.parts hn) p)
  · next shape hs =>
    split
    · next v binding hv =>
      exact yields_value hR stack n v hn (computed?_mem_descendants hv) binding _ p
    · next hv => exact .plain (yields_collectAll hR stack n.parts (hR.parts hn) p)
termination_by (idle s stack, n.size, 4)
decreasing_by
  all_goals first
    | exact below_of_le (Nat.le_refl _) (by decide)
    | exact below_of_lt (Node.sizeAll_parts_lt n)
    | exact below_of_le (Nat.max_le.2 ⟨Nat.le_refl _, Nat.le_of_lt (size_computed?_lt ‹_›)⟩)
        (by decide)

theorem yields_clause (hR : Region s R) (stack : List String) (n : Node) (hn : R n) (r : Role) :
    Gives s R stack (clause s stack n r) id := by
  rw [clause]
  split
  · next c h => exact yields_collect hR stack c (hR.child hn h)
  · next h => exact fun p => .nil
termination_by (idle s stack, n.size, 1)
decreasing_by exact below_of_lt (Node.size_lt_of_child? ‹_›)

theorem yields_branch (hR : Region s R) (stack : List String) (n : Node) (b : Option Node)
    (h : ∀ c ∈ b, c.size < n.size) (hb : ∀ c ∈ b, R c) :
    Gives s R stack (branch s stack n b h) fun nodes => nodes.getD [] := by
  cases b with
  | none =>
    rw [branch]
    exact fun p => .nil
  | some c =>
    rw [branch]
    exact yields_block hR stack c (hb c rfl)
termination_by (idle s stack, n.size, 3)
decreasing_by exact below_of_lt (h c rfl)

theorem yields_block (hR : Region s R) (stack : List String) (n : Node) (hn : R n) :
    Gives s R stack (block s stack n) id := by
  rw [block]
  split
  · exact yields_statements hR stack n.parts (hR.parts hn)
  · exact yields_statement hR stack n hn
termination_by (idle s stack, n.size, 5)
decreasing_by
  · exact below_of_le (Nat.le_refl _) (by decide)
  · exact below_of_lt (Node.sizeAll_parts_lt n)

end

end FlowAnalysis.Workflow
