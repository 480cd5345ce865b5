import FlowAnalysis.Workflow.Build

/-!
# Building a workflow as working through an agenda

The functions that build a workflow call each other and hand the progress made from one to the
next.  What they place, and where they look, does not depend on the nodes that they put
together, so it can be told without them.  There is an agenda of items to look at.  A turn takes
the first item away: it may place a bubble or start on the body of a callable, and it puts the
items that it leads to in front (`Job.step`).  `Runs` relates an agenda and a progress to the
turns taken until nothing is left.

The main statements say that every function of the builder runs through such an agenda, and that the
bubbles of the tree it returns, in tree order, are those placed by the turns, in the order of the
turns (`builds_collect`, `builds_value`, `builds_statement`, `builds_block`).  Facts about the
builder then follow by induction on the turns.
-/

namespace FlowAnalysis.Workflow

open Script WorkflowNode

/-! ### Items -/

/-- Something that the builder looks at. -/
inductive Item
  /-- A node to search for bubbles and calls. -/
  | scan (n : Node)
  /-- One of several tasks that run side by side. -/
  | task (n : Node)
  /-- The value `e` of a statement `n`. -/
  | value (n e : Node)
  | statement (n : Node)
  /-- A block, or a statement in the place of one. -/
  | block (n : Node)
  /-- A callable that is called here, once its arguments have been searched. -/
  | enter (name : String) (c : Callable)

/-- The arguments of a call, or of a construction, in order. -/
def argumentParts (call : Node) : List Node := ((call.child? .arguments).map Node.parts).getD []

theorem mem_argumentParts {call a : Node} :
    a ∈ argumentParts call ↔ ∃ g, call.child? .arguments = some g ∧ a ∈ g.parts := by
  rw [argumentParts]
  cases call.child? .arguments <;> simp

/-- The callable that an expression calls, awaited or not. -/
def known? (t : CallTable) (e : Node) : Option (String × Callable) :=
  if e.stripAwait.kind == .callExpression then
    e.stripAwait.callTarget?.bind fun (name, isThis) => (t.target? name isThis).map (name, ·)
  else none

namespace Item

/-- The expression that may be a bubble itself. -/
def expression? : Item → Option Node
  | scan n | task n => some n
  | value _ e => some e
  | _ => none

/-- The located bubble that an item is, unless it has been placed. -/
def claim? (s : Setting) (used : List Int) (i : Item) : Option (Int × Construction) :=
  i.expression?.bind (findBubble? s used)

/-- What a call leads to: its arguments, then the callable. -/
def ofCall (e : Node) (name : String) (c : Callable) : List Item :=
  (argumentParts e.stripAwait).map scan ++ [enter name c]

/-- What a clause of a statement leads to. -/
def ofClause (n : Node) (r : Role) : List Item := ((n.child? r).map scan).toList

/-- What a branch of a statement leads to. -/
def ofBranch (b : Option Node) : List Item := (b.map block).toList

/-- What a statement leads to. -/
def ofStatement (n : Node) : List Item :=
  match Statement.of n with
  | .choice _ consequence alternative =>
    ofClause n .condition ++ (ofBranch consequence ++ ofBranch alternative)
  | .count body =>
    ofClause n .initializer ++ (ofClause n .condition ++ (ofClause n .increment ++ ofBranch body))
  | .each body => ofClause n .right ++ ofBranch body
  | .whilst _ body => ofClause n .condition ++ ofBranch body
  | .attempt body handler finalizer => ofBranch body ++ (ofBranch handler ++ ofBranch finalizer)
  | .block => n.parts.map statement
  | _ =>
    match computed? n with
    | some (v, _) => [value n v]
    | none => n.parts.map scan

/-- What the value of a statement leads to when it is neither a bubble nor a call: tasks, or
everything in the statement. -/
def ofValue (n e : Node) : List Item :=
  match e.parallelArgument? with
  | some a => if a.kind == .array then a.parts.map task else a.parts.map scan
  | none => n.parts.map scan

/-- What an item leads to when it is no bubble.  A callable leads to nothing by itself: whether its
body is looked at depends on the progress made. -/
def leads (t : CallTable) : Item → List Item
  | scan n =>
    match if n.kind == .callExpression then known? t n else none with
    | some (name, c) => ofCall n name c
    | none => n.parts.map scan
  | task n =>
    match known? t n with
    | some (name, c) => ofCall n name c
    | none => [scan n]
  | value n e =>
    match known? t e with
    | some (name, c) => ofCall e name c
    | none => ofValue n e
  | statement n => ofStatement n
  | block n => if n.kind == .statementBlock then n.parts.map statement else [statement n]
  | enter _ _ => []

/-- What the body of a callable leads to. -/
def ofBody (c : Callable) : List Item :=
  match c.body with
  | some b => if b.kind == .statementBlock then b.parts.map statement else [value b b]
  | none => []

end Item

/-! ### Turns -/

namespace Progress

/-- The progress once a bubble has been placed. -/
def placing (p : Progress) (id : Int) : Progress := { p with used := id :: p.used }

/-- The progress once a callable has been expanded. -/
def expanding (p : Progress) (name : String) : Progress := { p with expanded := name :: p.expanded }

end Progress

/-- An item together with the names of the callables that are being expanded around it. -/
structure Job where
  stack : List String
  item : Item

/-- What one turn does. -/
structure Step where
  /-- The bubble that is placed. -/
  placed : Option Int
  after : Progress
  /-- The jobs to do next. -/
  jobs : List Job

/-- Items under one stack. -/
def jobs (stack : List String) (items : List Item) : List Job := items.map (Job.mk stack)

theorem jobs_append (stack : List String) (is js : List Item) :
    jobs stack (is ++ js) = jobs stack is ++ jobs stack js := List.map_append

/-- The turn of a job. -/
def Job.step (s : Setting) (p : Progress) (j : Job) : Step :=
  match j.item.claim? s p.used with
  | some (id, c) => ⟨some id, p.placing id, jobs j.stack ((argumentParts c.node).map .scan)⟩
  | none =>
    match j.item with
    | .enter name c =>
      if expands s j.stack p name then ⟨none, p.expanding name,
        jobs (name :: j.stack) (Item.ofBody c)⟩
      else ⟨none, p, []⟩
    | i => ⟨none, p, jobs j.stack (i.leads s.calls)⟩

variable {s : Setting} {js ks : List Job} {p q r : Progress}

namespace Job

theorem step_of_claim {j : Job} {id : Int} {c : Construction}
    (h : j.item.claim? s p.used = some (id, c)) :
    j.step s p = ⟨some id, p.placing id, jobs j.stack ((argumentParts c.node).map .scan)⟩ := by
  simp only [step, h]

theorem step_of_claim?_eq_none {j : Job} (h : j.item.claim? s p.used = none)
    (hi : ∀ name c, j.item ≠ .enter name c) :
    j.step s p = ⟨none, p, jobs j.stack (j.item.leads s.calls)⟩ := by
  rw [step, h]
  split
  · next hc => cases hc
  · split
    · next name c he => exact absurd he (hi name c)
    · rfl

theorem step_enter (stack : List String) (name : String) (c : Callable) :
    (mk stack (.enter name c)).step s p
      = if expands s stack p name then
          ⟨none, p.expanding name, jobs (name :: stack) (Item.ofBody c)⟩
        else ⟨none, p, []⟩ := rfl

/-- What a turn can do: place a bubble and search its arguments, start on the body of a callable,
pass a callable over, or follow an item that is no bubble. -/
inductive Does (s : Setting) (p : Progress) (j : Job) : Step → Prop
  | claim {id : Int} {c : Construction} (h : j.item.claim? s p.used = some (id, c)) :
      Does s p j ⟨some id, p.placing id, jobs j.stack ((argumentParts c.node).map .scan)⟩
  | enter {name : String} {c : Callable} (hi : j.item = .enter name c)
      (he : expands s j.stack p name = true) :
      Does s p j ⟨none, p.expanding name, jobs (name :: j.stack) (Item.ofBody c)⟩
  | pass {name : String} {c : Callable} (hi : j.item = .enter name c)
      (he : expands s j.stack p name ≠ true) : Does s p j ⟨none, p, []⟩
  | follow (h : j.item.claim? s p.used = none) (hi : ∀ name c, j.item ≠ .enter name c) :
      Does s p j ⟨none, p, jobs j.stack (j.item.leads s.calls)⟩

theorem does_step (s : Setting) (p : Progress) (j : Job) : Does s p j (j.step s p) := by
  cases hc : j.item.claim? s p.used with
  | some r =>
    rw [step_of_claim hc]
    exact .claim hc
  | none =>
    obtain ⟨stack, i⟩ := j
    cases i with
    | enter name c =>
      rw [step_enter]
      split
      · next he => exact .enter rfl he
      · next he => exact .pass rfl he
    | _ =>
      rw [step_of_claim?_eq_none hc (by nofun)]
      exact .follow hc (by nofun)

end Job

/-- A turn that was taken: the progress before it and its job. -/
structure Turn where
  progress : Progress
  job : Job

/-- What the turn did. -/
def Turn.step (s : Setting) (t : Turn) : Step := t.job.step s t.progress

/-- The bubbles that turns place, in order. -/
def placed (s : Setting) (ts : List Turn) : List Int := ts.filterMap fun t => (t.step s).placed

theorem placed_cons (s : Setting) (p : Progress) (j : Job) (ts : List Turn) :
    placed s (⟨p, j⟩ :: ts) = (j.step s p).placed.toList ++ placed s ts := by
  have ht : (Turn.step s ⟨p, j⟩).placed = (j.step s p).placed := rfl
  rw [placed, List.filterMap_cons, ht]
  cases (j.step s p).placed <;> rfl

/-- From an agenda and a progress, the turns taken until nothing is left, and the progress then. -/
inductive Runs (s : Setting) : List Job → Progress → List Turn → Progress → Prop
  | done (p : Progress) : Runs s [] p [] p
  | turn {j : Job} {rest : List Job} {p q : Progress} {ts : List Turn}
      (h : Runs s ((j.step s p).jobs ++ rest) (j.step s p).after ts q) :
      Runs s (j :: rest) p (⟨p, j⟩ :: ts) q

/-- One agenda after the other. -/
theorem Runs.append {ts us : List Turn} (h : Runs s js p ts q) (h' : Runs s ks q us r) :
    Runs s (js ++ ks) p (ts ++ us) r := by
  induction h with
  | done p => exact h'
  | @turn j rest p q ts _ ih =>
    have h := ih h'
    rw [List.append_assoc] at h
    exact .turn h

/-- An agenda runs to its end and places these bubbles. -/
def Emits (s : Setting) (js : List Job) (p : Progress) (ids : List Int) (q : Progress) : Prop :=
  ∃ ts, Runs s js p ts q ∧ placed s ts = ids

namespace Emits

theorem done (p : Progress) : Emits s [] p [] p := ⟨[], .done p, rfl⟩

theorem append {ids ids' : List Int} (h : Emits s js p ids q) (h' : Emits s ks q ids' r) :
    Emits s (js ++ ks) p (ids ++ ids') r := by
  obtain ⟨ts, hts, rfl⟩ := h
  obtain ⟨us, hus, rfl⟩ := h'
  exact ⟨ts ++ us, hts.append hus, List.filterMap_append⟩

/-- A job and all that it leads to. -/
theorem turn {j : Job} {o : Option Int} {p' : Progress} {ids : List Int}
    (hs : j.step s p = ⟨o, p', js⟩) (h : Emits s js p' ids q) :
    Emits s [j] p (o.toList ++ ids) q := by
  obtain ⟨ts, hts, rfl⟩ := h
  exact ⟨⟨p, j⟩ :: ts, .turn (by rwa [hs, List.append_nil]), by rw [placed_cons, hs]⟩

/-- An item that is a bubble: the bubble comes first, then what its arguments hold. -/
theorem claim {stack : List String} {i : Item} {id : Int} {c : Construction} {ids : List Int}
    (hc : i.claim? s p.used = some (id, c))
    (h : Emits s (jobs stack ((argumentParts c.node).map .scan)) (p.placing id) ids q) :
    Emits s [⟨stack, i⟩] p (id :: ids) q :=
  turn (Job.step_of_claim hc) h

/-- An item that is no bubble: what it leads to. -/
theorem follow {stack : List String} {i : Item} {ids : List Int} (hc : i.claim? s p.used = none)
    (hi : ∀ name c, i ≠ .enter name c) (h : Emits s (jobs stack (i.leads s.calls)) p ids q) :
    Emits s [⟨stack, i⟩] p ids q :=
  turn (Job.step_of_claim?_eq_none hc hi) h

/-- A callable that is expanded. -/
theorem enter {stack : List String} {name : String} {c : Callable} {ids : List Int}
    (he : expands s stack p name = true)
    (h : Emits s (jobs (name :: stack) (Item.ofBody c)) (p.expanding name) ids q) :
    Emits s [⟨stack, .enter name c⟩] p ids q :=
  turn ((Job.step_enter stack name c).trans (if_pos he)) h

/-- A callable that is not expanded. -/
theorem pass {stack : List String} {name : String} {c : Callable}
    (he : expands s stack p name ≠ true) : Emits s [⟨stack, .enter name c⟩] p [] p :=
  turn ((Job.step_enter stack name c).trans (if_neg he)) (done p)

end Emits

/-! ### The tree keeps what is placed -/

@[simp]
theorem bubbleIdsAll_append (ns ms : List WorkflowNode) :
    bubbleIdsAll (ns ++ ms) = bubbleIdsAll ns ++ bubbleIdsAll ms := by
  induction ns with
  | nil => rfl
  | cons n ns ih => rw [List.cons_append, bubbleIdsAll, bubbleIdsAll, ih, List.append_assoc]

@[simp]
theorem bubbleIdsAll_getD (b : Option (List WorkflowNode)) :
    bubbleIdsAll (b.getD []) = bubbleIdsOf b := by
  cases b <;> rfl

@[simp]
theorem bubbleIds_plain (kind : CodeKind) (n : Node) (children : List WorkflowNode) :
    (plain kind n children).bubbleIds = bubbleIdsAll children := by
  rw [plain, WorkflowNode.bubbleIds]

@[simp]
theorem bubbleIds_single (kind : CodeKind) (n : Node) (children : List WorkflowNode) :
    (single kind n children).bubbleIds = bubbleIdsAll children := by
  unfold single
  split
  · simp [bubbleIdsAll]
  · exact bubbleIds_plain kind n children

@[simp]
theorem bubbleIds_callNode (s : Setting) (n : Node) (c : Callable) (binding : Option String)
    (children : List WorkflowNode) :
    (callNode s n c binding children).bubbleIds = bubbleIdsAll children := by
  rw [callNode, WorkflowNode.bubbleIds]

/-! ### The builder, one call at a time -/

section

variable {α β : Type}

theorem run_bind (x : Builder α) (f : α → Builder β) (p : Progress) :
    (x >>= f).run p = (f (x.run p).1).run (x.run p).2 := rfl

theorem run_pure (a : α) (p : Progress) : (pure a : Builder α).run p = (a, p) := rfl

theorem run_get (p : Progress) : (get : Builder Progress).run p = (p, p) := rfl

theorem run_set (p p' : Progress) : (set p' : Builder PUnit).run p = (⟨⟩, p') := rfl

theorem run_place (id : Int) (p : Progress) : (place id).run p = ((), p.placing id) := rfl

theorem run_map (f : α → β) (x : Builder α) (p : Progress) :
    (f <$> x).run p = (f (x.run p).1, (x.run p).2) := rfl

end

theorem run_collectAll_nil (s : Setting) (stack : List String) (p : Progress) :
    (collectAll s stack []).run p = ([], p) := by
  rw [collectAll, run_pure]

/-- What `leaves?` does: it places the bubble, then searches the arguments. -/
theorem run_leaves? (s : Setting) (stack : List String) (e : Node) (p : Progress) :
    (leaves? s stack e).run p =
      match findBubble? s p.used e with
      | none => (none, p)
      | some (id, c) =>
        let r := (collectAll s stack (argumentParts c.node)).run (p.placing id)
        (some (.bubble id :: r.1), r.2) := by
  rw [leaves?, run_bind, run_get]
  split
  · next h => rw [h, run_pure]
  · next id c h =>
    rw [h, run_bind, run_place]
    dsimp only
    have ha : argumentParts c.node = (c.arguments?.map Node.parts).getD [] := rfl
    split
    · next a hc => rw [run_bind, run_pure, ha, hc, Option.map_some, Option.getD_some]
    · next hc =>
      rw [run_pure, ha, hc, Option.map_none, Option.getD_none, run_collectAll_nil]

/-- The body of a callable, when it is expanded at a call. -/
def entered (s : Setting) (stack : List String) (name : String) (c : Callable) :
    Builder (List WorkflowNode) := do
  let p ← get
  if expands s stack p name then
    set (p.expanding name)
    match c.body with
    | some b =>
      if b.kind == .statementBlock then statements s (name :: stack) b.parts
      else List.singleton <$> value s (name :: stack) b b none .result
    | none => pure []
  else pure []

/-- What `call?` does once the arguments have been searched. -/
theorem run_afterArguments (s : Setting) (stack : List String) (n : Node) (name : String)
    (c : Callable) (binding : Option String) (arguments : List WorkflowNode) (q : Progress) :
    StateT.run (m := Id) (do
      let p ← get
      if _he : expands s stack p name = true then
        set { p with expanded := name :: p.expanded }
        let body ←
          match c.body with
          | some b =>
            if b.kind == .statementBlock then statements s (name :: stack) b.parts
            else do
              let node ← value s (name :: stack) b b none .result
              pure [node]
          | none => pure []
        return some (callNode s n c binding (arguments ++ body))
      else return some (callNode s n c binding arguments)) q
      = (some (callNode s n c binding (arguments ++ ((entered s stack name c).run q).1)),
          ((entered s stack name c).run q).2) := by
  rw [run_bind, run_get, entered, run_bind, run_get]
  dsimp only
  split
  · rw [run_bind, run_set, run_bind, run_set]
    dsimp only
    cases c.body with
    | none => rfl
    | some b =>
      dsimp only
      split <;> rfl
  · rw [run_pure, run_pure, List.append_nil]

/-- What `call?` does: it searches the arguments, then it may expand the callable. -/
theorem run_call? (s : Setting) (stack : List String) (n e : Node) (binding : Option String)
    (p : Progress) :
    (call? s stack n e binding).run p =
      match known? s.calls e with
      | none => (none, p)
      | some (name, c) =>
        let r := (collectAll s stack (argumentParts e.stripAwait)).run p
        let t := (entered s stack name c).run r.2
        (some (callNode s n c binding (r.1 ++ t.1)), t.2) := by
  rw [call?, known?]
  split
  · cases e.stripAwait.callTarget? with
    | none => rfl
    | some target =>
      obtain ⟨name, isThis⟩ := target
      rw [Option.bind_some]
      dsimp only
      split
      · next hc => rw [hc]; rfl
      · next c hc =>
        rw [hc, Option.map_some]
        dsimp only
        split
        · next a ha =>
          rw [argumentParts, ha, Option.map_some, Option.getD_some]
          exact run_afterArguments s stack n name c binding _ _
        · next ha =>
          rw [argumentParts, ha, Option.map_none, Option.getD_none, run_collectAll_nil]
          exact run_afterArguments s stack n name c binding _ _
  · rfl

/-- What `parallel?` does. -/
theorem run_parallel? (s : Setting) (stack : List String) (n e : Node) (binding : Option String)
    (p : Progress) :
    (parallel? s stack n e binding).run p =
      match e.parallelArgument? with
      | none => (none, p)
      | some a =>
        let r := (if a.kind == .array then tasks s stack a.parts
          else collectAll s stack a.parts : Builder _).run p
        (some (.parallel n.location binding n.text r.1), r.2) := by
  rw [parallel?]
  split
  · next ha =>
    rw [ha]
    rfl
  · next a ha =>
    rw [ha]
    dsimp only
    split <;> rfl

/-! ### Every function of the builder runs through an agenda -/

/-- From every progress a computation runs through an agenda, and the bubbles in its result are
those given before followed by those that the agenda places. -/
def Builds {α : Type} (s : Setting) (before : List Int) (js : List Job) (b : Builder α)
    (ids : α → List Int) : Prop :=
  ∀ p, ∃ new, Emits s js p new (b.run p).2 ∧ ids (b.run p).1 = before ++ new

namespace Builds

variable {α β : Type} {before : List Int} {x : Builder α} {f : α → Builder β} {idsA : α → List Int}
  {ids : β → List Int}

theorem emits (h : Builds s [] js x idsA) (p : Progress) :
    Emits s js p (idsA (x.run p).1) (x.run p).2 := by
  obtain ⟨new, he, hi⟩ := h p
  rw [hi]
  exact he

theorem pure {b : β} (h : ids b = before) : Builds s before [] (Pure.pure b) ids := fun p =>
  ⟨[], .done p, by rw [run_pure, h, List.append_nil]⟩

theorem bind (hx : Builds s [] js x idsA) (hf : ∀ a, Builds s (before ++ idsA a) ks (f a) ids) :
    Builds s before (js ++ ks) (x >>= f) ids := by
  intro p
  obtain ⟨new, he, hi⟩ := hf (x.run p).1 (x.run p).2
  refine ⟨_, (hx.emits p).append he, ?_⟩
  rw [run_bind, hi, List.append_assoc]

theorem map {g : α → β} (hx : Builds s [] js x idsA) (hg : ∀ a, ids (g a) = before ++ idsA a) :
    Builds s before js (x >>= fun a => Pure.pure (g a)) ids := fun p =>
  ⟨_, hx.emits p, hg _⟩

end Builds

theorem sizeAll_argumentParts_lt (n : Node) : Node.sizeAll (argumentParts n) < n.size := by
  rw [argumentParts]
  cases h : n.child? .arguments with
  | none => exact Node.size_pos n
  | some a => exact Nat.lt_trans (Node.sizeAll_parts_lt a) (Node.size_lt_of_child? h)

theorem sizeAll_argumentParts_lt_of_findBubble? {s : Setting} {used : List Int} {e : Node}
    {id : Int} {c : Construction} (h : findBubble? s used e = some (id, c)) :
    Node.sizeAll (argumentParts c.node) < e.size :=
  Nat.lt_of_lt_of_le (sizeAll_argumentParts_lt c.node)
    (Construction.size_of?_le (of?_of_findBubble? h))

theorem get?_of_known? {t : CallTable} {e : Node} {name : String} {c : Callable}
    (h : known? t e = some (name, c)) : t.get? name = some c := by
  rw [known?] at h
  split at h
  · obtain ⟨⟨called, isThis⟩, _, h⟩ := Option.bind_eq_some_iff.1 h
    obtain ⟨d, hd, he⟩ := Option.map_eq_some_iff.1 h
    cases he
    exact (Option.filter_eq_some_iff.1 hd).1
  · cases h

-- The induction is that of the builder itself, on the callables that are idle
-- and the size of the node.
mutual

theorem builds_collectAll (s : Setting) (stack : List String) (ns : List Node) :
    Builds s [] (jobs stack (ns.map .scan)) (collectAll s stack ns) bubbleIdsAll :=
  match ns with
  | [] => by
    rw [collectAll]
    exact .pure rfl
  | n :: ns => by
    rw [collectAll]
    exact .bind (builds_collect s stack n) fun nodes =>
      .map (builds_collectAll s stack ns) fun more => by simp
termination_by (idle s stack, Node.sizeAll ns, 3)
decreasing_by
  · rw [Node.sizeAll]
    exact below_of_le (Nat.le_add_right _ _) (by decide)
  · rw [Node.sizeAll]
    exact below_of_lt (by have := Node.size_pos n; omega)

theorem builds_collect (s : Setting) (stack : List String) (n : Node) :
    Builds s [] (jobs stack [.scan n]) (collect s stack n) bubbleIdsAll := by
  intro p
  rw [collect, run_bind, run_leaves?]
  cases h : findBubble? s p.used n with
  | some r =>
    obtain ⟨id, c⟩ := r
    exact ⟨_, .claim h ((builds_collectAll s stack (argumentParts c.node)).emits _), rfl⟩
  | none =>
    -- No bubble: a known call goes on with its arguments, everything else with its parts.
    refine ⟨_, .follow h (by intros; nofun) ?_, rfl⟩
    have parts := (builds_collectAll s stack n.parts).emits p
    dsimp only [Item.leads]
    by_cases hk : (n.kind == .callExpression) = true
    · rw [if_pos hk, if_pos hk, run_bind, run_call?]
      cases hc : known? s.calls n with
      | some r =>
        obtain ⟨name, c⟩ := r
        show Emits s _ p (WorkflowNode.bubbleIds _ ++ []) _
        rw [List.append_nil]
        exact emits_call s stack n hc n none p
      | none => exact parts
    · rw [if_neg hk, if_neg hk, run_bind, run_pure]
      exact parts
termination_by (idle s stack, n.size, 2)
decreasing_by
  · exact below_of_lt (Node.sizeAll_parts_lt n)
  · exact below_of_le (Nat.le_refl _) (by decide)
  · exact below_of_lt (sizeAll_argumentParts_lt_of_findBubble? h)

/-- A call of a known callable runs through its arguments, then through
what the callable leads to. -/
theorem emits_call (s : Setting) (stack : List String) (e : Node) {name : String} {c : Callable}
    (h : known? s.calls e = some (name, c)) (n : Node) (binding : Option String) (p : Progress) :
    let r := (collectAll s stack (argumentParts e.stripAwait)).run p
    let t := (entered s stack name c).run r.2
    Emits s (jobs stack (Item.ofCall e name c)) p
      (callNode s n c binding (r.1 ++ t.1)).bubbleIds t.2 := by
  intro r t
  rw [Item.ofCall, jobs_append, bubbleIds_callNode, bubbleIdsAll_append]
  exact ((builds_collectAll s stack _).emits p).append
    ((builds_entered s stack c (mem_names_of_get? (get?_of_known? h))).emits r.2)
termination_by (idle s stack, e.size, 1)
decreasing_by
  · exact below_of_lt (Nat.lt_of_lt_of_le (sizeAll_argumentParts_lt _) (Node.size_stripAwait_le e))
  · exact below_of_lt (Node.size_pos e)

theorem builds_entered (s : Setting) (stack : List String) {name : String} (c : Callable)
    (_hn : name ∈ s.calls.callables.names) :
    Builds s [] (jobs stack [.enter name c]) (entered s stack name c) bubbleIdsAll := by
  intro p
  rw [entered, run_bind, run_get]
  dsimp only
  split
  · next he =>
    -- The name is recorded before the body is looked at, so the callable is not expanded inside it.
    rw [run_bind, run_set]
    refine ⟨_, .enter he ?_, rfl⟩
    rw [Item.ofBody]
    cases c.body with
    | none => exact .done _
    | some b =>
      dsimp only
      split
      · exact (builds_statements s (name :: stack) b.parts).emits _
      · rw [run_map]
        simpa [List.singleton, bubbleIdsAll] using
          (builds_value s (name :: stack) b b none .result).emits (p.expanding name)
  · next he => exact ⟨_, .pass he, rfl⟩
termination_by (idle s stack, 0, 0)
decreasing_by
  · exact Prod.Lex.left _ _ (idle_cons_lt _hn ‹_›)
  · exact Prod.Lex.left _ _ (idle_cons_lt _hn ‹_›)

theorem builds_task (s : Setting) (stack : List String) (n : Node) :
    Builds s [] (jobs stack [.task n]) (task s stack n) WorkflowNode.bubbleIds := by
  intro p
  rw [task, run_bind, run_leaves?]
  cases h : findBubble? s p.used n with
  | some r =>
    obtain ⟨id, c⟩ := r
    refine ⟨_, .claim h ((builds_collectAll s stack (argumentParts c.node)).emits _), ?_⟩
    rw [run_pure, bubbleIds_single]
    rfl
  | none =>
    refine ⟨_, .follow h (by intros; nofun) ?_, rfl⟩
    dsimp only [Item.leads]
    rw [run_bind, run_call?]
    cases hc : known? s.calls n with
    | some r =>
      obtain ⟨name, c⟩ := r
      exact emits_call s stack n hc n none p
    | none => exact (builds_collect s stack n).emits p
termination_by (idle s stack, n.size, 3)
decreasing_by
  · exact below_of_le (Nat.le_refl _) (by decide)
  · exact below_of_le (Nat.le_refl _) (by decide)
  · exact below_of_lt (sizeAll_argumentParts_lt_of_findBubble? h)

theorem builds_tasks (s : Setting) (stack : List String) (ns : List Node) :
    Builds s [] (jobs stack (ns.map .task)) (tasks s stack ns) bubbleIdsAll :=
  match ns with
  | [] => by
    rw [tasks]
    exact .pure rfl
  | n :: ns => by
    rw [tasks]
    exact .bind (builds_task s stack n) fun node =>
      .map (builds_tasks s stack ns) fun nodes => by simp [bubbleIdsAll]
termination_by (idle s stack, Node.sizeAll ns, 4)
decreasing_by
  · rw [Node.sizeAll]
    exact below_of_le (Nat.le_add_right _ _) (by decide)
  · rw [Node.sizeAll]
    exact below_of_lt (by have := Node.size_pos n; omega)

theorem builds_value (s : Setting) (stack : List String) (n e : Node) (binding : Option String)
    (kind : CodeKind) :
    Builds s [] (jobs stack [.value n e]) (value s stack n e binding kind)
      WorkflowNode.bubbleIds := by
  intro p
  rw [value, run_bind, run_leaves?]
  cases h : findBubble? s p.used e with
  | some r =>
    obtain ⟨id, c⟩ := r
    refine ⟨_, .claim h ((builds_collectAll s stack (argumentParts c.node)).emits _), ?_⟩
    rw [run_pure, bubbleIds_single]
    rfl
  | none =>
    refine ⟨_, .follow h (by intros; nofun) ?_, rfl⟩
    dsimp only [Item.leads]
    rw [run_bind, run_call?]
    cases hc : known? s.calls e with
    | some r =>
      obtain ⟨name, c⟩ := r
      exact emits_call s stack e hc n binding p
    | none =>
      dsimp only
      rw [Item.ofValue, run_bind, run_parallel?]
      cases ha : e.parallelArgument? with
      | some a =>
        dsimp only
        split
        · exact (builds_tasks s stack a.parts).emits p
        · exact (builds_collectAll s stack a.parts).emits p
      | none =>
        dsimp only
        rw [run_bind, run_pure, bubbleIds_plain]
        exact (builds_collectAll s stack n.parts).emits p
termination_by (idle s stack, max n.size e.size, 2)
decreasing_by
  · exact below_of_lt (Nat.lt_of_lt_of_le (Node.sizeAll_parts_lt n) (Nat.le_max_left _ _))
  · exact below_of_lt (Nat.lt_of_lt_of_le (Nat.lt_trans (Node.sizeAll_parts_lt a)
      (Node.size_parallelArgument?_lt ha)) (Nat.le_max_right _ _))
  · exact below_of_lt (Nat.lt_of_lt_of_le (Nat.lt_trans (Node.sizeAll_parts_lt a)
      (Node.size_parallelArgument?_lt ha)) (Nat.le_max_right _ _))
  · exact below_of_le (Nat.le_max_right _ _) (by decide)
  · exact below_of_lt (Nat.lt_of_lt_of_le (sizeAll_argumentParts_lt_of_findBubble? h)
      (Nat.le_max_right _ _))

theorem builds_statements (s : Setting) (stack : List String) (ns : List Node) :
    Builds s [] (jobs stack (ns.map .statement)) (statements s stack ns) bubbleIdsAll :=
  match ns with
  | [] => by
    rw [statements]
    exact .pure rfl
  | n :: ns => by
    rw [statements]
    exact .bind (builds_statement s stack n) fun node =>
      .map (builds_statements s stack ns) fun nodes => by simp [bubbleIdsAll]
termination_by (idle s stack, Node.sizeAll ns, 5)
decreasing_by
  · rw [Node.sizeAll]
    exact below_of_le (Nat.le_add_right _ _) (by decide)
  · rw [Node.sizeAll]
    exact below_of_lt (by have := Node.size_pos n; omega)

theorem builds_statement (s : Setting) (stack : List String) (n : Node) :
    Builds s [] (jobs stack [.statement n]) (statement s stack n) WorkflowNode.bubbleIds := by
  intro p
  refine ⟨_, .follow rfl (by intros; nofun) ?_, rfl⟩
  refine Builds.emits ?_ p
  rw [statement, show Item.leads s.calls (.statement n) = Item.ofStatement n from rfl]
  have hl : ∀ {shape : Statement}, Statement.of n = shape → Item.ofStatement n = _ := fun h => by
    rw [Item.ofStatement, h]
  -- A shape with clauses and branches runs through them in the order in which they are built.
  split
  · next condition consequence alternative hs =>
    rw [hl hs, jobs_append, jobs_append]
    exact .bind (builds_clause s stack n .condition) fun tests =>
      .bind (builds_branch s stack n consequence _) fun children =>
      .map (builds_branch s stack n alternative _) fun otherwise => by
        simp [WorkflowNode.bubbleIds]
  · next body hs =>
    rw [hl hs, jobs_append, jobs_append, jobs_append]
    exact .bind (builds_clause s stack n .initializer) fun start =>
      .bind (builds_clause s stack n .condition) fun test =>
      .bind (builds_clause s stack n .increment) fun step =>
      .map (builds_branch s stack n body _) fun children => by simp [WorkflowNode.bubbleIds]
  · next body hs =>
    rw [hl hs, jobs_append]
    exact .bind (builds_clause s stack n .right) fun right =>
      .map (builds_branch s stack n body _) fun children => by simp [WorkflowNode.bubbleIds]
  · next condition body hs =>
    rw [hl hs, jobs_append]
    exact .bind (builds_clause s stack n .condition) fun tests =>
      .map (builds_branch s stack n body _) fun children => by simp [WorkflowNode.bubbleIds]
  · next body handler finalizer hs =>
    rw [hl hs, jobs_append, jobs_append]
    exact .bind (builds_branch s stack n body _) fun children =>
      .bind (builds_branch s stack n handler _) fun handler =>
      .map (builds_branch s stack n finalizer _) fun finalizer => by
        simp [WorkflowNode.bubbleIds]
  · next hs =>
    rw [hl hs]
    exact .map (builds_statements s stack n.parts) fun children => by
      simp [WorkflowNode.bubbleIds]
  · next shape hs =>
    -- What is left are the statements that may compute a value.
    have ho : Item.ofStatement n = match computed? n with
        | some (v, _) => [.value n v]
        | none => n.parts.map .scan := by
      rw [Item.ofStatement]
      split <;> first | rfl | simp_all
    rw [ho]
    split
    · next v binding hv =>
      rw [hv]
      exact builds_value s stack n v binding _
    · next hv =>
      rw [hv]
      exact .map (builds_collectAll s stack n.parts) fun children => by simp
termination_by (idle s stack, n.size, 4)
decreasing_by
  all_goals first
    | exact below_of_le (Nat.le_refl _) (by decide)
    | exact below_of_lt (Node.sizeAll_parts_lt n)
    | exact below_of_le (Nat.max_le.2 ⟨Nat.le_refl _, Nat.le_of_lt (size_computed?_lt ‹_›)⟩)
        (by decide)

theorem builds_clause (s : Setting) (stack : List String) (n : Node) (r : Role) :
    Builds s [] (jobs stack (Item.ofClause n r)) (clause s stack n r) bubbleIdsAll := by
  rw [clause, Item.ofClause]
  split
  · next c h =>
    rw [h]
    exact builds_collect s stack c
  · next h =>
    rw [h]
    exact .pure rfl
termination_by (idle s stack, n.size, 1)
decreasing_by exact below_of_lt (Node.size_lt_of_child? ‹_›)

theorem builds_branch (s : Setting) (stack : List String) (n : Node) (b : Option Node)
    (h : ∀ c ∈ b, c.size < n.size) :
    Builds s [] (jobs stack (Item.ofBranch b)) (branch s stack n b h) bubbleIdsOf := by
  cases b with
  | none =>
    rw [branch]
    exact .pure rfl
  | some c =>
    rw [branch]
    exact .map (builds_block s stack c) fun nodes => rfl
termination_by (idle s stack, n.size, 3)
decreasing_by exact below_of_lt (h c rfl)

theorem builds_block (s : Setting) (stack : List String) (n : Node) :
    Builds s [] (jobs stack [.block n]) (block s stack n) bubbleIdsAll := by
  intro p
  refine ⟨_, .follow rfl (by intros; nofun) ?_, rfl⟩
  dsimp only [Item.leads]
  rw [block]
  split
  · exact (builds_statements s stack n.parts).emits p
  · refine Builds.emits ?_ p
    exact .map (builds_statement s stack n) fun node => by simp [bubbleIdsAll]
termination_by (idle s stack, n.size, 5)
decreasing_by
  · exact below_of_le (Nat.le_refl _) (by decide)
  · exact below_of_lt (Node.sizeAll_parts_lt n)

end

end FlowAnalysis.Workflow
