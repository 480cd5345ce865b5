import FlowAnalysis.Proofs.Script.Callables
import FlowAnalysis.Proofs.Workflow.Derivation
import FlowAnalysis.Proofs.Workflow.Leaves
import Mathlib.Data.List.Forall2

/-!
# A callable is expanded at one call at most

A call holds what is found in its arguments, and the body of its callable when it is expanded there.
The progress records the name before the body is built, and no recorded name is expanded again, so
every call of a workflow can be accounted for (`Accounts`): the names expanded at its calls are
those recorded meanwhile, and no two of them are the same.  Callables may call themselves and each
other in any way (`callable_expanded_once`).
-/

namespace FlowAnalysis

namespace WorkflowNode

mutual

/-- The calls in a node, in tree order. -/
def calls : WorkflowNode → List WorkflowNode
  | .bubble _ => []
  | .choice _ _ children otherwise _ _ => callsAll children ++ callsOf otherwise
  | .loop _ _ _ children => callsAll children
  | .attempt _ children handler finalizer =>
    callsAll children ++ (callsOf handler ++ callsOf finalizer)
  | .code _ _ _ children => callsAll children
  | n@(.call _ _ _ _ _ _ _ children) => n :: callsAll children
  | .parallel _ _ _ children => callsAll children

/-- The calls in a list of nodes. -/
def callsAll : List WorkflowNode → List WorkflowNode
  | [] => []
  | n :: ns => calls n ++ callsAll ns

/-- The calls in a branch that may be absent. -/
def callsOf : Option (List WorkflowNode) → List WorkflowNode
  | none => []
  | some ns => callsAll ns

end

@[simp]
theorem callsAll_append (ns ms : List WorkflowNode) :
    callsAll (ns ++ ms) = callsAll ns ++ callsAll ms := by
  induction ns with
  | nil => rfl
  | cons n ns ih => rw [List.cons_append, callsAll, callsAll, ih, List.append_assoc]

@[simp]
theorem callsAll_singleton (n : WorkflowNode) : callsAll [n] = calls n := by
  rw [callsAll, callsAll, List.append_nil]

theorem callsOf_eq (b : Option (List WorkflowNode)) : callsOf b = callsAll (b.getD []) := by
  cases b <;> rfl

end WorkflowNode

namespace Workflow

open Script WorkflowNode

/-- A call of a script: the call itself, the statement that its node stands for, the name and the
callable that are called, and whether the callable is expanded there. -/
structure CallSite where
  statement : Node
  call : Node
  name : String
  callable : Callable
  isExpanded : Bool

/-- The names of the callables that are expanded at call sites. -/
def expandedNames (sites : List CallSite) : List String :=
  (sites.filter (·.isExpanded)).map (·.name)

theorem expandedNames_append (xs ys : List CallSite) :
    expandedNames (xs ++ ys) = expandedNames xs ++ expandedNames ys := by
  simp [expandedNames]

/-- A node is that of a call site: it holds what is found in the arguments of the call and, when the
callable is expanded there, the nodes of its body after that. -/
inductive Shows (s : Setting) : CallSite → WorkflowNode → Prop
  | plain {n e : Node} {name : String} {c : Callable} {stack : List String} {p q : Progress}
      {binding : Option String} {arguments : List WorkflowNode}
      (known : known? s.calls e = some (name, c)) (within : e ∈ n.descendants)
      (searched : (collectAll s stack (argumentParts e.stripAwait)).run p = (arguments, q)) :
      Shows s ⟨n, e, name, c, false⟩ (callNode s n c binding arguments)
  | expanded {n e : Node} {name : String} {c : Callable} {stack : List String} {p q r : Progress}
      {binding : Option String} {arguments body : List WorkflowNode}
      (known : known? s.calls e = some (name, c)) (within : e ∈ n.descendants)
      (searched : (collectAll s stack (argumentParts e.stripAwait)).run p = (arguments, q))
      (filled : (expansion s (name :: stack) c).run (q.expanding name) = (body, r)) :
      Shows s ⟨n, e, name, c, true⟩ (callNode s n c binding (arguments ++ body))

theorem Shows.known {s : Setting} {x : CallSite} {node : WorkflowNode} (h : Shows s x node) :
    known? s.calls x.call = some (x.name, x.callable) := by
  cases h with
  | plain known _ _ => exact known
  | expanded known _ _ _ => exact known

/-- Call sites account for nodes and for the change from one progress to another: the calls in the
nodes are those of the sites, the names recorded meanwhile are those expanded at the sites, no name
is recorded twice, and none is recorded whose body is being built around the nodes. -/
structure Accounts (s : Setting) (stack : List String) (p : Progress) (nodes : List WorkflowNode)
    (q : Progress) (sites : List CallSite) : Prop where
  shown : List.Forall₂ (Shows s) sites (callsAll nodes)
  recorded : q.expanded.Perm (expandedNames sites ++ p.expanded)
  distinct : p.expanded.Nodup → q.expanded.Nodup
  outside : ∀ name ∈ expandedNames sites, name ∉ stack

namespace Accounts

variable {s : Setting} {stack : List String} {p q r : Progress} {nodes ns ms : List WorkflowNode}
  {sites xs ys : List CallSite}

theorem nil : Accounts s stack p [] p [] where
  shown := .nil
  recorded := .refl _
  distinct := fun h => h
  outside := fun _ h => by cases h

theorem append (h : Accounts s stack p ns q xs) (h' : Accounts s stack q ms r ys) :
    Accounts s stack p (ns ++ ms) r (xs ++ ys) where
  shown := by
    rw [callsAll_append]
    exact List.rel_append h.shown h'.shown
  recorded := by
    have hsecond : (expandedNames ys ++ q.expanded).Perm
        (expandedNames ys ++ (expandedNames xs ++ p.expanded)) := h.recorded.append_left _
    have hswap : (expandedNames ys ++ (expandedNames xs ++ p.expanded)).Perm
        (expandedNames xs ++ expandedNames ys ++ p.expanded) := by
      rw [← List.append_assoc]
      exact List.perm_append_comm.append_right _
    rw [expandedNames_append]
    exact h'.recorded.trans (hsecond.trans hswap)
  distinct := fun hp => h'.distinct (h.distinct hp)
  outside := by
    intro name hname
    rw [expandedNames_append] at hname
    exact (List.mem_append.1 hname).elim (h.outside name) (h'.outside name)

/-- Nodes around others have the same calls in them. -/
theorem around (h : Accounts s stack p nodes q sites) (hcalls : callsAll ns = callsAll nodes) :
    Accounts s stack p ns q sites where
  shown := hcalls ▸ h.shown
  recorded := h.recorded
  distinct := h.distinct
  outside := h.outside

theorem call {n e : Node} {name : String} {c : Callable} {binding : Option String}
    {arguments : List WorkflowNode} (known : known? s.calls e = some (name, c))
    (within : e ∈ n.descendants)
    (searched : (collectAll s stack (argumentParts e.stripAwait)).run p = (arguments, q))
    (h : Accounts s stack p arguments q sites) :
    Accounts s stack p [callNode s n c binding arguments] q (⟨n, e, name, c, false⟩ :: sites) where
  shown := by
    rw [callsAll_singleton, callNode, calls]
    exact .cons (.plain known within searched) h.shown
  recorded := h.recorded
  distinct := h.distinct
  outside := h.outside

/-- An expanded call: the name was not recorded before, and it is recorded
before the body is built. -/
theorem expanded {n e : Node} {name : String} {c : Callable} {binding : Option String}
    {arguments body : List WorkflowNode} (known : known? s.calls e = some (name, c))
    (within : e ∈ n.descendants)
    (searched : (collectAll s stack (argumentParts e.stripAwait)).run p = (arguments, q))
    (h : Accounts s stack p arguments q xs) (opened : expands s stack q name = true)
    (filled : (expansion s (name :: stack) c).run (q.expanding name) = (body, r))
    (h' : Accounts s (name :: stack) (q.expanding name) body r ys) :
    Accounts s stack p [callNode s n c binding (arguments ++ body)] r
      (⟨n, e, name, c, true⟩ :: (xs ++ ys)) := by
  have hnew : name ∉ q.expanded ∧ name ∉ stack := by
    simp only [expands, Bool.and_eq_true, Bool.not_eq_true', List.contains_eq_mem] at opened
    simpa using And.intro opened.1.2 opened.2
  have hnames : expandedNames (⟨n, e, name, c, true⟩ :: (xs ++ ys))
      = name :: (expandedNames xs ++ expandedNames ys) := by
    simp [expandedNames]
  refine ⟨?_, ?_, fun hp => ?_, fun a ha => ?_⟩
  · rw [callsAll_singleton, callNode, calls, callsAll_append]
    exact .cons (.expanded known within searched filled) (List.rel_append h.shown h'.shown)
  · have hbody : r.expanded.Perm (name :: (expandedNames ys ++ q.expanded)) :=
      h'.recorded.trans List.perm_middle
    have harguments : (expandedNames ys ++ q.expanded).Perm
        (expandedNames xs ++ expandedNames ys ++ p.expanded) := by
      refine (h.recorded.append_left _).trans ?_
      rw [← List.append_assoc]
      exact List.perm_append_comm.append_right _
    rw [hnames]
    exact hbody.trans (harguments.cons name)
  · exact h'.distinct (List.nodup_cons.2 ⟨hnew.1, h.distinct hp⟩)
  · rw [hnames, List.mem_cons, List.mem_append] at ha
    rcases ha with rfl | ha | ha
    · exact hnew.2
    · exact h.outside a ha
    · exact fun hstack => h'.outside a ha (List.mem_cons_of_mem _ hstack)

end Accounts

/-- However nodes come about, call sites account for them. -/
theorem Yields.exists_accounts {s : Setting} {R : Node → Prop} {stack : List String}
    {p q : Progress} {nodes : List WorkflowNode} (h : Yields s R stack p nodes q) :
    ∃ sites, Accounts s stack p nodes q sites := by
  induction h with
  | nil => exact ⟨[], .nil⟩
  | append _ _ ih ih' =>
    obtain ⟨xs, hxs⟩ := ih
    obtain ⟨ys, hys⟩ := ih'
    exact ⟨xs ++ ys, hxs.append hys⟩
  | leaf _ _ ih =>
    -- To place a bubble records no name.
    obtain ⟨xs, hxs⟩ := ih
    exact ⟨xs, by simp [callsAll, calls, hxs.shown], hxs.recorded, hxs.distinct, hxs.outside⟩
  | choice _ _ _ _ ih ih' =>
    obtain ⟨xs, hxs⟩ := ih
    obtain ⟨ys, hys⟩ := ih'
    exact ⟨xs ++ ys, (hxs.append hys).around (by simp [calls, callsOf_eq])⟩
  | attempt _ _ _ ih ih' ih'' =>
    obtain ⟨xs, hxs⟩ := ih
    obtain ⟨ys, hys⟩ := ih'
    obtain ⟨zs, hzs⟩ := ih''
    exact ⟨xs ++ (ys ++ zs), (hxs.append (hys.append hzs)).around (by simp [calls, callsOf_eq])⟩
  | loop _ ih | code _ ih | parallel _ ih =>
    obtain ⟨xs, hxs⟩ := ih
    exact ⟨xs, hxs.around (by simp [calls])⟩
  | call known within searched _ _ ih =>
    obtain ⟨xs, hxs⟩ := ih
    exact ⟨_, hxs.call known within searched⟩
  | expanded known within searched _ opened filled _ ih ih' =>
    obtain ⟨xs, hxs⟩ := ih
    obtain ⟨ys, hys⟩ := ih'
    exact ⟨_, hxs.expanded known within searched opened filled hys⟩

/-- A node stands in the body of the entry point or in that of a callable. -/
def InBodies (handle : Method) (calls : CallTable) (n : Node) : Prop :=
  ∃ b, (handle.body = some b ∨ ∃ name c, calls.get? name = some c ∧ c.body = some b) ∧
    n ∈ b.descendants

theorem region_inBodies (root : Node) (handle : Method) (bubbles : ById Bubble) (calls : CallTable)
    (options : Options) : Region (setting root bubbles calls options) (InBodies handle calls) where
  below := fun ⟨b, hb, hn⟩ hd => ⟨b, hb, Node.mem_descendants_trans hn hd⟩
  bodies := fun hc hb => ⟨_, .inr ⟨_, _, hc, hb⟩, Node.self_mem_descendants _⟩

/-- The nodes of a workflow come about inside the entry point, from no progress, out of the bodies
of the entry point and of the callables. -/
theorem exists_yields_build (root : Node) (handle : Method) (bubbles : ById Bubble)
    (calls : CallTable) (options : Options) :
    ∃ q, Yields (setting root bubbles calls options) (InBodies handle calls) ["handle"] {}
      (build root handle bubbles calls options).root q := by
  have hregion := region_inBodies root handle bubbles calls options
  rw [build]
  cases hb : handle.body with
  | none => exact ⟨{}, .nil⟩
  | some body =>
    exact ⟨_, yields_block hregion ["handle"] body ⟨body, .inl hb,
      Node.self_mem_descendants body⟩ {}⟩

/-- **Building a workflow ends, and no callable is expanded at two calls.**  For every script,
whatever its callables call, the agenda of the entry point is run through to its end, and the leaves
of the workflow are what its turns place.  Every call node of the workflow is that of a call site,
in tree order.  A callable is expanded at one call site at most, the entry point at none; at every
other call site the node holds only what is found in the arguments of the call. -/
theorem callable_expanded_once (root : Node) (flow : Option FlowClass) (handle : Method)
    (bubbles : ById Bubble) (options : Options) :
    let calls := CallTable.build root flow
    let s := setting root bubbles calls options
    let w := build root handle bubbles calls options
    (∃ ts q, Runs s (agenda handle) {} ts q ∧ w.bubbleIds = placed s ts) ∧
      ∃ sites, List.Forall₂ (Shows s) sites (callsAll w.root) ∧
        (∀ x ∈ sites, calls.get? x.name = some x.callable ∧ x.callable.name = x.name) ∧
        (expandedNames sites).Nodup ∧ "handle" ∉ expandedNames sites := by
  intro calls s w
  obtain ⟨ts, q, hr, hids, _⟩ := exists_runs_build root handle bubbles calls options
  obtain ⟨_, hy⟩ := exists_yields_build root handle bubbles calls options
  obtain ⟨sites, h⟩ := hy.exists_accounts
  refine ⟨⟨ts, q, hr, hids⟩, sites, h.shown, fun x hx => ?_, ?_, fun hm => ?_⟩
  · obtain ⟨i, hi, rfl⟩ := List.getElem_of_mem hx
    have hshown := h.shown.get hi (h.shown.length_eq ▸ hi)
    have hget : calls.get? (sites.get ⟨i, hi⟩).name = some (sites.get ⟨i, hi⟩).callable :=
      get?_of_known? hshown.known
    exact ⟨hget, (mem_declaredCallables_of_get? hget).2⟩
  · have hnodup := h.recorded.nodup_iff.1 (h.distinct List.nodup_nil)
    exact hnodup.of_append_left
  · exact h.outside _ hm List.mem_cons_self

end Workflow

end FlowAnalysis
