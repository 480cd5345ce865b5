import FlowAnalysis.Proofs.Workflow.Expansion

/-!
# Branches that control never leaves at their ends

A reading of statements says from which state to which a statement can complete normally.
Not much is asked of it: a `return` or `throw` never completes, a block completes only if
each of its statements does, and an `if` only if the branch taken does (`Reading`).  What
completes in no reading is what `Stops` (`neverCompletes_iff_stops`): there is one reading
in which all the rest completes.

The test for such statements looks at the last statement of a block only, so it can miss one that
stops before its end, but it is never wrong about what it finds (`stops_of_terminates`), and it
misses nothing where no statement stands behind one that stops (`terminates_of_stops`).  Every
choice of a workflow carries the outcome of the test for the branches of an `if` of the script
(`termination_flags_sound`).
-/

namespace FlowAnalysis

namespace WorkflowNode

/-- A node is one of some nodes or stands anywhere below them. -/
inductive Occurs (x : WorkflowNode) : List WorkflowNode → Prop
  | here {ns : List WorkflowNode} (h : x ∈ ns) : Occurs x ns
  | deeper {n : WorkflowNode} {ns ms : List WorkflowNode} (hn : n ∈ ns) (hms : ms ∈ n.branches)
      (h : Occurs x ms) : Occurs x ns

variable {x n : WorkflowNode} {ns ms : List WorkflowNode}

theorem not_occurs_nil : ¬ Occurs x [] := by
  rintro (h | ⟨h, -, -⟩) <;> exact List.not_mem_nil h

theorem occurs_append (h : Occurs x (ns ++ ms)) : Occurs x ns ∨ Occurs x ms := by
  cases h with
  | here h => exact (List.mem_append.1 h).imp .here .here
  | deeper hn hms h => exact (List.mem_append.1 hn).imp (.deeper · hms h) (.deeper · hms h)

theorem occurs_singleton (h : Occurs x [n]) : x = n ∨ ∃ ms ∈ n.branches, Occurs x ms := by
  cases h with
  | here h => exact .inl (List.mem_singleton.1 h)
  | deeper hn hms h => exact .inr ⟨_, List.mem_singleton.1 hn ▸ hms, h⟩

/-- What stands in a branch that may be absent. -/
theorem occurs_getD_of_mem_toList {b : Option (List WorkflowNode)} (hms : ms ∈ b.toList)
    (h : Occurs x ms) : Occurs x (b.getD []) := by
  obtain rfl := Option.mem_toList.1 hms
  exact h

end WorkflowNode

namespace Workflow

open Script WorkflowNode

/-! ### Readings -/

/-- A reading of statements over some states: from which state to which a statement can complete
normally.  Of statements other than those named here nothing is asked. -/
structure Reading (σ : Type) where
  completes : Node → σ → σ → Prop
  leave : ∀ {n s t}, n.kind = .returnStatement ∨ n.kind = .throwStatement → ¬ completes n s t
  block : ∀ {n s t}, n.kind = .statementBlock → completes n s t →
    ∀ m ∈ n.parts, ∃ s' t', completes m s' t'
  /-- An absent branch completes when it is taken. -/
  choice : ∀ {n s t condition consequence alternative},
    Statement.of n = .choice condition consequence alternative → completes n s t →
      ∃ taken, (taken = consequence ∨ taken = alternative) ∧ ∀ m ∈ taken, ∃ s' t', completes m s' t'

/-- A statement completes normally in no reading, from no state. -/
def NeverCompletes (n : Node) : Prop :=
  ∀ (σ : Type) (reading : Reading σ) (s t : σ), ¬ reading.completes n s t

/-- Control leaves a statement before its end, on every way through it. -/
inductive Stops : Node → Prop
  | leave {n : Node} (kind : n.kind = .returnStatement ∨ n.kind = .throwStatement) : Stops n
  | block {n m : Node} (kind : n.kind = .statementBlock) (part : m ∈ n.parts)
      (stops : Stops m) : Stops n
  | choice {n c a : Node} {condition : Option Node}
      (shape : Statement.of n = .choice condition (some c) (some a))
      (consequence : Stops c) (alternative : Stops a) : Stops n

variable {n m : Node}

theorem Stops.neverCompletes (h : Stops n) : NeverCompletes n := by
  intro σ reading
  induction h with
  | leave kind => exact fun s t => reading.leave kind
  | block kind part _ ih =>
    intro s t hcompletes
    obtain ⟨s', t', hm⟩ := reading.block kind hcompletes _ part
    exact ih s' t' hm
  | choice shape _ _ ihc iha =>
    intro s t hcompletes
    obtain ⟨taken, rfl | rfl, hm⟩ := reading.choice shape hcompletes
    · obtain ⟨s', t', hc⟩ := hm _ rfl
      exact ihc s' t' hc
    · obtain ⟨s', t', ha⟩ := hm _ rfl
      exact iha s' t' ha

/-- The reading in which everything completes that may. -/
def permissive : Reading Unit where
  completes := fun n _ _ => ¬ Stops n
  leave := fun hk h => h (.leave hk)
  block := fun hk h _ hm => ⟨(), (), fun hs => h (.block hk hm hs)⟩
  choice := by
    intro n _ _ condition consequence alternative shape h
    -- If the consequence is there and stops, the alternative is not there or does not.
    by_cases hc : ∃ c, consequence = some c ∧ Stops c
    · obtain ⟨c, rfl, hc⟩ := hc
      refine ⟨alternative, .inr rfl, fun a ha => ⟨(), (), fun hs => ?_⟩⟩
      obtain rfl := Option.mem_def.1 ha
      exact h (.choice shape hc hs)
    · exact ⟨consequence, .inl rfl, fun c hcm => ⟨(), (), fun hs => hc ⟨c, hcm, hs⟩⟩⟩

theorem neverCompletes_iff_stops : NeverCompletes n ↔ Stops n := by
  constructor
  · exact fun h => Classical.not_not.1 (h Unit permissive () ())
  · exact Stops.neverCompletes

/-! ### The test -/

theorem of_eq_choice_iff {condition consequence alternative : Option Node} :
    Statement.of n = .choice condition consequence alternative ↔
      n.kind = .ifStatement ∧ n.child? .condition = condition ∧
      n.child? .consequence = consequence ∧
        (n.child? .alternative).bind (·.part?) = alternative := by
  rw [Statement.of]
  split <;> simp_all

/-- What the test looks at. -/
theorem terminates_iff (n : Node) :
    terminates n = true ↔ (n.kind = .returnStatement ∨ n.kind = .throwStatement) ∨
      (n.kind = .statementBlock ∧ ∃ last, n.parts.getLast? = some last ∧ terminates last = true) ∨
      ∃ condition c a, Statement.of n = .choice condition (some c) (some a) ∧
        terminates c = true ∧ terminates a = true := by
  simp only [of_eq_choice_iff]
  rw [terminates]
  split
  · next hk => simp [hk]
  · next hk => simp [hk]
  · next hk => cases n.parts.getLast? <;> simp [hk]
  · next hk => cases n.child? .consequence <;> cases (n.child? .alternative).bind (·.part?) <;>
      simp [hk]
  · next hreturn hthrow hblock hif => simp_all

/-- The test is right about what it finds. -/
theorem stops_of_terminates (n : Node) (h : terminates n = true) : Stops n := by
  rcases (terminates_iff n).1 h with hk | ⟨hk, last, hlast, hl⟩ | ⟨condition, c, a, shape, hc, ha⟩
  · exact .leave hk
  · have hm : last ∈ n.parts := List.mem_of_getLast? hlast
    have hlt : last.size < n.size := Node.size_lt_of_mem (Node.mem_children_of_mem_parts hm)
    exact .block hk hm (stops_of_terminates last hl)
  · obtain ⟨hltc, hlta⟩ := Statement.size_lt_of_choice shape
    have hltc := hltc c rfl
    have hlta := hlta a rfl
    exact .choice shape (stops_of_terminates c hc) (stops_of_terminates a ha)
termination_by n.size

/-- In every block of a statement, one that never completes is the last. -/
def Tidy (n : Node) : Prop :=
  ∀ b ∈ n.descendants, b.kind = .statementBlock → ∀ m ∈ b.parts, NeverCompletes m →
    b.parts.getLast? = some m

theorem Tidy.of_mem_descendants (h : Tidy n) (hm : m ∈ n.descendants) : Tidy m := fun b hb =>
  h b (Node.mem_descendants_trans hm hb)

/-- Where nothing stands behind a statement that stops, the test misses nothing. -/
theorem terminates_of_stops (h : Stops n) (ht : Tidy n) : terminates n = true := by
  induction h with
  | leave kind => exact (terminates_iff _).2 (.inl kind)
  | block kind part stops ih =>
    have hm := Node.mem_descendants_of_mem_children (Node.mem_children_of_mem_parts part)
    have hlast := ht _ (Node.self_mem_descendants _) kind _ part stops.neverCompletes
    exact (terminates_iff _).2 (.inr (.inl ⟨kind, _, hlast, ih (ht.of_mem_descendants hm)⟩))
  | choice shape _ _ ihc iha =>
    obtain ⟨-, -, hc, ha⟩ := of_eq_choice_iff.1 shape
    have hcm := Node.mem_descendants_of_mem_children (Node.mem_children_of_child? hc)
    obtain ⟨e, he, hpart⟩ := Option.bind_eq_some_iff.1 ha
    have ham := Node.mem_descendants_trans
      (Node.mem_descendants_of_mem_children (Node.mem_children_of_child? he))
      (Node.mem_descendants_of_mem_children (Node.mem_children_of_part? hpart))
    exact (terminates_iff _).2 (.inr (.inr ⟨_, _, _, shape, ihc (ht.of_mem_descendants hcm),
      iha (ht.of_mem_descendants ham)⟩))

/-! ### The flags of a workflow -/

/-- A flag tells whether control never leaves a branch at its end.  It is set only for a branch that
never completes, and for every such branch that is tidy. -/
structure Marks (flag : Bool) (branch : Option Node) : Prop where
  sound : flag = true → ∃ m, branch = some m ∧ NeverCompletes m
  exact : ∀ m, branch = some m → Tidy m → NeverCompletes m → flag = true

theorem marks_terminates (branch : Option Node) :
    Marks ((branch.map terminates).getD false) branch := by
  cases branch with
  | none => exact ⟨fun h => absurd h (by simp), fun m h => absurd h (by simp)⟩
  | some n =>
    refine ⟨fun h => ⟨n, rfl, (stops_of_terminates n h).neverCompletes⟩, ?_⟩
    rintro m hm ht hnever
    obtain rfl := Option.some.inj hm
    exact terminates_of_stops (neverCompletes_iff_stops.1 hnever) ht

/-- A choice stands for an `if` of the region, and its flags tell of the branches of the `if`. -/
def StandsFor (R : Node → Prop) (location : Location) (condition : String)
    (thenFlag elseFlag : Bool) : Prop :=
  ∃ n test consequence alternative, R n ∧ Statement.of n = .choice test consequence alternative ∧
    n.location = location ∧ conditionText test = condition ∧ Marks thenFlag consequence ∧
    Marks elseFlag alternative

/-- Every choice among nodes that come about stands for an `if` of the region. -/
theorem Yields.standsFor {s : Setting} {R : Node → Prop} {stack : List String} {p q : Progress}
    {nodes : List WorkflowNode} (h : Yields s R stack p nodes q) {location : Location}
    {condition : String} {children : List WorkflowNode} {otherwise : Option (List WorkflowNode)}
    {thenFlag elseFlag : Bool} {x : WorkflowNode}
    (hx : x = .choice location condition children otherwise thenFlag elseFlag)
    (ho : Occurs x nodes) : StandsFor R location condition thenFlag elseFlag := by
  induction h with
  | nil => exact absurd ho not_occurs_nil
  | append _ _ ih ih' => exact (occurs_append ho).elim ih ih'
  | @leaf _ _ _ _ id _ inner _ _ ih =>
    rcases occurs_append (show Occurs x ([.bubble id] ++ inner) from ho) with ho | ho
    · rcases occurs_singleton ho with rfl | ⟨ms, hms, -⟩
      · cases hx
      · cases hms
    · exact ih ho
  | choice within shape _ _ ih ih' =>
    rcases occurs_singleton ho with rfl | ⟨ms, hms, hin⟩
    · obtain ⟨rfl, rfl, rfl, rfl, rfl, rfl⟩ := WorkflowNode.choice.inj hx
      exact ⟨_, _, _, _, within, shape, rfl, rfl, marks_terminates _, marks_terminates _⟩
    · rcases List.mem_cons.1 hms with rfl | hms
      · exact ih hin
      · exact ih' (occurs_getD_of_mem_toList hms hin)
  | attempt _ _ _ ih ih' ih'' =>
    rcases occurs_singleton ho with rfl | ⟨ms, hms, hin⟩
    · cases hx
    · rcases List.mem_cons.1 hms with rfl | hms
      · exact ih hin
      · exact (List.mem_append.1 hms).elim (fun hms => ih' (occurs_getD_of_mem_toList hms hin))
          fun hms => ih'' (occurs_getD_of_mem_toList hms hin)
  | loop _ ih | code _ ih | parallel _ ih | call _ _ _ _ _ ih =>
    rcases occurs_singleton ho with rfl | ⟨ms, hms, hin⟩
    · cases hx
    · exact ih (List.mem_singleton.1 hms ▸ hin)
  | expanded _ _ _ _ _ _ _ ih ih' =>
    rcases occurs_singleton ho with rfl | ⟨ms, hms, hin⟩
    · cases hx
    · exact (occurs_append (List.mem_singleton.1 hms ▸ hin)).elim ih ih'

/-- **The flags of branches are sound.**  A statement for which the test succeeds completes normally
in no reading, and in a tidy one the test finds all that is so.  Every choice of a workflow, at any
depth, stands for an `if` in the body of the entry point or of a callable, and each of its flags is
set only when the branch is there and never completes normally. -/
theorem termination_flags_sound (root : Node) (handle : Method) (bubbles : ById Bubble)
    (calls : CallTable) (options : Options) :
    (∀ n, terminates n = true → NeverCompletes n) ∧
    (∀ n, Tidy n → NeverCompletes n → terminates n = true) ∧
    ∀ location condition children otherwise thenFlag elseFlag,
      Occurs (.choice location condition children otherwise thenFlag elseFlag)
        (build root handle bubbles calls options).root →
      StandsFor (InBodies handle calls) location condition thenFlag elseFlag := by
  refine ⟨fun n h => (stops_of_terminates n h).neverCompletes,
    fun n ht h => terminates_of_stops (neverCompletes_iff_stops.1 h) ht, ?_⟩
  intro location condition children otherwise thenFlag elseFlag ho
  obtain ⟨_, hy⟩ := exists_yields_build root handle bubbles calls options
  exact hy.standsFor rfl ho

-- The second block is not tidy: it never completes, but its last statement is a call.
example :
    (ParsedScript.parse?
      "if (a) return 1; else \x7b f(); throw 2 \x7d\n\x7b return 3; g() \x7d").map
    (fun p => p.root.parts.map terminates) = some [true, false] := by
  decide +kernel

end Workflow

end FlowAnalysis
