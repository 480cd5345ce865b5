import FlowAnalysis.Analysis.Basic
import FlowAnalysis.Proofs.Dependency.Growth
import FlowAnalysis.Proofs.Json.Record

/-!
# Analyses are read back as they were written

Every type of an analysis is written as a record and read back by name.  A reader gives back what
was written when the numbers fit their types: ids into signed and counts into unsigned 64-bit words
(`fits`).  Trees are read with as much fuel as their JSON is deep, and any more does as well.
-/

namespace FlowAnalysis

open Json Json.Record

/-! ### Words and lists of strings -/

theorem list?_str (as : List String) : list? string? (.ofList .str as) = some as :=
  list?_ofList fun s _ => string?_str s

theorem NodeType.ofJson?_toJson (t : NodeType) : ofJson? t.toJson = some t := by
  cases t <;> rfl

theorem ParameterType.ofName?_name (t : ParameterType) : ofName? t.name = some t := by
  cases t <;> rfl

theorem ParameterSource.ofName?_name (s : ParameterSource) : ofName? s.name = some s := by
  cases s <;> rfl

/-! ### Locations, definitions and methods -/

namespace Location

/-- Whether all lines and columns fit into 64 bits. -/
def fits (l : Location) : Bool :=
  countFits l.startLine && countFits l.startCol && countFits l.endLine && countFits l.endCol

theorem ofJson?_toJson {l : Location} (h : l.fits = true) : ofJson? l.toJson = some l := by
  obtain ⟨r, hr, hgives⟩ := of?_obj fields (j := l.toJson) rfl rfl (by decide)
  simp only [fits, Bool.and_eq_true] at h
  obtain ⟨⟨⟨hstartLine, hstartCol⟩, hendLine⟩, hendCol⟩ := h
  rw [ofJson?, hr]
  simp [hgives.required_eq "startLine" rfl (count?_ofNat hstartLine),
    hgives.required_eq "startCol" rfl (count?_ofNat hstartCol),
    hgives.required_eq "endLine" rfl (count?_ofNat hendLine),
    hgives.required_eq "endCol" rfl (count?_ofNat hendCol)]

end Location

theorem Definition.ofJson?_toJson {d : Definition} (h : d.location.fits = true) :
    ofJson? d.toJson = some d := by
  obtain ⟨r, hr, hgives⟩ :=
    of?_obj ["location", "isAsync", "parameters"] (j := d.toJson) rfl rfl (by decide)
  rw [ofJson?, hr]
  simp [hgives.required_eq "location" rfl (Location.ofJson?_toJson h),
    hgives.required_eq "isAsync" rfl (bool?_bool d.isAsync),
    hgives.required_eq "parameters" rfl (list?_str d.parameters)]

namespace MethodSite

/-- Whether all lines and columns of a method fit into 64 bits. -/
def fits (m : MethodSite) : Bool :=
  m.definition.fits && m.body.fits && m.invocationLines.all countFits

theorem ofJson?_toJson {m : MethodSite} (h : m.fits = true) : ofJson? m.toJson = some m := by
  obtain ⟨r, hr, hgives⟩ :=
    of?_obj ["definition", "body", "invocationLines", "isAsync", "parameters"]
    (j := m.toJson) rfl rfl (by decide)
  simp only [fits, Bool.and_eq_true, List.all_eq_true] at h
  obtain ⟨⟨hdefinition, hbody⟩, hlines⟩ := h
  have hcounts : list? count? (.ofList .ofNat m.invocationLines) = some m.invocationLines :=
    list?_ofList fun n hn => count?_ofNat (hlines n hn)
  rw [ofJson?, hr]
  simp [hgives.required_eq "definition" rfl (Location.ofJson?_toJson hdefinition),
    hgives.required_eq "body" rfl (Location.ofJson?_toJson hbody),
    hgives.required_eq "invocationLines" rfl hcounts,
    hgives.required_eq "isAsync" rfl (bool?_bool m.isAsync),
    hgives.required_eq "parameters" rfl (list?_str m.parameters)]

end MethodSite

/-! ### Bubbles -/

namespace Parameter

/-- Whether all numbers of a parameter fit into 64 bits, its value left aside. -/
def fits (p : Parameter) : Bool := p.variableId.all idFits && p.location.fits

theorem ofJson?_toJson {p : Parameter} (h : p.fits = true) : ofJson? p.toJson = some p := by
  obtain ⟨r, hr, hgives⟩ := of?_record fields (j := p.toJson) rfl rfl (by decide)
  simp only [fits, Bool.and_eq_true, Option.all_eq_true] at h
  obtain ⟨hid, hlocation⟩ := h
  have hvalue : r.required "value" some = some p.value := hgives.required_eq "value" rfl rfl
  have htype : choice? ParameterType.ofName? (.str p.type.name) = some p.type :=
    ParameterType.ofName?_name p.type
  have hsource : choice? ParameterSource.ofName? (.str p.source.name) = some p.source :=
    ParameterSource.ofName?_name p.source
  rw [ofJson?, hr]
  simp [hgives.required_eq "name" rfl (string?_str p.name), hvalue,
    hgives.required_eq "type" rfl htype,
    hgives.optional_eq "variableId" rfl (fun id hmem => id?_int (hid id hmem)) (by simp),
    hgives.required_eq "location" rfl (Location.ofJson?_toJson hlocation),
    hgives.required_eq "source" rfl hsource]

end Parameter

namespace DependencyNode

/-- Whether the ids at all nodes fit into 64 bits. -/
def fits (n : DependencyNode) : Bool := n.walk.all fun d => idFits d.variableId

theorem fits_of_mem {n d : DependencyNode} (h : n.fits = true) (hd : d ∈ n.dependencies) :
    d.fits = true := by
  rw [fits, List.all_eq_true] at h ⊢
  exact fun m hm => h m (mem_walk_of_mem hd hm)

theorem toJsonAll_eq_map (ds : List DependencyNode) : toJsonAll ds = ds.map toJson := by
  induction ds with
  | nil => rfl
  | cons d ds ih => rw [toJsonAll, ih, List.map_cons]

theorem eta (n : DependencyNode) :
    mk n.name n.variableName n.nodeType n.uniqueId n.variableId n.dependencies = n := by
  cases n
  rfl

theorem toJson_eq (n : DependencyNode) : n.toJson =
    .record [("name", some (.str n.name)), ("variableName", n.variableName.map .str),
      ("nodeType", some n.nodeType.toJson), ("uniqueId", some (.str n.uniqueId)),
      ("variableId", some (.int n.variableId)),
      ("dependencies", some (.ofList toJson n.dependencies))] := by
  cases n
  rw [toJson, toJsonAll_eq_map]
  rfl

/-- A tree is read back with any fuel from the depth of its JSON on. -/
theorem read?_toJson (n : DependencyNode) (h : n.fits = true) (fuel : Nat)
    (hfuel : n.toJson.depth ≤ fuel) : read? fuel n.toJson = some n := by
  induction n using dependencies_induction generalizing fuel with
  | step n ih =>
    have hdepth : (Json.ofList toJson n.dependencies).depth < n.toJson.depth := by
      rw [toJson_eq]
      exact depth_lt_of_mem_record (k := "dependencies") (by simp)
    cases fuel with
    | zero => omega
    | succ fuel =>
      obtain ⟨r, hr, hgives⟩ := of?_record fields (toJson_eq n) rfl (by decide)
      have hid : idFits n.variableId = true := List.all_eq_true.1 h n (self_mem_walk n)
      have hdependencies : list? (read? fuel) (.ofList toJson n.dependencies) =
          some n.dependencies := by
        refine list?_ofList fun d hd => ih d hd (fits_of_mem h hd) fuel ?_
        have hitem : d.toJson.depth < (Json.ofList toJson n.dependencies).depth :=
          depth_lt_of_mem_items (List.mem_map_of_mem hd)
        omega
      rw [read?, hr]
      simp [hgives.required_eq "name" rfl (string?_str n.name),
        hgives.optional_eq "variableName" rfl (fun s _ => string?_str s) (by simp),
        hgives.required_eq "nodeType" rfl n.nodeType.ofJson?_toJson,
        hgives.required_eq "uniqueId" rfl (string?_str n.uniqueId),
        hgives.required_eq "variableId" rfl (id?_int hid),
        hgives.required_eq "dependencies" rfl hdependencies, n.eta]

theorem ofJson?_toJson {n : DependencyNode} (h : n.fits = true) : ofJson? n.toJson = some n :=
  read?_toJson n h n.toJson.depth le_rfl

theorem toJson_ne_null (n : DependencyNode) : n.toJson ≠ .null := by
  rw [toJson_eq, record_eq]
  simp

end DependencyNode

namespace Bubble

/-- Whether all numbers of a bubble fit into 64 bits. -/
def fits (b : Bubble) : Bool :=
  idFits b.variableId && b.parameters.all Parameter.fits && b.location.fits
    && b.dependencyGraph.all DependencyNode.fits

theorem ofJson?_toJson {b : Bubble} (h : b.fits = true) : ofJson? b.toJson = some b := by
  obtain ⟨r, hr, hgives⟩ := of?_record fields (j := b.toJson) rfl rfl (by decide)
  simp only [fits, Bool.and_eq_true, List.all_eq_true, Option.all_eq_true] at h
  obtain ⟨⟨⟨hid, hparameters⟩, hlocation⟩, hgraph⟩ := h
  have hlist : list? Parameter.ofJson? (.ofList Parameter.toJson b.parameters) =
      some b.parameters :=
    list?_ofList fun p hp => Parameter.ofJson?_toJson (hparameters p hp)
  rw [ofJson?, hr]
  simp [hgives.required_eq "variableId" rfl (id?_int hid),
    hgives.required_eq "variableName" rfl (string?_str b.variableName),
    hgives.required_eq "bubbleName" rfl (string?_str b.bubbleName),
    hgives.required_eq "className" rfl (string?_str b.className),
    hgives.required_eq "parameters" rfl hlist,
    hgives.required_eq "hasAwait" rfl (bool?_bool b.hasAwait),
    hgives.required_eq "hasActionCall" rfl (bool?_bool b.hasActionCall),
    hgives.required_eq "nodeType" rfl b.nodeType.ofJson?_toJson,
    hgives.required_eq "location" rfl (Location.ofJson?_toJson hlocation),
    hgives.optional_eq "description" rfl (fun s _ => string?_str s) (by simp),
    hgives.optional_eq "dependencies" rfl (fun as _ => list?_str as) (by simp [ofList]),
    hgives.optional_eq "dependencyGraph" rfl (fun d hd =>
      DependencyNode.ofJson?_toJson (hgraph d hd))
      DependencyNode.toJson_ne_null]

end Bubble

/-! ### Workflow trees -/

namespace WorkflowNode

/-- Whether the numbers at a node itself fit into 64 bits. -/
def headFits : WorkflowNode → Bool
  | .bubble id => idFits id
  | .choice location .. => location.fits
  | .loop _ location .. => location.fits
  | .attempt location .. => location.fits
  | .code _ location .. => location.fits
  | .call _ location _ _ definition .. => location.fits && definition.all fun d => d.location.fits
  | .parallel location .. => location.fits

/-- Whether the numbers at all nodes of a tree fit into 64 bits. -/
def fits (n : WorkflowNode) : Bool :=
  n.headFits && n.branches.attach.all fun ms => ms.1.attach.all fun m => fits m.1
termination_by sizeOf n
decreasing_by exact sizeOf_lt_of_mem_branches ms.2 m.2

theorem fits_iff (n : WorkflowNode) :
    n.fits = true ↔ n.headFits = true ∧ ∀ ms ∈ n.branches, ∀ m ∈ ms, m.fits = true := by
  rw [fits]
  simp

theorem toJsonAll_eq_map (ns : List WorkflowNode) : toJsonAll ns = ns.map toJson := by
  induction ns with
  | nil => rfl
  | cons n ns ih => rw [toJsonAll, ih, List.map_cons]

theorem toJsonOf_eq_map (o : Option (List WorkflowNode)) : toJsonOf o = o.map (.ofList toJson) := by
  cases o with
  | none => rfl
  | some ns => rw [toJsonOf, toJsonAll_eq_map, Option.map_some, ofList]

/-- The members of the JSON of a node after its type. -/
def members : WorkflowNode → List (String × Option Json)
  | .bubble id => [("variableId", some (.int id))]
  | .choice location condition children otherwise thenTerminates elseTerminates =>
    [("location", some location.toJson), ("condition", some (.str condition)),
      ("children", some (.ofList toJson children)), ("elseBranch", otherwise.map (.ofList toJson)),
      ("thenTerminates", some (.bool thenTerminates)),
      ("elseTerminates", some (.bool elseTerminates))]
  | .loop _ location condition children =>
    [("location", some location.toJson), ("condition", some (.str condition)),
      ("children", some (.ofList toJson children))]
  | .attempt location children handler finalizer =>
    [("location", some location.toJson), ("children", some (.ofList toJson children)),
      ("catchBlock", handler.map (.ofList toJson)),
      ("finallyBlock", finalizer.map (.ofList toJson))]
  | .code _ location text children =>
    [("location", some location.toJson), ("code", some (.str text)),
      ("children", some (.ofList toJson children))]
  | .call _ location functionName isMethod definition binding text children =>
    [("location", some location.toJson), ("functionName", some (.str functionName)),
      ("isMethodCall", some (.bool isMethod)),
      ("methodDefinition", definition.map Definition.toJson),
      ("variableDeclaration", binding.map .str), ("code", some (.str text)),
      ("children", some (.ofList toJson children))]
  | .parallel location binding text children =>
    [("location", some location.toJson), ("variableDeclaration", binding.map .str),
      ("code", some (.str text)), ("children", some (.ofList toJson children))]

theorem toJson_eq (n : WorkflowNode) :
    n.toJson = .record (("type", some (.str n.kind)) :: n.members) := by
  cases n with
  | bubble id => rfl
  | loop kind location condition children =>
    cases kind <;> rw [toJson, toJsonAll_eq_map] <;> rfl
  | code kind location text children =>
    cases kind <;> rw [toJson, toJsonAll_eq_map] <;> rfl
  | call kind location functionName isMethod definition binding text children =>
    cases kind <;> rw [toJson, toJsonAll_eq_map] <;> rfl
  | choice location condition children otherwise thenTerminates elseTerminates =>
    rw [toJson, toJsonAll_eq_map, toJsonOf_eq_map]
    rfl
  | attempt location children handler finalizer =>
    rw [toJson, toJsonAll_eq_map, toJsonOf_eq_map, toJsonOf_eq_map]
    rfl
  | parallel location binding text children =>
    rw [toJson, toJsonAll_eq_map]
    rfl

theorem type_not_mem_members (n : WorkflowNode) : "type" ∉ n.members.map Prod.fst := by
  cases n <;> simp [members]

/-- Every branch of a node is the value of a member. -/
theorem exists_member_of_mem_branches {n : WorkflowNode} {ms : List WorkflowNode}
    (h : ms ∈ n.branches) : ∃ k, (k, some (.ofList toJson ms)) ∈ n.members := by
  cases n with
  | bubble id => cases h
  | choice location condition children otherwise thenTerminates elseTerminates =>
    rcases List.mem_cons.1 h with rfl | h
    · exact ⟨"children", by simp [members]⟩
    · obtain rfl := Option.mem_toList.1 h
      exact ⟨"elseBranch", by simp [members]⟩
  | attempt location children handler finalizer =>
    rcases List.mem_cons.1 h with rfl | h
    · exact ⟨"children", by simp [members]⟩
    · rcases List.mem_append.1 h with h | h
      · obtain rfl := Option.mem_toList.1 h
        exact ⟨"catchBlock", by simp [members]⟩
      · obtain rfl := Option.mem_toList.1 h
        exact ⟨"finallyBlock", by simp [members]⟩
  | loop | code | call | parallel =>
    obtain rfl := List.mem_singleton.1 h
    exact ⟨"children", by simp [members]⟩

section Members

variable {nodes? : Json → Option (List WorkflowNode)} {location : Location}
  {children : List WorkflowNode}

theorem readLoop?_members (kind : LoopKind) (condition : String) (hlocation : location.fits = true)
    (hchildren : nodes? (.ofList toJson children) = some children) :
    readLoop? kind nodes? (.record (loop kind location condition children).members)
      = some (loop kind location condition children) := by
  obtain ⟨r, hr, hgives⟩ := of?_record ["location", "condition", "children"]
    (j := .record (loop kind location condition children).members) rfl rfl (by decide)
  rw [readLoop?, hr]
  simp [hgives.required_eq "location" rfl (Location.ofJson?_toJson hlocation),
    hgives.required_eq "condition" rfl (string?_str condition),
    hgives.required_eq "children" rfl hchildren]

theorem readCode?_members (kind : CodeKind) (text : String) (hlocation : location.fits = true)
    (hchildren : nodes? (.ofList toJson children) = some children) :
    readCode? kind nodes? (.record (code kind location text children).members)
      = some (code kind location text children) := by
  obtain ⟨r, hr, hgives⟩ := of?_record ["location", "code", "children"]
    (j := .record (code kind location text children).members) rfl rfl (by decide)
  rw [readCode?, hr]
  simp [hgives.required_eq "location" rfl (Location.ofJson?_toJson hlocation),
    hgives.required_eq "code" rfl (string?_str text),
    hgives.required_eq "children" rfl hchildren]

theorem readCall?_members (kind : CallKind) (functionName : String) (isMethod : Bool)
    {definition : Option Definition} (binding : Option String) (text : String)
    (hlocation : location.fits = true) (hdefinition : ∀ d ∈ definition, d.location.fits = true)
    (hchildren : nodes? (.ofList toJson children) = some children) :
    readCall? kind nodes?
        (.record (call kind location functionName isMethod definition binding text
          children).members)
      = some (call kind location functionName isMethod definition binding text children) := by
  obtain ⟨r, hr, hgives⟩ :=
    of?_record ["location", "functionName", "isMethodCall", "methodDefinition",
    "variableDeclaration", "code", "children"]
    (j := .record (call kind location functionName isMethod definition binding text
      children).members)
    rfl rfl (by decide)
  rw [readCall?, hr]
  simp [hgives.required_eq "location" rfl (Location.ofJson?_toJson hlocation),
    hgives.required_eq "functionName" rfl (string?_str functionName),
    hgives.required_eq "isMethodCall" rfl (bool?_bool isMethod),
    hgives.optional_eq "methodDefinition" rfl (fun d hd =>
      Definition.ofJson?_toJson (hdefinition d hd))
      (by simp [Definition.toJson]),
    hgives.optional_eq "variableDeclaration" rfl (fun s _ => string?_str s) (by simp),
    hgives.required_eq "code" rfl (string?_str text),
    hgives.required_eq "children" rfl hchildren]

end Members

/-- The members of a node are read back when its branches are. -/
theorem readKind?_members {nodes? : Json → Option (List WorkflowNode)} {n : WorkflowNode}
    (hhead : n.headFits = true)
    (hbranches : ∀ ms ∈ n.branches, nodes? (.ofList toJson ms) = some ms) :
    readKind? nodes? n.kind (.record n.members) = some n := by
  cases n with
  | bubble id =>
    obtain ⟨r, hr, hgives⟩ :=
      of?_record ["variableId"] (j := .record (bubble id).members) rfl rfl (by decide)
    simp [kind, readKind?, hr, hgives.required_eq "variableId" rfl (id?_int hhead)]
  | choice location condition children otherwise thenTerminates elseTerminates =>
    have hotherwise : ∀ ms ∈ otherwise, nodes? (.ofList toJson ms) = some ms :=
      fun ms hms => hbranches ms (by simp [branches, Option.mem_def.1 hms])
    obtain ⟨r, hr, hgives⟩ := of?_record ["location", "condition", "children", "elseBranch",
      "thenTerminates", "elseTerminates"]
      (j := .record (choice location condition children otherwise thenTerminates
        elseTerminates).members)
      rfl rfl (by decide)
    simp [kind, readKind?, hr, hgives.required_eq "location" rfl (Location.ofJson?_toJson hhead),
      hgives.required_eq "condition" rfl (string?_str condition),
      hgives.required_eq "children" rfl (hbranches children List.mem_cons_self),
      hgives.optional_eq "elseBranch" rfl hotherwise (by simp [ofList]),
      hgives.required_eq "thenTerminates" rfl (bool?_bool thenTerminates),
      hgives.required_eq "elseTerminates" rfl (bool?_bool elseTerminates)]
  | loop kind location condition children =>
    have hloop := readLoop?_members kind condition hhead (hbranches children List.mem_cons_self)
    cases kind <;> exact hloop
  | attempt location children handler finalizer =>
    have hhandler : ∀ ms ∈ handler, nodes? (.ofList toJson ms) = some ms :=
      fun ms hms => hbranches ms (by simp [branches, Option.mem_def.1 hms])
    have hfinalizer : ∀ ms ∈ finalizer, nodes? (.ofList toJson ms) = some ms :=
      fun ms hms => hbranches ms (by simp [branches, Option.mem_def.1 hms])
    obtain ⟨r, hr, hgives⟩ := of?_record ["location", "children", "catchBlock", "finallyBlock"]
      (j := .record (attempt location children handler finalizer).members) rfl rfl (by decide)
    simp [kind, readKind?, hr, hgives.required_eq "location" rfl (Location.ofJson?_toJson hhead),
      hgives.required_eq "children" rfl (hbranches children List.mem_cons_self),
      hgives.optional_eq "catchBlock" rfl hhandler (by simp [ofList]),
      hgives.optional_eq "finallyBlock" rfl hfinalizer (by simp [ofList])]
  | code kind location text children =>
    have hcode := readCode?_members kind text hhead (hbranches children List.mem_cons_self)
    cases kind <;> exact hcode
  | call kind location functionName isMethod definition binding text children =>
    simp only [headFits, Bool.and_eq_true, Option.all_eq_true] at hhead
    have hcall := readCall?_members kind functionName isMethod binding text hhead.1 hhead.2
      (hbranches children List.mem_cons_self)
    cases kind <;> exact hcall
  | parallel location binding text children =>
    obtain ⟨r, hr, hgives⟩ := of?_record ["location", "variableDeclaration", "code", "children"]
      (j := .record (parallel location binding text children).members) rfl rfl (by decide)
    simp [kind, readKind?, hr, hgives.required_eq "location" rfl (Location.ofJson?_toJson hhead),
      hgives.optional_eq "variableDeclaration" rfl (fun s _ => string?_str s) (by simp),
      hgives.required_eq "code" rfl (string?_str text),
      hgives.required_eq "children" rfl (hbranches children List.mem_cons_self)]

/-- A node is read back with any fuel from the depth of its JSON on. -/
theorem read?_toJson (n : WorkflowNode) (h : n.fits = true) (fuel : Nat)
    (hfuel : n.toJson.depth ≤ fuel) : read? fuel n.toJson = some n := by
  induction n using branches_induction generalizing fuel with
  | step n ih =>
    obtain ⟨hhead, hbelow⟩ := (fits_iff n).1 h
    cases fuel with
    | zero =>
      have hpos : 0 < n.toJson.depth := by
        rw [toJson_eq, record_eq, depth]
        omega
      omega
    | succ fuel =>
      have htag : tagged? "type" n.toJson = some (n.kind, .record n.members) := by
        rw [toJson_eq]
        exact tagged?_record n.type_not_mem_members
      rw [read?, htag]
      refine readKind?_members hhead fun ms hms => list?_ofList fun m hm => ?_
      -- Two levels of JSON lie between a node and the nodes below it: the branch and the member.
      obtain ⟨k, hk⟩ := exists_member_of_mem_branches hms
      have hbranch : (Json.ofList toJson ms).depth < n.toJson.depth := by
        rw [toJson_eq]
        exact depth_lt_of_mem_record (List.mem_cons_of_mem _ hk)
      have hitem : m.toJson.depth < (Json.ofList toJson ms).depth :=
        depth_lt_of_mem_items (List.mem_map_of_mem hm)
      exact ih ms hms m hm (hbelow ms hms m hm) fuel (by omega)

theorem ofJson?_toJson {n : WorkflowNode} (h : n.fits = true) : ofJson? n.toJson = some n :=
  read?_toJson n h n.toJson.depth le_rfl

end WorkflowNode

/-! ### Analyses -/

namespace Bubble

/-- Whether all numbers of the bubbles of a table fit into 64 bits, their
ids in the table included. -/
def tableFits (t : ById Bubble) : Bool := t.entries.all fun e => idFits e.1 && e.2.fits

theorem byId?_ofIds {t : ById Bubble} (h : tableFits t = true) :
    byId? ofJson? (.ofIds toJson t) = some t := by
  simp only [tableFits, List.all_eq_true, Bool.and_eq_true] at h
  exact Json.byId?_ofIds (fun e he => (h e he).1) fun e he => ofJson?_toJson (h e he).2

end Bubble

namespace Workflow

/-- Whether all numbers of a workflow fit into 64 bits. -/
def fits (w : Workflow) : Bool := w.root.all WorkflowNode.fits && Bubble.tableFits w.bubbles

theorem ofJson?_toJson {w : Workflow} (h : w.fits = true) : ofJson? w.toJson = some w := by
  simp only [fits, Bool.and_eq_true, List.all_eq_true] at h
  have hroot : list? WorkflowNode.ofJson? (.arr (WorkflowNode.toJsonAll w.root)) = some w.root := by
    rw [WorkflowNode.toJsonAll_eq_map]
    exact list?_ofList fun n hn => WorkflowNode.ofJson?_toJson (h.1 n hn)
  obtain ⟨r, hr, hgives⟩ := of?_obj ["root", "bubbles"] (j := w.toJson) rfl rfl (by decide)
  rw [ofJson?, hr]
  simp [hgives.required_eq "root" rfl hroot,
    hgives.required_eq "bubbles" rfl (Bubble.byId?_ofIds h.2)]

end Workflow

namespace Analysis

/-- Whether all numbers of an analysis fit into 64 bits. -/
def fits (a : Analysis) : Bool :=
  Bubble.tableFits a.bubbles && a.workflow.fits && a.methods.entries.all fun e => e.2.fits

/-- An analysis whose numbers fit into 64 bits is read back from its JSON as it was. -/
theorem ofJson?_toJson_of_fits (a : Analysis) (h : a.fits = true) : ofJson? a.toJson = some a := by
  simp only [fits, Bool.and_eq_true, List.all_eq_true] at h
  obtain ⟨⟨hbubbles, hworkflow⟩, hmethods⟩ := h
  have hsites : byName? MethodSite.ofJson? (.ofNames MethodSite.toJson a.methods) =
      some a.methods :=
    byName?_ofNames fun e he => MethodSite.ofJson?_toJson (hmethods e he)
  obtain ⟨r, hr, hgives⟩ :=
    of?_obj ["bubbles", "workflow", "instanceMethodLocations"] (j := a.toJson)
    rfl rfl (by decide)
  rw [ofJson?, hr]
  simp [hgives.required_eq "bubbles" rfl (Bubble.byId?_ofIds hbubbles),
    hgives.required_eq "workflow" rfl (Workflow.ofJson?_toJson hworkflow),
    hgives.required_eq "instanceMethodLocations" rfl hsites]

/-- A bubble with the least id, a parameter that is `null`, and a dependency two levels down. -/
def leastBubble : Bubble where
  variableId := -0x8000000000000000
  variableName := "_anonymous"
  bubbleName := "a"
  className := "A"
  parameters := [⟨"q", .null, .unknown, none, ⟨1, 0, 1, 4⟩, .objectProperty⟩,
    ⟨"r", .obj [("x", .arr [.int 1])], .reference, some 7, ⟨1, 0, 1, 4⟩, .spread⟩]
  hasAwait := true
  hasActionCall := false
  nodeType := .tool
  location := ⟨1, 0, 0xffffffffffffffff, 4⟩
  dependencies := some ["b", "c"]
  dependencyGraph := some ⟨"a", none, .tool, "0.a#1", 1,
    [⟨"b", some "v", .service, "0.a#1.b#1", 2, [⟨"c", none, .unknown, "0.a#1.b#1.c#1", 3, []⟩]⟩]⟩

/-- An analysis with nodes of all kinds, with and without their optional members. -/
def everyKind : Analysis where
  bubbles :=
    .ofList [(leastBubble.variableId, leastBubble), (7, { leastBubble with variableId := 7 })]
  workflow := {
    root := [
      .choice ⟨2, 0, 3, 0⟩ "x" [.loop .counted ⟨2, 0, 3, 0⟩ "y" [.bubble leastBubble.variableId]]
        (some [.loop .conditional ⟨2, 0, 3, 0⟩ "z" []]) false true,
      .attempt ⟨4, 0, 5, 0⟩ [.code .block ⟨4, 0, 5, 0⟩ "b" []]
        (some [.code .declaration ⟨4, 0, 5, 0⟩ "c" [.code .result ⟨4, 0, 5, 0⟩ "d" []]]) none,
      .call .effect ⟨6, 0, 7, 0⟩ "f" true (some ⟨⟨6, 0, 7, 0⟩, true, ["p"]⟩) none "e"
        [.call .transformation ⟨6, 0, 7, 0⟩ "g" false none (some "v") "h" []],
      .parallel ⟨8, 0, 9, 0⟩ none "k" [.bubble 7]]
    bubbles :=
      .ofList [(leastBubble.variableId, leastBubble), (7, { leastBubble with variableId := 7 })] }
  methods := .ofList [("m", ⟨⟨10, 0, 12, 0⟩, ⟨11, 0, 12, 0⟩, [4, 2, 4], false, ["p", "q"]⟩)]

theorem ofJson?_toJson_everyKind :
    everyKind.fits = true ∧ ofJson? everyKind.toJson = some everyKind :=
  have hfits : everyKind.fits = true := by decide +kernel
  ⟨hfits, ofJson?_toJson_of_fits everyKind hfits⟩

end Analysis

end FlowAnalysis
