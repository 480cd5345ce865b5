import FlowAnalysis.Proofs.Script.Extent
import FlowAnalysis.Scope.Outline
import Mathlib.Data.List.Basic
import Mathlib.Logic.Relation

/-!
# What an outline descends into

An outline does not go into every node, and it takes the nodes it goes into in different ways: a
function is taken apart into parameters and body, a declaration into declarators, a pattern into its
defaults.  An `Item` is a node with the way in which it is taken, and `Item.pieces` lists what it is
made of: names that are bound, and further items.  `Item.outline_eq` says once and for all that the
outline of an item is put together from its pieces; everything else about outlines follows by
induction on items (`Item.induction`).
-/

namespace FlowAnalysis.Outline

open Relation Script Node

/-! ### Items and their pieces -/

/-- The ways in which an outline takes a node. -/
inductive Way
  | plain
  | function
  | classBody
  | member
  | parameter
  | declarator (kind : BindingKind)
  | default

/-- A node with the way in which it is taken. -/
structure Item where
  way : Way
  node : Node

/-- A piece of an item: a name that it binds, or another item. -/
inductive Piece
  | name (kind : BindingKind) (n : Node)
  | item (i : Item)

/-- The names that an import binds. -/
def importedNames (n : Node) : List Node :=
  (n.parts.filter fun c => c.kind == .importClause).flatMap fun clause =>
    clause.parts.flatMap fun part =>
      if part.kind = .identifier then [part]
      else if part.kind = .namespaceImport then part.parts.filter fun c => c.kind == .identifier
      else if part.kind = .namedImports then
        (part.parts.filter fun c => c.kind == .importSpecifier).filterMap fun s =>
          (s.child? .newName).or (s.child? .name)
      else []

namespace Piece

/-- The names that a pattern binds. -/
def names (kind : BindingKind) (pattern : Node) : List Piece := pattern.boundNames.map (name kind)

/-- Nodes one after the other, all taken in one way. -/
def all (way : Way) (ns : List Node) : List Piece := ns.map fun n => item ⟨way, n⟩

/-- The child in a role. -/
def child (n : Node) (r : Role) : List Piece := all .plain (n.child? r).toList

/-- The names of a loop over a collection, or the expression in their place. -/
def loopNames (n : Node) : List Piece :=
  (n.child? .left).elim [] fun left =>
    (n.child? .kind).elim (child n .left) fun word => names (.ofWord (some word.text)) left

/-- The body of a function, which has no scope of its own. -/
def body (b : Node) : List Piece :=
  if b.kind = .statementBlock then all .plain b.parts else all .plain [b]

/-- The defaults in the pattern of a declarator, when it is not a single name. -/
def defaults (pattern : Node) : List Piece :=
  if pattern.kind = .identifier then [] else all .default pattern.parts

end Piece

namespace Item

open Piece

/-- The pieces of a node that is taken plainly. -/
def plainPieces (n : Node) : List Piece :=
  match n.kind with
  | .interfaceDeclaration | .typeAliasDeclaration | .comment => []
  | .importStatement => (importedNames n).map (name .imported)
  | .lexicalDeclaration | .variableDeclaration =>
    all (.declarator (.ofWord ((n.child? .kind).map (·.text)))) n.parts
  | .functionDeclaration | .generatorFunctionDeclaration =>
    (n.child? .name).toList.map (name .function) ++ all .function [n]
  | .functionExpression | .generatorFunction | .arrowFunction | .methodDefinition =>
    all .function [n]
  | .classDeclaration | .abstractClassDeclaration =>
    (n.child? .name).toList.map (name .className) ++ all .classBody [n]
  | .classExpression => all .classBody [n]
  | .forStatement =>
    child n .initializer ++ child n .condition ++ child n .increment ++ child n .body
  | .forInStatement => loopNames n ++ child n .right ++ child n .body
  | .catchClause => (n.child? .parameter).toList.flatMap (names .caught) ++ child n .body
  | _ => all .plain n.parts

/-- What an item is made of, in order. -/
def pieces : Item → List Piece
  | ⟨.plain, n⟩ => plainPieces n
  | ⟨.function, n⟩ =>
    (n.child? .parameter).toList.flatMap (names .parameter)
      ++ (n.child? .parameters).toList.flatMap (fun ps => all .parameter ps.parts)
      ++ (n.child? .body).toList.flatMap body
  | ⟨.classBody, n⟩ => (n.child? .body).toList.flatMap fun b => all .member b.parts
  | ⟨.member, n⟩ =>
    if n.kind = .methodDefinition then all .function [n]
    else if n.kind = .publicFieldDefinition then child n .value
    else all .plain [n]
  | ⟨.parameter, n⟩ => names .parameter ((n.child? .pattern).getD n) ++ child n .value
  | ⟨.declarator kind, n⟩ =>
    if n.kind = .variableDeclarator then
      (n.child? .name).toList.flatMap (fun pattern => names kind pattern ++ defaults pattern)
        ++ child n .value
    else []
  | ⟨.default, n⟩ =>
    if n.kind = .objectAssignmentPattern ∨ n.kind = .assignmentPattern then child n .right
    else if n.kind = .objectPattern ∨ n.kind = .arrayPattern ∨ n.kind = .pairPattern then
      all .default n.parts
    else []

/-- The kind of scope that an item opens, if it opens one. -/
def scope? : Item → Option ScopeKind
  | ⟨.plain, n⟩ =>
    if n.kind = .statementBlock ∨ n.kind = .switchBody then some .block
    else if n.kind = .forStatement ∨ n.kind = .forInStatement then some .loop
    else if n.kind = .catchClause then some .handler
    else none
  | ⟨.function, _⟩ => some .function
  | ⟨.classBody, _⟩ => some .classBody
  | _ => none

/-- The outline of an item. -/
def outline : Item → List Outline
  | ⟨.plain, n⟩ => ofNode n
  | ⟨.function, n⟩ => [ofFunction n]
  | ⟨.classBody, n⟩ => [ofClass n]
  | ⟨.member, n⟩ => ofMembers [n]
  | ⟨.parameter, n⟩ => ofParameters [n]
  | ⟨.declarator kind, n⟩ => ofDeclarators kind [n]
  | ⟨.default, n⟩ => ofDefaults [n]

end Item

/-- The outline of a piece. -/
def Piece.outline : Piece → List Outline
  | name kind n => [bind kind n]
  | item i => i.outline

/-- Outlines in a scope around a node, or on their own. -/
def enclosed (scope? : Option ScopeKind) (n : Node) (parts : List Outline) : List Outline :=
  scope?.elim parts fun kind => [around kind n parts]

/-! ### The outline of pieces -/

theorem ofNodes_eq_flatMap (ns : List Node) : ofNodes ns = ns.flatMap ofNode := by
  induction ns with
  | nil => rw [ofNodes, List.flatMap_nil]
  | cons n ns ih => rw [ofNodes, List.flatMap_cons, ih]

theorem ofMembers_eq_flatMap (ms : List Node) :
    ofMembers ms = ms.flatMap fun m => ofMembers [m] := by
  induction ms with
  | nil => rw [ofMembers, List.flatMap_nil]
  | cons m ms ih =>
    rw [List.flatMap_cons, ← ih]
    conv_lhs => rw [ofMembers]
    conv_rhs => rw [ofMembers, ofMembers, List.append_nil]

theorem ofParameters_eq_flatMap (ps : List Node) :
    ofParameters ps = ps.flatMap fun p => ofParameters [p] := by
  induction ps with
  | nil => rw [ofParameters, List.flatMap_nil]
  | cons p ps ih =>
    rw [List.flatMap_cons, ← ih]
    conv_lhs => rw [ofParameters]
    conv_rhs => rw [ofParameters, ofParameters, List.append_nil]

theorem ofDeclarators_eq_flatMap (kind : BindingKind) (ds : List Node) :
    ofDeclarators kind ds = ds.flatMap fun d => ofDeclarators kind [d] := by
  induction ds with
  | nil => rw [ofDeclarators, List.flatMap_nil]
  | cons d ds ih =>
    rw [List.flatMap_cons, ← ih]
    conv_lhs => rw [ofDeclarators]
    conv_rhs => rw [ofDeclarators, ofDeclarators, List.append_nil]

theorem ofDefaults_eq_flatMap (cs : List Node) :
    ofDefaults cs = cs.flatMap fun c => ofDefaults [c] := by
  induction cs with
  | nil => rw [ofDefaults, List.flatMap_nil]
  | cons c cs ih =>
    rw [List.flatMap_cons, ← ih]
    conv_lhs => rw [ofDefaults]
    conv_rhs => rw [ofDefaults, ofDefaults, List.append_nil]

namespace Piece

theorem outline_all (way : Way) (ns : List Node) :
    (all way ns).flatMap outline = ns.flatMap fun n => Item.outline ⟨way, n⟩ := by
  rw [all, List.flatMap_map]
  rfl

theorem outline_map_name (kind : BindingKind) (ns : List Node) :
    (ns.map (name kind)).flatMap outline = ns.map (bind kind) := by
  rw [List.flatMap_map, List.map_eq_flatMap]
  rfl

theorem outline_names (kind : BindingKind) (pattern : Node) :
    (names kind pattern).flatMap outline = bindAll kind pattern :=
  outline_map_name kind pattern.boundNames

theorem outline_child (n : Node) (r : Role) : (child n r).flatMap outline = ofChild n r := by
  rw [child, outline_all, ofChild]
  split
  · next c hc =>
    rw [hc, Option.toList_some, List.flatMap_singleton]
    rfl
  · next hc =>
    rw [hc]
    rfl

theorem outline_plain (ns : List Node) : (all .plain ns).flatMap outline = ofNodes ns := by
  rw [outline_all, ofNodes_eq_flatMap]
  rfl

theorem outline_default (ns : List Node) : (all .default ns).flatMap outline = ofDefaults ns := by
  rw [outline_all, ofDefaults_eq_flatMap]
  rfl

theorem outline_function (n : Node) : (all .function [n]).flatMap outline = [ofFunction n] := by
  rw [outline_all, List.flatMap_singleton]
  rfl

theorem outline_classBody (n : Node) : (all .classBody [n]).flatMap outline = [ofClass n] := by
  rw [outline_all, List.flatMap_singleton]
  rfl

theorem outline_declarators (kind : BindingKind) (ns : List Node) :
    (all (.declarator kind) ns).flatMap outline = ofDeclarators kind ns := by
  rw [outline_all, ofDeclarators_eq_flatMap]
  rfl

theorem outline_flatMap_names (kind : BindingKind) (pattern? : Option Node) :
    (pattern?.toList.flatMap (names kind)).flatMap outline
      = (pattern?.map (bindAll kind)).getD [] := by
  cases pattern? with
  | none => rfl
  | some pattern =>
    rw [Option.toList_some, List.flatMap_singleton, outline_names]
    rfl

theorem ofImport_eq_map (n : Node) : ofImport n = (importedNames n).map (bind .imported) := by
  rw [ofImport, importedNames, List.map_flatMap]
  refine List.flatMap_congr fun clause _ => ?_
  rw [List.map_flatMap]
  refine List.flatMap_congr fun part _ => ?_
  split
  · next hk => rw [if_pos hk, List.map_singleton]
  · next hk => rw [if_neg (by rw [hk]; decide), if_pos hk]
  · next hk =>
    rw [if_neg (by rw [hk]; decide), if_neg (by rw [hk]; decide), if_pos hk, List.map_filterMap]
  · next h₁ h₂ h₃ => rw [if_neg h₁, if_neg h₂, if_neg h₃, List.map_nil]

theorem outline_body (b : Node) : (body b).flatMap outline =
    if b.kind == .statementBlock then ofNodes b.parts else ofNode b := by
  rw [body]
  by_cases hb : b.kind = .statementBlock
  · rw [if_pos hb, if_pos (by simpa using hb), outline_plain]
  · rw [if_neg hb, if_neg (by simpa using hb), outline_all, List.flatMap_singleton]
    rfl

theorem outline_defaults (pattern : Node) : (defaults pattern).flatMap outline =
    if pattern.kind == .identifier then [] else ofDefaults pattern.parts := by
  rw [defaults]
  by_cases hp : pattern.kind = .identifier
  · rw [if_pos hp, if_pos (by simpa using hp), List.flatMap_nil]
  · rw [if_neg hp, if_neg (by simpa using hp), outline_default]

end Piece

namespace Item

open Piece

/-- The outline of a loop over a collection. -/
theorem ofNode_of_forIn {n : Node} (hk : n.kind = .forInStatement) :
    ofNode n = [around .loop n
      ((loopNames n).flatMap Piece.outline ++ ofChild n .right ++ ofChild n .body)] := by
  rw [ofNode, hk, loopNames]
  dsimp only
  cases n.child? .left with
  | none => cases n.child? .kind <;> rfl
  | some left =>
    cases n.child? .kind with
    | none =>
      rw [← outline_child n .left]
      rfl
    | some word =>
      show _ = [around .loop n ((names _ left).flatMap Piece.outline ++ _ ++ _)]
      rw [outline_names]

/-- The outline of a node that is taken plainly. -/
theorem ofNode_eq (n : Node) :
    ofNode n = enclosed (scope? ⟨.plain, n⟩) n ((plainPieces n).flatMap Piece.outline) := by
  by_cases hloop : n.kind = .forInStatement
  · rw [ofNode_of_forIn hloop, scope?, plainPieces, hloop]
    simp [enclosed, outline_child, List.append_assoc]
  rw [ofNode]
  split
  case h_15 hk => exact absurd hk hloop
  -- A node of any other kind is taken apart into its parts, in a scope if it is a block.
  case h_21 =>
    rw [scope?, plainPieces]
    split
    all_goals simp_all [enclosed, outline_plain]
  all_goals
    next hk =>
      rw [scope?, plainPieces, hk]
      simp [enclosed, outline_plain, outline_function, outline_classBody, outline_declarators,
        outline_child, outline_map_name, outline_flatMap_names, ofImport_eq_map, Option.toList_map]

/-- The outline of a function: parameters, then the body. -/
theorem ofFunction_eq (n : Node) : [ofFunction n] =
    enclosed (scope? ⟨.function, n⟩) n ((pieces ⟨.function, n⟩).flatMap Piece.outline) := by
  have hlist : ((n.child? .parameters).toList.flatMap fun ps => all .parameter ps.parts).flatMap
      Piece.outline = (n.child? .parameters).toList.flatMap fun ps => ofParameters ps.parts := by
    rw [List.flatMap_assoc]
    refine List.flatMap_congr fun ps _ => ?_
    rw [outline_all, ofParameters_eq_flatMap]
    rfl
  have hbody : ((n.child? .body).toList.flatMap body).flatMap Piece.outline
      = (n.child? .body).toList.flatMap fun b =>
          if b.kind == .statementBlock then ofNodes b.parts else ofNode b := by
    rw [List.flatMap_assoc]
    exact List.flatMap_congr fun b _ => outline_body b
  rw [pieces, List.flatMap_append, List.flatMap_append, outline_flatMap_names, hlist, hbody,
    ofFunction]
  congr 3
  · congr 1
    split
    · next ps hps => rw [hps, Option.toList_some, List.flatMap_singleton]
    · next hps => rw [hps]; rfl
  · split
    · next b hb => rw [hb, Option.toList_some, List.flatMap_singleton]
    · next hb => rw [hb]; rfl

/-- **The outline of an item is put together from its pieces**, in the scope that it opens. -/
theorem outline_eq (i : Item) :
    i.outline = enclosed i.scope? i.node (i.pieces.flatMap Piece.outline) := by
  obtain ⟨way, n⟩ := i
  cases way with
  | plain => exact ofNode_eq n
  | function => exact ofFunction_eq n
  | classBody =>
    show [ofClass n] = [around .classBody n _]
    rw [ofClass, pieces, List.flatMap_assoc]
    congr 2
    split
    · next b hb =>
      rw [hb, Option.toList_some, List.flatMap_singleton, outline_all, ofMembers_eq_flatMap]
      rfl
    · next hb => rw [hb]; rfl
  | member =>
    show ofMembers [n] = _
    rw [ofMembers, ofMembers, List.append_nil, pieces]
    dsimp only
    split
    · next hk => rw [if_pos hk, outline_function]; rfl
    · next hk =>
      rw [if_neg (by rw [hk]; decide), if_pos hk, outline_child]
      rfl
    · next hm hf => rw [if_neg hm, if_neg hf, outline_all, List.flatMap_singleton]; rfl
  | parameter =>
    show ofParameters [n] = _
    rw [ofParameters, ofParameters, List.append_nil, pieces, List.flatMap_append, outline_names,
      outline_child]
    rfl
  | declarator kind =>
    show ofDeclarators kind [n] = _
    rw [ofDeclarators, ofDeclarators, List.append_nil, pieces]
    dsimp only
    by_cases hk : n.kind = .variableDeclarator
    · rw [if_pos hk, if_pos (by simpa using hk), List.flatMap_append, List.flatMap_assoc,
        outline_child]
      show _ = _ ++ ofChild n .value
      split
      · next pattern hp =>
        rw [hp, Option.toList_some, List.flatMap_singleton, List.flatMap_append, outline_names,
          outline_defaults]
      · next hp => rw [hp]; rfl
    · rw [if_neg hk, if_neg (by simpa using hk)]
      rfl
  | default =>
    show ofDefaults [n] = _
    rw [ofDefaults, ofDefaults, List.append_nil, pieces]
    dsimp only
    split
    all_goals simp_all [enclosed, scope?, outline_child, outline_default]

end Item

/-! ### Where the pieces stand -/

/-- What a pattern binds stands in the pattern. -/
theorem mem_descendants_of_mem_boundNames {b : Node} (n : Node) (h : b ∈ n.boundNames) :
    b ∈ n.descendants := by
  have hchild : ∀ {c : Node}, c ∈ n.children → b ∈ c.boundNames → b ∈ n.descendants := by
    intro c hc hb
    exact mem_descendants_trans (mem_descendants_of_mem_children hc)
      (mem_descendants_of_mem_boundNames c hb)
  rw [boundNames] at h
  split at h
  · obtain rfl := List.mem_singleton.1 h
    exact self_mem_descendants b
  · obtain rfl := List.mem_singleton.1 h
    exact self_mem_descendants b
  · split at h
    · next c hc => exact hchild (mem_children_of_child? hc) h
    · cases h
  · split at h
    · next c hc => exact hchild (mem_children_of_child? hc) h
    · cases h
  · split at h
    · next c hc => exact hchild (mem_children_of_child? hc) h
    · cases h
  · obtain ⟨⟨c, hc⟩, _, hb⟩ := List.mem_flatMap.1 h
    exact hchild (mem_children_of_mem_parts hc) hb
  · obtain ⟨⟨c, hc⟩, _, hb⟩ := List.mem_flatMap.1 h
    exact hchild (mem_children_of_mem_parts hc) hb
  · obtain ⟨⟨c, hc⟩, _, hb⟩ := List.mem_flatMap.1 h
    exact hchild (mem_children_of_mem_parts hc) hb
  · cases h
termination_by n.size
decreasing_by exact size_lt_of_mem hc

/-- How many other ways of taking a node can follow a way. -/
def Way.rank : Way → Nat
  | function | classBody => 0
  | member => 2
  | _ => 1

/-- A piece stands in an item: a name below its node, and another item below its node or at the same
node in a way of lower rank. -/
def Piece.In (i : Item) : Piece → Prop
  | .name _ n => n ∈ i.node.descendants
  | .item j => j.node ∈ descendantsAll i.node.children ∨ j.node = i.node ∧ j.way.rank < i.way.rank

/-- All pieces of a list stand in an item. -/
def Piece.AllIn (i : Item) (ps : List Piece) : Prop := ∀ p ∈ ps, p.In i

namespace Piece.AllIn

variable {i : Item} {ps qs : List Piece} {c : Node}

theorem nil : AllIn i [] := fun _ h => absurd h List.not_mem_nil

theorem append (hp : AllIn i ps) (hq : AllIn i qs) : AllIn i (ps ++ qs) := fun p h =>
  (List.mem_append.1 h).elim (hp p) (hq p)

theorem flatMap {α : Type} {l : List α} {f : α → List Piece} (h : ∀ a ∈ l, AllIn i (f a)) :
    AllIn i (l.flatMap f) := fun p hp => by
  obtain ⟨a, ha, hp⟩ := List.mem_flatMap.1 hp
  exact h a ha p hp

theorem name {kind : BindingKind} {ns : List Node} (h : ∀ n ∈ ns, n ∈ i.node.descendants) :
    AllIn i (ns.map (.name kind)) := fun p hp => by
  obtain ⟨n, hn, rfl⟩ := List.mem_map.1 hp
  exact h n hn

theorem names (kind : BindingKind) (h : c ∈ i.node.descendants) : AllIn i (names kind c) :=
  .name fun _ hn => mem_descendants_trans h (mem_descendants_of_mem_boundNames c hn)

theorem all (way : Way) {ns : List Node} (h : ∀ n ∈ ns, n ∈ descendantsAll i.node.children) :
    AllIn i (all way ns) := fun p hp => by
  obtain ⟨n, hn, rfl⟩ := List.mem_map.1 hp
  exact .inl (h n hn)

theorem self {way : Way} (h : way.rank < i.way.rank) : AllIn i (Piece.all way [i.node]) :=
  fun p hp => by
  obtain rfl := List.mem_singleton.1 hp
  exact .inr ⟨rfl, h⟩

end Piece.AllIn

theorem mem_below_of_mem_children {n c : Node} (h : c ∈ n.children) :
    c ∈ descendantsAll n.children :=
  mem_descendantsAll.2 ⟨c, h, self_mem_descendants c⟩

theorem mem_below_of_mem_parts {n c d : Node} (h : c ∈ n.children) (hd : d ∈ c.parts) :
    d ∈ descendantsAll n.children :=
  mem_descendantsAll.2 ⟨c, h, mem_descendants_of_mem_children (mem_children_of_mem_parts hd)⟩

namespace Piece.AllIn

theorem parts (i : Item) (way : Way) : AllIn i (Piece.all way i.node.parts) :=
  .all way fun _ h => mem_below_of_mem_children (mem_children_of_mem_parts h)

theorem child (i : Item) (r : Role) : AllIn i (Piece.child i.node r) :=
  .all .plain fun _ h => mem_below_of_mem_children (mem_children_of_child? (Option.mem_toList.1 h))

/-- Pieces that are made from the child in a role stand in the item when they stand in the child. -/
theorem ofChild {i : Item} {r : Role} {f : Node → List Piece}
    (h : ∀ c ∈ i.node.children, AllIn i (f c)) : AllIn i ((i.node.child? r).toList.flatMap f) :=
  .flatMap fun c hc => h c (mem_children_of_child? (Option.mem_toList.1 hc))

theorem importedNames (n : Node) : AllIn ⟨.plain, n⟩ ((importedNames n).map (.name .imported)) := by
  refine .name fun b hb => ?_
  obtain ⟨clause, hclause, hb⟩ := List.mem_flatMap.1 hb
  obtain ⟨part, hpart, hb⟩ := List.mem_flatMap.1 hb
  have below : part ∈ n.descendants :=
    mem_descendants_of_below (mem_below_of_mem_parts
      (mem_children_of_mem_parts (List.mem_of_mem_filter hclause)) hpart)
  split at hb
  · obtain rfl := List.mem_singleton.1 hb
    exact below
  · split at hb
    · have hc := mem_children_of_mem_parts (List.mem_of_mem_filter hb)
      exact mem_descendants_trans below (mem_descendants_of_mem_children hc)
    · split at hb
      · obtain ⟨s, hs, hb⟩ := List.mem_filterMap.1 hb
        have hchild : b ∈ s.children :=
          (Option.or_eq_some_iff.1 hb).elim mem_children_of_child? fun h =>
            mem_children_of_child? h.2
        have hs := mem_children_of_mem_parts (List.mem_of_mem_filter hs)
        exact mem_descendants_trans below
          (mem_descendants_trans (mem_descendants_of_mem_children hs)
          (mem_descendants_of_mem_children hchild))
      · cases hb

theorem loopNames (n : Node) : AllIn ⟨.plain, n⟩ (loopNames n) := by
  rw [Piece.loopNames]
  cases hleft : n.child? .left with
  | none => exact .nil
  | some left =>
    cases n.child? .kind with
    | none => exact .child ⟨.plain, n⟩ .left
    | some word =>
      exact .names _ (mem_descendants_of_mem_children (mem_children_of_child? hleft))

theorem body {i : Item} {b : Node} (h : b ∈ i.node.children) : AllIn i (body b) := by
  rw [Piece.body]
  split
  · exact .all .plain fun _ hc => mem_below_of_mem_parts h hc
  · refine .all .plain fun c hc => ?_
    obtain rfl := List.mem_singleton.1 hc
    exact mem_below_of_mem_children h

theorem defaults {i : Item} {c : Node} (h : c ∈ i.node.children) : AllIn i (defaults c) := by
  rw [Piece.defaults]
  split
  · exact .nil
  · exact .all .default fun _ hc => mem_below_of_mem_parts h hc

theorem plainPieces (n : Node) : AllIn ⟨.plain, n⟩ (Item.plainPieces n) := by
  have bound : ∀ kind, AllIn ⟨.plain, n⟩ ((n.child? .name).toList.map (.name kind)) := fun kind =>
    .name fun _ hb =>
      mem_descendants_of_mem_children (mem_children_of_child? (Option.mem_toList.1 hb))
  have whole : ∀ {way : Way}, way.rank < 1 → AllIn ⟨.plain, n⟩ (Piece.all way [n]) :=
    fun h => .self (i := ⟨.plain, n⟩) h
  have inChild := child ⟨.plain, n⟩
  rw [Item.plainPieces]
  cases n.kind with
  | interfaceDeclaration | typeAliasDeclaration | comment => exact .nil
  | importStatement => exact .importedNames n
  | lexicalDeclaration | variableDeclaration => exact .parts ⟨.plain, n⟩ _
  | functionDeclaration | generatorFunctionDeclaration | classDeclaration
  | abstractClassDeclaration =>
    exact (bound _).append (whole Nat.zero_lt_one)
  | functionExpression | generatorFunction | arrowFunction | methodDefinition | classExpression =>
    exact whole Nat.zero_lt_one
  | forStatement => exact (((inChild _).append (inChild _)).append (inChild _)).append (inChild _)
  | forInStatement => exact ((loopNames n).append (inChild _)).append (inChild _)
  | catchClause =>
    refine .append (.ofChild fun c hc => ?_) (inChild _)
    exact .names _ (mem_descendants_of_mem_children hc)
  | _ => exact .parts ⟨.plain, n⟩ .plain

end Piece.AllIn

namespace Item

open Piece

/-- **What an item is made of stands in it.** -/
theorem allIn_pieces (i : Item) : AllIn i i.pieces := by
  obtain ⟨way, n⟩ := i
  cases way with
  | plain => exact .plainPieces n
  | function =>
    refine .append (.append (.ofChild fun c hc => ?_) (.ofChild fun c hc => ?_))
      (.ofChild fun c hc => ?_)
    · exact .names _ (mem_descendants_of_mem_children hc)
    · exact .all .parameter fun _ hd => mem_below_of_mem_parts hc hd
    · exact .body hc
  | classBody => exact .ofChild fun c hc => .all .member fun _ hd => mem_below_of_mem_parts hc hd
  | member =>
    rw [pieces]
    split
    · exact .self Nat.zero_lt_two
    · split
      · exact .child ⟨.member, n⟩ .value
      · exact .self Nat.one_lt_two
  | parameter =>
    refine .append (.names .parameter ?_) (.child ⟨.parameter, n⟩ .value)
    cases hp : n.child? .pattern with
    | none => exact self_mem_descendants n
    | some c => exact mem_descendants_of_mem_children (mem_children_of_child? hp)
  | declarator kind =>
    rw [pieces]
    split
    · refine .append (.ofChild fun c hc => ?_) (.child ⟨.declarator kind, n⟩ .value)
      exact .append (.names kind (mem_descendants_of_mem_children hc)) (.defaults hc)
    · exact .nil
  | default =>
    rw [pieces]
    split
    · exact .child ⟨.default, n⟩ .right
    · split
      · exact .parts ⟨.default, n⟩ .default
      · exact .nil

theorem name_mem_descendants {i : Item} {kind : BindingKind} {n : Node}
    (h : name kind n ∈ i.pieces) : n ∈ i.node.descendants :=
  i.allIn_pieces _ h

theorem item_mem_descendants {i j : Item} (h : item j ∈ i.pieces) :
    j.node ∈ i.node.descendants := by
  rcases i.allIn_pieces _ h with hj | ⟨hj, -⟩
  · exact mem_descendants_of_below hj
  · exact hj ▸ self_mem_descendants j.node

/-- To prove something of all items, assume it of the items that an item is made of. -/
theorem induction {P : Item → Prop} (step : ∀ i : Item, (∀ j, item j ∈ i.pieces → P j) → P i)
    (i : Item) : P i :=
  step i fun j _hj => induction step j
termination_by (i.node.size, i.way.rank)
decreasing_by
  rcases i.allIn_pieces _ _hj with below | ⟨same, lower⟩
  · exact Prod.Lex.left _ _ (size_lt_of_below below)
  · rw [same]
    exact Prod.Lex.right _ lower

/-! ### The names that are bound -/

/-- One item is made of another, at any depth. -/
def Reaches : Item → Item → Prop := ReflTransGen fun i j => item j ∈ i.pieces

end Item

mutual

/-- The names that an outline binds, in any of its regions. -/
def names : Outline → List (BindingKind × String × Location)
  | .region _ _ _ parts => namesAll parts
  | .binding kind name location => [(kind, name, location)]

/-- The names that the parts of an outline bind. -/
def namesAll : List Outline → List (BindingKind × String × Location)
  | [] => []
  | o :: os => names o ++ namesAll os

end

theorem namesAll_eq_flatMap (os : List Outline) : namesAll os = os.flatMap names := by
  induction os with
  | nil => rw [namesAll, List.flatMap_nil]
  | cons o os ih => rw [namesAll, List.flatMap_cons, ih]

theorem namesAll_enclosed (scope? : Option ScopeKind) (n : Node) (parts : List Outline) :
    namesAll (enclosed scope? n parts) = namesAll parts := by
  cases scope? with
  | none => rfl
  | some kind =>
    show names (around kind n parts) ++ namesAll [] = namesAll parts
    rw [namesAll, List.append_nil, around, names]

namespace Item

open Piece

theorem namesAll_outline (i : Item) :
    namesAll i.outline = i.pieces.flatMap fun p => namesAll p.outline := by
  rw [outline_eq, namesAll_enclosed]
  simp only [namesAll_eq_flatMap, List.flatMap_assoc]

/-- **The names that the outline of an item binds** are those of the items that it is made of. -/
theorem mem_namesAll_outline {x : BindingKind × String × Location} (i : Item) :
    x ∈ namesAll i.outline ↔
      ∃ j kind n, i.Reaches j ∧ name kind n ∈ j.pieces ∧ x = (kind, n.text, n.location) := by
  induction i using Item.induction with
  | step i ih =>
    rw [namesAll_outline, List.mem_flatMap]
    constructor
    · rintro ⟨p, hp, hx⟩
      cases p with
      | name kind n => exact ⟨i, kind, n, .refl, hp, List.mem_singleton.1 hx⟩
      | item j =>
        obtain ⟨k, kind, n, hk, hn, rfl⟩ := (ih j hp).1 hx
        exact ⟨k, kind, n, .head hp hk, hn, rfl⟩
    · rintro ⟨j, kind, n, hj, hn, rfl⟩
      rcases hj.cases_head with rfl | ⟨k, hk, hkj⟩
      · exact ⟨name kind n, hn, List.mem_singleton_self _⟩
      · exact ⟨item k, hk, (ih k hk).2 ⟨j, kind, n, hkj, hn, rfl⟩⟩

end Item

end FlowAnalysis.Outline
