import FlowAnalysis.Scope.Outline
import FlowAnalysis.Text.Lines

/-!
# Scope trees

A scope tree numbers the scopes and the variables of a script in the order in which they are met.  A
scope knows its lines, the scope around it and its variables; a `var` belongs to the nearest
function or module around it.
-/

namespace FlowAnalysis

/-- A bound name. -/
structure Variable where
  id : Int
  name : String
  kind : BindingKind
  /-- The span of the name where it is bound. -/
  location : Location
  /-- The scope it belongs to. -/
  scope : Nat
  deriving DecidableEq, Repr, Inhabited

/-- A region of lines with its variables, by their places in the list of all variables. -/
structure Scope where
  id : Nat
  kind : ScopeKind
  parent : Option Nat
  startLine : Nat
  endLine : Nat
  bindings : List Nat
  deriving DecidableEq, Repr, Inhabited

namespace Scope

/-- Whether a line lies in the scope. -/
def containsLine (s : Scope) (line : Nat) : Bool := s.startLine ≤ line && line ≤ s.endLine

/-- The number of line ends inside the scope. -/
def width (s : Scope) : Nat := s.endLine - s.startLine

end Scope

/-- The innermost scope at a line, with its own variables. -/
structure ScopeInfo where
  kind : ScopeKind
  startLine : Nat
  endLine : Nat
  bindings : List Variable
  deriving Repr, Inhabited

/-- All scopes and all variables of a script. -/
structure ScopeTree where
  scopes : List Scope
  bindings : List Variable
  deriving Repr, Inhabited

namespace ScopeTree

/-! ### Building -/

/-- The scopes around a place, innermost first. -/
abbrev Path := List (Nat × ScopeKind)

/-- The scope to which a binding at a place belongs. -/
def target (kind : BindingKind) (path : Path) : Nat :=
  let own :=
    if kind = .var then path.find? fun s => s.2.takesVar else path.head?
  (own.map Prod.fst).getD 0

/-- The tree with one more scope. -/
def addScope (t : ScopeTree) (kind : ScopeKind) (parent : Option Nat) (first last : Nat) :
    ScopeTree :=
  { t with scopes := t.scopes ++ [⟨t.scopes.length, kind, parent, first, last, []⟩] }

/-- The tree with one more variable. -/
def addVariable (t : ScopeTree) (id : Int) (kind : BindingKind) (name : String)
    (location : Location) (scope : Nat) : ScopeTree :=
  let index := t.bindings.length
  ⟨t.scopes.modify scope fun s => { s with bindings := s.bindings ++ [index] },
    t.bindings ++ [⟨id, name, kind, location, scope⟩]⟩

/-- A tree that is being built, and the id of its next variable. -/
structure Draft where
  tree : ScopeTree
  nextId : Int
  deriving Repr, Inhabited

namespace Draft

/-- The draft before anything is in it. -/
def empty : Draft := ⟨⟨[], []⟩, 1⟩

/-- Opens a scope. -/
def openScope (d : Draft) (kind : ScopeKind) (parent : Option Nat) (first last : Nat) : Draft :=
  { d with tree := d.tree.addScope kind parent first last }

/-- Declares a variable under the next id.  What has no name is not declared, and takes no id. -/
def declare (d : Draft) (kind : BindingKind) (name : String) (location : Location) (scope : Nat) :
    Draft :=
  if name.isEmpty then d
  else ⟨d.tree.addVariable d.nextId kind name location scope, d.nextId + 1⟩

mutual

/-- Adds a part of an outline at a place. -/
def add (path : Path) (d : Draft) : Outline → Draft
  | .binding kind name location => d.declare kind name location (target kind path)
  | .region kind first last parts =>
    let id := d.tree.scopes.length
    addAll ((id, kind) :: path) (d.openScope kind (path.head?.map Prod.fst) first last) parts

/-- Adds the parts of an outline in order. -/
def addAll (path : Path) (d : Draft) : List Outline → Draft
  | [] => d
  | o :: os => addAll path (add path d o) os

end

end Draft

/-- The tree of an outline: a global scope, and in it a module scope that holds the whole. -/
def ofOutline (lastLine : Nat) (parts : List Outline) : ScopeTree :=
  (Draft.empty.add [] (.region .global 1 lastLine [.region .module 1 lastLine parts])).tree

/-- The tree of a script. -/
def build (source : String) (root : Script.Node) : ScopeTree :=
  ofOutline (max (Text.lineCount source) (root.stop.row + 1)) (Outline.ofNodes root.parts)

/-! ### Questions -/

/-- Names that are there without being bound by the script. -/
def builtins : List String :=
  ["console", "process", "Array", "Object", "String", "Number", "Boolean", "Math", "JSON",
    "Date", "Promise", "Error", "Map", "Set", "RegExp", "Symbol", "BigInt", "Buffer",
    "globalThis", "window", "document", "undefined", "NaN", "Infinity", "setTimeout",
    "clearTimeout", "setInterval", "clearInterval", "fetch", "URL", "URLSearchParams",
    "parseInt", "parseFloat", "isNaN", "encodeURIComponent", "decodeURIComponent", "require",
    "module", "exports", "arguments"]

/-- Whether a name is built in. -/
def isBuiltin (name : String) : Bool := builtins.contains name

/-- A scope and the scopes around it, innermost first, at most as many as the fuel allows. -/
def outward (t : ScopeTree) : Nat → Nat → List Nat
  | 0, id => [id]
  | fuel + 1, id =>
    match (t.scopes[id]?).bind (·.parent) with
    | some parent => id :: outward t fuel parent
    | none => [id]

/-- A scope and the scopes around it, innermost first. -/
def ancestors (t : ScopeTree) (id : Nat) : List Nat := t.outward t.scopes.length id

/-- The scopes that contain a line. -/
def containing (t : ScopeTree) (line : Nat) : List Scope :=
  t.scopes.filter fun s => s.containsLine line

/-- The variable of an id. -/
def get? (t : ScopeTree) (id : Int) : Option Variable :=
  t.bindings.find? fun v => v.id == id

/-- The variable bound at a place under a name. -/
def variableAt? (t : ScopeTree) (name : String) (location : Location) : Option Variable :=
  t.bindings.find? fun v => v.name == name && v.location == location

/-- Whether a variable can be seen from a line when its scope is open there: it is declared
no later, and not built in. -/
def isDeclaredBy (line : Nat) (v : Variable) : Bool :=
  v.location.startLine ≤ line && !isBuiltin v.name

/-- How far the search for visible variables has come: which variables it has met, and those of them
that are visible. -/
structure Sighting where
  met : List Bool
  visible : List Variable
  deriving Repr, Inhabited

/-- Meets a variable, by its place in the list of all variables.  One that was met before is passed
over. -/
def meet (t : ScopeTree) (line : Nat) (s : Sighting) (i : Nat) : Sighting :=
  if s.met.getD i true then s
  else ⟨s.met.set i true, s.visible ++ ((t.bindings[i]?).filter (isDeclaredBy line)).toList⟩

/-- The places of the variables of a scope. -/
def placesIn (t : ScopeTree) (id : Nat) : List Nat := ((t.scopes[id]?).map (·.bindings)).getD []

/-- The variables that can be seen at a line: the scopes that contain it are taken in
turn, each with the scopes around it, and the variables of all these scopes are met.
They are listed by their ids. -/
def visibleAt (t : ScopeTree) (line : Nat) : List Variable :=
  let sighting := (t.containing line).foldl
    (fun s scope => (t.ancestors scope.id).foldl
      (fun s id => (t.placesIn id).foldl (t.meet line) s) s)
    ⟨List.replicate t.bindings.length false, []⟩
  sighting.visible.mergeSort fun v w => v.id ≤ w.id

/-- Whether a scope is inside another of the same lines: fewer lines first, then the global scope
last, then the later one. -/
def isInner (a b : Scope) : Bool :=
  a.width < b.width
    || (a.width == b.width
      && ((a.kind != .global && b.kind == .global)
        || ((a.kind == .global) == (b.kind == .global) && b.id < a.id)))

/-- The innermost of the scopes. -/
def innermost : List Scope → Option Scope
  | [] => none
  | s :: ss => some (ss.foldl (fun best s => if isInner s best then s else best) s)

/-- The variables of a scope. -/
def variablesOf (t : ScopeTree) (s : Scope) : List Variable :=
  s.bindings.filterMap fun i => t.bindings[i]?

/-- The innermost scope at a line. -/
def infoAt? (t : ScopeTree) (line : Nat) : Option ScopeInfo :=
  (innermost (t.containing line)).map fun s => ⟨s.kind, s.startLine, s.endLine, t.variablesOf s⟩

/-- The binding of a name among variables that is declared last, but not after a line. -/
def latest? (name : String) (line : Nat) (vs : List Variable) : Option Variable :=
  (vs.filter fun v => v.name == name && v.location.startLine ≤ line).foldl
    (fun best v =>
      match best with
      | some b => if b.location.startLine ≤ v.location.startLine then some v else some b
      | none => some v)
    none

/-- The scopes that contain a line, narrow ones first, later ones first among equals. -/
def bySpecificity (t : ScopeTree) (line : Nat) : List Scope :=
  (t.containing line).mergeSort fun a b =>
    a.width < b.width || (a.width == b.width && b.id ≤ a.id)

/-- The variable that a name stands for at a line. -/
def resolve? (t : ScopeTree) (name : String) (line : Nat) : Option Int :=
  ((t.bySpecificity line).flatMap fun s => t.ancestors s.id).findSome? fun id =>
    (t.scopes[id]?).bind fun s => (latest? name line (t.variablesOf s)).map (·.id)

end ScopeTree

namespace Variable

/-- A variable as JSON. -/
def toJson (v : Variable) : Json :=
  .obj [("id", .int v.id), ("name", .str v.name), ("kind", .str v.kind.name),
    ("location", v.location.toJson), ("scope", .ofNat v.scope)]

end Variable

namespace Scope

/-- A scope as JSON. -/
def toJson (s : Scope) : Json :=
  .obj [("id", .ofNat s.id), ("kind", .str s.kind.name), ("parent", .orNull .ofNat s.parent),
    ("startLine", .ofNat s.startLine), ("endLine", .ofNat s.endLine),
    ("variables", .ofList .ofNat s.bindings)]

end Scope

end FlowAnalysis
