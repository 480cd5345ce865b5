import FlowAnalysis.Schema.Convert
import Mathlib.Data.List.Basic
import Mathlib.Data.List.Induction
import Mathlib.Logic.Function.Iterate

/-!
# Conversions as requests

A conversion is asked for the schema of a type, of a name or of an interface, always while certain
names are being expanded.  To answer such a request it makes further ones (`calls`) and puts their
answers together (`respond`).  The functions of the conversion are the answers to the requests
(`answer_eq_respond`), the answer depends on nothing but the answers to the calls (`respond_congr`),
and calls go down in a well-founded order (`wellFounded_calls`).  So a property of all answers needs
a proof for one layer only (`Request.induction`).
-/

namespace FlowAnalysis

open Script

namespace Schema

/-! ### The form of a type -/

/-- The types of the properties among members. -/
def memberTypes (members : List (Node × List Node)) : List Node :=
  members.filterMap fun m => (propertyName? m.1).bind fun _ => memberType? m.1

/-- What the schema of a type is made of. -/
inductive TypeForm
  /-- No other type is needed. -/
  | settled (schema : Schema)
  | reference (name : String)
  | wrapped (w : Wrapper) (inner : Node)
  | union (operands : List Node)
  | intersection (operands : List Node)
  | members (list : List (Node × List Node))

namespace TypeForm

/-- A wrapper around its argument, if it has one. -/
def ofWrapper (w : Wrapper) (argument : Option Node) : TypeForm :=
  argument.elim (.settled w.bare) (.wrapped w)

/-- The form of a type with arguments. -/
def ofGeneric (name : String) (argument : Option Node) : TypeForm :=
  (wrapper? name).elim (if name == "Record" then .settled (typed "object") else .reference name)
    (ofWrapper · argument)

/-- The form of a type. -/
def of (registryType : String) (n : Node) : TypeForm :=
  match n.kind with
  | .typeIdentifier => .reference n.text
  | .genericType =>
    (n.child? .name).elim (.settled any) fun name => ofGeneric name.text (typeArguments n).head?
  | .arrayType => ofWrapper .array n.part?
  | .readonlyType | .parenthesizedType | .typeAscription => ofWrapper .same n.part?
  | .unionType => .union (operandsAll .unionType n.parts)
  | .intersectionType => .intersection (operandsAll .intersectionType n.parts)
  | .objectType | .interfaceBody => .members n.partsWithBefore
  | .predefinedType => .settled (ofKeyword n.text)
  | .tupleType => .settled (typed "array")
  | .literalType => .settled (ofLiteral n)
  | .lookupType => .settled (ofLookup registryType n)
  | _ => .settled any

/-- The types that are converted for a form. -/
def types : TypeForm → List Node
  | .settled _ | .reference _ => []
  | .wrapped _ inner => [inner]
  | .union operands | .intersection operands => operands
  | .members list => memberTypes list

/-- The names that are looked up for a form. -/
def names : TypeForm → List String
  | .reference name => [name]
  | _ => []

end TypeForm

/-! ### Lists of types and members -/

theorem convertAll_eq_map (s : Setting) (path : List String) (ns : List Node) :
    convertAll s path ns = ns.map (convert s path) := by
  induction ns with
  | nil => rw [convertAll, List.map_nil]
  | cons n ns ih => rw [convertAll, List.map_cons, ih]

/-- The property that a member declares, with its type converted by `f`. -/
def memberProperty? (f : Node → Schema) (member : Node × List Node) : Option Property :=
  (propertyName? member.1).map fun p =>
    ⟨p.1, ((memberType? member.1).elim any f).withDescription
      (Comment.above member.1 member.2), p.2⟩

/-- The properties that members declare. -/
def memberProperties (f : Node → Schema) (members : List (Node × List Node)) : List Property :=
  members.filterMap (memberProperty? f)

theorem convertMembers_eq (s : Setting) (path : List String) (ms : List (Node × List Node)) :
    convertMembers s path ms = memberProperties (convert s path) ms := by
  induction ms with
  | nil => rw [convertMembers, memberProperties, List.filterMap_nil]
  | cons m ms ih =>
    obtain ⟨member, before⟩ := m
    rw [convertMembers, memberProperties, List.filterMap_cons, memberProperty?, ih]
    cases propertyName? member with
    | none => rfl
    | some p =>
      simp only [Option.map_some]
      cases memberType? member <;> rfl

/-- The members in the body of an interface. -/
def bodyMembers (n : Node) : List (Node × List Node) :=
  (n.child? .body).elim [] (·.partsWithBefore)

/-- The schema of what an interface declares itself, its types converted by `f`. -/
def ownWith (f : Node → Schema) (n : Node) : Schema :=
  ofProperties (memberProperties f (bodyMembers n))

/-- The schema of an interface, its types converted by `f`: it takes over the properties of what it
extends, in order, and then its own. -/
def interfaceWith (f : Node → Schema) (n : Node) : Schema :=
  ((bases n).map f ++ [ownWith f n]).foldl extendWith (ofProperties [])

/-- Taking over properties gives an object schema without a description or a default. -/
theorem exists_foldl_extendWith (ss : List Schema) :
    ∃ ps rs, ss.foldl extendWith (ofProperties []) = of (.object ps rs) := by
  induction ss using List.reverseRecOn with
  | nil => exact ⟨_, _, rfl⟩
  | append_singleton ss s _ =>
    rw [List.foldl_append]
    exact ⟨_, _, rfl⟩

/-! ### Requests -/

/-- A question for a schema, with the names that are being expanded. -/
inductive Request
  | type (path : List String) (n : Node)
  | name (path : List String) (name : String)
  | interface (path : List String) (n : Node)

namespace Request

/-- The names that are being expanded, the latest first. -/
def path : Request → List String
  | type path _ | name path _ | interface path _ => path

/-- The number of nodes that a request looks at itself. -/
def size : Request → Nat
  | type _ n | interface _ n => n.size
  | name _ _ => 0

/-- The name that a request expands when it makes a call. -/
def expanded : Request → List String
  | name _ x => [x]
  | _ => []

end Request

/-- The answer to a request. -/
def answer (s : Setting) : Request → Schema
  | .type path n => convert s path n
  | .name path name => named s path name
  | .interface path n => Schema.interface s path n

/-- The request for the declaration of a name that is not being expanded yet. -/
def expansion? (d : Declarations) (path : List String) (name : String) : Option Request :=
  if name ∈ path then none
  else (d.interfaces.get? name).elim
    (((d.aliases.get? name).bind (·.child? .value)).map (.type (name :: path)))
    (some ∘ .interface (name :: path))

/-- The answer to a request when the requests that it makes are answered by `f`. -/
def respond (s : Setting) (f : Request → Schema) : Request → Schema
  | .type path n =>
    match TypeForm.of s.registryType n with
    | .settled schema => schema
    | .reference name => f (.name path name)
    | .wrapped w inner => w.wrap (f (.type path inner))
    | .union operands => of (.anyOf (operands.map fun m => f (.type path m)))
    | .intersection operands => of (.allOf (operands.map fun m => f (.type path m)))
    | .members list => ofProperties (memberProperties (fun m => f (.type path m)) list)
  | .name path name =>
    (expansion? s.declarations path name).elim
      (if name ∈ path then typed "object" else ofForeign name) f
  | .interface path n => interfaceWith (fun m => f (.type path m)) n

/-- The requests that a request makes. -/
def calls (s : Setting) : Request → List Request
  | .type path n =>
    let form := TypeForm.of s.registryType n
    form.names.map (.name path) ++ form.types.map (.type path)
  | .name path name => (expansion? s.declarations path name).toList
  | .interface path n => (bases n ++ memberTypes (bodyMembers n)).map (.type path)

variable {s : Setting}

/-! ### The answer is one layer over the answers to the calls -/

theorem convert_eq_respond (s : Setting) (path : List String) (n : Node) :
    convert s path n = respond s (answer s) (.type path n) := by
  rw [convert, respond, TypeForm.of]
  cases hk : n.kind with
  | genericType =>
    simp only
    cases n.child? .name with
    | none => rfl
    | some name =>
      simp only [Option.elim_some, TypeForm.ofGeneric]
      cases wrapper? name.text with
      | none => simp only [Option.elim_none]; split <;> rfl
      | some w => cases (typeArguments n).head? <;> rfl
  | arrayType => cases n.part? <;> rfl
  | readonlyType => cases n.part? <;> rfl
  | parenthesizedType => cases n.part? <;> rfl
  | typeAscription => cases n.part? <;> rfl
  | unionType => simp only [convertAll_eq_map]; rfl
  | intersectionType => simp only [convertAll_eq_map]; rfl
  | objectType => simp only [convertMembers_eq]; rfl
  | interfaceBody => simp only [convertMembers_eq]; rfl
  | _ => rfl

theorem named_eq_respond (s : Setting) (path : List String) (name : String) :
    named s path name = respond s (answer s) (.name path name) := by
  rw [named, respond, expansion?]
  split
  · rfl
  · cases s.declarations.interfaces.get? name with
    | some _ => rfl
    | none =>
      cases s.declarations.aliases.get? name with
      | none => rfl
      | some declaration =>
        simp only [Option.elim_none, Option.bind_some]
        cases declaration.child? .value <;> rfl

theorem interface_eq_respond (s : Setting) (path : List String) (n : Node) :
    Schema.interface s path n = respond s (answer s) (.interface path n) := by
  rw [Schema.interface, respond, interfaceWith, convertAll_eq_map, List.foldl_append,
    List.foldl_cons, List.foldl_nil, ownWith, bodyMembers]
  cases n.child? .body with
  | none =>
    -- nothing is declared, and taking over no properties changes nothing
    obtain ⟨ps, rs, h⟩ := exists_foldl_extendWith ((bases n).map (convert s path))
    exact h.trans (congrArg (extendWith · (ofProperties [])) h).symm
  | some body => simp only [convertMembers_eq]; rfl

/-- **The conversion answers every request from the answers to the requests that it makes.** -/
theorem answer_eq_respond (s : Setting) (r : Request) : answer s r = respond s (answer s) r := by
  cases r with
  | type path n => exact convert_eq_respond s path n
  | name path name => exact named_eq_respond s path name
  | interface path n => exact interface_eq_respond s path n

/-! ### The answer depends on the calls alone -/

theorem memberProperties_congr {f g : Node → Schema} {ms : List (Node × List Node)}
    (h : ∀ t ∈ memberTypes ms, f t = g t) : memberProperties f ms = memberProperties g ms := by
  refine List.filterMap_congr fun m hm => ?_
  rw [memberProperty?, memberProperty?]
  cases hp : propertyName? m.1 with
  | none => rfl
  | some p =>
    cases ht : memberType? m.1 with
    | none => rfl
    | some t =>
      have hmem : t ∈ memberTypes ms := List.mem_filterMap.2 ⟨m, hm, by rw [hp]; exact ht⟩
      simp only [Option.map_some, Option.elim_some, h t hmem]

theorem interfaceWith_congr {f g : Node → Schema} {n : Node}
    (h : ∀ t ∈ bases n ++ memberTypes (bodyMembers n), f t = g t) :
    interfaceWith f n = interfaceWith g n := by
  have hbases : (bases n).map f = (bases n).map g :=
    List.map_congr_left fun t ht => h t (List.mem_append_left _ ht)
  have hown : ownWith f n = ownWith g n :=
    congrArg ofProperties (memberProperties_congr fun t ht => h t (List.mem_append_right _ ht))
  rw [interfaceWith, interfaceWith, hbases, hown]

/-- What holds of all calls for a type holds for the names and for the types of its form. -/
theorem forall_mem_calls_type_iff {P : Request → Prop} {path : List String} {n : Node}
    {form : TypeForm} (hf : TypeForm.of s.registryType n = form) :
    (∀ q ∈ calls s (.type path n), P q) ↔
      (∀ x ∈ form.names, P (.name path x)) ∧ ∀ m ∈ form.types, P (.type path m) := by
  simp only [calls, hf, List.forall_mem_append, List.forall_mem_map]

/-- **What answers the calls alike gives the same answer.** -/
theorem respond_congr {f g : Request → Schema} {r : Request} (h : ∀ q ∈ calls s r, f q = g q) :
    respond s f r = respond s g r := by
  cases r with
  | type path n =>
    rw [respond, respond]
    generalize hf : TypeForm.of s.registryType n = form
    obtain ⟨hname, htype⟩ := (forall_mem_calls_type_iff hf).1 h
    cases form with
    | settled => rfl
    | reference x => exact hname x (List.mem_singleton_self x)
    | wrapped w inner => exact congrArg w.wrap (htype inner (List.mem_singleton_self inner))
    | union => exact congrArg (fun ms => of (.anyOf ms)) (List.map_congr_left htype)
    | intersection => exact congrArg (fun ms => of (.allOf ms)) (List.map_congr_left htype)
    | members => exact congrArg ofProperties (memberProperties_congr htype)
  | name path name =>
    simp only [respond, calls] at h ⊢
    cases he : expansion? s.declarations path name with
    | none => rfl
    | some q => exact h q (by rw [he]; exact List.mem_singleton_self q)
  | interface path n => exact interfaceWith_congr fun m hm => h _ (List.mem_map_of_mem hm)

/-! ### Calls go down -/

theorem size_lt_of_mem_memberTypes {ms : List (Node × List Node)} {t : Node}
    (h : t ∈ memberTypes ms) : t.size < Node.sizeAll (ms.map Prod.fst) := by
  obtain ⟨m, hm, ht⟩ := List.mem_filterMap.1 h
  obtain ⟨_, _, ht⟩ := Option.bind_eq_some_iff.1 ht
  exact Nat.lt_of_lt_of_le (size_memberType?_lt ht)
    (Node.size_le_sizeAll (List.mem_map_of_mem hm))

theorem size_lt_of_mem_operandsAll {k : Kind} {n m : Node} (h : m ∈ operandsAll k n.parts) :
    m.size < n.size :=
  Nat.lt_of_le_of_lt (Nat.le_trans (Node.size_le_sizeAll h) (sizeAll_operandsAll_le k n.parts))
    (Node.sizeAll_parts_lt n)

theorem TypeForm.types_ofWrapper (w : Wrapper) (argument : Option Node) :
    (ofWrapper w argument).types = argument.toList := by
  cases argument <;> rfl

/-- Every type that is converted for a type is smaller. -/
theorem TypeForm.size_lt_of_mem_types {registryType : String} {n m : Node}
    (h : m ∈ (TypeForm.of registryType n).types) : m.size < n.size := by
  have part {w : Wrapper} (h : m ∈ (ofWrapper w n.part?).types) : m.size < n.size := by
    rw [types_ofWrapper] at h
    exact Node.size_lt_of_part? (Option.mem_toList.1 h)
  rw [TypeForm.of] at h
  split at h
  · cases h
  · cases hn : n.child? .name with
    | none =>
      rw [hn] at h
      cases h
    | some name =>
      rw [hn, Option.elim_some, ofGeneric] at h
      cases hw : wrapper? name.text with
      | none =>
        rw [hw, Option.elim_none] at h
        split at h <;> cases h
      | some w =>
        rw [hw, Option.elim_some, types_ofWrapper] at h
        exact size_head_typeArguments_lt (Option.mem_toList.1 h)
  · exact part h
  · exact part h
  · exact part h
  · exact part h
  · exact size_lt_of_mem_operandsAll h
  · exact size_lt_of_mem_operandsAll h
  · exact Nat.lt_trans (size_lt_of_mem_memberTypes h) (sizeAll_map_partsWithBefore_lt n)
  · exact Nat.lt_trans (size_lt_of_mem_memberTypes h) (sizeAll_map_partsWithBefore_lt n)
  all_goals cases h

/-- Every type that is converted for an interface is smaller. -/
theorem size_lt_of_mem_interface {n m : Node} (h : m ∈ bases n ++ memberTypes (bodyMembers n)) :
    m.size < n.size := by
  rcases List.mem_append.1 h with h | h
  · exact Nat.lt_of_le_of_lt (Node.size_le_sizeAll h) (sizeAll_bases_lt n)
  · rw [bodyMembers] at h
    cases hb : n.child? .body with
    | none =>
      rw [hb] at h
      cases h
    | some body =>
      rw [hb] at h
      exact Nat.lt_trans (Nat.lt_trans (size_lt_of_mem_memberTypes h)
        (sizeAll_map_partsWithBefore_lt body)) (Node.size_lt_of_child? hb)

/-- What the expansion of a name asks for: the name was not being expanded, is declared, and is
being expanded from then on. -/
theorem of_expansion?_eq_some {d : Declarations} {path : List String} {name : String} {q : Request}
    (h : expansion? d path name = some q) :
    name ∉ path ∧ name ∈ d.names ∧ q.path = name :: path := by
  rw [expansion?] at h
  split at h
  · cases h
  · next hp =>
    refine ⟨hp, ?_⟩
    cases hi : d.interfaces.get? name with
    | some n =>
      rw [hi] at h
      cases h
      exact ⟨List.mem_append_left _ (Declarations.mem_of_lookup_eq_some hi), rfl⟩
    | none =>
      rw [hi, Option.elim_none] at h
      obtain ⟨value, hv, rfl⟩ := Option.map_eq_some_iff.1 h
      obtain ⟨n, hn, -⟩ := Option.bind_eq_some_iff.1 hv
      exact ⟨List.mem_append_right _ (Declarations.mem_of_lookup_eq_some hn), rfl⟩

/-- **What a call does to the names being expanded.**  A request for a name puts the name in front,
which was not there and is declared; every other request keeps them, and looks at a larger node. -/
theorem path_of_mem_calls {r q : Request} (h : q ∈ calls s r) :
    q.path = r.expanded ++ r.path ∧
      (∀ x ∈ r.expanded, x ∉ r.path ∧ x ∈ s.declarations.names) ∧
      (r.expanded = [] → q.size < r.size) := by
  cases r with
  | type path n =>
    refine (List.mem_append.1 h).elim (fun h => ?_) fun h => ?_
    · obtain ⟨x, -, rfl⟩ := List.mem_map.1 h
      exact ⟨rfl, fun _ hx => absurd hx List.not_mem_nil, fun _ => Node.size_pos n⟩
    · obtain ⟨m, hm, rfl⟩ := List.mem_map.1 h
      exact ⟨rfl, fun _ hx => absurd hx List.not_mem_nil, fun _ => TypeForm.size_lt_of_mem_types hm⟩
  | name path x =>
    obtain ⟨hp, hx, hq⟩ := of_expansion?_eq_some (Option.mem_toList.1 h)
    refine ⟨hq, fun y hy => ?_, fun hnil => absurd hnil (List.cons_ne_nil x [])⟩
    obtain rfl := List.mem_singleton.1 hy
    exact ⟨hp, hx⟩
  | interface path n =>
    obtain ⟨m, hm, rfl⟩ := List.mem_map.1 h
    exact ⟨rfl, fun _ hx => absurd hx List.not_mem_nil, fun _ => size_lt_of_mem_interface hm⟩

/-- The declared names that are left to a request, and the size of what it looks at. -/
def Request.rank (s : Setting) (r : Request) : Nat × Nat := (s.declarations.left r.path, r.size)

theorem rank_lt_of_mem_calls {r q : Request} (h : q ∈ calls s r) :
    Prod.Lex (· < ·) (· < ·) (q.rank s) (r.rank s) := by
  obtain ⟨hpath, hfresh, hsize⟩ := path_of_mem_calls h
  rw [Request.rank, Request.rank, hpath]
  cases r with
  | name path x =>
    obtain ⟨hp, hx⟩ := hfresh x (List.mem_singleton_self x)
    exact Prod.Lex.left _ _ (remaining_cons_lt hx hp)
  | _ => exact Prod.Lex.right _ (hsize rfl)

/-- **Requests do not go on for ever.** -/
theorem wellFounded_calls (s : Setting) : WellFounded fun q r => q ∈ calls s r :=
  Subrelation.wf (fun h => rank_lt_of_mem_calls h)
    (InvImage.wf (Request.rank s) (Prod.lex Nat.lt_wfRel Nat.lt_wfRel).wf)

/-- A property holds of every request if it passes from the calls of a request to the request. -/
theorem Request.induction (s : Setting) {P : Request → Prop}
    (h : ∀ r, (∀ q ∈ calls s r, P q) → P r) (r : Request) : P r :=
  (wellFounded_calls s).induction r h

/-! ### Answers in rounds -/

/-- Whether all requests that are made for a request, and for those, and
so on, end within a depth. -/
def endsWithin (s : Setting) : Nat → Request → Bool
  | 0, _ => false
  | depth + 1, r => (calls s r).all (endsWithin s depth)

theorem endsWithin_mono {depth : Nat} {r : Request} (h : endsWithin s depth r) {more : Nat}
    (hle : depth ≤ more) : endsWithin s more r := by
  induction depth generalizing r more with
  | zero => cases h
  | succ depth ih =>
    obtain ⟨more, rfl⟩ := Nat.exists_eq_add_of_lt hle
    rw [endsWithin, List.all_eq_true] at h ⊢
    exact fun q hq => ih (h q hq) (by omega)

theorem exists_endsWithin (s : Setting) (r : Request) : ∃ depth, endsWithin s depth r := by
  induction r using Request.induction s with
  | h r ih =>
    -- one depth serves all calls, since they are finitely many
    have bound : ∀ qs : List Request, (∀ q ∈ qs, ∃ depth, endsWithin s depth q) →
        ∃ depth, ∀ q ∈ qs, endsWithin s depth q := by
      intro qs
      induction qs with
      | nil => exact fun _ => ⟨0, fun q hq => absurd hq List.not_mem_nil⟩
      | cons q qs ihs =>
        intro hqs
        obtain ⟨d, hd⟩ := hqs q List.mem_cons_self
        obtain ⟨e, he⟩ := ihs fun p hp => hqs p (List.mem_cons_of_mem _ hp)
        refine ⟨max d e, fun p hp => ?_⟩
        rcases List.mem_cons.1 hp with rfl | hp
        · exact endsWithin_mono hd (Nat.le_max_left d e)
        · exact endsWithin_mono (he p hp) (Nat.le_max_right d e)
    obtain ⟨depth, hdepth⟩ := bound (calls s r) ih
    exact ⟨depth + 1, List.all_eq_true.2 hdepth⟩

/-- **Rounds of responses reach the answer**, whatever is answered at the bottom, once they are as
many as the requests are deep. -/
theorem iterate_respond_eq_answer {depth : Nat} {r : Request} (h : endsWithin s depth r)
    (f : Request → Schema) : (respond s)^[depth] f r = answer s r := by
  induction depth generalizing r with
  | zero => cases h
  | succ depth ih =>
    rw [endsWithin, List.all_eq_true] at h
    rw [Function.iterate_succ_apply', answer_eq_respond]
    exact respond_congr fun q hq => ih (h q hq)

/-- The schema of a type in rounds of responses, if the requests for it end within a depth.  Unlike
the conversion itself it is evaluated by plain unfolding. -/
def convertWithin (depth : Nat) (s : Setting) (n : Node) : Option Schema :=
  if endsWithin s depth (.type [] n) then some ((respond s)^[depth] (fun _ => any) (.type [] n))
  else none

theorem convert_eq_of_convertWithin {depth : Nat} {n : Node} {t : Schema}
    (h : convertWithin depth s n = some t) : convert s [] n = t := by
  rw [convertWithin] at h
  split at h
  · next hends =>
    cases h
    exact (iterate_respond_eq_answer hends _).symm
  · cases h

end Schema

end FlowAnalysis
