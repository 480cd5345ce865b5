import FlowAnalysis.Proofs.Analysis.Result
import FlowAnalysis.Proofs.Bubble.Recording
import FlowAnalysis.Proofs.Script.CallGraph

/-!
# Functions and methods under one name

The functions at the top of a script (`BindsAtTop`) and the methods of its flow class go into one
table by name.  Of functions with one name the first stays, of methods the last, and a method
takes the place of a function (`CallTable.get?_build`).  So a call through `this` finds the method
of its name, whatever functions there are, while a call by name finds a function only when no
method has that name.  A function that gives way to a method is not called by anything, and the
bubbles in it are not reached.
-/

namespace FlowAnalysis

theorem ByName.contains_eq_isSome {α : Type} (t : ByName α) (name : String) :
    t.contains name = (t.get? name).isSome := by
  unfold contains get?
  induction t.entries with
  | nil => rfl
  | cons e es ih =>
    have hcomm : (e.1 == name) = (name == e.1) := BEq.comm
    rw [List.any_cons, List.lookup_cons, ih, hcomm]
    cases name == e.1 <;> rfl

namespace Script

open Node

/-! ### Functions at the top of a script -/

/-- A declaration binds a name to a function, by a definition: it is a function declaration, or it
has a variable with a function as its value, a generator or not. -/
inductive BindsIn (d : Node) : String → Node → Node → Prop
  | declaration {name : Node}
      (hk : d.kind = .functionDeclaration ∨ d.kind = .generatorFunctionDeclaration)
      (hn : d.child? .name = some name) : BindsIn d name.text d d
  | declarator {x name value : Node}
      (hk : d.kind = .lexicalDeclaration ∨ d.kind = .variableDeclaration) (hx : x ∈ d.parts)
      (hd : x.kind = .variableDeclarator) (hn : x.child? .name = some name)
      (hid : name.kind = .identifier) (hv : x.child? .value = some value)
      (hf : value.stripParens.kind ∈ [.arrowFunction, .functionExpression, .generatorFunction]) :
      BindsIn d name.text x value.stripParens

/-- A script binds a name to a function at its top, by a definition. -/
def BindsAtTop (root : Node) (name : String) (definition function : Node) : Prop :=
  ∃ s ∈ root.parts, ∃ d exported, s.declared? = some (d, exported) ∧
    BindsIn d name definition function

namespace BindsIn

variable {d x g : Node} {name : String}

theorem definedIn (h : BindsIn d name x g) : DefinedIn d x := by
  cases h with
  | declaration hk => exact .function hk
  | declarator hk hx => exact .bound hk hx

theorem body_mem_descendants (h : BindsIn d name x g) {body : Node}
    (hb : g.child? .body = some body) : body ∈ x.descendants := by
  have hbody := mem_descendants_of_mem_children (mem_children_of_child? hb)
  cases h with
  | declaration => exact hbody
  | declarator _ _ _ _ _ hv =>
    refine mem_descendants_trans (mem_descendants_of_mem_children (mem_children_of_child? hv)) ?_
    exact mem_descendants_trans (stripParens_mem_descendants _) hbody

/-- What a definition of a function declares is that function. -/
theorem eq_ofFunction (h : BindsIn d name x g) {c : Callable} (hc : Declares d c)
    (hdef : c.definition = x) : c = .ofFunction name false x g := by
  -- Only like goes with like: a function with a function, a variable with a variable.
  cases h with
  | declaration hk hn =>
    cases hc with
    | function _ hn' =>
      rw [hn] at hn'
      cases hn'
      rfl
    | bound hk' => exact (Kind.not_variable_of_function hk hk').elim
    | method hk' => exact (Kind.not_class_of_function hk hk').elim
  | declarator hk hx hd hn hid hv hf =>
    cases hc with
    | function hk' => exact (Kind.not_variable_of_function hk' hk).elim
    | bound _ _ hc =>
      rw [(Callable.ofDeclarator?_spec hc).1] at hdef
      subst hdef
      obtain ⟨name', value', -, hn', -, hv', -, rfl⟩ := Callable.ofDeclarator?_eq_some_iff.1 hc
      rw [hn] at hn'
      rw [hv] at hv'
      cases hn'
      cases hv'
      rfl
    | method hk' => exact (Kind.not_class_of_variable hk hk').elim

end BindsIn

/-- The functions that the declarations at the top of a script make, in order. -/
def functionsAtTop (root : Node) : List Callable :=
  (root.parts.filterMap fun s => s.declared?.map Prod.fst).flatMap Callable.ofDeclaration

/-- A declaration makes a callable of every function that it binds, but for a generator that
is the value of a variable. -/
theorem mem_ofDeclaration_iff {d : Node} {c : Callable} :
    c ∈ Callable.ofDeclaration d ↔ ∃ name x g, BindsIn d name x g ∧ g.kind ≠ .generatorFunction ∧
      c = .ofFunction name false x g := by
  constructor
  · intro h
    have hvariable : (d.kind = .lexicalDeclaration ∨ d.kind = .variableDeclaration) →
        c ∈ d.parts.filterMap Callable.ofDeclarator? → ∃ name x g, BindsIn d name x g ∧
          g.kind ≠ .generatorFunction ∧ c = .ofFunction name false x g := by
      intro hk h
      obtain ⟨x, hx, hc⟩ := List.mem_filterMap.1 h
      obtain ⟨name, value, hd, hn, hid, hv, hf, rfl⟩ := Callable.ofDeclarator?_eq_some_iff.1 hc
      have hkind : value.stripParens.kind = .arrowFunction ∨
          value.stripParens.kind = .functionExpression := by
        simpa [isFunctionValue] using hf
      refine ⟨name.text, x, value.stripParens, .declarator hk hx hd hn hid hv ?_, ?_, rfl⟩
      · rcases hkind with hkind | hkind <;> simp [hkind]
      · rcases hkind with hkind | hkind <;> simp [hkind]
    have hfunction : (d.kind = .functionDeclaration ∨ d.kind = .generatorFunctionDeclaration) →
        c ∈ ((d.child? .name).map fun name => Callable.ofFunction name.text false d d).toList →
        ∃ name x g, BindsIn d name x g ∧ g.kind ≠ .generatorFunction ∧
          c = .ofFunction name false x g := by
      intro hk h
      obtain ⟨name, hn, rfl⟩ := Option.map_eq_some_iff.1 (Option.mem_toList.1 h)
      refine ⟨name.text, d, d, .declaration hk hn, ?_, rfl⟩
      rcases hk with hk | hk <;> simp [hk]
    rw [Callable.ofDeclaration] at h
    split at h
    · next hk => exact hfunction (.inl hk) h
    · next hk => exact hfunction (.inr hk) h
    · next hk => exact hvariable (.inl hk) h
    · next hk => exact hvariable (.inr hk) h
    · cases h
  · rintro ⟨name, x, g, hbinds, hgen, rfl⟩
    cases hbinds with
    | declaration hk hn => rcases hk with hk | hk <;> simp [Callable.ofDeclaration, hk, hn]
    | @declarator _ name value hk hx hd hn hid hv hf =>
      have hfunction : value.stripParens.isFunctionValue = true := by
        simpa [isFunctionValue, hgen] using hf
      have hmem := List.mem_filterMap.2
        ⟨x, hx, Callable.ofDeclarator?_eq_some_iff.2 ⟨name, value, hd, hn, hid, hv, hfunction, rfl⟩⟩
      rcases hk with hk | hk
      · simpa [Callable.ofDeclaration, hk] using hmem
      · simpa [Callable.ofDeclaration, hk] using hmem

theorem mem_functionsAtTop_iff {root : Node} {c : Callable} :
    c ∈ functionsAtTop root ↔ ∃ name x g, BindsAtTop root name x g ∧ g.kind ≠ .generatorFunction ∧
      c = .ofFunction name false x g := by
  rw [functionsAtTop, List.mem_flatMap]
  constructor
  · rintro ⟨d, hd, hc⟩
    obtain ⟨s, hs, hd⟩ := List.mem_filterMap.1 hd
    obtain ⟨⟨_, exported⟩, hdecl, rfl⟩ := Option.map_eq_some_iff.1 hd
    obtain ⟨name, x, g, hbinds, hgen, rfl⟩ := mem_ofDeclaration_iff.1 hc
    exact ⟨name, x, g, ⟨s, hs, _, exported, hdecl, hbinds⟩, hgen, rfl⟩
  · rintro ⟨name, x, g, ⟨s, hs, d, exported, hdecl, hbinds⟩, hgen, rfl⟩
    refine ⟨d, List.mem_filterMap.2 ⟨s, hs, by rw [hdecl]; rfl⟩, ?_⟩
    exact mem_ofDeclaration_iff.2 ⟨name, x, g, hbinds, hgen, rfl⟩

theorem bindsAtTop_of_find? {root : Node} {name : String} {c : Callable}
    (h : ((functionsAtTop root).find? fun g => g.name == name) = some c) :
    ∃ x g, BindsAtTop root name x g ∧ g.kind ≠ .generatorFunction ∧
      c = .ofFunction name false x g := by
  obtain ⟨name', x, g, hbinds, hgen, rfl⟩ := mem_functionsAtTop_iff.1 (List.mem_of_find?_eq_some h)
  have hname : name' = name := by simpa [Callable.ofFunction] using List.find?_some h
  subst hname
  exact ⟨x, g, hbinds, hgen, rfl⟩

/-- A callable is a function of a script when a place in the body of one is
in the body of the other. -/
theorem eq_ofFunction_of_encloses {base : String} {root x g n cbody gbody : Node}
    {flow : Option FlowClass} {c : Callable} {name : String} (hroot : root.IsRoot)
    (hflow : ∀ f ∈ flow, f ∈ FlowClass.all base root) (hc : c ∈ declaredCallables root flow)
    (hcb : c.body = some cbody) (hg : BindsAtTop root name x g) (hgb : g.child? .body = some gbody)
    (hn : Placed n) (hcn : cbody.location.encloses n.location = true)
    (hgn : gbody.location.encloses n.location = true) : c = .ofFunction name false x g := by
  obtain ⟨s, hs, d, _, hd, hdc⟩ := declares_of_mem_declaredCallables hflow hc
  obtain ⟨s', hs', d', _, hd', hbinds⟩ := hg
  -- The place lies in both definitions, so they are not apart, and are one.
  have hincallable : Within n c.definition :=
    (encloses_location_iff.1 hcn).trans
      ((placed_of_definedIn hroot hs hd hdc.definedIn).within_of_mem_descendants
        (hdc.body_mem_descendants hcb))
  have hinfunction : Within n x :=
    (encloses_location_iff.1 hgn).trans
      ((placed_of_definedIn hroot hs' hd' hbinds.definedIn).within_of_mem_descendants
        (hbinds.body_mem_descendants hgb))
  have hnotapart : ¬ Apart c.definition x := by
    intro happart
    have hself : Apart n n := happart.mono hincallable hinfunction
    have hle : n.stop.key ≤ n.start.key := hself.elim id id
    exact absurd hn.start_lt_stop (not_lt.2 hle)
  have hsame : d = d' ∧ c.definition = x := by
    by_contra hne
    refine hnotapart (apart_of_definedIn hroot hs hs' hd hd' hdc.definedIn hbinds.definedIn ?_)
    exact fun hdd hdef => hne ⟨hdd, hdef⟩
  obtain ⟨rfl, hdef⟩ := hsame
  exact hbinds.eq_ofFunction hdc hdef

namespace CallTable

/-! ### The table by name -/

theorem get?_addFunction (t : ByName Callable) (c : Callable) (name : String) :
    (addFunction t c).get? name = (t.get? name).or (if c.name == name then some c else none) := by
  unfold addFunction
  rw [ByName.contains_eq_isSome]
  by_cases hname : c.name = name
  · subst hname
    cases hget : t.get? c.name with
    | none => simp [ByName.get?_insert]
    | some e => simp [hget]
  · have hother : (t.insert c.name c).get? name = t.get? name := by
      rw [ByName.get?_insert, if_neg (Ne.symm hname)]
    split <;> simp [hname, hother]

/-- Of functions with one name the first stays. -/
theorem get?_foldl_addFunction (cs : List Callable) (t : ByName Callable) (name : String) :
    (cs.foldl addFunction t).get? name = (t.get? name).or (cs.find? fun c => c.name == name) := by
  induction cs generalizing t with
  | nil => simp
  | cons c cs ih =>
    rw [List.foldl_cons, ih, get?_addFunction, Option.or_assoc, List.find?_cons]
    cases c.name == name <;> rfl

/-- Of methods with one name the last stays, and takes the place of what was there. -/
theorem get?_foldl_insert (cs : List Callable) (t : ByName Callable) (name : String) :
    (cs.foldl (fun t c => t.insert c.name c) t).get? name
      = (cs.reverse.find? fun c => c.name == name).or (t.get? name) := by
  induction cs generalizing t with
  | nil => rfl
  | cons c cs ih =>
    rw [List.foldl_cons, ih, ByName.get?_insert, List.reverse_cons, List.find?_append,
      Option.or_assoc]
    by_cases hname : c.name = name
    · simp [hname]
    · simp [hname, Ne.symm hname]

/-- A name stands for the last method that has it, and else for the first function. -/
theorem get?_build (root : Node) (flow : FlowClass) (name : String) :
    (build root (some flow)).get? name
      = ((flow.methods.map Callable.ofMethod).reverse.find? fun c => c.name == name).or
          ((functionsAtTop root).find? fun c => c.name == name) := by
  show ((flow.methods.map Callable.ofMethod).foldl (fun t c => t.insert c.name c)
    ((functionsAtTop root).foldl addFunction .empty)).get? name = _
  rw [get?_foldl_insert, get?_foldl_addFunction]
  rfl

section

variable {root : Node} {flow : FlowClass} {name : String} {c : Callable} {m : Method}

/-- A name that methods have stands for the last of them. -/
theorem get?_build_of_last {before after : List Method} (h : flow.methods = before ++ m :: after)
    (hlast : ∀ later ∈ after, later.name ≠ m.name) :
    (build root (some flow)).get? m.name = some (.ofMethod m) := by
  have hafter : ((after.map Callable.ofMethod).reverse.find? fun c => c.name == m.name) = none := by
    rw [List.find?_eq_none]
    intro c hc
    obtain ⟨later, hlater, rfl⟩ := List.mem_map.1 (List.mem_reverse.1 hc)
    simpa [Callable.ofMethod] using hlast later hlater
  have hm : (Callable.ofMethod m).name = m.name := rfl
  rw [get?_build, h, List.map_append, List.map_cons, List.reverse_append, List.reverse_cons,
    List.append_assoc, List.find?_append, hafter]
  simp [hm]

/-- A name that a method has stands for a method. -/
theorem isMethod_of_mem_methods (hm : m ∈ flow.methods)
    (hc : (build root (some flow)).get? m.name = some c) : c.isMethod = true := by
  rw [get?_build] at hc
  cases hfind : (flow.methods.map Callable.ofMethod).reverse.find? fun c => c.name == m.name with
  | none =>
    have hmem : Callable.ofMethod m ∈ (flow.methods.map Callable.ofMethod).reverse :=
      List.mem_reverse.2 (List.mem_map_of_mem hm)
    exact absurd (beq_self_eq_true m.name) (List.find?_eq_none.1 hfind _ hmem)
  | some e =>
    rw [hfind] at hc
    cases hc
    obtain ⟨m', -, rfl⟩ := List.mem_map.1 (List.mem_reverse.1 (List.mem_of_find?_eq_some hfind))
    rfl

/-- A name stands for a function exactly when no method has the name; then it is the
first function of the name. -/
theorem get?_function_iff :
    ((build root (some flow)).get? name = some c ∧ c.isMethod = false) ↔
      (∀ m ∈ flow.methods, m.name ≠ name) ∧
        ((functionsAtTop root).find? fun g => g.name == name) = some c := by
  have hfree : (∀ m ∈ flow.methods, m.name ≠ name) →
      (build root (some flow)).get? name = (functionsAtTop root).find? fun g => g.name == name := by
    intro hnone
    have hmethods :
        ((flow.methods.map Callable.ofMethod).reverse.find? fun c => c.name == name) = none := by
      rw [List.find?_eq_none]
      intro c hc
      obtain ⟨m, hm, rfl⟩ := List.mem_map.1 (List.mem_reverse.1 hc)
      simpa [Callable.ofMethod] using hnone m hm
    rw [get?_build, hmethods, Option.none_or]
  constructor
  · rintro ⟨hget, hfunction⟩
    have hnone : ∀ m ∈ flow.methods, m.name ≠ name := by
      rintro m hm rfl
      rw [isMethod_of_mem_methods hm hget] at hfunction
      cases hfunction
    exact ⟨hnone, by rw [← hfree hnone]; exact hget⟩
  · rintro ⟨hnone, hfind⟩
    obtain ⟨_, _, -, -, rfl⟩ := bindsAtTop_of_find? hfind
    exact ⟨by rw [hfree hnone]; exact hfind, rfl⟩

end

theorem resolve?_eq_some_iff {t : CallTable} {call : Node} {name : String} {isThis : Bool}
    {c : Callable} (h : call.callTarget? = some (name, isThis)) :
    t.resolve? call = some c ↔ t.get? name = some c ∧ c.isMethod = isThis := by
  rw [resolve?, h, Option.bind_some]
  show (t.get? name).filter _ = some c ↔ _
  rw [Option.filter_eq_some_iff, beq_iff_eq]

/-! ### What calls by name reach -/

/-- A place lies in the body of a callable, or in that of one that it leads to. -/
def Covers (t : CallTable) (m : String) (l : Location) : Prop :=
  ∃ n c body, (n = m ∨ n ∈ t.reachable m) ∧ t.get? n = some c ∧ c.body = some body ∧
    body.location.encloses l = true

section

variable {p : ParsedScript} {base : String} {flow : FlowClass} {name m : String} {x g body n : Node}

/-- What covers a place in a function is the function itself, under its own name. -/
theorem get?_of_covers (hroot : p.root.IsRoot) (hflow : flow ∈ FlowClass.all base p.root)
    (hg : BindsAtTop p.root name x g) (hbody : g.child? .body = some body) (hn : Placed n)
    (hin : body.location.encloses n.location = true)
    (h : (build p.root (some flow)).Covers m n.location) :
    (build p.root (some flow)).get? name = some (.ofFunction name false x g) := by
  obtain ⟨k, c, cbody, -, hget, hcb, hcn⟩ := h
  have hflows : ∀ f ∈ some flow, f ∈ FlowClass.all base p.root := by
    rintro f hf
    obtain rfl := Option.some.inj hf
    exact hflow
  obtain ⟨hc, rfl⟩ := mem_declaredCallables_of_get? hget
  have heq := eq_ofFunction_of_encloses hroot hflows hc hcb hg hbody hn hcn hin
  have hname : c.name = name := by rw [heq]; rfl
  rw [← hname, hget, heq]
  rfl

/-- A function that a callable calls by name is covered when the name stands for it. -/
theorem covers_of_get? {caller : Callable} {call : Node} {l : Location}
    (hcaller : (build p.root (some flow)).get? m = some caller)
    (hcall : (call, name, false) ∈ caller.calls) (hbody : g.child? .body = some body)
    (hin : body.location.encloses l = true)
    (hget : (build p.root (some flow)).get? name = some (.ofFunction name false x g)) :
    (build p.root (some flow)).Covers m l := by
  obtain ⟨callerBody, hcb, hmem, hkind, htarget⟩ := Callable.mem_calls_iff.1 hcall
  have hcalls : (build p.root (some flow)).Calls m name :=
    ⟨caller, callerBody, call, false, _, hcaller, hcb, hmem, hkind, htarget, hget, rfl⟩
  have hreach : name ∈ (build p.root (some flow)).reachable m :=
    (keyed_build p.root (some flow)).mem_reachable_iff.2 (.single hcalls)
  exact ⟨name, _, body, .inr hreach, hget, hbody, hin⟩

end

/-- **Calls resolve by namespace where no method takes the name of a function.**  In a script
with a flow class, a call through `this` calls the last method of its name.  A call by name
calls a function of that name at the top of the script exactly when no method has the name and
one of the functions is not a generator bound to a variable.  When a callable calls a function
by name, the callable covers the bubbles in the function exactly when no method has its name and
it is the first function that has. -/
theorem bare_calls_resolve_iff {source : String} {p : ParsedScript} {options : Options}
    {flow : FlowClass} (hp : ParsedScript.parse? source = some p)
    (hflow : flow ∈ FlowClass.all options.flowBaseClass p.root) :
    let t := build p.root (some flow)
    (∀ call before m after, flow.methods = before ++ m :: after →
      (∀ later ∈ after, later.name ≠ m.name) → call.callTarget? = some (m.name, true) →
      t.resolve? call = some (.ofMethod m)) ∧
    (∀ call name, call.callTarget? = some (name, false) →
      ((∃ x g, BindsAtTop p.root name x g ∧ t.resolve? call = some (.ofFunction name false x g)) ↔
        (∀ m ∈ flow.methods, m.name ≠ name) ∧
          ∃ x g, BindsAtTop p.root name x g ∧ g.kind ≠ .generatorFunction)) ∧
    ∀ m caller call name x g body, t.get? m = some caller → (call, name, false) ∈ caller.calls →
      BindsAtTop p.root name x g → g.child? .body = some body →
      ∀ registry located, Bubble.locate p registry options = .ok located →
        ∀ b ∈ located.values, body.location.encloses b.location = true →
          (t.Covers m b.location ↔ (∀ m ∈ flow.methods, m.name ≠ name) ∧
            ((functionsAtTop p.root).find? fun c => c.name == name)
              = some (.ofFunction name false x g)) := by
  intro t
  have hroot := ParsedScript.isRoot_of_parse? hp
  refine ⟨?_, ?_, ?_⟩
  · intro call before m after hsplit hlast htarget
    exact (resolve?_eq_some_iff htarget).2 ⟨get?_build_of_last hsplit hlast, rfl⟩
  · intro call name htarget
    constructor
    · rintro ⟨x, g, -, hresolve⟩
      obtain ⟨hnone, hfind⟩ := get?_function_iff.1 ((resolve?_eq_some_iff htarget).1 hresolve)
      obtain ⟨x', g', hbinds, hgen, -⟩ := bindsAtTop_of_find? hfind
      exact ⟨hnone, x', g', hbinds, hgen⟩
    · rintro ⟨hnone, x, g, hbinds, hgen⟩
      -- Some function has the name, so there is a first.
      have hmem : Callable.ofFunction name false x g ∈ functionsAtTop p.root :=
        mem_functionsAtTop_iff.2 ⟨name, x, g, hbinds, hgen, rfl⟩
      have hsome : ((functionsAtTop p.root).find? fun c => c.name == name).isSome :=
        List.find?_isSome.2 ⟨_, hmem, beq_self_eq_true name⟩
      obtain ⟨c, hfind⟩ := Option.isSome_iff_exists.1 hsome
      obtain ⟨x', g', hbinds', -, rfl⟩ := bindsAtTop_of_find? hfind
      exact ⟨x', g', hbinds', (resolve?_eq_some_iff htarget).2 (get?_function_iff.2 ⟨hnone, hfind⟩)⟩
  · intro m caller call name x g body hcaller hcall hg hbody registry located hl b hb hin
    obtain ⟨n, hn, hlocation⟩ := Bubble.exists_placed_of_mem_values hroot hl hb
    constructor
    · intro hcovers
      rw [hlocation] at hin hcovers
      exact get?_function_iff.1 ⟨get?_of_covers hroot hflow hg hbody hn hin hcovers, rfl⟩
    · intro hfirst
      exact covers_of_get? hcaller hcall hbody hin (get?_function_iff.2 hfirst).1

/-! ### A name with and without a method -/

/-- The bubbles in the functions that the entry point of the first flow class calls by name, with
these names, and the names of the methods. -/
def namedBubbles? (source : String) (registry : Registry) (options : Options) :
    Option (List (String × Int) × List String) := do
  let p ← ParsedScript.parse? source
  let flow ← (FlowClass.all options.flowBaseClass p.root).head?
  let located ← (Bubble.locate p registry options).toOption
  let handle ← (build p.root (some flow)).get? "handle"
  let inside (name : String) : List Int :=
    (((functionsAtTop p.root).find? fun c => c.name == name).bind (·.bodyLocation?)).toList.flatMap
      fun body => (located.values.filter fun b => body.encloses b.location).map (·.variableId)
  return ((handle.calls.filter fun x => !x.2.2).flatMap fun x =>
    (inside x.2.1).map fun id => (x.2.1, id), flow.methods.map (·.name))

/-- What is found is so. -/
theorem namedBubbles?_spec {source : String} {registry : Registry} {options : Options}
    {bubbles : List (String × Int)} {names : List String}
    (h : namedBubbles? source registry options = some (bubbles, names)) :
    ∃ p flow located handle, ParsedScript.parse? source = some p ∧
      flow ∈ FlowClass.all options.flowBaseClass p.root ∧
      Bubble.locate p registry options = .ok located ∧
      (build p.root (some flow)).get? "handle" = some handle ∧ flow.methods.map (·.name) = names ∧
      ∀ e ∈ bubbles, ∃ call x g body, (call, e.1, false) ∈ handle.calls ∧
        BindsAtTop p.root e.1 x g ∧ g.kind ≠ .generatorFunction ∧
        ((functionsAtTop p.root).find? fun c => c.name == e.1) = some (.ofFunction e.1 false x g) ∧
        g.child? .body = some body ∧
        ∃ b ∈ located.values, b.variableId = e.2 ∧ body.location.encloses b.location = true := by
  simp only [namedBubbles?, Option.bind_eq_bind] at h
  obtain ⟨p, hp, h⟩ := Option.bind_eq_some_iff.1 h
  obtain ⟨flow, hflow, h⟩ := Option.bind_eq_some_iff.1 h
  obtain ⟨located, hl, h⟩ := Option.bind_eq_some_iff.1 h
  obtain ⟨handle, hhandle, h⟩ := Option.bind_eq_some_iff.1 h
  obtain ⟨rfl, rfl⟩ := Prod.mk.inj (Option.some.inj h)
  refine ⟨p, flow, located, handle, hp, List.mem_of_mem_head? hflow, Analysis.eq_ok_of_toOption hl,
    hhandle, rfl, fun e he => ?_⟩
  obtain ⟨⟨call, name, isThis⟩, hcall, he⟩ := List.mem_flatMap.1 he
  obtain ⟨hcall, hbare⟩ := List.mem_filter.1 hcall
  obtain ⟨id, hid, rfl⟩ := List.mem_map.1 he
  obtain ⟨l, hl', hid⟩ := List.mem_flatMap.1 hid
  obtain ⟨c, hfind, hspan⟩ := Option.bind_eq_some_iff.1 (Option.mem_toList.1 hl')
  obtain ⟨body, hbody, rfl⟩ := Option.map_eq_some_iff.1 hspan
  obtain ⟨b, hb, rfl⟩ := List.mem_map.1 hid
  obtain ⟨hb, hin⟩ := List.mem_filter.1 hb
  obtain ⟨x, g, hbinds, hgen, rfl⟩ := bindsAtTop_of_find? hfind
  have hthis : isThis = false := by simpa using hbare
  subst hthis
  exact ⟨call, x, g, body, hcall, hbinds, hgen, hfind, hbody, b, hb, rfl, hin⟩

/-- The entry point calls a function whose name no method has. -/
def ownNameScript : String :=
  "function f()\x7bnew A()\x7d\nclass F extends BubbleFlow\x7bg()\x7b\x7dhandle()\x7bf()\x7d\x7d"

/-- The call finds the function, and the bubble in it is reached. -/
theorem resolve_ownNameScript :
    ∃ p flow located call x g b, ParsedScript.parse? ownNameScript = some p ∧
      flow ∈ FlowClass.all ({} : Options).flowBaseClass p.root ∧
      Bubble.locate p Analysis.oneClass {} = .ok located ∧ b ∈ located.values ∧
      call.callTarget? = some ("f", false) ∧ BindsAtTop p.root "f" x g ∧
      (build p.root (some flow)).resolve? call = some (.ofFunction "f" false x g) ∧
      (build p.root (some flow)).Covers "handle" b.location := by
  have heval : namedBubbles? ownNameScript Analysis.oneClass {}
      = some ([("f", -1)], ["g", "handle"]) := by decide +kernel
  obtain ⟨p, flow, located, handle, hp, hflow, hl, hhandle, hnames, hfound⟩ :=
    namedBubbles?_spec heval
  obtain ⟨call, x, g, body, hcall, hbinds, hgen, hfind, hbody, b, hb, -, hin⟩ :=
    hfound ("f", -1) (List.mem_singleton.2 rfl)
  have hnone : ∀ m ∈ flow.methods, m.name ≠ "f" := by
    intro m hm hname
    have hmem : m.name ∈ ["g", "handle"] := hnames ▸ List.mem_map_of_mem hm
    rw [hname] at hmem
    exact absurd hmem (by decide)
  obtain ⟨_, -, -, -, htarget⟩ := Callable.mem_calls_iff.1 hcall
  obtain ⟨-, hresolve, hcovers⟩ := bare_calls_resolve_iff hp hflow
  obtain ⟨x', g', hbinds', hcalled⟩ := (hresolve call "f" htarget).2 ⟨hnone, x, g, hbinds, hgen⟩
  refine ⟨p, flow, located, call, x', g', b, hp, hflow, hl, hb, htarget, hbinds', hcalled, ?_⟩
  exact (hcovers "handle" handle call "f" x g body hhandle hcall hbinds hbody
    Analysis.oneClass located
    hl b hb hin).2 ⟨hnone, hfind⟩

/-- The entry point calls a function whose name a method has. -/
def sharedNameScript : String :=
  "function f()\x7bnew A()\x7d\nclass F extends BubbleFlow\x7bf()\x7b\x7dhandle()\x7bf()\x7d\x7d"

/-- **The call finds nothing**, and the bubble in the function is left out. -/
theorem resolve?_sharedNameScript :
    ∃ p flow located call x g body b, ParsedScript.parse? sharedNameScript = some p ∧
      flow ∈ FlowClass.all ({} : Options).flowBaseClass p.root ∧
      Bubble.locate p Analysis.oneClass {} = .ok located ∧ b ∈ located.values ∧
      call.callTarget? = some ("f", false) ∧ BindsAtTop p.root "f" x g ∧
      g.child? .body = some body ∧ body.location.encloses b.location = true ∧
      (∃ handle, (build p.root (some flow)).get? "handle" = some handle ∧
        (call, "f", false) ∈ handle.calls) ∧
      (build p.root (some flow)).resolve? call = none ∧
      ¬ (build p.root (some flow)).Covers "handle" b.location := by
  have heval : namedBubbles? sharedNameScript Analysis.oneClass {}
      = some ([("f", -1)], ["f", "handle"]) := by decide +kernel
  obtain ⟨p, flow, located, handle, hp, hflow, hl, hhandle, hnames, hfound⟩ :=
    namedBubbles?_spec heval
  obtain ⟨call, x, g, body, hcall, hbinds, -, -, hbody, b, hb, -, hin⟩ :=
    hfound ("f", -1) (List.mem_singleton.2 rfl)
  obtain ⟨_, -, -, -, htarget⟩ := Callable.mem_calls_iff.1 hcall
  have hmem : "f" ∈ flow.methods.map (·.name) := by
    rw [hnames]
    decide
  obtain ⟨m, hm, hname⟩ := List.mem_map.1 hmem
  -- The name stands for a method, so for no function.
  have hmethod : ∀ c, ¬ ((build p.root (some flow)).get? "f" = some c ∧ c.isMethod = false) :=
    fun c hc => (get?_function_iff.1 hc).1 m hm hname
  refine ⟨p, flow, located, call, x, g, body, b, hp, hflow, hl, hb, htarget, hbinds, hbody, hin,
    ⟨handle, hhandle, hcall⟩, ?_, ?_⟩
  · rw [Option.eq_none_iff_forall_ne_some]
    exact fun c hc => hmethod c ((resolve?_eq_some_iff htarget).1 hc)
  · intro hcovers
    obtain ⟨n, hn, hlocation⟩ :=
      Bubble.exists_placed_of_mem_values (ParsedScript.isRoot_of_parse? hp) hl hb
    rw [hlocation] at hin hcovers
    exact hmethod _
      ⟨get?_of_covers (ParsedScript.isRoot_of_parse? hp) hflow hbinds hbody hn hin hcovers, rfl⟩

end CallTable

end Script

end FlowAnalysis
