import FlowAnalysis.Proofs.Script.Construction
import FlowAnalysis.Script.Callable

/-!
# The callables of a script stand apart

A callable comes from a declaration at the top of a script (`Declares`): it is a function, a
variable with a function, or a method of a class.  Two definitions at the top of a script have
nothing in common (`apart_of_definedIn`), so of two callables with different names neither has a
body in the other (`apart_of_name_ne`).
-/

namespace FlowAnalysis.Script

open Node

/-- A declaration makes a callable. -/
inductive Declares (d : Node) : Callable → Prop
  | function {name : Node}
      (hk : d.kind = .functionDeclaration ∨ d.kind = .generatorFunctionDeclaration)
      (hn : d.child? .name = some name) : Declares d (.ofFunction name.text false d d)
  | bound {x : Node} {c : Callable}
      (hk : d.kind = .lexicalDeclaration ∨ d.kind = .variableDeclaration) (hx : x ∈ d.parts)
      (hc : Callable.ofDeclarator? x = some c) : Declares d c
  | method {body member : Node} {before : List Node} {m : Method}
      (hk : d.kind = .classDeclaration ∨ d.kind = .abstractClassDeclaration)
      (hb : d.child? .body = some body) (hm : member ∈ body.parts)
      (hc : Method.of? member before = some m) : Declares d (.ofMethod m)

/-! ### Parts of a declaration -/

section

variable {k : Kind}

-- The kind of a declaration says whether it is a function, has variables or is a class.
theorem Kind.not_variable_of_function
    (h : k = .functionDeclaration ∨ k = .generatorFunctionDeclaration)
    (h' : k = .lexicalDeclaration ∨ k = .variableDeclaration) : False := by
  rcases h with rfl | rfl <;> simp at h'

theorem Kind.not_class_of_function
    (h : k = .functionDeclaration ∨ k = .generatorFunctionDeclaration)
    (h' : k = .classDeclaration ∨ k = .abstractClassDeclaration) : False := by
  rcases h with rfl | rfl <;> simp at h'

theorem Kind.not_class_of_variable (h : k = .lexicalDeclaration ∨ k = .variableDeclaration)
    (h' : k = .classDeclaration ∨ k = .abstractClassDeclaration) : False := by
  rcases h with rfl | rfl <;> simp at h'

end

/-- A declarator makes a callable when it binds one name to a function. -/
theorem Callable.ofDeclarator?_eq_some_iff {x : Node} {c : Callable} :
    ofDeclarator? x = some c ↔ ∃ name value, x.kind = .variableDeclarator ∧
      x.child? .name = some name ∧ name.kind = .identifier ∧ x.child? .value = some value ∧
      value.stripParens.isFunctionValue = true ∧
      c = .ofFunction name.text false x value.stripParens := by
  simp only [ofDeclarator?, Option.bind_eq_bind]
  constructor
  · intro h
    split at h
    · next hk =>
      obtain ⟨name, hn, h⟩ := Option.bind_eq_some_iff.1 h
      split at h
      · next hid =>
        obtain ⟨value, hv, h⟩ := Option.bind_eq_some_iff.1 h
        split at h
        · next hf =>
          cases h
          exact ⟨name, value, eq_of_beq hk, hn, eq_of_beq hid, hv, hf, rfl⟩
        · cases h
      · cases h
    · cases h
  · rintro ⟨name, value, hk, hn, hid, hv, hf, rfl⟩
    simp [hk, hn, hid, hv, hf]

/-- A declarator binds its own name to a function inside it. -/
theorem Callable.ofDeclarator?_spec {x : Node} {c : Callable} (h : ofDeclarator? x = some c) :
    c.definition = x ∧ (∀ b ∈ c.body, b ∈ x.descendants) := by
  obtain ⟨name, value, -, -, -, hv, -, rfl⟩ := ofDeclarator?_eq_some_iff.1 h
  refine ⟨rfl, fun b hb => ?_⟩
  refine mem_descendants_trans (mem_descendants_of_mem_children (mem_children_of_child? hv)) ?_
  exact mem_descendants_trans (stripParens_mem_descendants value)
    (mem_descendants_of_mem_children (mem_children_of_child? hb))

/-- A member of a class is a method under its own name, with a body inside it. -/
theorem Method.of?_spec {member : Node} {before : List Node} {m : Method}
    (h : Method.of? member before = some m) :
    m.member = member ∧ (member.child? .name).map (·.text) = some m.name ∧
      ∀ b ∈ m.body, b ∈ member.descendants := by
  simp only [Method.of?, Option.bind_eq_bind] at h
  obtain ⟨name, hn, h⟩ := Option.bind_eq_some_iff.1 h
  split at h
  · split at h
    · cases h
    · cases h
      refine ⟨rfl, by rw [hn]; rfl, fun b hb => ?_⟩
      exact mem_descendants_of_mem_children (mem_children_of_child? hb)
  · obtain ⟨value, hv, h⟩ := Option.bind_eq_some_iff.1 h
    split at h
    · cases h
      refine ⟨rfl, by rw [hn]; rfl, fun b hb => ?_⟩
      refine mem_descendants_trans (mem_descendants_of_mem_children (mem_children_of_child? hv)) ?_
      exact mem_descendants_trans (stripParens_mem_descendants value)
        (mem_descendants_of_mem_children (mem_children_of_child? hb))
    · cases h
  · cases h

/-- A node within a declaration that defines one thing: the declaration itself, one of its
declarators or a member of its class. -/
inductive DefinedIn (d : Node) : Node → Prop
  | function (hk : d.kind = .functionDeclaration ∨ d.kind = .generatorFunctionDeclaration) :
      DefinedIn d d
  | bound {x : Node} (hk : d.kind = .lexicalDeclaration ∨ d.kind = .variableDeclaration)
      (hx : x ∈ d.parts) : DefinedIn d x
  | member {body x : Node} (hk : d.kind = .classDeclaration ∨ d.kind = .abstractClassDeclaration)
      (hb : d.child? .body = some body) (hx : x ∈ body.parts) : DefinedIn d x

namespace DefinedIn

variable {d x y : Node}

theorem mem_descendants (h : DefinedIn d x) : x ∈ d.descendants := by
  cases h with
  | function => exact self_mem_descendants d
  | bound _ hx => exact mem_descendants_of_mem_children (mem_children_of_mem_parts hx)
  | member _ hb hx =>
    exact mem_descendants_trans (mem_descendants_of_mem_children (mem_children_of_child? hb))
      (mem_descendants_of_mem_children (mem_children_of_mem_parts hx))

/-- Two definitions of one declaration are apart. -/
theorem apart (hd : Placed d) (h : DefinedIn d x) (h' : DefinedIn d y)
    (hne : x ≠ y) : Apart x y := by
  cases h with
  | function hk =>
    cases h' with
    | function => exact absurd rfl hne
    | bound hk' => exact (Kind.not_variable_of_function hk hk').elim
    | member hk' => exact (Kind.not_class_of_function hk hk').elim
  | bound hk hx =>
    cases h' with
    | function hk' => exact (Kind.not_variable_of_function hk' hk).elim
    | bound _ hy =>
      exact apart_of_ne hd.ordered (mem_children_of_mem_parts hx) (mem_children_of_mem_parts hy) hne
    | member hk' => exact (Kind.not_class_of_variable hk hk').elim
  | member hk hb hx =>
    cases h' with
    | function hk' => exact (Kind.not_class_of_function hk' hk).elim
    | bound hk' => exact (Kind.not_class_of_variable hk' hk).elim
    | member _ hb' hy =>
      rw [hb] at hb'
      cases hb'
      have hbody := hd.of_mem_children (mem_children_of_child? hb)
      exact apart_of_ne hbody.ordered (mem_children_of_mem_parts hx)
        (mem_children_of_mem_parts hy) hne

end DefinedIn

namespace Declares

variable {d : Node} {c e : Callable}

theorem body_mem_descendants (h : Declares d c) {b : Node} (hb : c.body = some b) :
    b ∈ c.definition.descendants := by
  cases h with
  | function => exact mem_descendants_of_mem_children (mem_children_of_child? hb)
  | bound _ _ hc =>
    obtain ⟨hdef, hbody⟩ := Callable.ofDeclarator?_spec hc
    rw [hdef]
    exact hbody b hb
  | method _ _ _ hc =>
    obtain ⟨hdef, _, hbody⟩ := Method.of?_spec hc
    show b ∈ (Method.member _).descendants
    rw [hdef]
    exact hbody b hb

theorem definedIn (h : Declares d c) : DefinedIn d c.definition := by
  cases h with
  | function hk => exact .function hk
  | bound hk hx hc =>
    rw [(Callable.ofDeclarator?_spec hc).1]
    exact .bound hk hx
  | method hk hb hm hc =>
    show DefinedIn d (Method.member _)
    rw [(Method.of?_spec hc).1]
    exact .member hk hb hm

/-- What defines a callable says its name. -/
theorem name_eq (h : Declares d c) (h' : Declares d e) (hdef : c.definition = e.definition) :
    c.name = e.name := by
  -- Only like goes with like.
  cases h with
  | function hk hn =>
    cases h' with
    | function _ hn' =>
      rw [hn] at hn'
      cases hn'
      rfl
    | bound hk' => exact (Kind.not_variable_of_function hk hk').elim
    | method hk' => exact (Kind.not_class_of_function hk hk').elim
  | bound hk hx hc =>
    cases h' with
    | function hk' => exact (Kind.not_variable_of_function hk' hk).elim
    | bound _ _ hc' =>
      rw [(Callable.ofDeclarator?_spec hc).1, (Callable.ofDeclarator?_spec hc').1] at hdef
      rw [hdef, hc'] at hc
      cases hc
      rfl
    | method hk' => exact (Kind.not_class_of_variable hk hk').elim
  | @method _ _ _ m hk hb hm hc =>
    cases h' with
    | function hk' => exact (Kind.not_class_of_function hk' hk).elim
    | bound hk' => exact (Kind.not_class_of_variable hk' hk).elim
    | @method _ _ _ m' _ _ _ hc' =>
      obtain ⟨hmember, hname, _⟩ := Method.of?_spec hc
      obtain ⟨hmember', hname', _⟩ := Method.of?_spec hc'
      have hsame : m.member = m'.member := hdef
      rw [← hmember, hsame, hmember', hname'] at hname
      exact (Option.some.inj hname).symm

end Declares

/-! ### The callables of a script -/

/-- All callables of a script and its flow class, whether or not another one takes their name. -/
def declaredCallables (root : Node) (flow : Option FlowClass) : List Callable :=
  (root.parts.filterMap fun s => s.declared?.map Prod.fst).flatMap Callable.ofDeclaration
    ++ ((flow.map (·.methods)).getD []).map Callable.ofMethod

theorem declares_of_mem_ofDeclaration {d : Node} {c : Callable} (h : c ∈ Callable.ofDeclaration d) :
    Declares d c := by
  rw [Callable.ofDeclaration] at h
  split at h
  · next hk =>
    obtain ⟨name, hn, rfl⟩ := Option.map_eq_some_iff.1 (Option.mem_toList.1 h)
    exact .function (.inl hk) hn
  · next hk =>
    obtain ⟨name, hn, rfl⟩ := Option.map_eq_some_iff.1 (Option.mem_toList.1 h)
    exact .function (.inr hk) hn
  · next hk =>
    obtain ⟨x, hx, hc⟩ := List.mem_filterMap.1 h
    exact .bound (.inl hk) hx hc
  · next hk =>
    obtain ⟨x, hx, hc⟩ := List.mem_filterMap.1 h
    exact .bound (.inr hk) hx hc
  · cases h

theorem declares_of_mem_methods {base : String} {statement : Node} {flow : FlowClass} {m : Method}
    (h : FlowClass.of? base statement = some flow) (hm : m ∈ flow.methods) :
    ∃ d exported, statement.declared? = some (d, exported) ∧ Declares d (.ofMethod m) := by
  simp only [FlowClass.of?, Option.bind_eq_bind] at h
  obtain ⟨⟨d, exported⟩, hd, h⟩ := Option.bind_eq_some_iff.1 h
  refine ⟨d, exported, hd, ?_⟩
  dsimp only at h
  split at h
  · next hk =>
    obtain ⟨name, _, h⟩ := Option.bind_eq_some_iff.1 h
    obtain ⟨body, hb, h⟩ := Option.bind_eq_some_iff.1 h
    obtain ⟨clause, _, h⟩ := Option.bind_eq_some_iff.1 h
    obtain ⟨value, _, h⟩ := Option.bind_eq_some_iff.1 h
    split at h
    · cases h
      obtain ⟨⟨member, before⟩, hmem, hof⟩ := List.mem_filterMap.1 hm
      have hparts : member ∈ body.parts := by
        rw [← map_partsWithBefore]
        exact List.mem_map_of_mem hmem
      exact .method (by simpa using hk) hb hparts hof
    · cases h
  · cases h

/-- Every callable of a script comes from a declaration at its top. -/
theorem declares_of_mem_declaredCallables {base : String} {root : Node} {flow : Option FlowClass}
    (hflow : ∀ f ∈ flow, f ∈ FlowClass.all base root) {c : Callable}
    (h : c ∈ declaredCallables root flow) :
    ∃ statement ∈ root.parts, ∃ d exported, statement.declared? = some (d, exported) ∧
      Declares d c := by
  rcases List.mem_append.1 h with h | h
  · obtain ⟨d, hd, hc⟩ := List.mem_flatMap.1 h
    obtain ⟨statement, hs, hd⟩ := List.mem_filterMap.1 hd
    obtain ⟨⟨_, exported⟩, hdecl, rfl⟩ := Option.map_eq_some_iff.1 hd
    exact ⟨statement, hs, _, exported, hdecl, declares_of_mem_ofDeclaration hc⟩
  · obtain ⟨m, hm, rfl⟩ := List.mem_map.1 h
    cases flow with
    | none => cases hm
    | some f =>
      obtain ⟨statement, hs, hof⟩ := List.mem_filterMap.1 (hflow f rfl)
      obtain ⟨d, exported, hdecl, hc⟩ := declares_of_mem_methods hof hm
      exact ⟨statement, hs, d, exported, hdecl, hc⟩

theorem declared?_mem_descendants {statement d : Node} {exported : Bool}
    (h : statement.declared? = some (d, exported)) : d ∈ statement.descendants := by
  rw [declared?] at h
  split at h
  · obtain ⟨e, he, h⟩ := Option.map_eq_some_iff.1 h
    cases h
    exact mem_descendants_of_mem_children (mem_children_of_child? he)
  · cases h
    exact self_mem_descendants _

/-- A part of a script has an extent of its own. -/
theorem Node.IsRoot.placed_of_mem_parts {root s : Node} (h : root.IsRoot) (hs : s ∈ root.parts) :
    Placed s := by
  obtain ⟨hm, hnamed⟩ := List.mem_filter.1 hs
  refine (h.children s hm).resolve_right fun hmark => ?_
  simp [isNamed, hmark.1] at hnamed

section

variable {root s s' d d' x y : Node} {exported exported' : Bool}

/-- What a declaration at the top of a script defines has an extent of its own. -/
theorem placed_of_definedIn (h : root.IsRoot) (hs : s ∈ root.parts)
    (hd : s.declared? = some (d, exported)) (hx : DefinedIn d x) : Placed x :=
  ((h.placed_of_mem_parts hs).of_mem_descendants (declared?_mem_descendants hd)).of_mem_descendants
    hx.mem_descendants

/-- Two definitions at the top of a script are apart. -/
theorem apart_of_definedIn (h : root.IsRoot) (hs : s ∈ root.parts) (hs' : s' ∈ root.parts)
    (hd : s.declared? = some (d, exported)) (hd' : s'.declared? = some (d', exported'))
    (hx : DefinedIn d x) (hy : DefinedIn d' y) (hne : d = d' → x ≠ y) : Apart x y := by
  have hsp := h.placed_of_mem_parts hs
  have hsp' := h.placed_of_mem_parts hs'
  have hdm := declared?_mem_descendants hd
  have hdm' := declared?_mem_descendants hd'
  by_cases hss : s = s'
  · -- One statement makes one declaration.
    subst hss
    rw [hd] at hd'
    cases hd'
    exact hx.apart (hsp.of_mem_descendants hdm) hy (hne rfl)
  · have happart := apart_of_ne h.ordered (mem_children_of_mem_parts hs)
      (mem_children_of_mem_parts hs') hss
    exact happart.mono
      (hsp.within_of_mem_descendants (mem_descendants_trans hdm hx.mem_descendants))
      (hsp'.within_of_mem_descendants (mem_descendants_trans hdm' hy.mem_descendants))

end

section

variable {base : String} {root : Node} {flow : Option FlowClass} {c e : Callable} {b b' : Node}

/-- The body of a callable has an extent of its own. -/
theorem placed_body (h : root.IsRoot) (hflow : ∀ f ∈ flow, f ∈ FlowClass.all base root)
    (hc : c ∈ declaredCallables root flow) (hb : c.body = some b) :
    b ∈ root.descendants ∧ Placed b := by
  obtain ⟨s, hs, d, _, hd, hdc⟩ := declares_of_mem_declaredCallables hflow hc
  have hbs : b ∈ s.descendants := by
    refine mem_descendants_trans (declared?_mem_descendants hd) ?_
    exact mem_descendants_trans hdc.definedIn.mem_descendants (hdc.body_mem_descendants hb)
  refine ⟨mem_descendants_trans ?_ hbs, (h.placed_of_mem_parts hs).of_mem_descendants hbs⟩
  exact mem_descendants_of_mem_children (mem_children_of_mem_parts hs)

/-- The bodies of callables with different names are apart. -/
theorem apart_of_name_ne (h : root.IsRoot) (hflow : ∀ f ∈ flow, f ∈ FlowClass.all base root)
    (hc : c ∈ declaredCallables root flow) (he : e ∈ declaredCallables root flow)
    (hne : c.name ≠ e.name) (hb : c.body = some b) (hb' : e.body = some b') : Apart b b' := by
  obtain ⟨s, hs, d, _, hd, hdc⟩ := declares_of_mem_declaredCallables hflow hc
  obtain ⟨s', hs', d', _, hd', hdc'⟩ := declares_of_mem_declaredCallables hflow he
  have happart : Apart c.definition e.definition := by
    refine apart_of_definedIn h hs hs' hd hd' hdc.definedIn hdc'.definedIn ?_
    rintro rfl hdef
    exact hne (hdc.name_eq hdc' hdef)
  exact happart.mono
    ((placed_of_definedIn h hs hd hdc.definedIn).within_of_mem_descendants
      (hdc.body_mem_descendants hb))
    ((placed_of_definedIn h hs' hd' hdc'.definedIn).within_of_mem_descendants
      (hdc'.body_mem_descendants hb'))

end

/-! ### The table of callables -/

theorem eq_or_get?_of_get?_insert {t : ByName Callable} {c e : Callable} {name : String}
    (h : (t.insert c.name c).get? name = some e) :
    t.get? name = some e ∨ e = c ∧ c.name = name := by
  rw [ByName.get?_insert] at h
  split at h
  · next heq =>
    cases h
    exact .inr ⟨rfl, heq.symm⟩
  · exact .inl h

theorem eq_or_get?_of_get?_addFunction {t : ByName Callable} {c e : Callable} {name : String}
    (h : (CallTable.addFunction t c).get? name = some e) :
    t.get? name = some e ∨ e = c ∧ c.name = name := by
  rw [CallTable.addFunction] at h
  split at h
  · exact .inl h
  · exact eq_or_get?_of_get?_insert h

/-- What a table has after callables were added one by one was there before or is one of them. -/
theorem get?_foldl {add : ByName Callable → Callable → ByName Callable}
    (hadd : ∀ {t c name e}, (add t c).get? name = some e → t.get? name = some e ∨ e = c ∧
      c.name = name) {cs : List Callable} {t : ByName Callable} {name : String} {c : Callable}
    (h : (cs.foldl add t).get? name = some c) : t.get? name = some c ∨ c ∈ cs ∧ c.name = name := by
  induction cs generalizing t with
  | nil => exact .inl h
  | cons d ds ih =>
    rcases ih h with h | ⟨hm, hn⟩
    · rcases hadd h with h | ⟨rfl, hn⟩
      · exact .inl h
      · exact .inr ⟨List.mem_cons_self, hn⟩
    · exact .inr ⟨List.mem_cons_of_mem _ hm, hn⟩

/-- A callable of the table is one of the script, under its own name. -/
theorem mem_declaredCallables_of_get? {root : Node} {flow : Option FlowClass} {name : String}
    {c : Callable} (h : (CallTable.build root flow).get? name = some c) :
    c ∈ declaredCallables root flow ∧ c.name = name := by
  -- Methods are added last, to a table that has the functions.
  rcases get?_foldl eq_or_get?_of_get?_insert h with h | ⟨hm, hn⟩
  · rcases get?_foldl eq_or_get?_of_get?_addFunction h with h | ⟨hm, hn⟩
    · cases h
    · exact ⟨List.mem_append.2 (.inl hm), hn⟩
  · exact ⟨List.mem_append.2 (.inr hm), hn⟩

end FlowAnalysis.Script
