import FlowAnalysis.Proofs.Scope.Nesting

/-!
# The declarations that a scope tree covers

The variables of a scope tree are the names of its outline that are not empty, in order
(`map_origin_build`).  So a declarator has a variable at its name when the outline takes it as a
declarator (`Outlined`): when it is reached from the top of the script through pieces of items.
-/

namespace FlowAnalysis

open Script Node Outline

namespace ScopeTree

/-- How, under which name and where a variable is bound. -/
def origin (v : Variable) : BindingKind × String × Location := (v.kind, v.name, v.location)

/-- The names of an outline that are not empty. -/
def declared (xs : List (BindingKind × String × Location)) :
    List (BindingKind × String × Location) :=
  xs.filter fun x => !x.2.1.isEmpty

namespace Draft

theorem map_origin_declare (d : Draft) (kind : BindingKind) (name : String) (location : Location)
    (scope : Nat) : (d.declare kind name location scope).tree.bindings.map origin
      = d.tree.bindings.map origin ++ declared [(kind, name, location)] := by
  rw [declare]
  split
  · next hempty => simp [declared, hempty]
  · next hname => simp [declared, hname, addVariable, origin]

/-- An outline adds its names, one variable for each that is not empty. -/
theorem map_origin_addAll (path : Path) (d : Draft) (os : List Outline) :
    (addAll path d os).tree.bindings.map origin
      = d.tree.bindings.map origin ++ declared (namesAll os) := by
  refine namesAll.induct
    (fun o => ∀ path d, (add path d o).tree.bindings.map origin
      = d.tree.bindings.map origin ++ declared (names o))
    (fun os => ∀ path d, (addAll path d os).tree.bindings.map origin
      = d.tree.bindings.map origin ++ declared (namesAll os))
    ?_ ?_ ?_ ?_ os path d
  · intro kind first last parts ih path d
    rw [add, names]
    exact ih _ (d.openScope kind (path.head?.map Prod.fst) first last)
  · intro kind name location path d
    rw [add, names, map_origin_declare]
  · intro path d
    rw [addAll, namesAll, declared, List.filter_nil, List.append_nil]
  · intro o os iho ihos path d
    rw [addAll, ihos, iho, namesAll, declared, declared, declared, List.filter_append,
      List.append_assoc]

end Draft

/-- **The variables of a script are the names of its outline** that are not empty. -/
theorem map_origin_build (source : String) (root : Node) :
    (build source root).bindings.map origin = declared (namesAll (ofNodes root.parts)) :=
  Draft.map_origin_addAll [(1, .module), (0, .global)] (Draft.ground _) _

end ScopeTree

/-- A declarator that the outline of a script takes as one. -/
def Outline.Outlined (root d : Node) : Prop :=
  ∃ s ∈ root.parts, ∃ kind, Item.Reaches ⟨.plain, s⟩ ⟨.declarator kind, d⟩

namespace ScopeTree

/-- A declarator that is outlined has a variable at its name. -/
theorem variableAt?_isSome_of_outlined {source : String} {root d name : Node} (h : Outlined root d)
    (hk : d.kind = .variableDeclarator) (hname : d.child? .name = some name)
    (hplain : name.kind = .identifier) (htext : name.text ≠ "") :
    ((build source root).variableAt? name.text name.location).isSome = true := by
  obtain ⟨s, hs, kind, hreach⟩ := h
  have hpiece : Piece.name kind name ∈ Item.pieces ⟨.declarator kind, d⟩ := by
    have hbound : name.boundNames = [name] := by rw [boundNames, hplain]
    rw [Item.pieces, if_pos hk, hname, Option.toList_some, List.flatMap_singleton,
      Piece.names, hbound]
    simp
  have hmem : (kind, name.text, name.location) ∈ namesAll (Item.outline ⟨.plain, s⟩) :=
    (Item.mem_namesAll_outline _).2 ⟨_, kind, name, hreach, hpiece, rfl⟩
  have hbuild : (kind, name.text, name.location) ∈ (build source root).bindings.map origin := by
    rw [map_origin_build, declared, List.mem_filter, ofNodes_eq_flatMap]
    rw [namesAll_eq_flatMap] at hmem ⊢
    rw [List.flatMap_assoc]
    exact ⟨List.mem_flatMap.2 ⟨s, hs, hmem⟩, by simpa using htext⟩
  obtain ⟨v, hv, horigin⟩ := List.mem_map.1 hbuild
  obtain ⟨-, htext, hlocation⟩ : v.kind = kind ∧ v.name = name.text ∧
    v.location = name.location := by
    simpa [origin] using horigin
  rw [variableAt?, List.find?_isSome]
  exact ⟨v, hv, by simp [htext, hlocation]⟩

end ScopeTree

end FlowAnalysis
