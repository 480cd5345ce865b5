import FlowAnalysis.Proofs.Scope.Descent
import FlowAnalysis.Scope.Tree
import Mathlib.Data.List.Nodup
import Mathlib.Data.List.Perm.Basic
import Mathlib.Data.List.Range

/-!
# Scope trees are well nested

The outline of nodes that stand in order is nested like the nodes themselves: a region lies within
the region around it, and a name within its region (`Outline.Fits`).  A scope tree that grows along
such an outline keeps its scopes nested and every variable at home in one of them
(`ScopeTree.Formed`), and its draft keeps count of the variables (`Draft.Sound`): this is preserved
by one more scope (`Sound.openScope`), by one more variable (`Sound.declare`) and so by a whole
outline (`Sound.add`).  `ScopeTree.valid_build` is the result for all nodes in order, and
`ParsedScript.scopes_valid` that for the scopes of a script.
-/

namespace FlowAnalysis

open Script Node

/-! ### Outlines in a range of lines -/

namespace Outline

/-- An outline lies in a range of lines, and every region in it encloses its parts. -/
inductive Fits : Nat → Nat → Outline → Prop
  | binding {first last : Nat} {kind : BindingKind} {name : String} {location : Location}
      (first_le : first ≤ location.startLine) (le_last : location.startLine ≤ last) :
      Fits first last (.binding kind name location)
  | region {first last f l : Nat} {kind : ScopeKind} {parts : List Outline} (first_le : first ≤ f)
      (ordered : f ≤ l) (le_last : l ≤ last) (enclosed : ∀ o ∈ parts, Fits f l o) :
      Fits first last (.region kind f l parts)

theorem Fits.mono {first last f l : Nat} {o : Outline} (h : Fits f l o) (hf : first ≤ f)
    (hl : l ≤ last) : Fits first last o := by
  cases h with
  | binding first_le le_last => exact .binding (hf.trans first_le) (le_last.trans hl)
  | region first_le ordered le_last enclosed =>
    exact .region (hf.trans first_le) ordered (le_last.trans hl) enclosed

/-- An outline lies in the lines of a node. -/
abbrev FitsIn (n : Node) : Outline → Prop := Fits (n.start.row + 1) (n.stop.row + 1)

theorem FitsIn.mono {n m : Node} {o : Outline} (h : FitsIn m o) (hm : Within m n) : FitsIn n o :=
  Fits.mono h (Nat.succ_le_succ (Point.row_le_of_key_le hm.start))
    (Nat.succ_le_succ (Point.row_le_of_key_le hm.stop))

theorem fitsIn_bind {kind : BindingKind} {n : Node} (h : InOrder n) : FitsIn n (bind kind n) :=
  .binding (le_refl _) (Nat.succ_le_succ (Point.row_le_of_key_le h.start_le_stop))

theorem fitsIn_around {kind : ScopeKind} {n : Node} {parts : List Outline} (h : InOrder n)
    (hparts : ∀ o ∈ parts, FitsIn n o) : FitsIn n (around kind n parts) :=
  .region (le_refl _) (Nat.succ_le_succ (Point.row_le_of_key_le h.start_le_stop)) (le_refl _) hparts

/-- **The outline of an item lies in the lines of its node.** -/
theorem Item.fitsIn_outline (i : Item) (h : InOrder i.node) : ∀ o ∈ i.outline, FitsIn i.node o := by
  induction i using Item.induction with
  | step i ih =>
    have hpieces : ∀ o ∈ i.pieces.flatMap Piece.outline, FitsIn i.node o := by
      intro o ho
      obtain ⟨p, hp, ho⟩ := List.mem_flatMap.1 ho
      cases p with
      | name kind n =>
        have hn := name_mem_descendants hp
        obtain rfl := List.mem_singleton.1 ho
        exact (fitsIn_bind (h.of_mem_descendants hn)).mono (h.within_of_mem_descendants hn)
      | item j =>
        have hj := item_mem_descendants hp
        exact (ih j hp (h.of_mem_descendants hj) o ho).mono (h.within_of_mem_descendants hj)
    rw [outline_eq]
    cases i.scope? with
    | none => exact hpieces
    | some kind => exact List.forall_mem_singleton.2 (fitsIn_around h hpieces)

end Outline

/-- The outline of the parts of a node lies in its lines. -/
theorem Outline.fits_ofNodes {root : Node} (h : InOrder root) {lastLine : Nat}
    (hlast : root.stop.row + 1 ≤ lastLine) : ∀ o ∈ ofNodes root.parts, Fits 1 lastLine o := by
  intro o ho
  rw [ofNodes_eq_flatMap] at ho
  obtain ⟨c, hc, ho⟩ := List.mem_flatMap.1 ho
  have hc := mem_children_of_mem_parts hc
  have hfits : FitsIn c o := Item.fitsIn_outline ⟨.plain, c⟩ (h.of_mem_children hc) o ho
  have hroot : FitsIn root o := hfits.mono (h.within_of_mem_children hc)
  exact Fits.mono hroot (Nat.le_add_left _ _) hlast

/-! ### Scopes -/

theorem getElem?_concat_eq_some {α : Type} {l : List α} {a b : α} {i : Nat} :
    (l ++ [a])[i]? = some b ↔ l[i]? = some b ∨ i = l.length ∧ a = b := by
  rw [List.getElem?_append]
  split
  · next h => simp [h.ne]
  · next h =>
    rw [List.getElem?_eq_none (Nat.le_of_not_lt h), List.getElem?_singleton]
    split
    · next hi => simp [show i = l.length by omega]
    · next hi => simp [show i ≠ l.length by omega]

namespace Scope

/-- A scope without its variables. -/
def bare (s : Scope) : Scope := { s with bindings := [] }

/-- A scope has its place among others: its number, at least one line, and, unless it is the first,
an earlier scope around it. -/
structure PlacedAt (scopes : List Scope) (i : Nat) (s : Scope) : Prop where
  id_eq : s.id = i
  startLine_le : s.startLine ≤ s.endLine
  parent : i = 0 ∧ s.parent = none ∨ ∃ p q, s.parent = some p ∧ p < i ∧ scopes[p]? = some q ∧
    q.startLine ≤ s.startLine ∧ s.endLine ≤ q.endLine

end Scope

namespace ScopeTree

/-- The scopes of a tree without their variables. -/
def frames (t : ScopeTree) : List Scope := t.scopes.map Scope.bare

/-- Every scope has its place. -/
def Nested (scopes : List Scope) : Prop :=
  ∀ (i : Nat) (s : Scope), scopes[i]? = some s → s.PlacedAt scopes i

theorem Nested.concat {scopes : List Scope} {s : Scope} (h : Nested scopes)
    (hs : s.PlacedAt scopes scopes.length) : Nested (scopes ++ [s]) := by
  intro i r hr
  have hplaced : r.PlacedAt scopes i := by
    rcases getElem?_concat_eq_some.1 hr with hr | ⟨rfl, rfl⟩
    · exact h i r hr
    · exact hs
  refine ⟨hplaced.id_eq, hplaced.startLine_le, hplaced.parent.imp_right ?_⟩
  rintro ⟨p, q, hp, hlt, hq, hlines⟩
  exact ⟨p, q, hp, hlt, getElem?_concat_eq_some.2 (.inl hq), hlines⟩

/-- A place is open for lines: the scopes around it are there, each has the kind that the place
knows and holds the lines, and one of them takes a `var`. -/
structure Open (scopes : List Scope) (path : Path) (first last : Nat) : Prop where
  scope : ∀ e ∈ path, ∃ s, scopes[e.1]? = some s ∧ s.kind = e.2 ∧ s.startLine ≤ first ∧
    last ≤ s.endLine
  ne_nil : path ≠ []
  takesVar : ∃ e ∈ path, e.2.takesVar

namespace Open

variable {scopes scopes' : List Scope} {path : Path} {first last : Nat}

theorem mono (h : Open scopes path first last) (hs : scopes <+: scopes') :
    Open scopes' path first last := by
  refine ⟨fun e he => ?_, h.ne_nil, h.takesVar⟩
  obtain ⟨s, hget, hrest⟩ := h.scope e he
  obtain ⟨more, rfl⟩ := hs
  exact ⟨s, by rw [List.getElem?_append_left (List.getElem?_eq_some_iff.1 hget).1, hget], hrest⟩

/-- One more scope opens a place inside. -/
theorem enter (h : Open scopes path first last) {s : Scope} (hf : first ≤ s.startLine)
    (hl : s.endLine ≤ last) :
    Open (scopes ++ [s]) ((scopes.length, s.kind) :: path) s.startLine s.endLine := by
  refine ⟨List.forall_mem_cons.2 ⟨⟨s, List.getElem?_concat_length, rfl, le_refl _, le_refl _⟩, ?_⟩,
    List.cons_ne_nil _ _, ?_⟩
  · intro e he
    obtain ⟨r, hr, hkind, hrf, hrl⟩ := (h.mono (List.prefix_append scopes [s])).scope e he
    exact ⟨r, hr, hkind, hrf.trans hf, hl.trans hrl⟩
  · obtain ⟨e, he, htakes⟩ := h.takesVar
    exact ⟨e, List.mem_cons_of_mem _ he, htakes⟩

/-- A binding at an open place belongs to a scope that holds the lines, and a
`var` to one that takes it. -/
theorem exists_target (h : Open scopes path first last) (kind : BindingKind) :
    ∃ s, scopes[target kind path]? = some s ∧ s.startLine ≤ first ∧ last ≤ s.endLine ∧
      (kind = .var → s.kind.takesVar = true) := by
  have htarget : ∃ e ∈ path, target kind path = e.1 ∧ (kind = .var → e.2.takesVar = true) := by
    rw [target]
    split
    · obtain ⟨e, he⟩ := Option.isSome_iff_exists.1 (List.find?_isSome.2 h.takesVar)
      have htakes : e.2.takesVar = true := by simpa using List.find?_some he
      exact ⟨e, List.mem_of_find?_eq_some he, by rw [he]; rfl, fun _ => htakes⟩
    · next hkind =>
      obtain ⟨e, rest, rfl⟩ := List.exists_cons_of_ne_nil h.ne_nil
      exact ⟨e, List.mem_cons_self, rfl, fun hvar => absurd hvar hkind⟩
  obtain ⟨e, he, htarget, htakes⟩ := htarget
  obtain ⟨s, hget, hkind, hlines⟩ := h.scope e he
  exact ⟨s, htarget ▸ hget, hlines.1, hlines.2, fun hvar => hkind ▸ htakes hvar⟩

end Open

/-! ### Variables -/

/-- A variable is at home in its scope: the scope lists it and holds the line on which it is bound,
and a `var` is at home in a scope that takes it. -/
structure HomeOf (scopes : List Scope) (i : Nat) (v : Variable) (s : Scope) : Prop where
  scope : scopes[v.scope]? = some s
  listed : i ∈ s.bindings
  startLine_le : s.startLine ≤ v.location.startLine
  le_endLine : v.location.startLine ≤ s.endLine
  takesVar : v.kind = .var → s.kind.takesVar = true

/-- A variable stays at home when its scope keeps everything but gains variables. -/
theorem HomeOf.mono {scopes scopes' : List Scope} {i : Nat} {v : Variable} {s s' : Scope}
    (h : HomeOf scopes i v s) (hs : scopes'[v.scope]? = some s') (hbare : s'.bare = s.bare)
    (hsub : s.bindings ⊆ s'.bindings) : HomeOf scopes' i v s' where
  scope := hs
  listed := hsub h.listed
  startLine_le := (congrArg Scope.startLine hbare).trans_le h.startLine_le
  le_endLine := h.le_endLine.trans_eq (congrArg Scope.endLine hbare).symm
  takesVar := fun hvar => (congrArg (·.kind.takesVar) hbare).trans (h.takesVar hvar)

/-- A tree that is well formed so far: its scopes are nested, its variables numbered from one, each
listed once, by the scope in which it is at home. -/
structure Formed (t : ScopeTree) : Prop where
  nested : Nested t.frames
  id_eq : ∀ {i : Nat} {v : Variable}, t.bindings[i]? = some v → v.id = i + 1
  once : (t.scopes.flatMap (·.bindings)).Perm (List.range t.bindings.length)
  home : ∀ {i : Nat} {v : Variable}, t.bindings[i]? = some v → ∃ s, HomeOf t.scopes i v s

section

variable {t : ScopeTree} {id : Int} {kind : BindingKind} {name : String} {location : Location}
  {scope : Nat}

theorem frames_addScope (kind : ScopeKind) (parent : Option Nat) (first last : Nat) :
    (t.addScope kind parent first last).frames
      = t.frames ++ [⟨t.scopes.length, kind, parent, first, last, []⟩] := by
  rw [frames, addScope, List.map_append]
  rfl

theorem getElem?_scopes_addVariable (i : Nat) :
    (t.addVariable id kind name location scope).scopes[i]? = (t.scopes[i]?).map fun s =>
      if scope = i then { s with bindings := s.bindings ++ [t.bindings.length] } else s :=
  List.getElem?_modify _ _ _ _

/-- A scope keeps everything but gains the new variable, if the variable is its own. -/
theorem exists_scope_addVariable {i : Nat} {s : Scope} (h : t.scopes[i]? = some s) :
    ∃ s', (t.addVariable id kind name location scope).scopes[i]? = some s' ∧ s'.bare = s.bare ∧
      s.bindings ⊆ s'.bindings ∧ (scope = i → t.bindings.length ∈ s'.bindings) := by
  rw [getElem?_scopes_addVariable, h, Option.map_some]
  refine ⟨_, rfl, ?_⟩
  split
  · exact ⟨rfl, List.subset_append_left _ _, fun _ =>
      List.mem_append_right _ (List.mem_singleton_self _)⟩
  · next hne => exact ⟨rfl, List.Subset.refl _, fun heq => absurd heq hne⟩

theorem frames_addVariable : (t.addVariable id kind name location scope).frames = t.frames := by
  refine List.ext_getElem? fun i => ?_
  rw [frames, frames, List.getElem?_map, List.getElem?_map, getElem?_scopes_addVariable,
    Option.map_map]
  congr 1
  funext s
  rw [Function.comp_apply]
  split <;> rfl

end

/-- One more variable in one scope is one more variable in the whole. -/
theorem flatMap_modify_perm (scopes : List Scope) {scope : Nat} (h : scope < scopes.length)
    (index : Nat) :
    ((scopes.modify scope fun s => { s with bindings := s.bindings ++ [index] }).flatMap
      (·.bindings)).Perm (scopes.flatMap (·.bindings) ++ [index]) := by
  induction scopes generalizing scope with
  | nil => cases h
  | cons s ss ih =>
    cases scope with
    | zero =>
      rw [List.modify_zero_cons, List.flatMap_cons, List.flatMap_cons, List.append_assoc,
        List.append_assoc]
      exact List.perm_append_comm.append_left s.bindings
    | succ scope =>
      rw [List.modify_succ_cons, List.flatMap_cons, List.flatMap_cons, List.append_assoc]
      exact (ih (Nat.lt_of_succ_lt_succ h)).append_left s.bindings

namespace Formed

variable {t : ScopeTree} {path : Path} {first last : Nat}

/-- **One more scope**, at an open place. -/
theorem addScope (h : Formed t) {kind : ScopeKind} {parent : Option Nat}
    (hplaced : Scope.PlacedAt t.frames t.scopes.length
      ⟨t.scopes.length, kind, parent, first, last, []⟩) :
    Formed (t.addScope kind parent first last) := by
  refine ⟨?_, h.id_eq, ?_, fun hv => ?_⟩
  · rw [frames_addScope]
    refine h.nested.concat ?_
    rwa [frames, List.length_map]
  · show List.Perm ((t.scopes ++ [_]).flatMap _) _
    rw [List.flatMap_append, List.flatMap_singleton, List.append_nil]
    exact h.once
  · obtain ⟨s, hs⟩ := h.home hv
    exact ⟨s, hs.mono (getElem?_concat_eq_some.2 (.inl hs.scope)) rfl (List.Subset.refl _)⟩

/-- **One more variable**, in a scope that can hold it. -/
theorem addVariable (h : Formed t) {id : Int} (hid : id = t.bindings.length + 1)
    {kind : BindingKind} {name : String} {location : Location} {scope : Nat} {s : Scope}
    (hs : t.frames[scope]? = some s) (hfirst : s.startLine ≤ location.startLine)
    (hlast : location.startLine ≤ s.endLine) (htakes : kind = .var → s.kind.takesVar = true) :
    Formed (t.addVariable id kind name location scope) := by
  rw [frames, List.getElem?_map, Option.map_eq_some_iff] at hs
  obtain ⟨s, hs, rfl⟩ := hs
  refine ⟨?_, fun hv => ?_, ?_, fun {i v} hv => ?_⟩
  · rw [frames_addVariable]
    exact h.nested
  · rcases getElem?_concat_eq_some.1 hv with hv | ⟨rfl, rfl⟩
    · exact h.id_eq hv
    · exact hid
  · have hlt : scope < t.scopes.length := (List.getElem?_eq_some_iff.1 hs).1
    show List.Perm _ (List.range (t.bindings ++ [_]).length)
    rw [List.length_append, List.length_singleton, List.range_succ]
    exact (flatMap_modify_perm t.scopes hlt _).trans (h.once.append_right _)
  · rcases getElem?_concat_eq_some.1 hv with hv | ⟨rfl, rfl⟩
    · obtain ⟨r, hr⟩ := h.home hv
      obtain ⟨r', hr', hbare, hsub, -⟩ := exists_scope_addVariable hr.scope
      exact ⟨r', hr.mono hr' hbare hsub⟩
    · obtain ⟨s', hs', hbare, -, hlisted⟩ := exists_scope_addVariable hs
      refine ⟨s', hs', hlisted rfl, ?_, ?_, ?_⟩
      · exact (congrArg Scope.startLine hbare).trans_le hfirst
      · exact hlast.trans_eq (congrArg Scope.endLine hbare).symm
      · exact fun hvar => (congrArg (·.kind.takesVar) hbare).trans (htakes hvar)

/-- The scope that lists a variable is the scope of the variable. -/
theorem scope_eq_of_listed (h : Formed t) {i j : Nat} {s : Scope} {v : Variable}
    (hs : t.scopes[j]? = some s) (hi : i ∈ s.bindings)
    (hv : t.bindings[i]? = some v) : v.scope = j := by
  have hnodup : (t.scopes.flatMap (·.bindings)).Nodup := h.once.nodup_iff.2 List.nodup_range
  have hdisjoint := (List.nodup_flatMap.1 hnodup).2
  obtain ⟨r, hr⟩ := h.home hv
  obtain ⟨hj, rfl⟩ := List.getElem?_eq_some_iff.1 hs
  obtain ⟨hscope, rfl⟩ := List.getElem?_eq_some_iff.1 hr.scope
  have hapart := List.pairwise_iff_getElem.1 hdisjoint
  rcases Nat.lt_trichotomy v.scope j with hlt | heq | hlt
  · exact absurd hi (hapart _ _ hscope hj hlt hr.listed)
  · exact heq
  · exact absurd hr.listed (hapart _ _ hj hscope hlt hi)

end Formed

/-! ### Drafts -/

namespace Draft

/-- A sound draft: its tree is well formed so far, and the next id follows
on those of its variables. -/
structure Sound (d : Draft) : Prop where
  formed : Formed d.tree
  nextId_eq : d.nextId = d.tree.bindings.length + 1

variable {d : Draft} {path : Path} {first last : Nat}

theorem frames_declare (kind : BindingKind) (name : String) (location : Location) (scope : Nat) :
    (d.declare kind name location scope).tree.frames = d.tree.frames := by
  rw [declare]
  split
  · rfl
  · exact frames_addVariable

namespace Sound

theorem empty : Sound Draft.empty :=
  ⟨⟨fun _ _ hs => by simp [frames, Draft.empty] at hs, fun {_ _} hv => by simp [Draft.empty] at hv,
    List.Perm.nil, fun {_ _} hv => by simp [Draft.empty] at hv⟩, rfl⟩

/-- **One more scope**, at an open place. -/
theorem openScope (h : Sound d) {kind : ScopeKind} {parent : Option Nat}
    (hplaced : Scope.PlacedAt d.tree.frames d.tree.scopes.length
      ⟨d.tree.scopes.length, kind, parent, first, last, []⟩) :
    Sound (d.openScope kind parent first last) :=
  ⟨h.formed.addScope hplaced, h.nextId_eq⟩

/-- **One more variable**, in a scope that can hold it.  Without a name there is none. -/
theorem declare (h : Sound d) {kind : BindingKind} {location : Location} {scope : Nat} {s : Scope}
    (hs : d.tree.frames[scope]? = some s) (hfirst : s.startLine ≤ location.startLine)
    (hlast : location.startLine ≤ s.endLine) (htakes : kind = .var → s.kind.takesVar = true)
    (name : String) : Sound (d.declare kind name location scope) := by
  rw [Draft.declare]
  split
  · exact h
  · refine ⟨h.formed.addVariable h.nextId_eq hs hfirst hlast htakes, ?_⟩
    show d.nextId + 1 = ((d.tree.bindings ++ [_]).length : Nat) + 1
    rw [h.nextId_eq, List.length_append, List.length_singleton]
    rfl

/-- The parts of an outline keep a draft sound when each of them does. -/
theorem addAll_of_forall {parts : List Outline}
    (hparts : ∀ o ∈ parts, ∀ {d : Draft}, Sound d → Open d.tree.frames path first last →
      Sound (add path d o) ∧ d.tree.frames <+: (add path d o).tree.frames)
    (h : Sound d) (hopen : Open d.tree.frames path first last) :
    Sound (addAll path d parts) ∧ d.tree.frames <+: (addAll path d parts).tree.frames := by
  induction parts generalizing d with
  | nil => exact ⟨h, List.prefix_rfl⟩
  | cons o os ih =>
    obtain ⟨hsound, hprefix⟩ := hparts o List.mem_cons_self h hopen
    obtain ⟨hsound', hprefix'⟩ := ih (fun o' ho => hparts o' (List.mem_cons_of_mem _ ho)) hsound
      (hopen.mono hprefix)
    rw [addAll]
    exact ⟨hsound', hprefix.trans hprefix'⟩

/-- **An outline that fits keeps a draft sound**, and the scopes that were there stay. -/
theorem add {o : Outline} (hfits : o.Fits first last) (h : Sound d)
    (hopen : Open d.tree.frames path first last) :
    Sound (add path d o) ∧ d.tree.frames <+: (add path d o).tree.frames := by
  induction hfits generalizing d path with
  | binding first_le le_last =>
    obtain ⟨s, hs, hsf, hsl, htakes⟩ := hopen.exists_target _
    rw [Draft.add, frames_declare]
    exact ⟨h.declare hs (hsf.trans first_le) (le_last.trans hsl) htakes _, List.prefix_rfl⟩
  | @region first last f l kind parts first_le ordered le_last _ ih =>
    have hlength : d.tree.frames.length = d.tree.scopes.length := List.length_map _
    have hparent := hopen.scope (path.head hopen.ne_nil) (List.head_mem _)
    obtain ⟨q, hq, -, hqf, hql⟩ := hparent
    have hplaced : Scope.PlacedAt d.tree.frames d.tree.scopes.length
        ⟨d.tree.scopes.length, kind, path.head?.map Prod.fst, f, l, []⟩ := by
      refine ⟨rfl, ordered, .inr ⟨(path.head hopen.ne_nil).1, q, ?_, ?_, hq, hqf.trans first_le,
        le_last.trans hql⟩⟩
      · rw [List.head?_eq_some_head hopen.ne_nil]
        rfl
      · rw [← hlength]
        exact (List.getElem?_eq_some_iff.1 hq).1
    have hentered := hopen.enter
      (s := ⟨d.tree.scopes.length, kind, path.head?.map Prod.fst, f, l, []⟩) first_le le_last
    rw [hlength, ← frames_addScope] at hentered
    obtain ⟨hsound, hprefix⟩ := addAll_of_forall (fun o ho => ih o ho) (h.openScope hplaced)
      hentered
    rw [Draft.add]
    refine ⟨hsound, List.IsPrefix.trans ?_ hprefix⟩
    show _ <+: (d.tree.addScope _ _ _ _).frames
    rw [frames_addScope]
    exact List.prefix_append _ _

end Sound

/-! ### The tree of a script -/

/-- The draft before anything of a script is in it: the global scope and the module. -/
def ground (lastLine : Nat) : Draft :=
  (Draft.empty.openScope .global none 1 lastLine).openScope .module (some 0) 1 lastLine

theorem Sound.ground {lastLine : Nat} (h : 1 ≤ lastLine) : Sound (ground lastLine) := by
  have hglobal : Sound (Draft.empty.openScope .global none 1 lastLine) :=
    Sound.empty.openScope ⟨rfl, h, .inl ⟨rfl, rfl⟩⟩
  exact hglobal.openScope ⟨rfl, h, .inr ⟨0, _, rfl, Nat.zero_lt_one, rfl, le_refl _, le_refl _⟩⟩

theorem open_ground (lastLine : Nat) :
    Open (ground lastLine).tree.frames [(1, .module), (0, .global)] 1 lastLine := by
  refine ⟨fun e he => ?_, List.cons_ne_nil _ _, (1, .module), List.mem_cons_self, rfl⟩
  rcases List.mem_cons.1 he with rfl | he
  · exact ⟨_, rfl, rfl, le_refl _, le_refl _⟩
  · obtain rfl := List.mem_singleton.1 he
    exact ⟨_, rfl, rfl, le_refl _, le_refl _⟩

end Draft

theorem ofOutline_eq (lastLine : Nat) (parts : List Outline) : ofOutline lastLine parts =
    (Draft.addAll [(1, .module), (0, .global)] (Draft.ground lastLine) parts).tree := rfl

theorem formed_ofOutline {lastLine : Nat} (h : 1 ≤ lastLine) {parts : List Outline}
    (hparts : ∀ o ∈ parts, o.Fits 1 lastLine) :
    Formed (ofOutline lastLine parts) ∧
      (Draft.ground lastLine).tree.frames <+: (ofOutline lastLine parts).frames := by
  rw [ofOutline_eq]
  obtain ⟨hsound, hprefix⟩ := Draft.Sound.addAll_of_forall
    (fun o ho => Draft.Sound.add (hparts o ho)) (Draft.Sound.ground h) (Draft.open_ground lastLine)
  exact ⟨hsound.formed, hprefix⟩

/-- What can be relied on in a finished tree. -/
structure Valid (t : ScopeTree) : Prop where
  /-- Scopes are numbered by their places. -/
  id_eq : ∀ (i : Nat) (s : Scope), t.scopes[i]? = some s → s.id = i
  /-- The first scope has no scope around it. -/
  first : ∃ s, t.scopes[0]? = some s ∧ s.parent = none
  /-- Around every other scope there is an earlier one that holds its lines. -/
  parent : ∀ (i : Nat) (s : Scope), t.scopes[i]? = some s → 0 < i →
    ∃ p q, s.parent = some p ∧ p < i ∧
      t.scopes[p]? = some q ∧ q.startLine ≤ s.startLine ∧ s.endLine ≤ q.endLine
  startLine_le : ∀ s ∈ t.scopes, s.startLine ≤ s.endLine
  /-- Variables are numbered from one. -/
  variable_ids :
    t.bindings.map (·.id) = (List.range t.bindings.length).map fun i : Nat => (i : Int) + 1
  /-- The scopes together list every variable once and nothing else. -/
  once : (t.scopes.flatMap (·.bindings)).Perm (List.range t.bindings.length)
  /-- The scope that lists a variable is the one that the variable names, and holds its line. -/
  home : ∀ (i : Nat) (v : Variable), t.bindings[i]? = some v → ∃ s, t.scopes[v.scope]? = some s ∧
    (∀ (j : Nat) (r : Scope), t.scopes[j]? = some r → (i ∈ r.bindings ↔ j = v.scope)) ∧
    s.startLine ≤ v.location.startLine ∧ v.location.startLine ≤ s.endLine ∧
    (v.kind = .var → s.kind = .function ∨ s.kind = .module ∨ s.kind = .global)

theorem Formed.valid {t : ScopeTree} (h : Formed t) (hne : t.scopes ≠ []) : Valid t := by
  have hplaced : ∀ (i : Nat) (s : Scope), t.scopes[i]? = some s → s.bare.PlacedAt t.frames i := by
    intro i s hs
    refine h.nested i s.bare ?_
    rw [frames, List.getElem?_map, hs]
    rfl
  refine ⟨fun i s hs => (hplaced i s hs).id_eq, ?_, fun i s hs hi => ?_, fun s hs => ?_, ?_, h.once,
    fun i v hv => ?_⟩
  · obtain ⟨s, ss, hss⟩ := List.exists_cons_of_ne_nil hne
    have hs : t.scopes[0]? = some s := by rw [hss]; rfl
    rcases (hplaced 0 s hs).parent with ⟨-, hparent⟩ | ⟨p, -, -, hlt, -⟩
    · exact ⟨s, hs, hparent⟩
    · exact absurd hlt (Nat.not_lt_zero p)
  · rcases (hplaced i s hs).parent with ⟨rfl, -⟩ | ⟨p, q, hp, hlt, hq, hlines⟩
    · exact absurd hi (Nat.lt_irrefl 0)
    · rw [frames, List.getElem?_map, Option.map_eq_some_iff] at hq
      obtain ⟨q, hq, rfl⟩ := hq
      exact ⟨p, q, hp, hlt, hq, hlines⟩
  · obtain ⟨i, hi⟩ := List.getElem?_of_mem hs
    exact (hplaced i s hi).startLine_le
  · refine List.ext_getElem? fun i => ?_
    rw [List.getElem?_map, List.getElem?_map]
    cases hv : t.bindings[i]? with
    | none =>
      rw [List.getElem?_eq_none (by simpa using hv)]
      rfl
    | some v =>
      rw [List.getElem?_range (List.getElem?_eq_some_iff.1 hv).1, Option.map_some, h.id_eq hv]
      rfl
  · obtain ⟨s, hs⟩ := h.home hv
    refine ⟨s, hs.scope, fun j r hr => ⟨fun hi => (h.scope_eq_of_listed hr hi hv).symm, ?_⟩,
      hs.startLine_le, hs.le_endLine, fun hvar => ?_⟩
    · rintro rfl
      cases hs.scope.symm.trans hr
      exact hs.listed
    · have htakes := hs.takesVar hvar
      cases hkind : s.kind with
      | function => exact .inl rfl
      | module => exact .inr (.inl rfl)
      | global => exact .inr (.inr rfl)
      | classBody | block | loop | handler =>
        rw [hkind] at htakes
        cases htakes

/-- The scopes of nodes that stand in order are well formed. -/
theorem formed_build (source : String) {root : Node} (h : InOrder root) :
    Formed (build source root) ∧ (build source root).scopes ≠ [] := by
  have hone : 1 ≤ max (Text.lineCount source) (root.stop.row + 1) :=
    (Nat.le_add_left 1 _).trans (le_max_right _ _)
  obtain ⟨hformed, hprefix⟩ := formed_ofOutline hone (Outline.fits_ofNodes h (le_max_right _ _))
  refine ⟨hformed, fun hnil => ?_⟩
  have hframes : (build source root).frames = [] := by rw [frames, hnil, List.map_nil]
  cases List.eq_nil_of_prefix_nil (hframes ▸ hprefix)

/-- **The scope tree of nodes that stand in order is valid.** -/
theorem valid_build (source : String) {root : Node} (h : InOrder root) :
    Valid (build source root) :=
  (formed_build source h).1.valid (formed_build source h).2

end ScopeTree

theorem ParsedScript.scopes_eq_build {source : String} {p : ParsedScript}
    (h : ParsedScript.parse? source = some p) : p.scopes = ScopeTree.build source p.root := by
  obtain ⟨s, -, rfl⟩ := Option.map_eq_some_iff.1 h
  rfl

/-- **The scope tree of every script is valid.** -/
theorem ParsedScript.scopes_valid {source : String} {p : ParsedScript}
    (h : ParsedScript.parse? source = some p) : p.scopes.Valid := by
  rw [ParsedScript.scopes_eq_build h]
  exact ScopeTree.valid_build source (ParsedScript.inOrder_of_parse? h)

/-- A `var` in the body of a loop. -/
def loopScript : String := "for (const x of xs) \x7b\n  var y = x; \x7d"

/-- The name of the loop belongs to the loop, and the `var` in its body does not belong to
the body but to the module. -/
theorem ParsedScript.scopes_valid_loop :
    ∃ p, ParsedScript.parse? loopScript = some p ∧
      p.scopes.scopes.map (fun s => (s.kind, s.parent)) =
        [(.global, none), (.module, some 0), (.loop, some 1), (.block, some 2)] ∧
      p.scopes.bindings.map (fun v => (v.name, v.scope)) = [("x", 2), ("y", 1)] ∧
      p.scopes.Valid := by
  have heval : (ParsedScript.parse? loopScript).map (fun p =>
      (p.scopes.scopes.map (fun s => (s.kind, s.parent)),
        p.scopes.bindings.map (fun v => (v.name, v.scope)))) =
      some ([(.global, none), (.module, some 0), (.loop, some 1), (.block, some 2)],
        [("x", 2), ("y", 1)]) := by
    decide +kernel
  obtain ⟨p, hp, he⟩ := Option.map_eq_some_iff.1 heval
  obtain ⟨hscopes, hbindings⟩ := Prod.mk.inj he
  exact ⟨p, hp, hscopes, hbindings, ParsedScript.scopes_valid hp⟩

end FlowAnalysis
