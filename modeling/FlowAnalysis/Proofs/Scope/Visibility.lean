import FlowAnalysis.Proofs.Scope.Nesting
import Mathlib.Data.List.Sort

/-!
# What can be seen at a line

In a valid scope tree the scopes around a scope hold all its lines, so walking outward from the
scopes at a line never leaves that line (`hasLine_of_mem_outward`): the scopes met are exactly those
that hold it (`mem_flatMap_ancestors`).

The search for the visible variables comes to the places of the variables of these scopes, often
more than once.  It keeps the variables that it has met flagged and takes up each only once
(`Sighted`): this holds of one step (`Sighted.meet`) and so of the whole search (`Sighted.foldl`).
The result is therefore the selection of all variables that is in view
(`Valid.visibleAt_eq_inView`).  What a name can stand for is looked up in the same scopes, so the
two agree (`ParsedScript.visibleAt_exact`).
-/

namespace FlowAnalysis

namespace ScopeTree

variable {t : ScopeTree} {line : Nat}

/-! ### The scopes at a line -/

/-- A line lies in the scope with a number. -/
def HasLine (t : ScopeTree) (line id : Nat) : Prop :=
  ∃ s, t.scopes[id]? = some s ∧ s.startLine ≤ line ∧ line ≤ s.endLine

theorem mem_containing {s : Scope} :
    s ∈ t.containing line ↔ s ∈ t.scopes ∧ s.startLine ≤ line ∧ line ≤ s.endLine := by
  simp [containing, Scope.containsLine]

theorem Valid.getElem?_id (h : Valid t) {s : Scope} (hs : s ∈ t.containing line) :
    t.scopes[s.id]? = some s := by
  obtain ⟨i, hi⟩ := List.getElem?_of_mem (mem_containing.1 hs).1
  rw [h.id_eq i s hi]
  exact hi

/-- The scope around a scope is an earlier one and holds its lines. -/
theorem Valid.exists_parent (h : Valid t) {id p : Nat} {s : Scope} (hs : t.scopes[id]? = some s)
    (hp : s.parent = some p) :
    ∃ q, p < id ∧ t.scopes[p]? = some q ∧ q.startLine ≤ s.startLine ∧ s.endLine ≤ q.endLine := by
  have hpos : 0 < id := by
    refine Nat.pos_of_ne_zero fun hzero => ?_
    obtain ⟨r, hr, hnone⟩ := h.first
    rw [hzero, hr] at hs
    cases hs
    cases hnone.symm.trans hp
  obtain ⟨p', q, hp', hlt, hq, hlines⟩ := h.parent id s hs hpos
  cases hp.symm.trans hp'
  exact ⟨q, hlt, hq, hlines⟩

/-- The scope around a scope holds its lines. -/
theorem Valid.hasLine_parent (h : Valid t) {id p : Nat} {s : Scope} (hs : t.scopes[id]? = some s)
    (hp : s.parent = some p) (hline : HasLine t line id) : HasLine t line p := by
  obtain ⟨q, -, hq, hstart, hend⟩ := h.exists_parent hs hp
  obtain ⟨r, hr, hfirst, hlast⟩ := hline
  cases hs.symm.trans hr
  exact ⟨q, hq, hstart.trans hfirst, hlast.trans hend⟩

/-- The walk outward stays in the scopes that hold a line. -/
theorem Valid.hasLine_of_mem_outward (h : Valid t) {fuel id a : Nat} (hline : HasLine t line id)
    (ha : a ∈ t.outward fuel id) : HasLine t line a := by
  induction fuel generalizing id with
  | zero =>
    obtain rfl := List.mem_singleton.1 ha
    exact hline
  | succ fuel ih =>
    rw [outward] at ha
    split at ha
    · next p hp =>
      obtain ⟨s, hs, hparent⟩ := Option.bind_eq_some_iff.1 hp
      rcases List.mem_cons.1 ha with rfl | ha
      · exact hline
      · exact ih (h.hasLine_parent hs hparent hline) ha
    · obtain rfl := List.mem_singleton.1 ha
      exact hline

theorem self_mem_ancestors (t : ScopeTree) (id : Nat) : id ∈ t.ancestors id := by
  rw [ancestors]
  cases t.scopes.length with
  | zero => exact List.mem_singleton_self id
  | succ fuel =>
    rw [outward]
    split
    · exact List.mem_cons_self
    · exact List.mem_singleton_self id

/-- **The scopes met from the scopes at a line are those that hold the line.** -/
theorem Valid.mem_flatMap_ancestors (h : Valid t) {ss : List Scope}
    (hss : ∀ s, s ∈ ss ↔ s ∈ t.containing line) {a : Nat} :
    (a ∈ ss.flatMap fun s => t.ancestors s.id) ↔ HasLine t line a := by
  rw [List.mem_flatMap]
  constructor
  · rintro ⟨s, hs, ha⟩
    have hs : s ∈ t.containing line := (hss s).1 hs
    exact h.hasLine_of_mem_outward ⟨s, h.getElem?_id hs, (mem_containing.1 hs).2⟩ ha
  · rintro ⟨s, hs, hline⟩
    refine ⟨s, (hss s).2 (mem_containing.2 ⟨List.mem_of_getElem? hs, hline⟩), ?_⟩
    rw [h.id_eq a s hs]
    exact self_mem_ancestors t a

/-! ### The search for visible variables -/

/-- The variable at a place, if it can be seen from a line. -/
def sight? (t : ScopeTree) (line i : Nat) : Option Variable :=
  (t.bindings[i]?).filter (isDeclaredBy line)

/-- The places that the search comes to, in order. -/
def route (t : ScopeTree) (line : Nat) : List Nat :=
  ((t.containing line).flatMap fun s => t.ancestors s.id).flatMap t.placesIn

theorem visibleAt_eq_foldl (t : ScopeTree) (line : Nat) : t.visibleAt line =
    ((t.route line).foldl (t.meet line)
      ⟨List.replicate t.bindings.length false, []⟩).visible.mergeSort fun v w => v.id ≤ w.id := by
  rw [visibleAt, route, List.flatMap_assoc, List.foldl_flatMap]
  simp only [List.foldl_flatMap]

/-- What holds once the search has come to some places: the variables there are met, and those of
them that can be seen were taken up once. -/
structure Sighted (t : ScopeTree) (line : Nat) (places : List Nat) (s : Sighting) : Prop where
  length_met : s.met.length = t.bindings.length
  met_iff : ∀ i < t.bindings.length, s.met.getD i true = true ↔ i ∈ places
  visible_eq : ∃ order : List Nat, order.Nodup ∧
    (∀ i, i ∈ order ↔ i < t.bindings.length ∧ i ∈ places) ∧
    s.visible = order.filterMap (t.sight? line)

namespace Sighted

theorem start (t : ScopeTree) (line : Nat) :
    Sighted t line [] ⟨List.replicate t.bindings.length false, []⟩ := by
  refine ⟨List.length_replicate, fun i hi => ?_, [], List.nodup_nil, fun i => ?_, rfl⟩
  · rw [List.getD_eq_getElem?_getD, List.getElem?_replicate_of_lt hi]
    simp
  · simp

/-- **One more place**: a variable that was met before is passed over, and
one that is new is flagged. -/
theorem meet {places : List Nat} {s : Sighting} (h : Sighted t line places s) (i : Nat) :
    Sighted t line (places ++ [i]) (t.meet line s i) := by
  obtain ⟨order, hnodup, hmem, hvisible⟩ := h.visible_eq
  rw [ScopeTree.meet]
  split
  · next hmet =>
    have hsame : ∀ j < t.bindings.length, j ∈ places ++ [i] ↔ j ∈ places := by
      intro j hj
      rw [List.mem_append, List.mem_singleton, or_iff_left_iff_imp]
      rintro rfl
      exact (h.met_iff j hj).1 hmet
    refine ⟨h.length_met, fun j hj => (h.met_iff j hj).trans (hsame j hj).symm, order, hnodup, ?_,
      hvisible⟩
    exact fun j => (hmem j).trans (and_congr_right fun hj => (hsame j hj).symm)
  · next hmet =>
    have hi : i < t.bindings.length := by
      by_contra hge
      have hnone : s.met[i]? = none :=
        List.getElem?_eq_none (h.length_met.trans_le (Nat.le_of_not_lt hge))
      exact hmet (by rw [List.getD_eq_getElem?_getD, hnone, Option.getD_none])
    have hnew : i ∉ places := fun hin => hmet ((h.met_iff i hi).2 hin)
    refine ⟨by rw [List.length_set, h.length_met], fun j hj => ?_, order ++ [i], ?_,
      fun j => ?_, ?_⟩
    · rw [List.mem_append, List.mem_singleton, List.getD_eq_getElem?_getD, List.getElem?_set]
      split
      · next heq => simp [← heq, h.length_met, hi]
      · next hne => simp [← h.met_iff j hj, List.getD_eq_getElem?_getD, Ne.symm hne]
    · refine List.nodup_append.2 ⟨hnodup, List.pairwise_singleton _ i, ?_⟩
      rintro j hj k hk rfl
      exact hnew (List.mem_singleton.1 hk ▸ ((hmem j).1 hj).2)
    · rw [List.mem_append, List.mem_append, hmem, List.mem_singleton, and_or_left]
      refine or_congr_right (iff_and_self.2 ?_)
      rintro rfl
      exact hi
    · have hlast : [i].filterMap (t.sight? line) = (t.sight? line i).toList := by
        cases hi : t.sight? line i <;> simp [hi]
      rw [hvisible, List.filterMap_append, hlast]
      rfl

/-- **All places of a list**, one after the other. -/
theorem foldl {before places : List Nat} {s : Sighting} (h : Sighted t line before s) :
    Sighted t line (before ++ places) (places.foldl (t.meet line) s) := by
  induction places generalizing before s with
  | nil => rwa [List.append_nil]
  | cons i places ih =>
    have hrest := ih (h.meet i)
    rwa [List.append_assoc, List.singleton_append] at hrest

end Sighted

/-- The search takes up the variables at the places it comes to, each once, and lists them by id. -/
theorem exists_visibleAt_perm (t : ScopeTree) (line : Nat) : ∃ order : List Nat, order.Nodup ∧
    (∀ i, i ∈ order ↔ i < t.bindings.length ∧ i ∈ t.route line) ∧
    (t.visibleAt line).Perm (order.filterMap (t.sight? line)) := by
  obtain ⟨order, hnodup, hmem, hvisible⟩ := (Sighted.start t line).foldl.visible_eq
  refine ⟨order, hnodup, hmem, ?_⟩
  rw [visibleAt_eq_foldl, ← hvisible]
  exact List.mergeSort_perm _ _

/-! ### Visible variables -/

theorem mem_placesIn {id i : Nat} :
    i ∈ t.placesIn id ↔ ∃ s, t.scopes[id]? = some s ∧ i ∈ s.bindings := by
  rw [placesIn]
  cases t.scopes[id]? with
  | none => simp
  | some s => simp

/-- The search comes to a variable when its scope holds the line. -/
theorem Valid.mem_route (h : Valid t) {i : Nat} {v : Variable} (hv : t.bindings[i]? = some v) :
    i ∈ t.route line ↔ HasLine t line v.scope := by
  obtain ⟨s, hs, hlisted, -⟩ := h.home i v hv
  rw [route, List.mem_flatMap]
  constructor
  · rintro ⟨a, ha, hi⟩
    obtain ⟨r, hr, hi⟩ := mem_placesIn.1 hi
    rw [← (hlisted a r hr).1 hi]
    exact (h.mem_flatMap_ancestors fun _ => Iff.rfl).1 ha
  · intro hline
    refine ⟨v.scope, (h.mem_flatMap_ancestors fun _ => Iff.rfl).2 hline, ?_⟩
    exact mem_placesIn.2 ⟨s, hs, (hlisted v.scope s hs).2 rfl⟩

theorem Valid.mem_visibleAt (h : Valid t) {v : Variable} :
    v ∈ t.visibleAt line ↔ v ∈ t.bindings ∧ isBuiltin v.name = false ∧ v.location.startLine ≤ line ∧
      HasLine t line v.scope := by
  obtain ⟨order, -, hmem, hperm⟩ := t.exists_visibleAt_perm line
  have hdeclared : isDeclaredBy line v = true ↔ v.location.startLine ≤ line ∧
      isBuiltin v.name = false := by
    simp [isDeclaredBy]
  rw [hperm.mem_iff, List.mem_filterMap]
  constructor
  · rintro ⟨i, hi, hv⟩
    obtain ⟨hv, hseen⟩ := Option.filter_eq_some_iff.1 hv
    obtain ⟨hline, hname⟩ := hdeclared.1 hseen
    exact ⟨List.mem_of_getElem? hv, hname, hline, (h.mem_route hv).1 ((hmem i).1 hi).2⟩
  · rintro ⟨hv, hname, hle, hline⟩
    obtain ⟨i, hi⟩ := List.getElem?_of_mem hv
    refine ⟨i, (hmem i).2 ⟨(List.getElem?_eq_some_iff.1 hi).1, (h.mem_route hi).2 hline⟩, ?_⟩
    exact Option.filter_eq_some_iff.2 ⟨hi, hdeclared.2 ⟨hle, hname⟩⟩

theorem Valid.variable_id_eq (h : Valid t) {i : Nat} {v : Variable} (hv : t.bindings[i]? = some v) :
    v.id = i + 1 := by
  obtain ⟨hi, rfl⟩ := List.getElem?_eq_some_iff.1 hv
  simpa [hi] using congrArg (·[i]?) h.variable_ids

theorem Valid.pairwise_id_lt (h : Valid t) : t.bindings.Pairwise fun v w => v.id < w.id := by
  rw [← List.pairwise_map (R := fun i j : Int => i < j), h.variable_ids, List.pairwise_map]
  exact List.pairwise_lt_range.imp fun hlt => by omega

/-- No two variables that are listed have one id, since no place is taken up twice. -/
theorem Valid.pairwise_visibleAt (h : Valid t) (line : Nat) :
    (t.visibleAt line).Pairwise fun v w => v.id < w.id := by
  obtain ⟨order, hnodup, -, hperm⟩ := t.exists_visibleAt_perm line
  have hne : (order.filterMap (t.sight? line)).Pairwise fun v w => v.id ≠ w.id := by
    refine List.pairwise_filterMap.2 (hnodup.imp fun {i j} hij v hv w hw heq => hij ?_)
    rw [h.variable_id_eq (Option.filter_eq_some_iff.1 hv).1,
      h.variable_id_eq (Option.filter_eq_some_iff.1 hw).1] at heq
    omega
  have hsorted : (t.visibleAt line).Pairwise fun v w => decide (v.id ≤ w.id) = true := by
    rw [visibleAt_eq_foldl]
    refine List.pairwise_mergeSort (fun u v w huv hvw => ?_) (fun v w => ?_) _
    · simp only [decide_eq_true_eq] at *
      omega
    · simp only [Bool.or_eq_true, decide_eq_true_eq]
      omega
  have hdistinct := (hperm.pairwise_iff fun hvw => Ne.symm hvw).2 hne
  exact (hsorted.and hdistinct).imp fun hvw => lt_of_le_of_ne (of_decide_eq_true hvw.1) hvw.2

/-- The variables that can be seen, as a selection of all variables. -/
def inView (t : ScopeTree) (line : Nat) : List Variable :=
  t.bindings.filter fun v =>
    ((t.containing line).flatMap fun s => t.ancestors s.id).contains v.scope && isDeclaredBy line v

/-- **The search finds the variables in view**, in the order in which they are declared. -/
theorem Valid.visibleAt_eq_inView (h : Valid t) (line : Nat) :
    t.visibleAt line = t.inView line := by
  have hmem : ∀ v, v ∈ t.visibleAt line ↔ v ∈ t.inView line := by
    intro v
    have hopen : (v.scope ∈ (t.containing line).flatMap fun s => t.ancestors s.id) ↔
        HasLine t line v.scope := h.mem_flatMap_ancestors fun _ => Iff.rfl
    rw [h.mem_visibleAt, inView, List.mem_filter, Bool.and_eq_true, List.contains_iff_mem, hopen,
      isDeclaredBy, Bool.and_eq_true, decide_eq_true_iff, Bool.not_eq_true']
    tauto
  have hnodup : ∀ {vs : List Variable}, vs.Pairwise (fun v w => v.id < w.id) → vs.Nodup :=
    fun hvs => hvs.imp fun hlt heq => (heq ▸ hlt).false
  have hvisible := h.pairwise_visibleAt line
  have hinView : (t.inView line).Pairwise fun v w => v.id < w.id := h.pairwise_id_lt.filter _
  refine List.Perm.eq_of_pairwise (fun v w _ _ hvw hwv => absurd hwv hvw.asymm) hvisible hinView ?_
  exact (List.perm_ext_iff_of_nodup (hnodup hvisible) (hnodup hinView)).2 hmem

/-! ### The variable that a name stands for -/

/-- The variables of a scope are those that name it. -/
theorem Valid.mem_variablesOf (h : Valid t) {j : Nat} {s : Scope} (hs : t.scopes[j]? = some s)
    {v : Variable} : v ∈ t.variablesOf s ↔ v ∈ t.bindings ∧ v.scope = j := by
  rw [variablesOf, List.mem_filterMap]
  constructor
  · rintro ⟨i, hi, hv⟩
    obtain ⟨-, -, hlisted, -⟩ := h.home i v hv
    exact ⟨List.mem_of_getElem? hv, ((hlisted j s hs).1 hi).symm⟩
  · rintro ⟨hv, rfl⟩
    obtain ⟨i, hi⟩ := List.getElem?_of_mem hv
    obtain ⟨-, -, hlisted, -⟩ := h.home i v hi
    exact ⟨i, (hlisted _ s hs).2 rfl, hi⟩

section

variable {name : String} {vs : List Variable}

/-- The latest of some variables is one of them, bound under the name and not after the line. -/
theorem mem_of_latest? {v : Variable} (h : latest? name line vs = some v) :
    v ∈ vs ∧ v.name = name ∧ v.location.startLine ≤ line := by
  have hbest : ∀ b ∈ latest? name line vs, b ∈ vs ∧ b.name = name ∧
      b.location.startLine ≤ line := by
    rw [latest?]
    refine List.foldlRecOn (motive := fun best => ∀ b ∈ best, b ∈ vs ∧ b.name = name ∧
      b.location.startLine ≤ line) _ _ (by simp) ?_
    intro best hb w hw u hu
    have hw : w ∈ vs ∧ w.name = name ∧ w.location.startLine ≤ line := by simpa using hw
    cases best with
    | none =>
      obtain rfl := Option.some.inj hu
      exact hw
    | some b =>
      dsimp only at hu
      split at hu
      · obtain rfl := Option.some.inj hu
        exact hw
      · exact hb u hu
  exact hbest v h

/-- A fold has a result when every step has one and there is a step. -/
theorem foldl_isSome {α β : Type} {f : Option β → α → Option β} (hf : ∀ b a, (f b a).isSome = true)
    {l : List α} (hl : l ≠ []) (b : Option β) : (l.foldl f b).isSome = true := by
  rw [← List.dropLast_append_getLast hl, List.foldl_append]
  exact hf _ _

/-- There is a latest variable as soon as there is one under the name and not after the line. -/
theorem latest?_isSome {v : Variable} (hv : v ∈ vs) (hname : v.name = name)
    (hline : v.location.startLine ≤ line) : (latest? name line vs).isSome = true := by
  have hmem : v ∈ vs.filter fun v => v.name == name && v.location.startLine ≤ line :=
    List.mem_filter.2 ⟨hv, by simp [hname, hline]⟩
  rw [latest?]
  refine foldl_isSome (fun best w => ?_) (List.ne_nil_of_mem hmem) none
  cases best with
  | none => rfl
  | some b =>
    dsimp only
    split <;> rfl

end

/-- A scope binds a name for a line: one of its variables has the name and is declared no later. -/
def Binds (t : ScopeTree) (name : String) (line id : Nat) : Prop :=
  ∃ v ∈ t.bindings, v.scope = id ∧ v.name = name ∧ v.location.startLine ≤ line

/-- What is found in one scope. -/
def lookup? (t : ScopeTree) (name : String) (line id : Nat) : Option Int :=
  (t.scopes[id]?).bind fun s => (latest? name line (t.variablesOf s)).map (·.id)

theorem Valid.exists_of_lookup? (h : Valid t) {name : String} {a : Nat} {id : Int}
    (hid : t.lookup? name line a = some id) :
    ∃ v ∈ t.bindings, v.id = id ∧ v.scope = a ∧ v.name = name ∧ v.location.startLine ≤ line := by
  obtain ⟨s, hs, hid⟩ := Option.bind_eq_some_iff.1 hid
  obtain ⟨v, hv, rfl⟩ := Option.map_eq_some_iff.1 hid
  obtain ⟨hmem, hname, hle⟩ := mem_of_latest? hv
  obtain ⟨hbound, hscope⟩ := (h.mem_variablesOf hs).1 hmem
  exact ⟨v, hbound, rfl, hscope, hname, hle⟩

/-- Nothing is found in a scope exactly when it does not bind the name. -/
theorem Valid.lookup?_eq_none_iff (h : Valid t) {name : String} {a : Nat} :
    t.lookup? name line a = none ↔ ¬ t.Binds name line a := by
  constructor
  · rintro hnone ⟨v, hv, rfl, hname, hle⟩
    obtain ⟨i, hi⟩ := List.getElem?_of_mem hv
    obtain ⟨s, hs, -⟩ := h.home i v hi
    have hsome := latest?_isSome ((h.mem_variablesOf hs).2 ⟨hv, rfl⟩) hname hle
    rw [lookup?, hs, Option.bind_some, Option.map_eq_none_iff] at hnone
    rw [hnone] at hsome
    cases hsome
  · intro hnot
    cases hid : t.lookup? name line a with
    | none => rfl
    | some id =>
      obtain ⟨v, hv, -, hscope, hname, hle⟩ := h.exists_of_lookup? hid
      exact absurd ⟨v, hv, hscope, hname, hle⟩ hnot

/-- The scopes in which a name is looked up hold the line, and all of these are tried. -/
theorem Valid.mem_lookup (h : Valid t) {a : Nat} :
    (a ∈ (t.bySpecificity line).flatMap fun s => t.ancestors s.id) ↔ HasLine t line a :=
  h.mem_flatMap_ancestors fun _ => List.mem_mergeSort

/-- What a name stands for is a visible variable of that name. -/
theorem Valid.exists_of_resolve? (h : Valid t) {name : String} (hname : isBuiltin name = false)
    {id : Int} (hid : t.resolve? name line = some id) :
    ∃ v ∈ t.visibleAt line, v.name = name ∧ v.id = id := by
  obtain ⟨a, ha, hid⟩ := List.exists_of_findSome?_eq_some hid
  obtain ⟨v, hbound, hvid, rfl, rfl, hle⟩ := h.exists_of_lookup? hid
  exact ⟨v, h.mem_visibleAt.2 ⟨hbound, hname, hle, h.mem_lookup.1 ha⟩, rfl, hvid⟩

/-- The name of a visible variable stands for something. -/
theorem Valid.resolve?_isSome (h : Valid t) {v : Variable} (hv : v ∈ t.visibleAt line) :
    (t.resolve? v.name line).isSome = true := by
  obtain ⟨hbound, -, hle, hline⟩ := h.mem_visibleAt.1 hv
  rw [resolve?, List.findSome?_isSome_iff]
  refine ⟨v.scope, h.mem_lookup.2 hline, Option.isSome_iff_ne_none.2 fun hnone => ?_⟩
  exact h.lookup?_eq_none_iff.1 hnone ⟨v, hbound, rfl, rfl, hle⟩

end ScopeTree

open ScopeTree ParsedScript

/-- **What is visible at a line is exact, and names stand for what is visible.** -/
theorem ParsedScript.visibleAt_exact {source : String} {p : ParsedScript}
    (h : ParsedScript.parse? source = some p) (line : Nat) :
    (∀ v, v ∈ p.scopes.visibleAt line ↔
      v ∈ p.scopes.bindings ∧ isBuiltin v.name = false ∧ v.location.startLine ≤ line ∧
        ∃ s, p.scopes.scopes[v.scope]? = some s ∧ s.startLine ≤ line ∧ line ≤ s.endLine) ∧
      (p.scopes.visibleAt line).Pairwise (fun v w => v.id < w.id) ∧
      ∀ name, isBuiltin name = false →
        ((p.scopes.resolve? name line).isSome = true ↔ ∃ v ∈ p.scopes.visibleAt line,
          v.name = name) ∧
        ∀ id, p.scopes.resolve? name line = some id →
          ∃ v ∈ p.scopes.visibleAt line, v.name = name ∧ v.id = id := by
  have hvalid : p.scopes.Valid := scopes_eq_build h ▸ valid_build source (inOrder_of_parse? h)
  refine ⟨fun v => hvalid.mem_visibleAt, hvalid.pairwise_visibleAt line,
    fun name hname => ⟨⟨?_, ?_⟩, ?_⟩⟩
  · intro hsome
    obtain ⟨id, hid⟩ := Option.isSome_iff_exists.1 hsome
    obtain ⟨v, hv, hname, -⟩ := hvalid.exists_of_resolve? hname hid
    exact ⟨v, hv, hname⟩
  · rintro ⟨v, hv, rfl⟩
    exact hvalid.resolve?_isSome hv
  · exact fun id hid => hvalid.exists_of_resolve? hname hid

/-- The same name in a block and around it, all on one line. -/
def shadowScript : String := "const a = 1; \x7b const a = 2; let b; \x7d var c;"

/-- All variables are visible on the line, and the name stands for one of them. -/
theorem ParsedScript.visibleAt_exact_shadow :
    ∃ p, ParsedScript.parse? shadowScript = some p ∧
      (p.scopes.visibleAt 1).map (fun v => (v.id, v.name)) =
      [(1, "a"), (2, "a"), (3, "b"), (4, "c")] ∧
      ∃ v ∈ p.scopes.visibleAt 1, v.name = "a" ∧ p.scopes.resolve? "a" 1 = some v.id := by
  have heval : (ParsedScript.parse? shadowScript).map (fun p =>
      (p.scopes.inView 1).map fun v => (v.id, v.name)) =
      some [(1, "a"), (2, "a"), (3, "b"), (4, "c")] := by
    decide +kernel
  obtain ⟨p, hp, hvisible⟩ := Option.map_eq_some_iff.1 heval
  have hvalid : p.scopes.Valid :=
    scopes_eq_build hp ▸ valid_build shadowScript (inOrder_of_parse? hp)
  rw [← hvalid.visibleAt_eq_inView] at hvisible
  obtain ⟨hsome, heach⟩ := (ParsedScript.visibleAt_exact hp 1).2.2 "a" (by decide +kernel)
  have hmem : ((1 : Int), "a") ∈ (p.scopes.visibleAt 1).map fun v => (v.id, v.name) := by
    rw [hvisible]
    exact List.mem_cons_self
  obtain ⟨u, hu, hname⟩ := List.mem_map.1 hmem
  obtain ⟨id, hid⟩ := Option.isSome_iff_exists.1 (hsome.2 ⟨u, hu, (Prod.mk.inj hname).2⟩)
  obtain ⟨v, hv, hvname, rfl⟩ := heach id hid
  exact ⟨p, hp, hvisible, v, hv, hvname, hid⟩

end FlowAnalysis
