import FlowAnalysis.Proofs.Analysis.Result
import FlowAnalysis.Proofs.Bubble.Recording
import FlowAnalysis.Proofs.Scope.Visibility
import Mathlib.Data.List.Sort

/-!
# How bubbles are numbered

The bubbles without a variable are counted down from -1 in the order in which they are recorded,
while the variables of a script have positive numbers, so neither takes the place of the other
(`locate_anonymous`).  A node is visited before the nodes below it, so a bubble can be recorded
after one that it precedes in the text: exactly then the numbers do not follow the text
(`anonymous_ids_descend_iff`).
-/

namespace FlowAnalysis

open Script Node

/-! ### Variables have positive numbers -/

namespace ScopeTree

/-- Every variable has a positive number. -/
def Positive (t : ScopeTree) : Prop := ∀ v ∈ t.bindings, 0 < v.id

theorem Valid.positive {t : ScopeTree} (h : Valid t) : t.Positive := by
  intro v hv
  obtain ⟨i, hi⟩ := List.getElem?_of_mem hv
  rw [h.variable_id_eq hi]
  omega

theorem Positive.resolve? {t : ScopeTree} (ht : t.Positive) {name : String} {line : Nat} {id : Int}
    (h : t.resolve? name line = some id) : 0 < id := by
  obtain ⟨i, _, h⟩ := List.exists_of_findSome?_eq_some h
  obtain ⟨s, _, h⟩ := Option.bind_eq_some_iff.1 h
  obtain ⟨v, hv, rfl⟩ := Option.map_eq_some_iff.1 h
  obtain ⟨j, _, hj⟩ := List.mem_filterMap.1 (mem_of_latest? hv).1
  exact ht v (List.mem_of_getElem? hj)

end ScopeTree

namespace Bubble

/-- A variable to which a bubble is bound has a positive number. -/
theorem Found.variableId?_pos {scopes : ScopeTree} (hs : scopes.Positive) {name : Node} {id : Int}
    (h : Found.variableId? scopes name = some id) : 0 < id := by
  rcases Option.or_eq_some_iff.1 h with h | ⟨_, h⟩
  · obtain ⟨v, hv, rfl⟩ := Option.map_eq_some_iff.1 h
    exact hs v (List.mem_of_find?_eq_some hv)
  · exact hs.resolve? h

end Bubble

/-! ### Recording -/

namespace Bubble

section

variable {scopes : ScopeTree}

/-- The id of a bubble is one below that of the anonymous bubble before it, or it is positive. -/
theorem Found.identity?_spec (hs : scopes.Positive) {f : Found} {k : Nat} {id : Int} {name : String}
    (h : f.identity? scopes k = some (id, name)) :
    if f.isAnonymous then id = -(k : Int) - 1 else 0 < id := by
  rw [identity?] at h
  rw [isAnonymous]
  split at h
  · next hb =>
    obtain ⟨id', hid, he⟩ := Option.map_eq_some_iff.1 h
    cases he
    simpa [hb] using variableId?_pos hs hid
  · next hb =>
    cases h
    simp

/-- The numbers from -1 down, as many as are asked for. -/
def countdown (k : Nat) : List Int := (List.range k).map fun i : Nat => -(i : Int) - 1

theorem countdown_succ (k : Nat) : countdown (k + 1) = countdown k ++ [-(k : Int) - 1] := by
  rw [countdown, List.range_succ, List.map_append]
  rfl

theorem countdown_pairwise (k : Nat) : (countdown k).Pairwise (· > ·) := by
  rw [countdown, List.pairwise_map]
  refine List.pairwise_lt_range.imp fun {i j} hij => ?_
  show -(j : Int) - 1 < -(i : Int) - 1
  omega

/-- The state of the anonymous bubbles of a table while constructions are recorded: the first `k`
anonymous ones of all constructions, with the ids from -1 down to `-k`, and nothing below that. -/
structure Counted (all : List Found) (k : Nat) (t : ById Bubble) (rest : List Found) : Prop where
  above : ∀ e ∈ t.entries, -(k : Int) ≤ e.1
  anonymous : ∃ bs : List Bubble, (t.entries.filter fun e => e.1 < 0).map Prod.snd = bs.reverse ∧
    bs.map (·.variableId) = countdown k ∧
    bs.map (·.location) ++ (rest.filter (·.isAnonymous)).map (·.node.location)
      = (all.filter (·.isAnonymous)).map (·.node.location)

theorem counted_insert {all : List Found} {k : Nat} {t : ById Bubble} {f : Found}
    {rest : List Found} {id : Int} {name : String} (hs : scopes.Positive)
    (hid : f.identity? scopes k = some (id, name)) (h : Counted all k t (f :: rest)) :
    Counted all (if f.isAnonymous then k + 1 else k) (t.insert id (f.toBubble scopes id name))
    rest := by
  have hspec := Found.identity?_spec hs hid
  obtain ⟨habove, bs, hbs, hids, hloc⟩ := h
  cases ha : f.isAnonymous with
  | false =>
    -- A bubble of a variable goes among the positive numbers.
    rw [ha] at hspec
    simp only [Bool.false_eq_true, if_false] at hspec ⊢
    constructor
    · intro e he
      rcases ById.mem_insertEntry he with rfl | he
      · show -(k : Int) ≤ id
        omega
      · exact habove e he
    · refine ⟨bs, ?_, hids, ?_⟩
      · rw [← hbs, ById.insert, ById.filter_insertEntry_of_pos hspec]
      · rw [← hloc, List.filter_cons_of_neg (by simp [ha])]
  | true =>
    -- The new number is below all others, so its entry comes first.
    rw [ha] at hspec
    simp only [if_true] at hspec ⊢
    have hlt : ∀ e ∈ t.entries, id < e.1 := fun e he => by
      have := habove e he
      omega
    constructor
    · intro e he
      rcases ById.mem_insertEntry he with rfl | he
      · show -((k + 1 : Nat) : Int) ≤ id
        omega
      · have := habove e he
        omega
    · refine ⟨bs ++ [f.toBubble scopes id name], ?_, ?_, ?_⟩
      · show ((ById.insertEntry id _ t.entries).filter _).map Prod.snd = _
        have hneg : id < 0 := by omega
        rw [ById.insertEntry_of_lt hlt, List.filter_cons_of_pos (by simpa using hneg),
          List.map_cons, hbs, List.reverse_append]
        rfl
      · rw [List.map_append, hids, countdown_succ, ← hspec]
        rfl
      · rw [← hloc, List.filter_cons_of_pos ha]
        simp [Found.toBubble, Found.node]

end

/-- The anonymous bubbles of a script, last first, are those found, with
the numbers from -1 down. -/
theorem locate_anonymous {p : ParsedScript} {registry : Registry} {options : Options}
    {bubbles : ById Bubble} (hs : p.scopes.Positive)
    (h : locate p registry options = .ok bubbles) :
    ∃ bs : List Bubble, bubbles.values.filter (·.isAnonymous) = bs.reverse ∧
      bs.map (·.variableId) = countdown bs.length ∧
      bs.map (·.location)
        = ((found p registry options).filter (·.isAnonymous)).map (·.node.location) := by
  have hstart : Counted (found p registry options) 0 .empty (found p registry options) :=
    ⟨fun e he => absurd he List.not_mem_nil, [], rfl, rfl, rfl⟩
  obtain ⟨k, _, bs, hbs, hids, hloc⟩ :=
    recordAll_induction (Counted (found p registry options)) (counted_insert hs) h hstart
  have hkeyed : Keyed bubbles := keyed_locate h
  refine ⟨bs, ?_, ?_, ?_⟩
  · rw [← hbs, ById.values, List.filter_map]
    congr 1
    refine List.filter_congr fun e he => ?_
    rw [Function.comp_apply, isAnonymous, hkeyed e he]
  · have hlen : bs.length = k := by
      rw [← List.length_map (·.variableId), hids, countdown, List.length_map, List.length_range]
    rw [hids, hlen]
  · rw [← hloc, List.filter_nil, List.map_nil, List.append_nil]

end Bubble

/-! ### The order of the text -/

namespace Bubble

/-- The anonymous bubbles that a node records. -/
def anonymousAt (registry : Registry) (imports : ByName String) (c : Cursor) : List Found :=
  (foundAt registry imports c).filter (·.isAnonymous)

/-- One anonymous bubble overtakes another: it is recorded below the node at which the other is
recorded, so it is counted later, but it stands before the other in the text. -/
def Overtaken (p : ParsedScript) (registry : Registry) (options : Options) : Prop :=
  ∃ c ∈ Cursor.everywhere p.root, ∃ d ∈ Cursor.everywhere p.root,
    d.node ∈ descendantsAll c.node.children ∧
      ∃ f ∈ anonymousAt registry (p.root.imports options.bubblePackage) c,
        ∃ g ∈ anonymousAt registry (p.root.imports options.bubblePackage) d,
          g.node.location.startsBefore f.node.location = true

/-- The anonymous bubbles are recorded in the order of the text exactly when none is overtaken. -/
theorem anonymous_pairwise_iff {p : ParsedScript} (h : p.root.IsRoot) (registry : Registry)
    (options : Options) :
    ((found p registry options).filter (·.isAnonymous)).Pairwise
        (fun f g => f.node.start.key < g.node.start.key) ↔ ¬ Overtaken p registry options := by
  rw [found_eq_flatMap, List.filter_flatMap]
  constructor
  · rintro hp ⟨c, hc, d, hd, hdc, f, hf, g, hg, hlt⟩
    rw [Location.startsBefore_iff, Node.startKey_lt_iff] at hlt
    have hcp := placed_of_mem_foundAt h hc (List.mem_of_mem_filter hf)
    have hboth := (everywhere_pairwise h).and (List.pairwise_flatMap.1 hp).2
    have hne : c ≠ d := fun he => (size_lt_of_below hdc).ne (by rw [he])
    rcases or_of_pairwise hboth hc hd hne with ⟨_, hstart⟩ | ⟨hcd, _⟩
    · exact lt_asymm hlt (hstart f hf g hg)
    · -- The node below would be visited first.
      rcases hcd with hcd | hcd
      · exact lt_asymm (size_lt_of_below hdc) (size_lt_of_below hcd)
      · have hin := mem_descendants_of_below hdc
        have hw := (hcp.within_of_mem_descendants hin).start
        exact absurd (hcp.of_mem_descendants hin).start_lt_stop (not_lt.2 (le_trans hcd hw))
  · intro hover
    refine List.pairwise_flatMap.2 ⟨?_, ?_⟩
    · intro c hc
      by_cases hnil : foundAt registry (p.root.imports options.bubblePackage) c = []
      · rw [hnil]
        exact .nil
      · obtain ⟨f, hf⟩ := List.exists_mem_of_ne_nil _ hnil
        exact (foundAt_pairwise (placed_of_mem_foundAt h hc hf)).filter _
    · refine (everywhere_pairwise h).imp_of_mem fun {c d} hc hd hcd f hf g hg => ?_
      have hff := List.mem_of_mem_filter hf
      have hgg := List.mem_of_mem_filter hg
      have hcp := placed_of_mem_foundAt h hc hff
      rcases hcd with hbelow | hbefore
      · have hof := offers_of_mem_foundAt hff
        have hne := start_ne_of_below hcp hof.1 hof.2 hbelow (offers_of_mem_foundAt hgg).1
        refine lt_of_le_of_ne (not_lt.1 fun hlt => hover ?_) hne
        refine ⟨c, hc, d, hd, hbelow, f, hf, g, hg, ?_⟩
        rw [Location.startsBefore_iff, Node.startKey_lt_iff]
        exact hlt
      · exact start_lt_of_before hcp (placed_of_mem_foundAt h hd hgg) hbefore hff hgg

end Bubble

namespace Analysis

theorem misnumbered_eq_nil_iff (expected : Int) (bs : List Bubble) :
    misnumbered expected bs = [] ↔
      bs.map (·.variableId) = (List.range bs.length).map fun i : Nat => expected - i := by
  induction bs generalizing expected with
  | nil => simp [misnumbered]
  | cons b bs ih =>
    rw [misnumbered, List.map_cons, List.length_cons, List.range_succ_eq_map, List.map_cons,
      List.map_map, List.cons.injEq]
    have hshift : (fun i : Nat => expected - i) ∘ Nat.succ = fun i : Nat => expected - 1 - i := by
      funext i
      show expected - ((i + 1 : Nat) : Int) = expected - 1 - i
      omega
    rw [hshift, ← ih]
    split
    · next heq => simp [heq]
    · next hne => simp [hne]

theorem misnumbered_eq_nil_iff_descending (bs : List Bubble) :
    misnumbered (-1) bs = [] ↔ bs.map (·.variableId) = Bubble.countdown bs.length := by
  have hstep : (fun i : Nat => (-1 : Int) - i) = fun i : Nat => -(i : Int) - 1 := by
    funext i
    omega
  rw [misnumbered_eq_nil_iff, hstep, Bubble.countdown]

theorem misnumbered_eq_nil_iff_forall (expected : Int) (bs : List Bubble) :
    misnumbered expected bs = [] ↔
      ∀ id k line, .anonymousOrder id k line ∉ misnumbered expected bs := by
  constructor
  · intro hnil id k line hm
    rw [hnil] at hm
    cases hm
  · intro hnone
    induction bs generalizing expected with
    | nil => rfl
    | cons b bs ih =>
      rw [misnumbered] at hnone ⊢
      split at hnone
      · next heq =>
        rw [if_pos heq]
        exact ih _ hnone
      · exact absurd List.mem_cons_self (hnone _ _ _)

/-- Bubbles with descending numbers, sorted by their place from the lowest number up, have the
numbers from -1 down exactly when they had them before and each one starts after the one before it.
Of bubbles that start together the sort leaves the lower number first. -/
theorem map_variableId_mergeSort_iff {bs : List Bubble}
    (hdesc : bs.Pairwise fun b c => c.variableId < b.variableId) :
    (bs.reverse.mergeSort fun b c => !c.location.startsBefore b.location).map (·.variableId)
        = Bubble.countdown bs.length ↔
      bs.map (·.variableId) = Bubble.countdown bs.length ∧
        bs.Pairwise fun b c => b.location.startKey < c.location.startKey := by
  have hle : ∀ b c : Bubble, (!c.location.startsBefore b.location) = true ↔
      b.location.startKey ≤ c.location.startKey := by
    intro b c
    rw [Bool.not_eq_true', ← not_lt, ← Location.startsBefore_iff, Bool.not_eq_true]
  have htrans : ∀ a b c : Bubble, (!b.location.startsBefore a.location) = true →
      (!c.location.startsBefore b.location) = true → (!c.location.startsBefore a.location) =
      true := by
    intro a b c hab hbc
    rw [hle] at hab hbc ⊢
    exact hab.trans hbc
  have htotal : ∀ a b : Bubble,
      (!b.location.startsBefore a.location || !a.location.startsBefore b.location) = true := by
    intro a b
    rw [Bool.or_eq_true, hle, hle]
    exact le_total _ _
  have hperm : (bs.reverse.mergeSort fun b c => !c.location.startsBefore b.location).Perm bs :=
    (List.mergeSort_perm _ _).trans (List.reverse_perm bs)
  have hsorted : (bs.reverse.mergeSort fun b c => !c.location.startsBefore b.location).Pairwise
      fun b c => b.location.startKey ≤ c.location.startKey :=
    (List.pairwise_mergeSort htrans htotal bs.reverse).imp fun {b c} h => (hle b c).1 h
  constructor
  · intro hl
    have hdesc' : (bs.reverse.mergeSort fun b c => !c.location.startsBefore b.location).Pairwise
        fun b c => c.variableId < b.variableId := by
      have hc := Bubble.countdown_pairwise bs.length
      rw [← hl, List.pairwise_map] at hc
      exact hc
    -- Both lists have the same descending numbers, so they are one list.
    have heq : (bs.reverse.mergeSort fun b c => !c.location.startsBefore b.location) = bs :=
      hperm.eq_of_pairwise (fun b c _ _ h h' => absurd h (lt_asymm h')) hdesc' hdesc
    rw [heq] at hl
    refine ⟨hl, List.pairwise_iff_forall_sublist.2 fun {b c} hbc => ?_⟩
    have hlt : c.variableId < b.variableId := List.pairwise_iff_forall_sublist.1 hdesc hbc
    rw [heq] at hsorted
    refine lt_of_le_of_ne (List.pairwise_iff_forall_sublist.1 hsorted hbc) fun hstart => ?_
    -- If they started together, they would stay as they were before the sort.
    have hrev : [c, b].Sublist bs.reverse := by simpa using hbc.reverse
    have hcb := List.pair_sublist_mergeSort htrans htotal ((hle c b).2 hstart.ge) hrev
    rw [heq] at hcb
    exact lt_asymm hlt (List.pairwise_iff_forall_sublist.1 hdesc hcb)
  · rintro ⟨hids, hbs⟩
    have heq : (bs.reverse.mergeSort fun b c => !c.location.startsBefore b.location) = bs := by
      refine hperm.eq_of_pairwise ?_ hsorted (hbs.imp fun h => h.le)
      intro b c hb hc h h'
      by_contra hbc
      rcases or_of_pairwise hbs (hperm.mem_iff.1 hb) hc hbc with hlt | hlt
      · exact absurd hlt (not_lt.2 h')
      · exact absurd hlt (not_lt.2 h)
    rw [heq, hids]

end Analysis

theorem ParsedScript.positive_of_parse? {source : String} {p : ParsedScript}
    (h : ParsedScript.parse? source = some p) : p.scopes.Positive := by
  rw [scopes_eq_build h]
  exact (ScopeTree.valid_build source (inOrder_of_parse? h)).positive

namespace Analysis

open Bubble

/-- The anonymous bubbles of a result, sorted by their place, have the numbers from -1 down in some
order, and in this order exactly when none of them is overtaken. -/
theorem perm_countdown_anonymousInOrder {source : String} {p : ParsedScript}
    (hp : ParsedScript.parse? source = some p) {registry : Registry} {options : Options}
    {located : ById Bubble} (hl : Bubble.locate p registry options = .ok located) {a : Analysis}
    (ha : a.bubbles = located.map fun b => b.withDependencies registry) :
    let ids := a.anonymousInOrder.map (·.variableId)
    ids.Perm (countdown ids.length) ∧
      (ids = countdown ids.length ↔ ¬ Overtaken p registry options) := by
  intro ids
  have hroot := ParsedScript.isRoot_of_parse? hp
  obtain ⟨bs, hbs, hids, hloc⟩ := locate_anonymous (ParsedScript.positive_of_parse? hp) hl
  -- What a bubble depends on has no part in its number or its place.
  obtain ⟨cs, hcs, hcids, hcloc⟩ : ∃ cs : List Bubble,
      a.bubbles.values.filter (·.isAnonymous) = cs.reverse ∧
      cs.map (·.variableId) = countdown cs.length ∧
      cs.map (·.location)
        = ((found p registry options).filter (·.isAnonymous)).map (·.node.location) := by
    refine ⟨bs.map fun b => b.withDependencies registry, ?_, ?_, ?_⟩
    · rw [ha, ById.values_map, List.filter_map, ← List.map_reverse, ← hbs]
      rfl
    · rw [List.map_map, List.length_map]
      exact hids
    · rw [List.map_map]
      exact hloc
  have hplaces : (cs.Pairwise fun b c => b.location.startKey < c.location.startKey) ↔
      ((found p registry options).filter (·.isAnonymous)).Pairwise fun f g =>
        f.node.location.startKey < g.node.location.startKey := by
    rw [← List.pairwise_map (R := fun l m : Location => l.startKey < m.startKey), hcloc,
      List.pairwise_map]
  have hdesc : cs.Pairwise fun b c => c.variableId < b.variableId := by
    have hc := countdown_pairwise cs.length
    rw [← hcids, List.pairwise_map] at hc
    exact hc
  have hsorted : ids = countdown cs.length ↔ ¬ Overtaken p registry options := by
    rw [← anonymous_pairwise_iff hroot]
    simp only [← Node.startKey_lt_iff]
    have hsort := map_variableId_mergeSort_iff hdesc
    rw [and_iff_right hcids, hplaces, ← hcs] at hsort
    exact hsort
  have hlength : ids.length = cs.length := by
    rw [List.length_map, anonymousInOrder, List.length_mergeSort, hcs, List.length_reverse]
  have hperm : ids.Perm (countdown cs.length) := by
    rw [← hcids]
    refine List.Perm.map _ ((List.mergeSort_perm _ _).trans ?_)
    rw [hcs]
    exact List.reverse_perm cs
  exact ⟨hlength ▸ hperm, hlength ▸ hsorted⟩

/-- **The numbers of anonymous bubbles follow the text unless one overtakes another.**  For every
script that can be read and whose bubbles can be located, the anonymous bubbles sorted by their
place have the numbers from -1 down in some order.  They have them in this order, none is reported
as misnumbered, and the analysis does not fail for it, exactly when none of them is overtaken. -/
theorem anonymous_ids_descend_iff {source : String} {p : ParsedScript}
    (hp : ParsedScript.parse? source = some p) (registry : Registry) (options : Options)
    {located : ById Bubble} (hl : Bubble.locate p registry options = .ok located) :
    let a := drafted p registry options located
    let ids := a.anonymousInOrder.map (·.variableId)
    ids.Perm (countdown ids.length) ∧
      (ids = countdown ids.length ↔ ¬ Overtaken p registry options) ∧
      (misnumbered (-1) a.anonymousInOrder = [] ↔ ¬ Overtaken p registry options) ∧
      ((∃ problems id k line, ofScript p registry options = .error problems ∧
          .ofViolation (.anonymousOrder id k line) ∈ problems) ↔ Overtaken p registry options) := by
  intro a ids
  obtain ⟨hperm, hsorted⟩ := perm_countdown_anonymousInOrder hp hl (show a.bubbles = _ from rfl)
  have hnil : misnumbered (-1) a.anonymousInOrder = [] ↔ ¬ Overtaken p registry options := by
    rw [misnumbered_eq_nil_iff_descending, ← hsorted, List.length_map]
  refine ⟨hperm, hsorted, hnil, ?_⟩
  rw [← not_iff_not, ← hnil, misnumbered_eq_nil_iff_forall]
  simp only [not_exists, not_and]
  constructor
  · intro hnone id k line hm
    obtain ⟨problems, herr, hmem⟩ :=
      (exists_error_iff hl _).2 (anonymousOrder_mem_violations_iff.2 hm)
    exact hnone problems id k line herr hmem
  · intro hnone problems id k line herr hmem
    have hv := (exists_error_iff hl (.anonymousOrder id k line)).1 ⟨problems, herr, hmem⟩
    exact hnone id k line (anonymousOrder_mem_violations_iff.1 hv)

/-! ### A function in the target of an assignment -/

/-- The target of the assignment holds a bubble, and the value is another. -/
def targetScript : String := "x[() => new A()] = new A();"

/-- The value is recorded first, at the assignment, and the bubble in the target second. -/
theorem exists_located_targetScript :
    ∃ p located b c, ParsedScript.parse? targetScript = some p ∧
      Bubble.locate p oneClass {} = .ok located ∧ located.values = [b, c] ∧
      b.variableId = -2 ∧ b.location = ⟨1, 8, 1, 15⟩ ∧
      c.variableId = -1 ∧ c.location = ⟨1, 19, 1, 26⟩ := by
  have heval : ((ParsedScript.parse? targetScript).bind fun p =>
      (Bubble.locate p oneClass {}).toOption.map fun t =>
        t.values.map fun b => (b.variableId, b.location))
      = some [(-2, ⟨1, 8, 1, 15⟩), (-1, ⟨1, 19, 1, 26⟩)] := by
    decide +kernel
  obtain ⟨p, hp, he⟩ := Option.bind_eq_some_iff.1 heval
  obtain ⟨located, hl, hvalues⟩ := Option.map_eq_some_iff.1 he
  obtain ⟨b, bs, hb, hbe, hbs⟩ := List.map_eq_cons_iff.1 hvalues
  obtain ⟨c, cs, rfl, hce, hcs⟩ := List.map_eq_cons_iff.1 hbs
  obtain rfl := List.map_eq_nil_iff.1 hcs
  obtain ⟨hbid, hbloc⟩ := Prod.mk.inj hbe
  obtain ⟨hcid, hcloc⟩ := Prod.mk.inj hce
  exact ⟨p, located, b, c, hp, eq_ok_of_toOption hl, hb, hbid, hbloc, hcid, hcloc⟩

/-- The bubble in the target comes first in the text and has the number -2. -/
theorem misnumbered_targetScript {p : ParsedScript} {located : ById Bubble} {b c : Bubble}
    (hvalues : located.values = [b, c]) (hb : b.variableId = -2) (hbl : b.location = ⟨1, 8, 1, 15⟩)
    (hc : c.variableId = -1) (hcl : c.location = ⟨1, 19, 1, 26⟩) :
    misnumbered (-1) (drafted p oneClass {} located).anonymousInOrder
      = [.anonymousOrder (-2) (-1) 1, .anonymousOrder (-1) (-2) 1] := by
  have hanonymous : (drafted p oneClass {} located).bubbles.values.filter (·.isAnonymous)
      = [b.withDependencies oneClass, c.withDependencies oneClass] := by
    rw [drafted, ById.values_map, hvalues]
    simp [isAnonymous, withDependencies, hb, hc]
  rw [anonymousInOrder, hanonymous]
  simp [List.mergeSort, misnumbered, withDependencies, hb, hc, hbl, hcl,
    Location.startsBefore]

/-- In this script the bubbles are numbered against the order of the text, so one is overtaken. -/
theorem overtaken_targetScript :
    ∃ p located, ParsedScript.parse? targetScript = some p ∧
      Bubble.locate p oneClass {} = .ok located ∧ Overtaken p oneClass {} := by
  obtain ⟨p, located, b, c, hp, hl, hvalues, hb, hbl, hc, hcl⟩ := exists_located_targetScript
  refine ⟨p, located, hp, hl, ?_⟩
  have hmis := misnumbered_targetScript (p := p) hvalues hb hbl hc hcl
  by_contra hover
  have hnil := (anonymous_ids_descend_iff hp oneClass {} hl).2.2.1.2 hover
  rw [hmis] at hnil
  cases hnil

/-- **A bubble in the target of an assignment is misnumbered**, and the analysis fails. -/
theorem ofText_targetScript :
    ∃ problems, ofText targetScript oneClass {} = .error problems ∧
      .ofViolation (.anonymousOrder (-2) (-1) 1) ∈ problems := by
  obtain ⟨p, located, b, c, hp, hl, hvalues, hb, hbl, hc, hcl⟩ := exists_located_targetScript
  rw [ofText_of_parse? hp, exists_error_iff hl]
  refine anonymousOrder_mem_violations_iff.2 ?_
  rw [misnumbered_targetScript hvalues hb hbl hc hcl]
  exact List.mem_cons_self

end Analysis

end FlowAnalysis
