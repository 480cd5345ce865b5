import FlowAnalysis.Proofs.Analysis.Result
import FlowAnalysis.Proofs.Ascending
import FlowAnalysis.Proofs.Script.Callables
import FlowAnalysis.Proofs.Workflow.Fresh

/-!
# Which bubbles are missing from a workflow

A bubble is reached when it lies in the body of the entry point, or in that of a callable that the
entry point leads to.  It is a leaf of the workflow when the builder sees it.  The two are not the
same: the builder does not look at every part of a body, and a bubble where it does not look is
reached and not seen.  The analysis fails for exactly these bubbles (`missing_leaf_iff_unseen`).
-/

namespace FlowAnalysis.Analysis

open Script Workflow

variable {p : ParsedScript} {registry : Registry} {options : Options} {located : ById Bubble}

/-! ### The bubbles that the entry point reaches -/

theorem mem_ascending {ids : List Int} {id : Int} : id ∈ ascending ids ↔ id ∈ ids :=
  mem_eraseReps_mergeSort

/-- A bubble lies in the body of the entry point or, when calls are expanded, in that of a callable
that the entry point leads to. -/
def Reached (p : ParsedScript) (options : Options) (b : Bubble) : Prop :=
  (handle? p options).isSome ∧ ∃ name c body,
    (name = "handle" ∨
      options.expandMethodCalls = true ∧ name ∈ (callsOf p options).reachable "handle") ∧
    (callsOf p options).get? name = some c ∧ c.body = some body ∧
    body.location.encloses b.location = true

theorem mem_expectedOf {bubbles : ById Bubble} {id : Int} :
    id ∈ expectedOf p options bubbles ↔
      ∃ b ∈ bubbles.values, b.variableId = id ∧ Reached p options b := by
  rw [expectedOf]
  cases hh : handle? p options with
  | none => simp [Reached, hh]
  | some handle =>
    have hnames : ∀ name, name ∈ ("handle" ::
        if options.expandMethodCalls then (callsOf p options).reachable "handle" else []) ↔
        name = "handle" ∨
          options.expandMethodCalls = true ∧ name ∈ (callsOf p options).reachable "handle" := by
      intro name
      cases options.expandMethodCalls <;> simp
    have hbody : ∀ name l, ((callsOf p options).get? name).bind (·.bodyLocation?) = some l ↔
        ∃ c body, (callsOf p options).get? name = some c ∧ c.body = some body ∧
          body.location = l := by
      intro name l
      simp [Option.bind_eq_some_iff, Callable.bodyLocation?]
    simp only [mem_ascending, reached, List.mem_map, List.mem_filter, List.any_eq_true,
      List.mem_filterMap, hnames, hbody, Reached, hh, Option.isSome_some, true_and]
    constructor
    · rintro ⟨b, ⟨hb, l, ⟨name, hname, c, body, hc, hcb, rfl⟩, hl⟩, rfl⟩
      exact ⟨b, hb, rfl, name, c, body, hname, hc, hcb, hl⟩
    · rintro ⟨b, hb, rfl, name, c, body, hname, hc, hcb, hl⟩
      exact ⟨b, ⟨hb, _, ⟨name, hname, c, body, hc, hcb, rfl⟩, hl⟩, rfl⟩

/-! ### The run of a script -/

/-- Where the builder starts: at the body of the entry point. -/
def entry (p : ParsedScript) (options : Options) : List Item :=
  Item.ofBranch ((handle? p options).bind (·.body))

/-- What the workflow of a script is built from. -/
def settingOf (p : ParsedScript) (registry : Registry) (options : Options) (located : ById Bubble) :
    Workflow.Setting :=
  setting p.root (drafted p registry options located).bubbles (callsOf p options) options

theorem mem_all_of_flow? {flow : FlowClass} (h : flow ∈ flow? p options) :
    flow ∈ FlowClass.all options.flowBaseClass p.root :=
  List.mem_of_mem_head? h

theorem housed_callsOf (hroot : p.root.IsRoot) : Housed p.root (callsOf p options) where
  placed := by
    intro name c b hc hb
    exact placed_body hroot (fun _ => mem_all_of_flow?) (mem_declaredCallables_of_get? hc).1 hb
  apart := by
    intro name name' c c' b b' hne hc hc' hb hb'
    obtain ⟨hm, rfl⟩ := mem_declaredCallables_of_get? hc
    obtain ⟨hm', rfl⟩ := mem_declaredCallables_of_get? hc'
    exact apart_of_name_ne hroot (fun _ => mem_all_of_flow?) hm hm' hne hb hb'

theorem situated_settingOf (hroot : p.root.IsRoot)
    (hl : Bubble.locate p registry options = .ok located) :
    Situated (settingOf p registry options located) p.root where
  housed := housed_callsOf hroot
  keyed := (Bubble.keyed_locate hl).withDependencies registry
  distinct := (Bubble.distinct_locate hroot hl).withDependencies registry

/-- The entry point is one of the callables of a script. -/
theorem mem_declaredCallables_of_handle? {handle : Method} (h : handle? p options = some handle) :
    Callable.ofMethod handle ∈ declaredCallables p.root (flow? p options) ∧
      handle.name = "handle" := by
  obtain ⟨flow, hflow, hh⟩ := Option.bind_eq_some_iff.1 h
  rw [hflow]
  refine ⟨List.mem_append.2 (.inr (List.mem_map_of_mem (List.mem_of_find?_eq_some hh))), ?_⟩
  simpa using List.find?_some hh

theorem mem_entry {i : Item} :
    i ∈ entry p options ↔
      ∃ handle body, handle? p options = some handle ∧ handle.body = some body ∧
      i = .block body := by
  rw [entry, Item.ofBranch, Option.mem_toList, Option.map_eq_some_iff]
  simp only [Option.bind_eq_some_iff]
  constructor
  · rintro ⟨body, ⟨handle, hh, hb⟩, rfl⟩
    exact ⟨handle, body, hh, hb, rfl⟩
  · rintro ⟨handle, body, hh, hb, rfl⟩
    exact ⟨body, ⟨handle, hh, hb⟩, rfl⟩

/-- The body of the entry point stands in the script. -/
theorem in_of_mem_entry (hroot : p.root.IsRoot) {i : Item} (hi : i ∈ entry p options) :
    i.In p.root (callsOf p options) := by
  obtain ⟨handle, body, hh, hb, rfl⟩ := mem_entry.1 hi
  refine ⟨trivial, ?_⟩
  rintro n hn
  obtain rfl := Option.some.inj hn
  exact placed_body hroot (fun _ => mem_all_of_flow?) (mem_declaredCallables_of_handle? hh).1 hb

/-- The body of the entry point is apart from the bodies of all other callables. -/
theorem scattered_entry (hroot : p.root.IsRoot) :
    Scattered (settingOf p registry options located) (jobs ["handle"] (entry p options)) {} where
  apart := by
    rw [ahead, Job.map_item_jobs, entry, Item.nodes_ofBranch]
    cases (handle? p options).bind (·.body) with
    | none => exact .nil
    | some body => exact List.pairwise_singleton _ _
  outside := by
    rintro n hn b ⟨name, c, hne, _, hc, hb⟩
    obtain ⟨j, hj, hnode⟩ := mem_ahead.1 hn
    obtain ⟨handle, body, hh, hbody, hitem⟩ := mem_entry.1 (Job.mem_of_mem_jobs hj).2
    rw [hitem] at hnode
    obtain rfl := Option.some.inj hnode
    obtain ⟨hm, hname⟩ := mem_declaredCallables_of_handle? hh
    obtain ⟨hm', rfl⟩ := mem_declaredCallables_of_get? hc
    refine apart_of_name_ne hroot (fun _ => mem_all_of_flow?) hm hm' ?_ hbody hb
    rw [show (Callable.ofMethod handle).name = "handle" from hname]
    exact hne.symm

/-- The leaves of a workflow are the bubbles that a run from the entry point places. -/
theorem exists_fromEntry (hroot : p.root.IsRoot)
    (hl : Bubble.locate p registry options = .ok located) :
    ∃ ts q, FromEntry (settingOf p registry options located) p.root (entry p options) ts q ∧
      (drafted p registry options located).workflow.bubbleIds
        = placed (settingOf p registry options located) ts := by
  have hs := situated_settingOf hroot hl
  have hin : ∀ i ∈ entry p options, i.In p.root (callsOf p options) :=
    fun i => in_of_mem_entry hroot
  rw [workflow_drafted, workflowOf]
  cases hh : handle? p options with
  | none =>
    -- Without an entry point there is nothing to look at, and the workflow is empty.
    have hentry : entry p options = [] := by rw [entry, hh]; rfl
    refine ⟨[], {}, ⟨hs, ?_, hin⟩, rfl⟩
    rw [hentry]
    exact .done {}
  | some handle =>
    have hentry : entry p options = Item.ofBranch handle.body := by rw [entry, hh]; rfl
    obtain ⟨ts, q, hruns, hids, _⟩ := exists_runs_build p.root handle
      (drafted p registry options located).bubbles (callsOf p options) options
    refine ⟨ts, q, ⟨hs, ?_, hin⟩, hids⟩
    rw [hentry]
    exact hruns

/-! ### Leaves and failures -/

/-- A bubble that is seen is a leaf. -/
theorem mem_bubbleIds_of_seen (hroot : p.root.IsRoot)
    (hl : Bubble.locate p registry options = .ok located) {b : Bubble}
    (hb : b ∈ (drafted p registry options located).bubbles.values)
    (hseen : Seen (settingOf p registry options located) (entry p options) b) :
    b.variableId ∈ (drafted p registry options located).workflow.bubbleIds := by
  obtain ⟨ts, q, hrun, hids⟩ := exists_fromEntry hroot hl
  rw [hids]
  exact hrun.mem_placed_of_seen hb hseen

/-- When no bubble is taken for another, exactly the bubbles that are seen are leaves. -/
theorem mem_bubbleIds_iff_seen (hroot : p.root.IsRoot)
    (hl : Bubble.locate p registry options = .ok located)
    (hexact : Exact (settingOf p registry options located) (entry p options)) {b : Bubble}
    (hb : b ∈ (drafted p registry options located).bubbles.values) :
    b.variableId ∈ (drafted p registry options located).workflow.bubbleIds ↔
      Seen (settingOf p registry options located) (entry p options) b := by
  obtain ⟨ts, q, hrun, hids⟩ := exists_fromEntry hroot hl
  rw [hids]
  exact hrun.mem_placed_iff hexact (scattered_entry hroot) hb

/-- The analysis fails for a missing leaf exactly when a bubble that is reached is no leaf. -/
theorem exists_missingLeaf_iff (hl : Bubble.locate p registry options = .ok located) (id : Int) :
    (∃ problems, ofScript p registry options = .error problems ∧
        .ofViolation (.missingLeaf id) ∈ problems) ↔
      ∃ b ∈ (drafted p registry options located).bubbles.values, b.variableId = id ∧
        Reached p options b ∧ id ∉ (drafted p registry options located).workflow.bubbleIds := by
  rw [exists_error_iff hl, missingLeaf_mem_violations_iff, mem_expectedOf]
  constructor
  · rintro ⟨⟨b, hb, hid, hreached⟩, hnot⟩
    exact ⟨b, hb, hid, hreached, hnot⟩
  · rintro ⟨b, hb, hid, hreached, hnot⟩
    exact ⟨⟨b, hb, hid, hreached⟩, hnot⟩

/-! ### Surveying a script -/

/-- The bubbles of a script that are reached and those that are seen, found without building
the workflow; nothing when the search does not end, or when a construction is taken for a
bubble that starts elsewhere. -/
def survey (source : String) (registry : Registry) (options : Options) (k : Nat) :
    Option (List Int × List Int) := do
  let p ← ParsedScript.parse? source
  let located ← (Bubble.locate p registry options).toOption
  let s := settingOf p registry options located
  let items ← Item.search s k (entry p options)
  if items.all (Item.inPlace s) && (handle? p options).isSome then
    return (reached s.bubbles s.calls options,
      (s.bubbles.values.filter fun b => items.any (·.shows s b)).map (·.variableId))
  else none

/-- With an entry point, a bubble is reached when its id is. -/
theorem reached_iff_mem {bubbles : ById Bubble} (hkeyed : Bubble.Keyed bubbles)
    (hh : (handle? p options).isSome) {b : Bubble} (hb : b ∈ bubbles.values) :
    Reached p options b ↔ b.variableId ∈ reached bubbles (callsOf p options) options := by
  obtain ⟨handle, hh⟩ := Option.isSome_iff_exists.1 hh
  -- Sorting the ids and dropping repetitions changes no membership.
  have hexpected : b.variableId ∈ reached bubbles (callsOf p options) options ↔
      b.variableId ∈ expectedOf p options bubbles := by
    rw [expectedOf, hh]
    exact mem_ascending.symm
  rw [hexpected, mem_expectedOf]
  constructor
  · exact fun hr => ⟨b, hb, rfl, hr⟩
  · rintro ⟨d, hd, hid, hr⟩
    exact hkeyed.eq_of_variableId hd hb hid ▸ hr

/-- What a survey says is so. -/
theorem survey_spec {source : String} {k : Nat} {expected seen : List Int}
    (h : survey source registry options k = some (expected, seen)) :
    ∃ p located, ParsedScript.parse? source = some p ∧
      Bubble.locate p registry options = .ok located ∧
      Exact (settingOf p registry options located) (entry p options) ∧
      (∀ id ∈ expected, ∃ b ∈ (drafted p registry options located).bubbles.values,
        b.variableId = id) ∧
      ∀ b ∈ (drafted p registry options located).bubbles.values,
        (Reached p options b ↔ b.variableId ∈ expected) ∧
        (Seen (settingOf p registry options located) (entry p options) b ↔
          b.variableId ∈ seen) := by
  simp only [survey, Option.bind_eq_bind] at h
  obtain ⟨p, hp, h⟩ := Option.bind_eq_some_iff.1 h
  obtain ⟨located, hl, h⟩ := Option.bind_eq_some_iff.1 h
  obtain ⟨items, hsearch, h⟩ := Option.bind_eq_some_iff.1 h
  have hl := eq_ok_of_toOption hl
  have hkeyed := (Bubble.keyed_locate hl).withDependencies registry
  split at h
  · next hchecks =>
    obtain ⟨hplace, hhandle⟩ := Bool.and_eq_true_iff.1 hchecks
    obtain ⟨rfl, rfl⟩ := Prod.mk.inj (Option.some.inj h)
    refine ⟨p, located, hp, hl, exact_of_search hsearch hplace, ?_, fun b hb => ⟨?_, ?_⟩⟩
    · intro id hid
      obtain ⟨b, hb, hbid⟩ := List.mem_map.1 hid
      exact ⟨b, List.mem_of_mem_filter hb, hbid⟩
    · exact reached_iff_mem hkeyed hhandle hb
    · rw [seen_iff_of_search hsearch, List.mem_map]
      constructor
      · exact fun hs => ⟨b, List.mem_filter.2 ⟨hb, hs⟩, rfl⟩
      · rintro ⟨d, hd, hid⟩
        obtain ⟨hd, hs⟩ := List.mem_filter.1 hd
        exact hkeyed.eq_of_variableId hd hb hid ▸ hs
  · cases h

/-! ### Missing leaves -/

/-- **The analysis fails for a missing leaf where the builder does not look.**  For every script
that can be read and whose bubbles can be located, every bubble that the builder sees is a leaf of
the workflow, so there is no failure when every bubble reached is seen.  When no construction is
taken for a bubble that stands elsewhere, exactly the bubbles that are seen are leaves, and the
analysis fails for exactly those that are reached and not seen. -/
theorem missing_leaf_iff_unseen {source : String} (hp : ParsedScript.parse? source = some p)
    (hl : Bubble.locate p registry options = .ok located) :
    let a := drafted p registry options located
    let s := settingOf p registry options located
    let start := entry p options
    let fails := fun id => ∃ problems, ofText source registry options = .error problems ∧
      .ofViolation (.missingLeaf id) ∈ problems
    (∀ b ∈ a.bubbles.values, Seen s start b → b.variableId ∈ a.workflow.bubbleIds) ∧
      ((∀ b ∈ a.bubbles.values, Reached p options b → Seen s start b) → ∀ id, ¬ fails id) ∧
      (Exact s start →
        (∀ b ∈ a.bubbles.values, b.variableId ∈ a.workflow.bubbleIds ↔ Seen s start b) ∧
        ∀ id, fails id ↔
          ∃ b ∈ a.bubbles.values, b.variableId = id ∧ Reached p options b ∧ ¬ Seen s start b) := by
  intro a s start fails
  have hroot := ParsedScript.isRoot_of_parse? hp
  have hfails : ∀ id, fails id ↔ ∃ b ∈ a.bubbles.values, b.variableId = id ∧ Reached p options b ∧
      id ∉ a.workflow.bubbleIds := by
    intro id
    show (∃ problems, ofText source registry options = _ ∧ _) ↔ _
    rw [ofText_of_parse? hp]
    exact exists_missingLeaf_iff hl id
  refine ⟨fun b hb => mem_bubbleIds_of_seen hroot hl hb, ?_, ?_⟩
  · intro hall id hid
    obtain ⟨b, hb, rfl, hreached, hnot⟩ := (hfails id).1 hid
    exact hnot (mem_bubbleIds_of_seen hroot hl hb (hall b hb hreached))
  · intro hexact
    have hleaf : ∀ b ∈ a.bubbles.values, b.variableId ∈ a.workflow.bubbleIds ↔ Seen s start b :=
      fun b hb => mem_bubbleIds_iff_seen hroot hl hexact hb
    refine ⟨hleaf, fun id => (hfails id).trans ?_⟩
    constructor
    · rintro ⟨b, hb, rfl, hreached, hnot⟩
      exact ⟨b, hb, rfl, hreached, fun hseen => hnot ((hleaf b hb).2 hseen)⟩
    · rintro ⟨b, hb, rfl, hreached, hunseen⟩
      exact ⟨b, hb, rfl, hreached, fun hin => hunseen ((hleaf b hb).1 hin)⟩

/-! ### Two entry points -/

/-- A bubble is a statement of the entry point. -/
def methodScript : String := "class F extends BubbleFlow{handle(){new A()}}"

/-- The bubble is seen, so it is a leaf and nothing is missing. -/
theorem leaf_methodScript :
    ∃ p located, ParsedScript.parse? methodScript = some p ∧
      Bubble.locate p oneClass {} = .ok located ∧
      Exact (settingOf p oneClass {} located) (entry p {}) ∧
      -1 ∈ (drafted p oneClass {} located).workflow.bubbleIds ∧
      ∀ id, ¬ ∃ problems, ofText methodScript oneClass {} = .error problems ∧
        .ofViolation (.missingLeaf id) ∈ problems := by
  have heval : survey methodScript oneClass {} 20 = some ([-1], [-1]) := by decide +kernel
  obtain ⟨p, located, hp, hl, hexact, hlocated, hsurvey⟩ := survey_spec heval
  obtain ⟨hleaf, hnone, _⟩ := missing_leaf_iff_unseen hp hl
  refine ⟨p, located, hp, hl, hexact, ?_, hnone fun b hb hr => ?_⟩
  · obtain ⟨b, hb, hid⟩ := hlocated (-1) (List.mem_singleton.2 rfl)
    rw [← hid]
    exact hleaf b hb ((hsurvey b hb).2.2 (List.mem_singleton.2 hid))
  · exact (hsurvey b hb).2.2 ((hsurvey b hb).1.1 hr)

/-- A bubble is the body of the entry point, which is an arrow function without a block. -/
def arrowScript : String := "class F extends BubbleFlow{handle=()=>new A()}"

/-- **A bubble that is the body of an arrow function is missing**, and the analysis fails. -/
theorem ofText_arrowScript :
    ∃ problems, ofText arrowScript oneClass {} = .error problems ∧
      .ofViolation (.missingLeaf (-1)) ∈ problems := by
  have heval : survey arrowScript oneClass {} 20 = some ([-1], []) := by decide +kernel
  obtain ⟨p, located, hp, hl, hexact, hlocated, hsurvey⟩ := survey_spec heval
  obtain ⟨b, hb, hid⟩ := hlocated (-1) (List.mem_singleton.2 rfl)
  have hroot := ParsedScript.isRoot_of_parse? hp
  rw [ofText_of_parse? hp, exists_missingLeaf_iff hl]
  obtain ⟨hreached, hseen⟩ := hsurvey b hb
  refine ⟨b, hb, hid, hreached.2 (List.mem_singleton.2 hid), ?_⟩
  rw [← hid, mem_bubbleIds_iff_seen hroot hl hexact hb, hseen]
  exact List.not_mem_nil

end FlowAnalysis.Analysis
