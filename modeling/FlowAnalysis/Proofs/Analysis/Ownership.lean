import FlowAnalysis.Proofs.Analysis.Completeness

/-!
# Which construction a leaf comes from

A construction claims the nearest bubble of its class on its lines that has not been placed.
`origins` lists the bubbles placed together with the expressions that claimed them.  A construction
is owned when a bubble stands exactly there.  As long as every claim comes from an owned
construction, what has been placed is behind, so the owner of a construction is still to be placed
and it is the nearest (`Clear.standsAt_of_owned`).  Hence all leaves stand where their bubbles do
unless a construction that no bubble owns claims one (`leaves_stand_at_iff`).
-/

namespace FlowAnalysis

namespace Workflow

open Script Node

/-! ### Claims -/

/-- The class that an expression constructs. -/
def constructed? (e : Node) : Option String := (Construction.of? e).bind (·.className?)

/-- A bubble is one that the construction at an expression can be taken for: it is of the class, on
the same lines and within the tolerance. -/
def Near (s : Setting) (e : Node) (b : Bubble) : Prop :=
  ∃ name ∈ constructed? e, candidate s [] name e.location b = true

instance (s : Setting) (e : Node) (b : Bubble) : Decidable (Near s e b) :=
  inferInstanceAs (Decidable (∃ name ∈ constructed? e, candidate s [] name e.location b = true))

/-- A bubble that the construction at an expression can be taken for stands exactly there. -/
def Owned (s : Setting) (e : Node) : Prop :=
  ∃ b ∈ s.bubbles.values, Near s e b ∧ b.location = e.location

instance (s : Setting) (e : Node) : Decidable (Owned s e) :=
  inferInstanceAs (Decidable (∃ b ∈ s.bubbles.values, Near s e b ∧ b.location = e.location))

/-- The bubble that a turn places, and the expression that claims it. -/
def Turn.origin? (s : Setting) (t : Turn) : Option (Int × Node) :=
  t.job.item.expression?.bind fun e => (findBubble? s t.progress.used e).map fun r => (r.1, e)

/-- The bubbles that turns place, in order, each with the expression that claims it. -/
def origins (s : Setting) (ts : List Turn) : List (Int × Node) := ts.filterMap (Turn.origin? s)

/-- The bubble of an id stands exactly where an expression does. -/
def StandsAt (s : Setting) (id : Int) (e : Node) : Prop :=
  ∃ b, s.bubbles.get? id = some b ∧ b.location = e.location

section

variable {s : Setting} {root : Node} {t : Turn} {ts : List Turn} {id : Int} {e : Node}

theorem origin?_eq_some_iff :
    t.origin? s = some (id, e) ↔
      t.job.item.expression? = some e ∧ ∃ c, findBubble? s t.progress.used e = some (id, c) := by
  rw [Turn.origin?, Option.bind_eq_some_iff]
  constructor
  · rintro ⟨e', he, h⟩
    obtain ⟨⟨id', c⟩, hfind, h⟩ := Option.map_eq_some_iff.1 h
    obtain ⟨rfl, rfl⟩ := Prod.mk.inj h
    exact ⟨he, c, hfind⟩
  · rintro ⟨he, c, hfind⟩
    exact ⟨e, he, Option.map_eq_some_iff.2 ⟨(id, c), hfind, rfl⟩⟩

theorem mem_origins_iff : (id, e) ∈ origins s ts ↔ ∃ t ∈ ts, t.origin? s = some (id, e) :=
  List.mem_filterMap

/-- A turn places the bubble that its expression claims. -/
theorem map_fst_origin? (s : Setting) (t : Turn) :
    (t.origin? s).map Prod.fst = (t.step s).placed := by
  have hd := t.job.does_step s t.progress
  rw [Turn.step]
  generalize t.job.step s t.progress = st at hd ⊢
  have hclaim : (t.origin? s).map Prod.fst = (t.job.item.claim? s t.progress.used).map
      Prod.fst := by
    rw [Turn.origin?, Item.claim?]
    cases t.job.item.expression? with
    | none => rfl
    | some e => simp [Function.comp_def]
  rw [hclaim]
  cases hd with
  | claim h => rw [h]; rfl
  | enter hi he | pass hi he => rw [hi]; rfl
  | follow h hi => rw [h]; rfl

theorem map_fst_origins (s : Setting) (ts : List Turn) :
    (origins s ts).map Prod.fst = placed s ts := by
  rw [origins, placed, List.map_filterMap]
  exact congrArg (List.filterMap · ts) (funext fun t => map_fst_origin? s t)

/-- What a turn places is near the expression that claims it. -/
theorem exists_near_of_origin? (hkeyed : Bubble.Keyed s.bubbles) (h : t.origin? s = some (id, e)) :
    ∃ b, s.bubbles.get? id = some b ∧ Near s e b := by
  obtain ⟨_, c, hfind⟩ := origin?_eq_some_iff.1 h
  obtain ⟨name, b, hof, hname, hb, hcand, rfl, _⟩ := findBubble?_spec hfind
  refine ⟨b, hkeyed.get? hb, name, ?_, (candidate_iff.1 hcand).2⟩
  rw [constructed?, hof]
  exact hname

/-! ### Owned constructions claim their own bubbles -/

/-- Where what has been placed is behind, an owned construction claims the
bubble that stands there. -/
theorem Clear.standsAt_of_owned (hs : Situated s root) {j : Job} {rest : List Job} {p : Progress}
    (h : Clear s root (j :: rest) p) (ho : Turn.origin? s ⟨p, j⟩ = some (id, e))
    (howned : Owned s e) : StandsAt s id e := by
  obtain ⟨b, hb, ⟨name, hname, hcand⟩, hloc⟩ := howned
  obtain ⟨c, hof, hname⟩ := Option.bind_eq_some_iff.1 hname
  obtain ⟨he, c', hfind⟩ := origin?_eq_some_iff.1 ho
  have hkey : b.location.startKey = e.location.startKey := by rw [hloc]
  have hcand' := candidate_iff.2 ⟨h.not_mem_used he hb hkey, hcand⟩
  have hid : b.variableId = id := eq_of_findBubble? hs hof hname hb hcand' (by rw [hloc]) hfind
  exact ⟨b, hid ▸ hs.keyed.get? hb, hloc⟩

/-- When every claim comes from an owned construction, every bubble stands where it is claimed. -/
theorem Runs.standsAt_of_owned (hs : Situated s root) {js : List Job} {p q : Progress}
    (h : Runs s js p ts q) (hclear : Clear s root js p) (howned : ∀ o ∈ origins s ts, Owned s o.2) :
    ∀ o ∈ origins s ts, StandsAt s o.1 o.2 := by
  induction h with
  | done => exact fun o ho => absurd ho List.not_mem_nil
  | @turn j rest p q ts _ ih =>
    have hfirst : ∀ {id e}, Turn.origin? s ⟨p, j⟩ = some (id, e) → StandsAt s id e := fun ho =>
      hclear.standsAt_of_owned hs ho
        (howned _ (mem_origins_iff.2 ⟨⟨p, j⟩, List.mem_cons_self, ho⟩))
    have hlater : ∀ o ∈ origins s ts, Owned s o.2 := by
      rintro ⟨id, e⟩ ho
      obtain ⟨t, ht, hto⟩ := mem_origins_iff.1 ho
      exact howned _ (mem_origins_iff.2 ⟨t, List.mem_cons_of_mem _ ht, hto⟩)
    -- The bubble that this turn places starts at its expression, so it is behind from now on.
    have hnext : Clear s root ((j.step s p).jobs ++ rest) (j.step s p).after := by
      refine hclear.step hs fun e id c he hfind b hb hid => ?_
      obtain ⟨d, hd, hloc⟩ := hfirst (origin?_eq_some_iff.2 ⟨he, c, hfind⟩)
      have hget := hs.keyed.get? hb
      rw [hid, hd] at hget
      rw [← Option.some.inj hget, hloc]
    rintro ⟨id, e⟩ ho
    obtain ⟨t, ht, hto⟩ := mem_origins_iff.1 ho
    rcases List.mem_cons.1 ht with rfl | ht
    · exact hfirst hto
    · exact ih hnext hlater _ (mem_origins_iff.2 ⟨t, ht, hto⟩)

/-- A bubble that stands where it is claimed owns the construction. -/
theorem owned_of_standsAt (hkeyed : Bubble.Keyed s.bubbles) (ho : (id, e) ∈ origins s ts)
    (h : StandsAt s id e) : Owned s e := by
  obtain ⟨t, _, hto⟩ := mem_origins_iff.1 ho
  obtain ⟨b, hb, hnear⟩ := exists_near_of_origin? hkeyed hto
  obtain ⟨d, hd, hloc⟩ := h
  rw [hb] at hd
  cases hd
  exact ⟨b, List.mem_map_of_mem (ById.get?_eq_some_iff.1 hb), hnear, hloc⟩

end

/-! ### Following a run -/

/-- The turns taken in working through an agenda, unless there are more than so many. -/
def turns (s : Setting) : Nat → List Job → Progress → Option (List Turn)
  | _, [], _ => some []
  | 0, _ :: _, _ => none
  | k + 1, j :: rest, p =>
    (turns s k ((j.step s p).jobs ++ rest) (j.step s p).after).map (⟨p, j⟩ :: ·)

/-- There is one way to work through an agenda. -/
theorem Runs.eq_turns {s : Setting} {js : List Job} {p q : Progress} {ts us : List Turn} {k : Nat}
    (h : Runs s js p ts q) (hk : turns s k js p = some us) : ts = us := by
  induction h generalizing k us with
  | done p => cases k <;> exact Option.some.inj hk
  | @turn j rest p q ts _ ih =>
    cases k with
    | zero => cases hk
    | succ k =>
      obtain ⟨later, hlater, rfl⟩ := Option.map_eq_some_iff.1 hk
      rw [ih hlater]

end Workflow

namespace Analysis

open Script Workflow

variable {p : ParsedScript} {registry : Registry} {options : Options} {located : ById Bubble}

/-- No construction in a script can be taken for a bubble unless one owns it. -/
def Undisputed (s : Workflow.Setting) (root : Node) : Prop :=
  ∀ e ∈ root.descendants, ∀ b ∈ s.bubbles.values, Near s e b → Owned s e

instance (s : Workflow.Setting) (root : Node) : Decidable (Undisputed s root) :=
  inferInstanceAs (Decidable (∀ e ∈ root.descendants, ∀ b ∈ s.bubbles.values, Near s e b →
    Owned s e))

/-- **A leaf comes from the construction of its bubble unless a construction that no bubble owns
claims one.** For every script that can be read and whose bubbles can be located, and all options,
the leaves of the workflow are the bubbles claimed in one run from the entry point.  The expression
that claims a bubble is one of the script, of its class, on its lines and within the tolerance.
Every bubble stands exactly where it is claimed if and only if every claim comes from a construction
at which some bubble stands; and that is so, whatever the tolerance, when every construction of the
script that can be taken for a bubble has one that stands there. -/
theorem leaves_stand_at_iff {source : String} (hp : ParsedScript.parse? source = some p)
    (hl : Bubble.locate p registry options = .ok located) :
    let s := settingOf p registry options located
    ∃ ts q, Runs s (jobs ["handle"] (entry p options)) {} ts q ∧
      (drafted p registry options located).workflow.bubbleIds = (origins s ts).map Prod.fst ∧
      (∀ o ∈ origins s ts, o.2 ∈ p.root.descendants ∧ ∃ b, s.bubbles.get? o.1 = some b ∧
        Near s o.2 b) ∧
      ((∀ o ∈ origins s ts, StandsAt s o.1 o.2) ↔ ∀ o ∈ origins s ts, Owned s o.2) ∧
      (Undisputed s p.root → ∀ o ∈ origins s ts, StandsAt s o.1 o.2) := by
  intro s
  have hroot := ParsedScript.isRoot_of_parse? hp
  obtain ⟨ts, q, hrun, hids⟩ := exists_fromEntry hroot hl
  have hs : Situated s p.root := hrun.toSituated
  have hclaims : ∀ o ∈ origins s ts,
      o.2 ∈ p.root.descendants ∧ ∃ b, s.bubbles.get? o.1 = some b ∧ Near s o.2 b := by
    rintro ⟨id, e⟩ ho
    obtain ⟨t, ht, hto⟩ := mem_origins_iff.1 ho
    have hin : t.job.item.In p.root s.calls := hrun.in_of_visited ⟨t, ht, rfl⟩
    obtain ⟨n, hn, hen⟩ := Item.exists_node?_of_expression? hin.fits (origin?_eq_some_iff.1 hto).1
    exact ⟨Node.mem_descendants_trans (hin.placed n hn).1 hen, exists_near_of_origin? hs.keyed hto⟩
  have howned : (∀ o ∈ origins s ts, Owned s o.2) → ∀ o ∈ origins s ts, StandsAt s o.1 o.2 :=
    hrun.runs.standsAt_of_owned hs (hrun.clear (scattered_entry hroot))
  refine ⟨ts, q, hrun.runs, hids.trans (map_fst_origins s ts).symm, hclaims, ⟨?_, howned⟩,
    fun hall => ?_⟩
  · exact fun hstands o ho => owned_of_standsAt hs.keyed ho (hstands o ho)
  · refine howned fun o ho => ?_
    obtain ⟨hin, b, hb, hnear⟩ := hclaims o ho
    exact hall o.2 hin b (List.mem_map_of_mem (ById.get?_eq_some_iff.1 hb)) hnear

/-! ### Two constructions of one class on a line -/

/-- The bubbles of a script with their places, where each of those placed is claimed, and whether
every construction is undisputed; nothing when the run does not end. -/
def claimed (source : String) (registry : Registry) (options : Options) (k : Nat) :
    Option (List (Int × Location) × List (Int × Location) × Bool) := do
  let p ← ParsedScript.parse? source
  let located ← (Bubble.locate p registry options).toOption
  let s := settingOf p registry options located
  let ts ← turns s k (jobs ["handle"] (entry p options)) {}
  return (s.bubbles.values.map fun b => (b.variableId, b.location),
    (origins s ts).map fun o => (o.1, o.2.location), decide (Undisputed s p.root))

/-- What is found of the claims is so. -/
theorem claimed_spec {source : String} {k : Nat} {places claims : List (Int × Location)}
    {clear : Bool} (h : claimed source registry options k = some (places, claims, clear)) :
    ∃ p located, ParsedScript.parse? source = some p ∧
      Bubble.locate p registry options = .ok located ∧
      ((settingOf p registry options located).bubbles.values.map fun b =>
        (b.variableId, b.location))
        = places ∧
      (∀ ts q, Runs (settingOf p registry options located) (jobs ["handle"] (entry p options))
        {} ts q →
        ((origins (settingOf p registry options located) ts).map fun o => (o.1, o.2.location)) =
        claims) ∧
      (Undisputed (settingOf p registry options located) p.root ↔ clear = true) := by
  simp only [claimed, Option.bind_eq_bind] at h
  obtain ⟨p, hp, h⟩ := Option.bind_eq_some_iff.1 h
  obtain ⟨located, hl, h⟩ := Option.bind_eq_some_iff.1 h
  obtain ⟨us, hus, h⟩ := Option.bind_eq_some_iff.1 h
  obtain ⟨rfl, hclaims⟩ := Prod.mk.inj (Option.some.inj h)
  obtain ⟨rfl, rfl⟩ := Prod.mk.inj hclaims
  refine ⟨p, located, hp, eq_ok_of_toOption hl, rfl, fun ts q hr => ?_, decide_eq_true_iff.symm⟩
  rw [hr.eq_turns hus]

/-- Two bubbles of one class, each within the tolerance of the other. -/
def doubledScript : String := "class F extends BubbleFlow{handle(){new A;new A}}"

/-- Both are owned, so each leaf stands where its bubble does. -/
theorem leaves_stand_at_doubledScript :
    ∃ p located, ParsedScript.parse? doubledScript = some p ∧
      Bubble.locate p oneClass {} = .ok located ∧
      (drafted p oneClass {} located).workflow.bubbleIds = [-1, -2] ∧
      ∃ ts, (∀ o ∈ origins (settingOf p oneClass {} located) ts,
          StandsAt (settingOf p oneClass {} located) o.1 o.2) ∧
        ((origins (settingOf p oneClass {} located) ts).map fun o => (o.1, o.2.location))
          = [(-1, ⟨1, 36, 1, 41⟩), (-2, ⟨1, 42, 1, 47⟩)] := by
  have heval : claimed doubledScript oneClass {} 20
      = some ([(-2, ⟨1, 42, 1, 47⟩), (-1, ⟨1, 36, 1, 41⟩)],
        [(-1, ⟨1, 36, 1, 41⟩), (-2, ⟨1, 42, 1, 47⟩)], true) := by
    decide +kernel
  obtain ⟨p, located, hp, hl, _, hclaims, hundisputed⟩ := claimed_spec heval
  obtain ⟨ts, q, hr, hids, _, _, hstands⟩ := leaves_stand_at_iff hp hl
  have hts := hclaims ts q hr
  have hleaves : (origins (settingOf p oneClass {} located) ts).map Prod.fst = [-1, -2] := by
    have hfirst := congrArg (List.map Prod.fst) hts
    rw [List.map_map] at hfirst
    exact hfirst
  exact ⟨p, located, hp, hl, hids.trans hleaves, ts, hstands (hundisputed.2 rfl), hts⟩

/-- A construction that is an argument, before a bubble of the class on the same line. -/
def strayScript : String := "class F extends BubbleFlow{handle(){f(new A);new A}}"

/-- **A construction that is no bubble claims one within the tolerance.**  The only bubble is the
statement, and its leaf comes from the argument before it. -/
theorem stray_claim_strayScript :
    ∃ p located, ParsedScript.parse? strayScript = some p ∧
      Bubble.locate p oneClass {} = .ok located ∧
      ∃ ts q, Runs (settingOf p oneClass {} located) (jobs ["handle"] (entry p {})) {} ts q ∧
        (drafted p oneClass {} located).workflow.bubbleIds
          = (origins (settingOf p oneClass {} located) ts).map Prod.fst ∧
        ∃ o ∈ origins (settingOf p oneClass {} located) ts,
          ¬ StandsAt (settingOf p oneClass {} located) o.1 o.2 := by
  have heval : claimed strayScript oneClass {} 20
      = some ([(-1, ⟨1, 45, 1, 50⟩)], [(-1, ⟨1, 38, 1, 43⟩)], false) := by
    decide +kernel
  obtain ⟨p, located, hp, hl, hplaces, hclaims, _⟩ := claimed_spec heval
  have hroot := ParsedScript.isRoot_of_parse? hp
  obtain ⟨ts, q, hrun, hids⟩ := exists_fromEntry hroot hl
  refine ⟨p, located, hp, hl, ts, q, hrun.runs, hids.trans (map_fst_origins _ ts).symm, ?_⟩
  obtain ⟨o, ho, hclaim⟩ : ∃ o ∈ origins (settingOf p oneClass {} located) ts,
      (o.1, o.2.location) = ((-1 : Int), (⟨1, 38, 1, 43⟩ : Location)) := by
    rw [← List.mem_map, hclaims ts q hrun.runs]
    exact List.mem_singleton.2 rfl
  refine ⟨o, ho, ?_⟩
  -- The bubble stands at column 45 and the construction that claims it at column 38.
  rintro ⟨b, hb, hloc⟩
  have hmem : (b.variableId, b.location) ∈ [((-1 : Int), (⟨1, 45, 1, 50⟩ : Location))] := by
    rw [← hplaces]
    exact List.mem_map_of_mem (List.mem_map_of_mem (ById.get?_eq_some_iff.1 hb))
  have hplace := (Prod.mk.inj (List.mem_singleton.1 hmem)).2
  rw [hloc, (Prod.mk.inj hclaim).2] at hplace
  cases hplace

end Analysis

end FlowAnalysis
