import FlowAnalysis.Text.Pattern
import Mathlib.Data.List.Basic

/-!
# What a pattern finds

`Matches` says which pieces of text a pattern describes, between what comes before and what comes
after them, and which groups they give.  It knows nothing of the order in which alternatives are
tried.  Whatever a walk finds is such a piece (`exists_matches_of_walk`), so the groups of a first
match are those of a piece of the text (`exists_matches_of_first?`).
-/

namespace FlowAnalysis.Text.Pattern

/-- A pattern describes a piece of text that stands between others, the one before it read
backwards, and the piece gives groups, the last one first. -/
def Matches : Pattern → List Char → List Char → List Char → List (Nat × String) → Prop
  | .exact cs, _, piece, _, gs => piece = cs ∧ gs = []
  | .one cls, _, piece, _, gs => (∃ c, piece = [c] ∧ cls c = true) ∧ gs = []
  | .run _ least cls, _, piece, _, gs =>
    least ≤ piece.length ∧ (∀ c ∈ piece, cls c = true) ∧ gs = []
  | .seq a b, before, piece, after, gs =>
    ∃ x y hs ks, piece = x ++ y ∧ gs = ks ++ hs ∧
      Matches a before x (y ++ after) hs ∧ Matches b (x.reverse ++ before) y after ks
  | .either a b, before, piece, after, gs => Matches a before piece after gs ∨
    Matches b before piece after gs
  | .group i a, before, piece, after, gs =>
    ∃ hs, gs = (i, String.ofList piece) :: hs ∧ Matches a before piece after hs
  | .boundary, before, piece, after, gs => isBoundary ⟨before, after, []⟩ = true ∧
    piece = [] ∧ gs = []
  | .start, before, piece, _, gs => before = [] ∧ piece = [] ∧ gs = []
  | .stop, _, piece, after, gs => after = [] ∧ piece = [] ∧ gs = []

/-- A place comes after another, with a piece of text between them and the groups of the piece. -/
structure Passes (p : Place) (piece : List Char) (gs : List (Nat × String)) (q : Place) : Prop where
  after : p.after = piece ++ q.after
  before : q.before = piece.reverse ++ p.before
  groups : q.groups = gs ++ p.groups

namespace Passes

theorem refl (p : Place) : Passes p [] [] p := ⟨rfl, rfl, rfl⟩

theorem trans {p q r : Place} {x y : List Char} {gs hs : List (Nat × String)} (h : Passes p x gs q)
    (h' : Passes q y hs r) : Passes p (x ++ y) (hs ++ gs) r where
  after := by rw [h.after, h'.after, List.append_assoc]
  before := by rw [h'.before, h.before, List.reverse_append, List.append_assoc]
  groups := by rw [h'.groups, h.groups, List.append_assoc]

end Passes

/-! ### Single steps -/

theorem passes_of_skip {cs : List Char} {p q : Place} (h : skip cs p = some q) :
    Passes p cs [] q := by
  induction cs generalizing p with
  | nil =>
    obtain rfl := Option.some.inj h
    exact .refl p
  | cons c cs ih =>
    obtain ⟨before, after, groups⟩ := p
    cases after with
    | nil => cases h
    | cons d rest =>
      simp only [skip] at h
      split at h
      · next hc =>
        subst hc
        obtain ⟨ha, hb, hg⟩ := ih h
        exact ⟨congrArg (c :: ·) ha, by rw [hb]; simp, hg⟩
      · cases h

theorem passes_of_stepOver {cls : Char → Bool} {p q : Place} (h : stepOver cls p = some q) :
    ∃ c, cls c = true ∧ Passes p [c] [] q := by
  obtain ⟨before, after, groups⟩ := p
  cases after with
  | nil => cases h
  | cons c rest =>
    simp only [stepOver] at h
    split at h
    · next hc =>
      obtain rfl := Option.some.inj h
      exact ⟨c, hc, rfl, rfl, rfl⟩
    · cases h

/-- A long enough run of characters of a class leads from a place to one at
which `k` gives a result. -/
def RunLeads (cls : Char → Bool) (k : Place → Option Place) (least : Nat) (p r : Place) : Prop :=
  ∃ piece q, least ≤ piece.length ∧ (∀ c ∈ piece, cls c = true) ∧ Passes p piece [] q ∧ k q = some r

section

variable {greedy : Bool} {cls : Char → Bool} {k : Place → Option Place} {p q r : Place}
  {least : Nat}

theorem RunLeads.stop (h : k p = some r) : RunLeads cls k 0 p r :=
  ⟨[], p, Nat.zero_le _, by simp, .refl p, h⟩

theorem RunLeads.cons (hq : stepOver cls p = some q) (h : RunLeads cls k least q r) :
    RunLeads cls k (least + 1) p r := by
  obtain ⟨c, hc, hpass⟩ := passes_of_stepOver hq
  obtain ⟨piece, t, hleast, hall, hpass', hk⟩ := h
  exact ⟨c :: piece, t, Nat.succ_le_succ hleast, List.forall_mem_cons.2 ⟨hc, hall⟩,
    hpass.trans hpass', hk⟩

theorem RunLeads.fewer (h : RunLeads cls k (least + 1) p r) : RunLeads cls k least p r := by
  obtain ⟨piece, t, hleast, hrest⟩ := h
  exact ⟨piece, t, Nat.le_of_succ_le hleast, hrest⟩

/-- A run is long enough, since the fuel lasts to the end of the text. -/
theorem runLeads_of_runs {fuel : Nat} (hfuel : p.after.length < fuel)
    (h : runs greedy cls k fuel least p = some r) : RunLeads cls k least p r := by
  have hnext : ∀ {fuel : Nat} {p q : Place}, p.after.length < fuel + 1 → stepOver cls p = some q →
      q.after.length < fuel := by
    intro fuel p q hp hq
    obtain ⟨c, -, hpass⟩ := passes_of_stepOver hq
    rw [hpass.after] at hp
    simpa using hp
  induction fuel generalizing least p with
  | zero => exact absurd hfuel (Nat.not_lt_zero _)
  | succ fuel ih =>
    cases least with
    | succ least =>
      rw [runs] at h
      split at h
      · next q hq => exact .cons hq (ih (hnext hfuel hq) h)
      · cases h
    | zero =>
      rw [runs] at h
      split at h
      · split at h
        · next q hq =>
          split at h
          · next r' hr =>
            obtain rfl := Option.some.inj h
            exact (RunLeads.cons hq (ih (hnext hfuel hq) hr)).fewer
          · exact .stop h
        · exact .stop h
      · split at h
        · next r' hr =>
          obtain rfl := Option.some.inj h
          exact .stop hr
        · split at h
          · next q hq => exact (RunLeads.cons hq (ih (hnext hfuel hq) h)).fewer
          · cases h

end

/-! ### Walks -/

/-- **What a walk finds is described by the pattern**, and the walk goes on from the end of it. -/
theorem exists_matches_of_walk {a : Pattern} {p r : Place} {k : Place → Option Place}
    (h : walk a p k = some r) :
    ∃ piece gs q, Matches a p.before piece q.after gs ∧ Passes p piece gs q ∧ k q = some r := by
  induction a generalizing p k with
  | exact cs =>
    obtain ⟨q, hq, hk⟩ := Option.bind_eq_some_iff.1 h
    exact ⟨cs, [], q, ⟨rfl, rfl⟩, passes_of_skip hq, hk⟩
  | one cls =>
    obtain ⟨q, hq, hk⟩ := Option.bind_eq_some_iff.1 h
    obtain ⟨c, hc, hpass⟩ := passes_of_stepOver hq
    exact ⟨[c], [], q, ⟨⟨c, rfl, hc⟩, rfl⟩, hpass, hk⟩
  | run greedy least cls =>
    obtain ⟨piece, q, hleast, hall, hpass, hk⟩ := runLeads_of_runs (Nat.lt_succ_self _) h
    exact ⟨piece, [], q, ⟨hleast, hall, rfl⟩, hpass, hk⟩
  | seq a b iha ihb =>
    obtain ⟨x, hs, q, ha, hpass, hk⟩ := iha h
    obtain ⟨y, ks, t, hb, hpass', hk'⟩ := ihb hk
    refine ⟨x ++ y, ks ++ hs, t, ⟨x, y, hs, ks, rfl, rfl, ?_, ?_⟩, hpass.trans hpass', hk'⟩
    · rw [← hpass'.after]
      exact ha
    · rw [← hpass.before]
      exact hb
  | either a b iha ihb =>
    rw [walk] at h
    split at h
    · next r' hr =>
      obtain rfl := Option.some.inj h
      obtain ⟨piece, gs, q, ha, hpass, hk⟩ := iha hr
      exact ⟨piece, gs, q, .inl ha, hpass, hk⟩
    · obtain ⟨piece, gs, q, hb, hpass, hk⟩ := ihb h
      exact ⟨piece, gs, q, .inr hb, hpass, hk⟩
  | group i a ih =>
    obtain ⟨piece, gs, q, ha, hpass, hk⟩ := ih h
    -- The group is cut out by its length.
    have hpiece : (q.before.take (q.before.length - p.before.length)).reverse = piece := by
      rw [hpass.before, List.length_append, Nat.add_sub_cancel, List.take_left,
        List.reverse_reverse]
    rw [hpiece] at hk
    refine ⟨piece, (i, String.ofList piece) :: gs,
      ⟨q.before, q.after, (i, String.ofList piece) :: q.groups⟩,
      ⟨gs, rfl, ha⟩, ⟨hpass.after, hpass.before, ?_⟩, hk⟩
    rw [List.cons_append, ← hpass.groups]
  | boundary =>
    rw [walk] at h
    split at h
    · next hb => exact ⟨[], [], p, ⟨hb, rfl, rfl⟩, .refl p, h⟩
    · cases h
  | start =>
    rw [walk] at h
    split at h
    · next hb => exact ⟨[], [], p, ⟨List.isEmpty_iff.1 hb, rfl, rfl⟩, .refl p, h⟩
    · cases h
  | stop =>
    rw [walk] at h
    split at h
    · next hb => exact ⟨[], [], p, ⟨List.isEmpty_iff.1 hb, rfl, rfl⟩, .refl p, h⟩
    · cases h

theorem exists_matches_of_searchFrom {a : Pattern} {fuel : Nat} {p q : Place}
    (h : searchFrom a fuel p = some q) :
    ∃ before piece after, p.before.reverse ++ p.after = before.reverse ++ (piece ++ after) ∧
      Matches a before piece after q.groups := by
  induction fuel generalizing p with
  | zero => cases h
  | succ fuel ih =>
    rw [searchFrom] at h
    split at h
    · next t ht =>
      obtain rfl := Option.some.inj h
      obtain ⟨piece, gs, q', hm, hpass, hk⟩ := exists_matches_of_walk ht
      obtain rfl := Option.some.inj hk
      refine ⟨p.before, piece, q'.after, congrArg (p.before.reverse ++ ·) hpass.after, ?_⟩
      rw [hpass.groups, List.append_nil]
      exact hm
    · obtain ⟨before, after, groups⟩ := p
      cases after with
      | nil => cases h
      | cons c rest =>
        obtain ⟨before', piece, after', he, hm⟩ := ih h
        refine ⟨before', piece, after', ?_, hm⟩
        rw [← he]
        simp

/-- The groups of a first match are those of a piece of the text. -/
theorem exists_matches_of_first? {a : Pattern} {s : String} {gs : List (Nat × String)}
    (h : a.first? s = some gs) :
    ∃ before piece after, s.toList = before.reverse ++ (piece ++ after) ∧
    Matches a before piece after gs := by
  obtain ⟨q, hq, rfl⟩ := Option.map_eq_some_iff.1 h
  exact exists_matches_of_searchFrom hq

end FlowAnalysis.Text.Pattern
