import FlowAnalysis.Dependency.Tree
import FlowAnalysis.Proofs.Bubble.Sites
import FlowAnalysis.Proofs.Bubble.Table
import Mathlib.Data.List.Basic

/-!
# Recording bubbles

Constructions are recorded one after the other, so what one of them keeps holds of the table at the
end (`recordAll_induction`): every bubble stands under its own id, and in a place of its own, and
every entry is that of a construction (`exists_entryOf_of_mem_entries`).  An entry is lost only when
its id is given again (`get?_recordAll`), and nothing is recorded only when a name has no id
(`exists_error_recordAll_iff`).
-/

namespace FlowAnalysis.Bubble

open Script Node

/-- What recording one construction does, when it succeeds: the construction has an id, goes into
the table under it, and the others follow. -/
theorem recordAll_cons_eq_ok {scopes : ScopeTree} {k : Nat} {t t' : ById Bubble} {f : Found}
    {fs : List Found} (h : recordAll scopes k t (f :: fs) = .ok t') :
    ∃ id name, f.identity? scopes k = some (id, name) ∧
      recordAll scopes (if f.isAnonymous then k + 1 else k)
        (t.insert id (f.toBubble scopes id name)) fs = .ok t' := by
  rw [recordAll] at h
  split at h
  · next id name hid => exact ⟨id, name, hid, h⟩
  · next hnone =>
    split at h
    · cases h
    · next label hb => simp [Found.identity?, hb] at hnone

/-- What holds while constructions are recorded one after the other, with the number of anonymous
ones so far and those still to come, holds when all have been recorded. -/
theorem recordAll_induction {scopes : ScopeTree} (P : Nat → ById Bubble → List Found → Prop)
    (step : ∀ {k t f fs id name}, f.identity? scopes k = some (id, name) → P k t (f :: fs) →
      P (if f.isAnonymous then k + 1 else k) (t.insert id (f.toBubble scopes id name)) fs)
    {k : Nat} {t t' : ById Bubble} {fs : List Found} (h : recordAll scopes k t fs = .ok t')
    (hp : P k t fs) : ∃ k', P k' t' [] := by
  induction fs generalizing k t with
  | nil =>
    cases h
    exact ⟨k, hp⟩
  | cons f fs ih =>
    obtain ⟨id, name, hid, h⟩ := recordAll_cons_eq_ok h
    exact ih h (step hid hp)

section

variable {scopes : ScopeTree} {k : Nat} {t t' : ById Bubble} {fs : List Found}

/-- A construction that is bound to a name has the id of the name. -/
theorem Found.variableId?_of_identity? {f : Found} {name : Node} {id : Int} {text : String}
    (hb : f.site.binding = .named name) (h : f.identity? scopes k = some (id, text)) :
    Found.variableId? scopes name = some id := by
  rw [identity?, hb] at h
  obtain ⟨id', hid, hpair⟩ := Option.map_eq_some_iff.1 h
  rw [hid, (Prod.mk.inj hpair).1]

/-- Recording fails when a name has no id, and only then. -/
theorem exists_error_recordAll_iff : (∃ u, recordAll scopes k t fs = .error u) ↔
    ∃ f ∈ fs, ∃ name, f.site.binding = .named name ∧ Found.variableId? scopes name = none := by
  induction fs generalizing k t with
  | nil => simp [recordAll]
  | cons f fs ih =>
    rw [recordAll, List.exists_mem_cons_iff]
    cases hb : f.site.binding with
    | named name =>
      cases hid : Found.variableId? scopes name with
      | none => simp [Found.identity?, hb, hid]
      | some id => simp [Found.identity?, hb, hid, ih]
    | anonymous label => simp [Found.identity?, hb, ih]

/-- Recording keeps the entry of an id that is not given again. -/
theorem get?_recordAll {id : Int} (h : recordAll scopes k t fs = .ok t')
    (hnot : ∀ f ∈ fs, ∀ j, k ≤ j → ∀ name, f.identity? scopes j ≠ some (id, name)) :
    t'.get? id = t.get? id := by
  induction fs generalizing k t with
  | nil =>
    cases h
    rfl
  | cons f fs ih =>
    obtain ⟨id', name, hid, h⟩ := recordAll_cons_eq_ok h
    have hne : id ≠ id' := by
      rintro rfl
      exact hnot f List.mem_cons_self k (le_refl k) name hid
    rw [ih h ?_, ById.get?_insert, if_neg hne]
    intro g hg j hj
    refine hnot g (List.mem_cons_of_mem f hg) j (le_trans ?_ hj)
    split <;> omega

/-- A construction is recorded with its id, and those after it are recorded on top. -/
theorem exists_recordAll_after {f : Found} {before after : List Found}
    (h : recordAll scopes k t (before ++ f :: after) = .ok t') :
    ∃ j s id name, f.identity? scopes j = some (id, name) ∧
      recordAll scopes (if f.isAnonymous then j + 1 else j)
        (ById.insert s id (f.toBubble scopes id name)) after = .ok t' := by
  induction before generalizing k t with
  | nil =>
    obtain ⟨id, name, hid, h⟩ := recordAll_cons_eq_ok h
    exact ⟨k, t, id, name, hid, h⟩
  | cons g before ih =>
    obtain ⟨_, _, _, h⟩ := recordAll_cons_eq_ok h
    exact ih h

end

section

variable {p : ParsedScript} {registry : Registry} {options : Options} {bubbles : ById Bubble}

/-- Every bubble stands under its own id. -/
theorem keyed_locate (h : locate p registry options = .ok bubbles) : Keyed bubbles := by
  have step : ∀ {t : ById Bubble} {f : Found} {id : Int} {name : String}, Keyed t →
      Keyed (t.insert id (f.toBubble p.scopes id name)) := by
    intro t f id name ht e he
    rcases ById.mem_insertEntry he with rfl | he
    · rfl
    · exact ht e he
  have hstart : Keyed .empty := fun e he => absurd he List.not_mem_nil
  obtain ⟨_, hkeyed⟩ := recordAll_induction (fun _ t _ => Keyed t) (fun _ => step) h hstart
  exact hkeyed

/-- An entry is that of a construction. -/
def EntryOf (scopes : ScopeTree) (x : Int × Bubble) (f : Found) : Prop :=
  ∃ j name, f.identity? scopes j = some (x.1, name) ∧ x.2 = f.toBubble scopes x.1 name

/-- Every entry comes from a construction that was found. -/
theorem exists_entryOf_of_mem_entries (h : locate p registry options = .ok bubbles) :
    ∀ x ∈ bubbles.entries, ∃ f ∈ found p registry options, EntryOf p.scopes x f := by
  have hstart : (∀ x ∈ (ById.empty : ById Bubble).entries, ∃ f ∈ found p registry options,
      EntryOf p.scopes x f) ∧ ∀ g ∈ found p registry options, g ∈ found p registry options :=
    ⟨fun x hx => absurd hx List.not_mem_nil, fun g hg => hg⟩
  refine (recordAll_induction (fun _ t fs =>
    (∀ x ∈ t.entries, ∃ f ∈ found p registry options, EntryOf p.scopes x f) ∧
      ∀ g ∈ fs, g ∈ found p registry options) ?_ h hstart).elim fun _ hend => hend.1
  intro k t f fs id name hid hstate
  refine ⟨fun x hx => ?_, fun g hg => hstate.2 g (List.mem_cons_of_mem f hg)⟩
  rcases ById.mem_insertEntry hx with rfl | hx
  · exact ⟨f, hstate.2 f List.mem_cons_self, k, name, hid, rfl⟩
  · exact hstate.1 x hx

/-- A bubble has the location of a node with an extent of its own. -/
theorem exists_placed_of_mem_values (hroot : p.root.IsRoot)
    (h : locate p registry options = .ok bubbles) {b : Bubble} (hb : b ∈ bubbles.values) :
    ∃ n, Placed n ∧ b.location = n.location := by
  obtain ⟨e, he, rfl⟩ := List.mem_map.1 hb
  obtain ⟨f, hf, _, _, _, hbubble⟩ := exists_entryOf_of_mem_entries h e he
  rw [found_eq_flatMap] at hf
  obtain ⟨c, hc, hf⟩ := List.mem_flatMap.1 hf
  have hplaced := placed_of_mem_foundAt hroot hc hf
  refine ⟨f.node, hplaced.of_mem_descendants (offers_of_mem_foundAt hf).1.mem_descendants, ?_⟩
  rw [hbubble]
  rfl

/-- No two bubbles of a table start at the same place. -/
def Distinct (t : ById Bubble) : Prop :=
  ∀ b ∈ t.values, ∀ d ∈ t.values, b.location.startKey = d.location.startKey → b = d

/-- The state of a table while constructions are recorded: its bubbles start neither where another
does nor where one still to come does. -/
structure Separate (t : ById Bubble) (coming : List Found) : Prop where
  distinct : Distinct t
  ne : ∀ b ∈ t.values, ∀ f ∈ coming, b.location.startKey ≠ f.node.location.startKey
  pairwise : coming.Pairwise fun f g => f.node.start.key ≠ g.node.start.key

theorem separate_insert {scopes : ScopeTree} {t : ById Bubble} {f : Found} {fs : List Found}
    {id : Int} {name : String} (h : Separate t (f :: fs)) :
    Separate (t.insert id (f.toBubble scopes id name)) fs := by
  obtain ⟨hf, hfs⟩ := List.pairwise_cons.1 h.pairwise
  have hold : ∀ b ∈ t.values, b.location.startKey ≠ f.node.location.startKey := fun b hb =>
    h.ne b hb f List.mem_cons_self
  have hvalues : ∀ b ∈ (t.insert id (f.toBubble scopes id name)).values,
      b = f.toBubble scopes id name ∨ b ∈ t.values := by
    intro b hb
    obtain ⟨e, he, rfl⟩ := List.mem_map.1 hb
    rcases ById.mem_insertEntry he with rfl | he
    · exact .inl rfl
    · exact .inr (List.mem_map_of_mem he)
  refine ⟨fun b hb d hd heq => ?_, fun b hb g hg => ?_, hfs⟩
  · -- Only one of the two can be the new bubble, and the others start elsewhere.
    rcases hvalues b hb with rfl | hb <;> rcases hvalues d hd with rfl | hd
    · rfl
    · exact absurd heq.symm (hold d hd)
    · exact absurd heq (hold b hb)
    · exact h.distinct b hb d hd heq
  · rcases hvalues b hb with rfl | hb
    · exact fun heq => hf g hg (startKey_eq_iff.1 heq)
    · exact h.ne b hb g (List.mem_cons_of_mem _ hg)

/-- No two bubbles of a script start at the same place. -/
theorem distinct_locate (hroot : p.root.IsRoot) (h : locate p registry options = .ok bubbles) :
    Distinct bubbles := by
  have hstart : Separate .empty (found p registry options) :=
    ⟨fun b hb => absurd hb List.not_mem_nil, fun b hb => absurd hb List.not_mem_nil,
      found_pairwise_start_ne hroot registry options⟩
  obtain ⟨_, hend⟩ := recordAll_induction (fun _ => Separate) (fun _ => separate_insert) h hstart
  exact hend.distinct

/-! ### With their dependencies -/

theorem Keyed.withDependencies (h : Keyed bubbles) (registry : Registry) :
    Keyed (bubbles.map fun b => b.withDependencies registry) := by
  intro e he
  obtain ⟨e', he', rfl⟩ := List.mem_map.1 he
  exact h e' he'

theorem Distinct.withDependencies (h : Distinct bubbles) (registry : Registry) :
    Distinct (bubbles.map fun b => b.withDependencies registry) := by
  intro b hb d hd heq
  rw [ById.values_map] at hb hd
  obtain ⟨b', hb', rfl⟩ := List.mem_map.1 hb
  obtain ⟨d', hd', rfl⟩ := List.mem_map.1 hd
  rw [h b' hb' d' hd' heq]

end

end FlowAnalysis.Bubble
