import FlowAnalysis.Proofs.Schema.Requests
import FlowAnalysis.Script.Parsed
import Mathlib.Data.List.Dedup
import Mathlib.Data.List.Perm.Subperm
import Mathlib.Order.WellFounded

/-!
# Declared names are expanded once

Declarations may refer to themselves and to each other in any way.  Along a nest of requests
(`Nested`) the names being expanded are exactly those that were expanded on the way
(`Nested.path_eq`), and a name is expanded only when it is not among them; so no name comes twice
(`Nested.nodup_path`), and a name that comes up again while it is being expanded is any object.
Together with the well-founded order of the requests this gives `expansion_terminates`.
-/

namespace FlowAnalysis

namespace Schema

variable {s : Setting} {r : Request}

/-- A request comes up in the course of another, each on the way being made by the one before.  The
names are those that are expanded on the way, the latest first. -/
inductive Nested (s : Setting) (r : Request) : List String → Request → Prop
  | start : Nested s r [] r
  | call {names : List String} {q p : Request} (h : Nested s r names q) (hp : p ∈ calls s q) :
      Nested s r (q.expanded ++ names) p

namespace Nested

variable {names : List String} {q : Request}

/-- **The names being expanded are those that were expanded on the way.** -/
theorem path_eq (h : Nested s r names q) : q.path = names ++ r.path := by
  induction h with
  | start => rfl
  | call _ hp ih => rw [(path_of_mem_calls hp).1, ih, List.append_assoc]

/-- **No name is expanded while it is being expanded.** -/
theorem nodup_path (h : Nested s r names q) (hr : r.path.Nodup) : q.path.Nodup := by
  induction h with
  | start => exact hr
  | @call _ q p _ hp ih =>
    obtain ⟨hpath, hfresh, -⟩ := path_of_mem_calls hp
    rw [hpath]
    cases q with
    | name path x => exact List.nodup_cons.2 ⟨(hfresh x (List.mem_singleton_self x)).1, ih⟩
    | _ => exact ih

/-- Only declared names are expanded. -/
theorem declared (h : Nested s r names q) : ∀ x ∈ names, x ∈ s.declarations.names := by
  induction h with
  | start => exact fun x hx => absurd hx List.not_mem_nil
  | call _ hp ih =>
    intro x hx
    rcases List.mem_append.1 hx with hx | hx
    · exact ((path_of_mem_calls hp).2.1 x hx).2
    · exact ih x hx

/-- A way can begin with one more request. -/
theorem cons {p : Request} (hq : q ∈ calls s r) (h : Nested s q names p) :
    Nested s r (names ++ r.expanded) p := by
  induction h with
  | start => exact List.append_nil r.expanded ▸ start.call hq
  | call _ hp ih => exact List.append_assoc .. ▸ ih.call hp

end Nested

/-- The request that is come to by taking the call of each number in turn, with the names
that are expanded on the way. -/
def follow (s : Setting) : Request → List Nat → Option (List String × Request)
  | r, [] => some ([], r)
  | r, i :: is => do
    let q ← (calls s r)[i]?
    let (names, p) ← follow s q is
    return (names ++ r.expanded, p)

theorem nested_of_follow {is : List Nat} {names : List String} {q : Request}
    (h : follow s r is = some (names, q)) : Nested s r names q := by
  induction is generalizing r names with
  | nil =>
    cases h
    exact .start
  | cons i is ih =>
    obtain ⟨p, hp, h⟩ := Option.bind_eq_some_iff.1 h
    obtain ⟨⟨more, t⟩, ht, h⟩ := Option.bind_eq_some_iff.1 h
    cases h
    exact .cons (List.mem_of_getElem? hp) (ih ht)

/-- A name that is being expanded is any object. -/
theorem named_of_mem {path : List String} {name : String} (h : name ∈ path) :
    named s path name = typed "object" := by
  rw [named, dif_pos h]

/-- **Conversion ends whatever the declarations are.**  For every request (of a type, a name or an
interface) there is a depth such that the answer takes no more rounds of requests than that, no
matter what a deeper request would be answered; a round looks at nothing but the answers to the
calls of a request, and there is no endless sequence of calls.  In a conversion that starts afresh
no name is expanded twice along any nest of requests, only declared names are expanded, and a name
that comes up while it is being expanded has the schema of any object. -/
theorem expansion_terminates (s : Setting) :
    (∀ r, ∃ depth, ∀ f, (respond s)^[depth] f r = answer s r) ∧
    (∀ r f g, (∀ q ∈ calls s r, f q = g q) → respond s f r = respond s g r) ∧
    (¬ ∃ requests : Nat → Request, ∀ i, requests (i + 1) ∈ calls s (requests i)) ∧
    ∀ r : Request, r.path = [] → ∀ names q, Nested s r names q →
      names.Nodup ∧ names.length ≤ s.declarations.names.dedup.length ∧
        (∀ x ∈ names, x ∈ s.declarations.names) ∧
        ∀ path x, q = .name path x → x ∈ names →
          (answer s q).toJson = .obj [("type", .str "object")] := by
  refine ⟨fun r => ?_, fun r f g h => respond_congr h, ?_, fun r hr names q h => ?_⟩
  · obtain ⟨depth, hdepth⟩ := exists_endsWithin s r
    exact ⟨depth, iterate_respond_eq_answer hdepth⟩
  · rintro ⟨requests, hrequests⟩
    obtain ⟨i, hi⟩ := @WellFounded.not_rel_apply_succ _ _ ⟨wellFounded_calls s⟩ requests
    exact hi (hrequests i)
  · have hpath : q.path = names := by rw [h.path_eq, hr, List.append_nil]
    have hnodup : names.Nodup := hpath ▸ h.nodup_path (hr ▸ List.nodup_nil)
    have hsub : names ⊆ s.declarations.names.dedup := fun x hx => List.mem_dedup.2 (h.declared x hx)
    refine ⟨hnodup, (hnodup.subperm hsub).length_le, h.declared, ?_⟩
    rintro path x rfl hx
    have hmem : x ∈ path := (show path = names from hpath) ▸ hx
    rw [answer, named_of_mem hmem]
    rfl

/-- An interface and an alias that refer to themselves and to each other, as a base, in
arrays, members and unions. -/
def cyclicTypes : String := "interface A extends B\x7ba:A[]\x7dtype B=Partial<A>|\x7bb:B\x7d"

/-- Expanding `A` comes to `B` and from there to `A` again, which is any object then. -/
theorem expansion_terminates_cyclicTypes :
    ∃ p, ParsedScript.parse? cyclicTypes = some p ∧
      let s : Setting := ⟨.ofRoot p.root, "Events"⟩
      Nested s (.name [] "A") ["B", "A"] (.name ["B", "A"] "A") ∧
      (named s ["B", "A"] "A").toJson = .obj [("type", .str "object")] := by
  have heval : ((ParsedScript.parse? cyclicTypes).bind fun p =>
      (follow ⟨.ofRoot p.root, "Events"⟩ (.name [] "A") [0, 0, 0, 0, 0, 0, 0]).map fun x =>
        (x.1, x.2.path, x.2.expanded)) = some (["B", "A"], ["B", "A"], ["A"]) := by
    decide +kernel
  obtain ⟨p, hp, he⟩ := Option.bind_eq_some_iff.1 heval
  obtain ⟨⟨names, q⟩, hfollow, he⟩ := Option.map_eq_some_iff.1 he
  simp only [Prod.mk.injEq] at he
  obtain ⟨rfl, hpath, hexpanded⟩ := he
  have hnested := nested_of_follow hfollow
  cases q with
  | name path x =>
    cases hpath
    cases hexpanded
    exact ⟨p, hp, hnested, ((expansion_terminates _).2.2.2 _ rfl _ _ hnested).2.2.2 _ _ rfl
      (by decide)⟩
  | _ => cases hexpanded

end Schema

end FlowAnalysis
