import FlowAnalysis.Proofs.Analysis.Checking
import FlowAnalysis.Proofs.Analysis.Result
import FlowAnalysis.Proofs.Dependency.Depth
import FlowAnalysis.Proofs.Json.Record

/-!
# The ids in a dependency tree

The id of a node spells the names and ranks on the way to it (`spell`).  Ranks are digits, so a dot
ends the rank before it, and only the mark before a rank has to be kept out of names for an id to be
read in one way (`spell_inj`).  Names may have dots.

Ranks are counted in one table for the whole tree, under the id of the node above and the name.  Two
facts carry the proof that they are the ranks among the nodes below one node:

* `within_expand`: what is made below the node of a trail counts only
  below trails that go on from it;
* `Counted`: before a use is expanded, the names before it are counted below its own trail, and
  nothing has been counted below the trails that are still to come.

So the ids are as expected (`numbered_expand`), no two nodes of a tree have the same id, and an id
gives the whole way to its node (`dependency_ids_distinct`).
-/

namespace FlowAnalysis

namespace DependencyNode

/-! ### Ids spell trails -/

/-- The id that a trail of names and ranks leads to, from the id of the root. -/
def spell (root : String) (trail : List (String × Nat)) : String :=
  trail.foldl (fun id e => s!"{id}.{e.1}#{e.2}") root

/-- No name on a trail has the mark that stands before a rank. -/
def Plain (trail : List (String × Nat)) : Prop := ∀ e ∈ trail, '#' ∉ e.1.toList

theorem plain_nil : Plain [] := fun _ h => absurd h List.not_mem_nil

theorem plain_cons {e : String × Nat} {t : List (String × Nat)} :
    Plain (e :: t) ↔ '#' ∉ e.1.toList ∧ Plain t := List.forall_mem_cons

theorem plain_append {t u : List (String × Nat)} : Plain (t ++ u) ↔ Plain t ∧ Plain u :=
  List.forall_mem_append

theorem spell_append (root : String) (t u : List (String × Nat)) :
    spell root (t ++ u) = spell (spell root t) u := List.foldl_append

theorem spell_concat (root : String) (t : List (String × Nat)) (name : String) (rank : Nat) :
    spell root (t ++ [(name, rank)]) = s!"{spell root t}.{name}#{rank}" := spell_append root t _

/-- The characters that a trail adds to an id. -/
def written (trail : List (String × Nat)) : List Char :=
  trail.flatMap fun e => '.' :: (e.1.toList ++ '#' :: Nat.toDigits 10 e.2)

theorem toList_spell (root : String) (t : List (String × Nat)) :
    (spell root t).toList = root.toList ++ written t := by
  induction t generalizing root with
  | nil => exact (List.append_nil _).symm
  | cons e t ih =>
    have hid : (s!"{root}.{e.1}#{e.2}").toList
        = root.toList ++ '.' :: (e.1.toList ++ '#' :: Nat.toDigits 10 e.2) := by
      have hparts : s!"{root}.{e.1}#{e.2}" = root ++ "." ++ e.1 ++ "#" ++ toString e.2 := rfl
      rw [hparts, Nat.toString_eq_ofList_toDigits]
      simp
    show (spell s!"{root}.{e.1}#{e.2}" t).toList = _
    rw [ih, hid, written, written, List.flatMap_cons, List.append_assoc]

/-- A list is cut at the first occurrence of a character in one way. -/
theorem eq_of_append_cons_eq {c : Char} {s s' u u' : List Char} (hs : c ∉ s) (hs' : c ∉ s')
    (h : s ++ c :: u = s' ++ c :: u') : s = s' ∧ u = u' := by
  induction s generalizing s' with
  | nil =>
    cases s' with
    | nil => exact ⟨rfl, (List.cons.inj h).2⟩
    | cons d s' => exact absurd ((List.cons.inj h).1 ▸ List.mem_cons_self) hs'
  | cons d s ih =>
    cases s' with
    | nil => exact absurd ((List.cons.inj h).1 ▸ List.mem_cons_self) hs
    | cons d' s' =>
      obtain ⟨rfl, htail⟩ := List.cons.inj h
      obtain ⟨rfl, rfl⟩ := ih (fun hm => hs (List.mem_cons_of_mem _ hm))
        (fun hm => hs' (List.mem_cons_of_mem _ hm)) htail
      exact ⟨rfl, rfl⟩

theorem dot_not_mem_toDigits (n : Nat) : '.' ∉ Nat.toDigits 10 n := fun h =>
  absurd (Nat.isDigit_of_mem_toDigits (by decide) (by decide) h) (by decide)

theorem dot_not_mem_toString (id : Int) : '.' ∉ (toString id).toList := by
  cases id with
  | ofNat n =>
    rw [Number.toList_toString_ofNat]
    exact dot_not_mem_toDigits n
  | negSucc n =>
    rw [Number.toList_toString_negSucc, List.mem_cons]
    exact not_or.2 ⟨by decide, dot_not_mem_toDigits (n + 1)⟩

/-- What stands before the first dot and the trail behind it can be read off the characters. -/
theorem written_inj {s s' : List Char} {t t' : List (String × Nat)} (hs : '.' ∉ s) (hs' : '.' ∉ s')
    (ht : Plain t) (ht' : Plain t') (h : s ++ written t = s' ++ written t') : s = s' ∧ t = t' := by
  induction t generalizing s s' t' with
  | nil =>
    cases t' with
    | nil => simpa [written] using h
    | cons e t' =>
      refine absurd ?_ hs
      rw [← List.append_nil s, show [] = written [] from rfl, h]
      simp [written]
  | cons e t ih =>
    cases t' with
    | nil =>
      refine absurd ?_ hs'
      rw [← List.append_nil s', show [] = written [] from rfl, ← h]
      simp [written]
    | cons e' t' =>
      obtain ⟨he, ht⟩ := plain_cons.1 ht
      obtain ⟨he', ht'⟩ := plain_cons.1 ht'
      simp only [written, List.flatMap_cons, List.cons_append, List.append_assoc] at h
      -- The first dot ends what stands before, the first mark ends the name,
      -- and the next dot the rank.
      obtain ⟨rfl, hbehind⟩ := eq_of_append_cons_eq hs hs' h
      obtain ⟨hname, hnumbers⟩ := eq_of_append_cons_eq he he' hbehind
      obtain ⟨hdigits, rfl⟩ := ih (dot_not_mem_toDigits _) (dot_not_mem_toDigits _) ht ht' hnumbers
      exact ⟨rfl,
        congrArg (· :: t) (Prod.ext (String.toList_inj.1 hname) (Number.toDigits_inj hdigits))⟩

/-- **An id is read in one way**: it gives the id of the root and the trail. -/
theorem spell_inj {root root' : String} {t t' : List (String × Nat)} (hroot : '.' ∉ root.toList)
    (hroot' : '.' ∉ root'.toList) (ht : Plain t) (ht' : Plain t')
    (h : spell root t = spell root' t') : root = root' ∧ t = t' := by
  have hlist := congrArg String.toList h
  rw [toList_spell, toList_spell] at hlist
  obtain ⟨hs, rfl⟩ := written_inj hroot hroot' ht ht' hlist
  exact ⟨String.toList_inj.1 hs, rfl⟩

/-! ### Counting -/

theorem Ranks.lookup_next (r : Ranks) (parent name : String) (key : String × String) :
    (r.next parent name).2.lookup key
      = if key = (parent, name) then some (r.next parent name).1 else r.lookup key := by
  show List.lookup key (((parent, name), (r.next parent name).1) :: r) = _
  rw [List.lookup_cons]
  by_cases h : key = (parent, name)
  · rw [if_pos h, beq_iff_eq.2 h]
  · rw [if_neg h, beq_false_of_ne h]

/-- Only names below the node of a trail, or below nodes under it, have been counted in between. -/
def Within (root : String) (t : List (String × Nat)) (before later : Ranks) : Prop :=
  ∀ id, (∀ rest, Plain rest → id ≠ spell root (t ++ rest)) →
    ∀ name, later.lookup (id, name) = before.lookup (id, name)

/-- The names that have been counted below the node of a trail are given, and nothing has been
counted below the nodes that come after them. -/
structure Counted (root : String) (t : List (String × Nat)) (names : List String) (r : Ranks) :
    Prop where
  own : ∀ name, (r.lookup (spell root t, name)).getD 0 = names.count name
  ahead : ∀ name rank rest, names.count name < rank → Plain ((name, rank) :: rest) →
    ∀ lower, r.lookup (spell root (t ++ (name, rank) :: rest), lower) = none

/-- A use whose name and tools are without the mark. -/
def PlainUse (u : String × DependencyInstance) : Prop :=
  '#' ∉ u.1.toList ∧ ∀ tool ∈ u.2.tools, '#' ∉ tool.toList

section

variable {root : String} {t : List (String × Nat)} {names : List String} {r later : Ranks}
  {name : String}

theorem Within.refl (root : String) (t : List (String × Nat)) (r : Ranks) : Within root t r r :=
  fun _ _ _ => rfl

theorem Within.trans {middle : Ranks} (h : Within root t r middle)
    (h' : Within root t middle later) : Within root t r later :=
  fun id hid lower => (h' id hid lower).trans (h id hid lower)

/-- Counting a name below a node, and what stands below the name after that, is within the node. -/
theorem Within.of_next (hname : '#' ∉ name.toList)
    (h : Within root (t ++ [(name, (r.next (spell root t) name).1)])
      (r.next (spell root t) name).2 later) : Within root t r later := by
  intro id hid lower
  have hbelow : later.lookup (id, lower) = (r.next (spell root t) name).2.lookup (id, lower) := by
    refine h id (fun rest hrest => ?_) lower
    rw [List.append_assoc]
    exact hid _ (plain_cons.2 ⟨hname, hrest⟩)
  have hne : id ≠ spell root t := by
    have := hid [] plain_nil
    rwa [List.append_nil] at this
  rw [hbelow, Ranks.lookup_next, if_neg fun heq => hne (congrArg Prod.fst heq)]

/-- The next rank of a name is the number of times it has been counted, and one. -/
theorem Counted.next_eq (h : Counted root t names r) (name : String) :
    (r.next (spell root t) name).1 = names.count name + 1 :=
  congrArg (· + 1) (h.own name)

section

variable (hroot : '.' ∉ root.toList) (ht : Plain t) (hname : '#' ∉ name.toList)

include hroot ht in
/-- A trail that goes on has another id. -/
theorem spell_ne_of_cons {e : String × Nat} {rest : List (String × Nat)} (h : Plain (e :: rest)) :
    spell root (t ++ e :: rest) ≠ spell root t := by
  intro heq
  have htrail := (spell_inj hroot hroot (plain_append.2 ⟨ht, h⟩) ht heq).2
  have hlength := congrArg List.length htrail
  rw [List.length_append, List.length_cons] at hlength
  omega

include hroot ht hname

/-- Nothing has been counted below a node that has just been counted itself. -/
theorem Counted.below (h : Counted root t names r) :
    Counted root (t ++ [(name, names.count name + 1)]) [] (r.next (spell root t) name).2 := by
  -- A trail that goes on by this name with this rank is not yet known, before and after.
  have hnone : ∀ rest, Plain rest → ∀ lower, (r.next (spell root t) name).2.lookup
      (spell root (t ++ (name, names.count name + 1) :: rest), lower) = none := by
    intro rest hrest lower
    have hplain : Plain ((name, names.count name + 1) :: rest) := plain_cons.2 ⟨hname, hrest⟩
    have hne := spell_ne_of_cons hroot ht hplain
    rw [Ranks.lookup_next, if_neg fun heq => hne (congrArg Prod.fst heq)]
    exact h.ahead name _ rest (Nat.lt_succ_self _) hplain lower
  constructor
  · intro lower
    rw [hnone [] plain_nil lower]
    rfl
  · intro n k rest _ hplain lower
    rw [List.append_assoc]
    exact hnone _ hplain lower

/-- When all that stands below a name has been made, the name has been counted. -/
theorem Counted.concat (h : Counted root t names r)
    (hwithin : Within root (t ++ [(name, names.count name + 1)])
      (r.next (spell root t) name).2 later) : Counted root t (names ++ [name]) later := by
  have hrank := h.next_eq name
  constructor
  · intro n
    have hsame : later.lookup (spell root t, n)
        = (r.next (spell root t) name).2.lookup (spell root t, n) := by
      refine hwithin _ (fun rest hrest heq => ?_) n
      rw [List.append_assoc] at heq
      exact spell_ne_of_cons hroot ht (plain_cons.2 ⟨hname, hrest⟩) heq.symm
    rw [hsame, Ranks.lookup_next, List.count_append, List.count_singleton]
    by_cases hn : n = name
    · subst hn
      rw [if_pos rfl, hrank]
      simp
    · have hkey : (spell root t, n) ≠ (spell root t, name) := fun heq => hn (congrArg Prod.snd heq)
      rw [if_neg hkey, h.own]
      simp [Ne.symm hn]
  · intro n k rest hk hplain lower
    rw [List.count_append] at hk
    have hsame : later.lookup (spell root (t ++ (n, k) :: rest), lower)
        = (r.next (spell root t) name).2.lookup (spell root (t ++ (n, k) :: rest), lower) := by
      refine hwithin _ (fun rest' hrest' heq => ?_) lower
      have hplain' : Plain ((name, names.count name + 1) :: rest') := plain_cons.2 ⟨hname, hrest'⟩
      rw [List.append_assoc] at heq
      have htrail := (spell_inj hroot hroot (plain_append.2 ⟨ht, hplain⟩)
        (plain_append.2 ⟨ht, hplain'⟩) heq).2
      have hhead := (List.cons.inj (List.append_cancel_left htrail)).1
      -- The same name with a rank that has been given out already.
      rw [(Prod.mk.inj hhead).1, (Prod.mk.inj hhead).2, List.count_singleton_self] at hk
      omega
    have hne := spell_ne_of_cons hroot ht hplain
    rw [hsame, Ranks.lookup_next, if_neg fun heq => hne (congrArg Prod.fst heq)]
    exact h.ahead n k rest (by omega) hplain lower

end

end

/-! ### The ids of expanded uses -/

/-- The rank of a name at a place in a list of nodes: one more than the number of
nodes of the name before. -/
def rank (ns : List DependencyNode) (i : Nat) (name : String) : Nat :=
  ((ns.take i).map (·.name)).count name + 1

/-- Every id in a tree below the root is that of the node above, with the name and the rank. -/
def Numbered (n : DependencyNode) : Prop :=
  ∀ p k i m, n.at? p = some k → k.dependencies[i]? = some m →
    m.uniqueId = s!"{k.uniqueId}.{m.name}#{rank k.dependencies i m.name}"

theorem numbered_of_dependencies {n : DependencyNode}
    (h : ∀ i m, n.dependencies[i]? = some m →
      m.uniqueId = s!"{n.uniqueId}.{m.name}#{rank n.dependencies i m.name}" ∧ m.Numbered) :
    n.Numbered := by
  intro p k i m hk hm
  cases p with
  | nil =>
    obtain rfl := Option.some.inj hk
    exact (h i m hm).1
  | cons j p =>
    obtain ⟨c, hc, hk⟩ := Option.bind_eq_some_iff.1 hk
    exact (h j c hc).2 p k i m hk hm

section

variable {registry : Registry} (hnames : ∀ d ∈ registry.descriptors, ∀ n ∈ d.directNames,
  '#' ∉ n.toList)

include hnames

theorem plainUse_of_mem_lowerUses {path : List String} {use u : String × DependencyInstance}
    (h : PlainUse use) (hu : u ∈ lowerUses registry path use) : PlainUse u :=
  forall_lowerUses (S := fun n => '#' ∉ n.toList) (fun hd _ => hnames _ hd) h.1 h.2 u hu

/-- What is made below the node of a trail counts only below trails that go on from it. -/
theorem within_expand (root : String) :
    (∀ path use parent ranks, PlainUse use → ∀ t, parent = spell root t →
      Within root t ranks (expand registry path use parent ranks).2) ∧
    ∀ path us parent ranks, (∀ u ∈ us, PlainUse u) → ∀ t, parent = spell root t →
      Within root t ranks (expandAll registry path us parent ranks).2 := by
  refine expand_induction registry ?below ?nil ?cons
  case below =>
    intro path use parent ranks ih huse t hparent
    subst hparent
    rw [expand_eq]
    refine .of_next huse.1 (ih (fun u => plainUse_of_mem_lowerUses hnames huse) _ ?_)
    exact (spell_concat root t _ _).symm
  case nil =>
    intro path parent ranks _ t _
    rw [expandAll]
    exact .refl root t ranks
  case cons =>
    intro path u us parent ranks ihu ihus hus t hparent
    obtain ⟨hu, hus⟩ := List.forall_mem_cons.1 hus
    rw [expandAll]
    exact (ihu hu t hparent).trans (ihus hus t hparent)

/-- The names before a use and the use itself have been counted when the use has been expanded. -/
theorem Counted.expand {root : String} {t : List (String × Nat)} {names : List String}
    {ranks : Ranks} (hroot : '.' ∉ root.toList) (ht : Plain t) (h : Counted root t names ranks)
    (path : List String) {use : String × DependencyInstance} (huse : PlainUse use) :
    Counted root t (names ++ [use.1])
      (DependencyNode.expand registry path use (spell root t) ranks).2 := by
  rw [expand_eq]
  refine h.concat hroot ht huse.1 ?_
  refine (within_expand hnames root).2 _ _ _ _ (fun u => plainUse_of_mem_lowerUses hnames huse) _ ?_
  rw [h.next_eq, spell_concat]

/-- **Ranks are counted as they stand in the tree.**  Uses that are expanded below the node of a
trail get the ids of the trails that go on by their names, each with its rank behind the names
counted before, and so does everything below them. -/
theorem numbered_expand {root : String} (hroot : '.' ∉ root.toList) :
    (∀ path use parent ranks, PlainUse use → ∀ t names, parent = spell root t → Plain t →
      Counted root t names ranks →
        (expand registry path use parent ranks).1.uniqueId
            = s!"{parent}.{use.1}#{names.count use.1 + 1}" ∧
          (expand registry path use parent ranks).1.Numbered) ∧
    ∀ path us parent ranks, (∀ u ∈ us, PlainUse u) → ∀ t names, parent = spell root t → Plain t →
      Counted root t names ranks →
        ∀ i m, (expandAll registry path us parent ranks).1[i]? = some m →
          m.uniqueId
              = s!"{parent}.{m.name}#{(names ++ (us.map (·.1)).take i).count m.name + 1}" ∧
            m.Numbered := by
  refine expand_induction registry ?below ?nil ?cons
  case below =>
    intro path use parent ranks ih huse t names hparent ht hcounted
    subst hparent
    rw [expand_eq]
    dsimp only
    refine ⟨by rw [hcounted.next_eq], numbered_of_dependencies fun i m hm => ?_⟩
    -- Below the new node the count begins anew, under the trail that goes on by its name and rank.
    have hplain : Plain (t ++ [(use.1, names.count use.1 + 1)]) :=
      plain_append.2 ⟨ht, plain_cons.2 ⟨huse.1, plain_nil⟩⟩
    have hspell : s!"{spell root t}.{use.1}#{(ranks.next (spell root t) use.1).1}"
        = spell root (t ++ [(use.1, names.count use.1 + 1)]) := by
      rw [hcounted.next_eq, spell_concat]
    obtain ⟨hid, hnumbered⟩ :=
      ih (fun u => plainUse_of_mem_lowerUses hnames huse) _ [] hspell hplain
      (hcounted.below hroot ht huse.1) i m hm
    refine ⟨?_, hnumbered⟩
    have hgrown := (grown_expand registry).2 (path.insert use.1) (lowerUses registry path use)
      s!"{spell root t}.{use.1}#{(ranks.next (spell root t) use.1).1}"
      (ranks.next (spell root t) use.1).2
    rw [hid, rank, List.map_take, hgrown.map_name, List.nil_append]
  case nil =>
    intro path parent ranks _ t names _ _ _ i m hm
    rw [expandAll] at hm
    cases hm
  case cons =>
    intro path u us parent ranks ihu ihus hus t names hparent ht hcounted i m hm
    obtain ⟨hu, hus⟩ := List.forall_mem_cons.1 hus
    rw [expandAll] at hm
    cases i with
    | zero =>
      obtain rfl := Option.some.inj hm
      have hname := ((grown_expand registry).1 path u parent ranks).name_eq
      rw [List.take_zero, List.append_nil, hname]
      exact ihu hu t names hparent ht hcounted
    | succ i =>
      -- The first use has been counted when the others are expanded.
      have hnext : Counted root t (names ++ [u.1]) (expand registry path u parent ranks).2 := by
        rw [hparent]
        exact hcounted.expand hnames hroot ht path hu
      have hrest := ihus hus t (names ++ [u.1]) hparent ht hnext i m hm
      rwa [List.append_assoc] at hrest

end

/-! ### The way to a node -/

/-- The names and ranks on the way from the root to the node at a place. -/
def trail (n : DependencyNode) : Place → List (String × Nat)
  | [] => []
  | i :: p => (n.dependencies[i]?).elim [] fun m =>
    (m.name, rank n.dependencies i m.name) :: trail m p

section

variable {n m k : DependencyNode} {p q : Place}

theorem trail_cons {i : Nat} (h : n.dependencies[i]? = some m) (p : Place) :
    n.trail (i :: p) = (m.name, rank n.dependencies i m.name) :: m.trail p := by
  rw [trail, h]
  rfl

theorem Numbered.of_mem (h : n.Numbered) {i : Nat} (hm : n.dependencies[i]? = some m) :
    m.Numbered := by
  intro p k j c hk hc
  exact h (i :: p) k j c (by rw [at?, hm]; exact hk) hc

/-- The id of a node spells the way to it. -/
theorem Numbered.uniqueId_eq (h : n.Numbered) (hp : n.at? p = some m) :
    m.uniqueId = spell n.uniqueId (n.trail p) := by
  induction p generalizing n with
  | nil =>
    obtain rfl := Option.some.inj hp
    rfl
  | cons i p ih =>
    obtain ⟨c, hc, hm⟩ := Option.bind_eq_some_iff.1 hp
    rw [ih (h.of_mem hc) hm, trail_cons hc, h [] n i c rfl hc]
    rfl

theorem plain_trail (h : ∀ c ∈ n.dependencies, ∀ k ∈ c.walk, '#' ∉ k.name.toList) (p : Place) :
    Plain (n.trail p) := by
  induction p generalizing n with
  | nil => exact plain_nil
  | cons i p ih =>
    cases hc : n.dependencies[i]? with
    | none =>
      rw [trail, hc]
      exact plain_nil
    | some c =>
      have hmem : c ∈ n.dependencies := List.mem_of_getElem? hc
      rw [trail_cons hc]
      refine plain_cons.2 ⟨h c hmem c (self_mem_walk c), ih fun d hd k hk => ?_⟩
      exact h c hmem k (mem_walk_of_mem hd hk)

/-- Nodes of one name below one node have different ranks. -/
theorem rank_lt {ns : List DependencyNode} {i j : Nat} (hi : ns[i]? = some m) (hlt : i < j) :
    rank ns i m.name < rank ns j m.name := by
  have hsub : ((ns.take i).map (·.name)) ++ [m.name] <+: (ns.take j).map (·.name) := by
    have htake : ns.take (i + 1) = ns.take i ++ [m] := by
      rw [List.take_add_one, hi, Option.toList_some]
    have hprefix : ns.take (i + 1) <+: ns.take j := List.take_prefix_take_left hlt
    have := hprefix.map (·.name)
    rwa [htake, List.map_append, List.map_singleton] at this
  have hcount := hsub.sublist.count_le m.name
  rw [List.count_append, List.count_singleton_self] at hcount
  rw [rank, rank]
  omega

/-- Different places have different trails. -/
theorem eq_of_trail_eq (hp : n.at? p = some m) (hq : n.at? q = some k) (h : n.trail p = n.trail q) :
    p = q := by
  induction p generalizing n q with
  | nil =>
    cases q with
    | nil => rfl
    | cons j q =>
      obtain ⟨d, hd, -⟩ := Option.bind_eq_some_iff.1 hq
      rw [trail_cons hd] at h
      cases h
  | cons i p ih =>
    obtain ⟨c, hc, hm⟩ := Option.bind_eq_some_iff.1 hp
    cases q with
    | nil =>
      rw [trail_cons hc] at h
      cases h
    | cons j q =>
      obtain ⟨d, hd, hk⟩ := Option.bind_eq_some_iff.1 hq
      rw [trail_cons hc, trail_cons hd] at h
      obtain ⟨hstep, htrail⟩ := List.cons.inj h
      obtain ⟨hname, hrank⟩ := Prod.mk.inj hstep
      rw [← hname] at hrank
      have hij : i = j := by
        rcases Nat.lt_trichotomy i j with hlt | heq | hlt
        · have := rank_lt hc hlt
          omega
        · exact heq
        · have := rank_lt hd hlt
          rw [← hname] at this
          omega
      subst hij
      obtain rfl : c = d := Option.some.inj (hc.symm.trans hd)
      rw [ih hm hk htrail]

end

end DependencyNode

/-! ### The tree of a bubble -/

namespace Bubble

open DependencyNode

/-- No dependency, no tool of a use and no tool configured for the bubble has the mark that stands
before a rank in its name. -/
def Unmarked (b : Bubble) (registry : Registry) : Prop :=
  ∀ d ∈ registry.descriptors, ∀ n ∈ b.successors registry d, '#' ∉ n.toList

instance (b : Bubble) (registry : Registry) : Decidable (b.Unmarked registry) :=
  inferInstanceAs
    (Decidable (∀ d ∈ registry.descriptors, ∀ n ∈ b.successors registry d, '#' ∉ n.toList))

section

variable {registry : Registry} {b : Bubble}

theorem Unmarked.directNames (h : b.Unmarked registry) :
    ∀ d ∈ registry.descriptors, ∀ n ∈ d.directNames, '#' ∉ n.toList := fun d hd n hn =>
  h d hd n (mem_successors.2 (.inl hn))

theorem Unmarked.ownTools (h : b.Unmarked registry) (hr : registry.Named) :
    ∀ t ∈ b.ownTools registry, '#' ∉ t.toList := by
  intro t ht
  obtain ⟨d, hget, hagent, ht⟩ := mem_ownTools.1 ht
  obtain ⟨hd, hname⟩ := hr.get?_eq_some_iff.1 hget
  exact h d hd t (mem_successors.2 (.inr ⟨hname, hagent, ht⟩))

theorem Unmarked.plainUse (h : b.Unmarked registry) (hr : registry.Named) :
    ∀ u ∈ lowerUses registry [] (b.bubbleName, { tools := b.ownTools registry }), PlainUse u := by
  intro u hu
  obtain ⟨i, hi⟩ := List.mem_iff_getElem?.1 hu
  obtain ⟨d, hd, ⟨hmem, -⟩ | ⟨-, huse⟩⟩ := lowerUses_cases hi
  · cases hmem
  · have htools : ∀ t ∈ (if d.isAgent then b.ownTools registry else []), '#' ∉ t.toList := by
      intro t ht
      split at ht
      · exact h.ownTools hr t ht
      · cases ht
    exact forall_uses (S := fun n => '#' ∉ n.toList)
      (h.directNames d (List.mem_of_find?_eq_some hd)) htools u (List.mem_of_getElem? huse)

/-- The ids in the tree of a bubble are numbered as they stand in it. -/
theorem Unmarked.numbered (h : b.Unmarked registry) (hr : registry.Named) :
    (b.dependencyTree registry).Numbered := by
  refine numbered_of_dependencies fun i m hm => ?_
  have hnone : DependencyNode.Counted (toString b.variableId) [] [] [] :=
    ⟨fun _ => rfl, fun _ _ _ _ _ _ => rfl⟩
  have hdependencies := dependencies_dependencyTree hr b
  rw [hdependencies] at hm
  obtain ⟨hid, hnumbered⟩ := (numbered_expand h.directNames (dot_not_mem_toString b.variableId)).2
    [b.bubbleName] _ _ [] (h.plainUse hr) [] [] rfl plain_nil hnone i m hm
  refine ⟨?_, hnumbered⟩
  rw [hid, rank, List.map_take, (grown_dependencyTree hr b).all.map_name]
  rfl

/-- The names on the way to a node of the tree of a bubble are without the mark. -/
theorem Unmarked.plain_trail (h : b.Unmarked registry) (hr : registry.Named) (p : Place) :
    Plain ((b.dependencyTree registry).trail p) := by
  refine DependencyNode.plain_trail (fun c hc k hk => ?_) p
  obtain ⟨i, hi⟩ := List.mem_iff_getElem?.1 hc
  obtain ⟨u, hu, hgrown⟩ := (grown_dependencyTree hr b).exists_use hi
  obtain ⟨hname, htools⟩ := h.plainUse hr u (List.mem_of_getElem? hu)
  exact hgrown.forall_name (S := fun n => '#' ∉ n.toList) (fun hd _ => h.directNames _ hd)
    hname htools
    k hk

end

/-- An id in the trees of two bubbles gives the id of the bubble and the way to the node. -/
theorem trail_eq_of_uniqueId_eq {registry registry' : Registry} {b b' : Bubble}
    (hr : registry.Named) (hr' : registry'.Named) (h : b.Unmarked registry)
    (h' : b'.Unmarked registry') {p q : Place} {m k : DependencyNode}
    (hp : (b.dependencyTree registry).at? p = some m)
    (hq : (b'.dependencyTree registry').at? q = some k) (hid : m.uniqueId = k.uniqueId) :
    b.variableId = b'.variableId ∧
      (b.dependencyTree registry).trail p = (b'.dependencyTree registry').trail q := by
  rw [(h.numbered hr).uniqueId_eq hp, (h'.numbered hr').uniqueId_eq hq] at hid
  obtain ⟨hroot, htrail⟩ := spell_inj (dot_not_mem_toString b.variableId)
    (dot_not_mem_toString b'.variableId) (h.plain_trail hr p) (h'.plain_trail hr' q) hid
  exact ⟨Number.toString_inj hroot, htrail⟩

/-- No two nodes in the tree of a bubble have the same id. -/
theorem Unmarked.eq_of_uniqueIdAt? {registry : Registry} {b : Bubble} (h : b.Unmarked registry)
    (hr : registry.Named) {p q : Place} {id : String}
    (hp : (b.dependencyTree registry).uniqueIdAt? p = some id)
    (hq : (b.dependencyTree registry).uniqueIdAt? q = some id) : p = q := by
  obtain ⟨m, hm, rfl⟩ := Option.map_eq_some_iff.1 hp
  obtain ⟨k, hk, hid⟩ := Option.map_eq_some_iff.1 hq
  exact eq_of_trail_eq hm hk (trail_eq_of_uniqueId_eq hr hr h h hm hk hid.symm).2

end Bubble

/-! ### The analysis of a script -/

namespace Analysis

theorem eq_repeatedDependency_of_code {v : Violation}
    (h : (Problem.ofViolation v).cause.code = "E004") :
    ∃ id uniqueId, v = .repeatedDependency id uniqueId := by
  cases v with
  | repeatedDependency id uniqueId => exact ⟨id, uniqueId, rfl⟩
  | unknownLeaf | unreferenced | repeatedLeaf | anonymousOrder | missingLeaf =>
    exact absurd h (by simp [Problem.ofViolation, Cause.code, Violation.code])

/-- The check of the ids finds nothing when no name of a dependency or a tool has the mark. -/
theorem repeatedDependencies_drafted {p : ParsedScript} {registry : Registry} {options : Options}
    {located : ById Bubble} (hr : registry.Named) (h : ∀ b ∈ located.values, b.Unmarked registry) :
    (drafted p registry options located).repeatedDependencies = [] := by
  rw [repeatedDependencies_eq_nil_iff, drafted, ById.values_map, List.forall_mem_map]
  intro b hb tree htree i j id hi hj
  obtain rfl := Option.some.inj htree
  exact (h b hb).eq_of_uniqueIdAt? hr hi hj

end Analysis

/-- **The ids in a dependency tree are distinct and give the way to their nodes**, for every
registry that has been filled with descriptors and every bubble for which no name of a dependency or
a tool has the mark before a rank.  The id of a node is that of the node above it, a dot, the name,
the mark and the rank among the nodes of the name below the same node; and nodes with the same id,
in one tree or in two, have the same names and ranks on the way from the root.  So no analysis of a
script fails because an id comes again. -/
theorem dependency_ids_distinct (ds : List Descriptor) :
    let registry := Registry.ofDescriptors ds
    (∀ b : Bubble, b.Unmarked registry →
      let tree := b.dependencyTree registry
      (tree.walk.map (·.uniqueId)).Nodup ∧
      (∀ p n i m, tree.at? p = some n → n.dependencies[i]? = some m →
        m.uniqueId = s!"{n.uniqueId}.{m.name}#{DependencyNode.rank n.dependencies i m.name}") ∧
      ∀ ds' (b' : Bubble), b'.Unmarked (.ofDescriptors ds') →
        let tree' := b'.dependencyTree (.ofDescriptors ds')
        ∀ p q m k, tree.at? p = some m → tree'.at? q = some k → m.uniqueId = k.uniqueId →
          b.variableId = b'.variableId ∧ tree.trail p = tree'.trail q) ∧
    ∀ p options, (∀ located, Bubble.locate p registry options = .ok located →
        ∀ b ∈ located.values, b.Unmarked registry) →
      ∀ problems, Analysis.ofScript p registry options = .error problems →
        ∀ q ∈ problems, q.cause.code ≠ "E004" := by
  intro registry
  have hr : registry.Named := Registry.named_ofDescriptors ds
  constructor
  · intro b hb tree
    refine ⟨?_, hb.numbered hr, ?_⟩
    · rw [tree.lists_uniqueIds.nodup_iff]
      exact fun p q id => hb.eq_of_uniqueIdAt? hr
    · intro ds' b' hb' tree' p q m k hm hk hid
      exact Bubble.trail_eq_of_uniqueId_eq hr (Registry.named_ofDescriptors ds') hb hb' hm hk hid
  · intro p options hlocated problems herror q hq hcode
    obtain ⟨located, v, hl, rfl, hv⟩ | ⟨u, -, rfl⟩ := Analysis.exists_violation_of_mem herror hq
    · obtain ⟨id, uniqueId, rfl⟩ := Analysis.eq_repeatedDependency_of_code hcode
      have hmem := Analysis.repeatedDependency_mem_violations_iff.1 hv
      rw [Analysis.repeatedDependencies_drafted hr (hlocated located hl)] at hmem
      cases hmem
    · exact absurd hcode (by simp [Cause.code])

/-- A bubble that uses a name with a dot twice, and a name that this one begins with. -/
def dotted : List Descriptor :=
  [{ name := "pair", className := "Pair", dependencyDetails := [⟨"a.b", [{}, {}]⟩, ⟨"a", []⟩] },
   { name := "a", className := "A", dependencies := ["b"] }]

/-- A bubble without a variable. -/
def pairBubble : Bubble := { Bubble.agentBubble with bubbleName := "pair", variableId := -1 }

open DependencyNode in
/-- The second use of the name with a dot has rank two, and the name `b` below `a` has another id
than the name `a.b`; and a script whose analysis fails does not fail because of an id. -/
theorem dependency_ids_dotted :
    let tree := pairBubble.dependencyTree (.ofDescriptors dotted)
    pairBubble.Unmarked (.ofDescriptors dotted) ∧ (tree.walk.map (·.uniqueId)).Nodup ∧
      (∃ m, tree.at? [1] = some m ∧ m.uniqueId = "-1.a.b#2") ∧
      (∃ k, tree.at? [2, 0] = some k ∧ k.uniqueId = "-1.a#1.b#1") ∧
      ∃ p problems, ParsedScript.parse? Analysis.targetScript = some p ∧
        Analysis.ofScript p Analysis.oneClass {} = .error problems ∧ problems ≠ [] ∧
          ∀ q ∈ problems, q.cause.code ≠ "E004" := by
  intro tree
  have hunmarked : pairBubble.Unmarked (.ofDescriptors dotted) := by decide +kernel
  obtain ⟨hnodup, hids, -⟩ := (dependency_ids_distinct dotted).1 pairBubble hunmarked
  have hgrown := Bubble.grown_dependencyTree (Registry.named_ofDescriptors dotted) pairBubble
  have hnames : tree.dependencies.map (·.name) = ["a.b", "a.b", "a"] := by
    rw [hgrown.all.map_name]
    decide +kernel
  have huses : lowerUses (.ofDescriptors dotted) [] (pairBubble.bubbleName,
      { tools := pairBubble.ownTools (.ofDescriptors dotted) })
        = [("a.b", ({} : DependencyInstance)), ("a.b", {}), ("a", {})] := by
    decide +kernel
  obtain ⟨m, hm, hgrownm⟩ := hgrown.exists_node (i := 1) (by rw [huses]; rfl)
  obtain ⟨n, hn, hgrownn⟩ := hgrown.exists_node (i := 2) (by rw [huses]; rfl)
  have hbelow : n.dependencies.map (·.name) = ["b"] := by
    rw [hgrownn.all.map_name]
    decide +kernel
  obtain ⟨k, hk, hgrownk⟩ := hgrownn.exists_node (i := 0) (u := ("b", {})) (by decide +kernel)
  have hidm := hids [] tree 1 m rfl hm
  have hidn := hids [] tree 2 n rfl hn
  have hidk := hids [2] n 0 k (by simp [at?, hn]) hk
  rw [rank, List.map_take, hnames, hgrownm.name_eq] at hidm
  rw [rank, List.map_take, hnames, hgrownn.name_eq] at hidn
  rw [rank, List.map_take, hbelow, hgrownk.name_eq, hidn] at hidk
  refine ⟨hunmarked, hnodup, ⟨m, by simp [at?, tree, hm], hidm⟩,
    ⟨k, by simp [at?, tree, hn, hk], hidk⟩, ?_⟩
  obtain ⟨p, located, b, c, hp, hl, hvalues, hb, hbl, hc, hcl⟩ :=
    Analysis.exists_located_targetScript
  obtain ⟨problems, herror, hmem⟩ := (Analysis.exists_error_iff hl (.anonymousOrder (-2) (-1) 1)).2
    (Analysis.anonymousOrder_mem_violations_iff.2 (by
      rw [Analysis.misnumbered_targetScript hvalues hb hbl hc hcl]
      exact List.mem_cons_self))
  refine ⟨p, problems, hp, herror, List.ne_nil_of_mem hmem, ?_⟩
  refine (dependency_ids_distinct [{ name := "a", className := "A", nodeType := .service }]).2 p {}
    ?_
    problems herror
  -- The one class has no dependencies and is no agent.
  intro located' _ b' _ d hd s hs
  obtain rfl := List.mem_singleton.1 hd
  rcases Bubble.mem_successors.1 hs with hdirect | ⟨-, hagent, -⟩
  · exact absurd hdirect List.not_mem_nil
  · exact absurd hagent (by decide)

end FlowAnalysis
