import FlowAnalysis.Bubble.Parameters
import FlowAnalysis.Proofs.Script.Construction
import FlowAnalysis.Proofs.Script.Literal
import FlowAnalysis.Proofs.Text.Words
import Mathlib.Data.List.Infix
import Mathlib.Logic.Relation

/-!
# References to the environment of the process

A property or an element refers to the environment of the process when, along the accesses it
is made of, the innermost one is the property `env` of the name `process`
(`ReadsEnvironment`).  The type of a parameter is told by its text instead: blanks apart, it
has to open with one of two spellings.

The text of an operand is followed from left to right.  What goes on with an operand, a property
apart, differs from every ending of a spelling (`diverges_of_follows`), so a spelling that an
operand opens with lies in one property access at its start (`Operand.opens_resembling`).  The type
is therefore right up to two things: the access at the start only resembles the environment, or
something other than blanks stands inside it.
-/

namespace FlowAnalysis

open Script

/-! ### Texts without blanks -/

namespace Text

/-- A text without its blanks. -/
def compact (cs : List Char) : List Char := cs.filter fun c => !isBlank c

theorem compact_append (cs ds : List Char) : compact (cs ++ ds) = compact cs ++ compact ds :=
  List.filter_append cs ds

theorem compact_cons {c : Char} (h : isBlank c = false) (cs : List Char) :
    compact (c :: cs) = c :: compact cs :=
  List.filter_cons_of_pos (by rw [h, Bool.not_false])

end Text

/-- What two texts put together open with ends in the first or goes on in the second. -/
theorem prefix_append_cases {w a b : List Char} (h : w <+: a ++ b) :
    w <+: a ∨ ∃ s, s ≠ [] ∧ w = a ++ s ∧ s <+: b := by
  rcases List.prefix_or_prefix_of_prefix h (List.prefix_append a b) with hwa | ⟨s, rfl⟩
  · exact .inl hwa
  · by_cases hs : s = []
    · subst hs
      exact .inl (by rw [List.append_nil])
    · exact .inr ⟨s, hs, rfl, (List.prefix_append_right_inj a).1 h⟩

theorem mem_tails_append (a s : List Char) : s ∈ (a ++ s).tails :=
  (List.mem_tails s (a ++ s)).2 (List.suffix_append a s)

namespace Parameter

open Text (compact compact_append compact_cons)

/-! ### The spellings of the environment -/

/-- How a reference to the environment of the process is written, blanks apart. -/
def environmentSpellings : List (List Char) := ["process.env".toList, "process?.env".toList]

theorem isEnvironment_iff {text : String} :
    isEnvironment text = true ↔ ∃ w ∈ environmentSpellings, w <+: compact text.toList := by
  simp [isEnvironment, environmentSpellings, compact]

/-- A character that is in no spelling. -/
def IsForeign (c : Char) : Prop := ∀ w ∈ environmentSpellings, c ∉ w

/-- A text that differs from every ending of a spelling at some character of both. -/
def Diverges (cs : List Char) : Prop :=
  ∀ w ∈ environmentSpellings, ∀ s ∈ w.tails, s ≠ [] → ¬ s <+: cs ∧ ¬ cs <+: s

instance (cs : List Char) : Decidable (Diverges cs) :=
  inferInstanceAs (Decidable (∀ w ∈ environmentSpellings, ∀ s ∈ w.tails, s ≠ [] → ¬ s <+: cs ∧
    ¬ cs <+: s))

theorem Diverges.append {cs : List Char} (h : Diverges cs) (ds : List Char) :
    Diverges (cs ++ ds) := by
  intro w hw s hs hne
  obtain ⟨hsc, hcs⟩ := h w hw s hs hne
  refine ⟨fun hpre => ?_, fun hpre => hcs ((List.prefix_append cs ds).trans hpre)⟩
  rcases prefix_append_cases hpre with hpre | ⟨t, -, rfl, -⟩
  · exact hsc hpre
  · exact hcs (List.prefix_append cs t)

theorem not_mem_of_mem_tails {w s : List Char} {c : Char} (hc : IsForeign c)
    (hw : w ∈ environmentSpellings) (hs : s ∈ w.tails) : c ∉ s :=
  fun h => hc w hw (((List.mem_tails s w).1 hs).mem h)

/-- A foreign character after something that no ending of a spelling is the start of. -/
theorem diverges_append_cons {u cs : List Char} {c : Char}
    (hu : ∀ w ∈ environmentSpellings, ∀ s ∈ w.tails, s ≠ [] → ¬ s <+: u) (hc : IsForeign c) :
    Diverges (u ++ c :: cs) := by
  intro w hw s hs hne
  have hmem : c ∉ s := not_mem_of_mem_tails hc hw hs
  refine ⟨fun hpre => ?_, fun hpre => hmem (hpre.mem (by simp))⟩
  rcases prefix_append_cases hpre with hpre | ⟨t, ht, rfl, htc⟩
  · exact hu w hw s hs hne hpre
  · obtain ⟨d, t, rfl⟩ := List.exists_cons_of_ne_nil ht
    obtain ⟨rfl, -⟩ := List.cons_prefix_cons.1 htc
    exact hmem (by simp)

theorem diverges_cons {c : Char} (hc : IsForeign c) (cs : List Char) : Diverges (c :: cs) :=
  diverges_append_cons (u := []) (fun _ _ _ _ hne hpre => hne (List.prefix_nil.1 hpre)) hc

/-- A character without something that all characters of the spellings have. -/
theorem isForeign_of_all {p : Char → Bool} (hp : (environmentSpellings.all fun w => w.all p) = true)
    {c : Char} (h : p c = false) : IsForeign c := by
  intro w hw hc
  rw [List.all_eq_true.1 (List.all_eq_true.1 hp w hw) c hc] at h
  cases h

theorem isForeign_of_isSpacing {c : Char} (h : Lexeme.isSpacing c = true) : IsForeign c :=
  isForeign_of_all (p := fun c => !Lexeme.isSpacing c) (by decide) (by rw [h, Bool.not_true])

theorem isForeign_of_isMark {c : Char} (h : Lexeme.isMark c = true) (hdot : c ≠ '.')
    (hquery : c ≠ '?') : IsForeign c :=
  isForeign_of_all (p := fun c => !Lexeme.isMark c || c == '.' || c == '?') (by decide)
    (by simp [h, hdot, hquery])

/-- Blanks that are left in a text without blanks are foreign to the spellings. -/
theorem compact_spacing {blank : List Char} (h : ∀ b ∈ blank, Lexeme.isSpacing b = true) :
    compact blank = [] ∨ ∃ c cs, IsForeign c ∧ compact blank = c :: cs := by
  rcases hb : compact blank with - | ⟨c, cs⟩
  · exact .inl rfl
  · have hc : c ∈ compact blank := hb ▸ List.mem_cons_self
    exact .inr ⟨c, cs, isForeign_of_isSpacing (h c (List.mem_filter.1 hc).1), rfl⟩

theorem diverges_spacing {blank cs : List Char} (hb : ∀ b ∈ blank, Lexeme.isSpacing b = true)
    (h : Diverges (compact cs)) : Diverges (compact (blank ++ cs)) := by
  rw [compact_append]
  rcases compact_spacing hb with hnil | ⟨c, ds, hc, hcons⟩
  · rwa [hnil, List.nil_append]
  · rw [hcons, List.cons_append]
    exact diverges_cons hc _

theorem isBlank_of_isMark {c : Char} (h : Lexeme.isMark c = true) : Text.isBlank c = false := by
  simpa using Lexeme.of_isMark (p := fun c => !Text.isBlank c) (by decide) h

theorem compact_breaks {cs : List Char} (h : Breaks cs) :
    ∃ c ds, IsForeign c ∧ compact cs = c :: ds := by
  cases h with
  | @mk blank cs c hb hc hdot hquery =>
    rw [compact_append, compact_cons (isBlank_of_isMark hc)]
    rcases compact_spacing hb with hnil | ⟨d, ds, hd, hcons⟩
    · exact ⟨c, compact cs, isForeign_of_isMark hc hdot hquery, by rw [hnil, List.nil_append]⟩
    · exact ⟨d, _, hd, by rw [hcons, List.cons_append]⟩

/-- What goes on with an operand differs from every ending of a spelling. -/
theorem diverges_of_follows {cs : List Char} (h : Follows cs) : Diverges (compact cs) := by
  cases h with
  | mark h =>
    obtain ⟨c, ds, hc, hcs⟩ := compact_breaks h
    rw [hcs]
    exact diverges_cons hc ds
  | @word blank cs w hb hw =>
    have hwords : ∀ w ∈ followingWords, Diverges (compact w.toList) := by decide
    refine diverges_spacing hb ?_
    rw [compact_append]
    exact (hwords w hw).append _
  | @missing blank cs hb =>
    have hmarks : Diverges ['?', '?'] := by decide
    refine diverges_spacing hb ?_
    rw [compact_cons rfl, compact_cons rfl]
    exact hmarks.append (compact cs)
  | @optional blank cs hb h =>
    obtain ⟨c, ds, hc, hcs⟩ := compact_breaks h
    refine diverges_spacing hb ?_
    rw [compact_cons rfl, compact_cons rfl, hcs]
    exact diverges_append_cons (u := ['?', '.']) (by decide) hc

/-- Only `process` stands before the mark of a spelling, and its question mark before the dot. -/
theorem eq_of_append_mark {a s : List Char} (h : a ++ s ∈ environmentSpellings)
    (hs : s.head? = some '.' ∨ s.head? = some '?') :
    a = "process".toList ∨ a = "process?".toList := by
  have hcut : ∀ w ∈ environmentSpellings, ∀ k < w.length + 1,
      (w.drop k).head? = some '.' ∨ (w.drop k).head? = some '?' →
        w.take k = "process".toList ∨ w.take k = "process?".toList := by decide
  have := hcut _ h a.length (by rw [List.length_append]; omega)
  rw [List.drop_left, List.take_left] at this
  exact this hs

/-- No mark, digit or keyword opens like a spelling. -/
theorem head?_compact_of_opensFixed {cs : List Char} (h : OpensFixed cs) :
    (compact cs).head? ≠ some 'p' := by
  cases h with
  | @mark c cs h =>
    rw [compact_cons (isBlank_of_isMark h), List.head?_cons]
    rintro ⟨⟩
    cases h
  | @digit c cs h =>
    have hblank : Text.isBlank c = false :=
      Text.isBlank_of_digit (by simpa [Char.isDigit, Char.le_def] using h)
    rw [compact_cons hblank, List.head?_cons]
    rintro ⟨⟩
    cases h
  | @word w cs h =>
    have hwords : ∀ w ∈ openingWords, (compact w.toList).head?.any (· != 'p') = true := by decide
    obtain ⟨c, hc, hne⟩ := (Option.any_eq_true _ _).1 (hwords w h)
    rw [compact_append, List.head?_append, hc]
    simpa using hne

end Parameter

namespace Script.Node

open Parameter

/-! ### Accesses -/

/-- What a node is written with, blanks apart. -/
def compact (n : Node) : List Char := Text.compact n.text.toList

/-- A node is the property of an object with a name. -/
structure IsProperty (n object name : Node) : Prop where
  kind : n.kind = .memberExpression
  object_eq : n.child? .object = some object
  name_eq : n.child? .property = some name

/-- A node is a property or an element of an object. -/
structure IsAccess (n object : Node) : Prop where
  kind : n.kind = .memberExpression ∨ n.kind = .subscriptExpression
  object_eq : n.child? .object = some object

/-- The property `env` of the name `process`. -/
structure IsEnvironment (n object name : Node) : Prop extends IsProperty n object name where
  identifier : object.kind = .identifier
  process : object.text = "process"
  env : name.text = "env"

/-- A property that is taken for the environment: nothing but blanks and the mark stands between the
name `process` and the name of the property, which opens with `env`. -/
structure Resembles (n object name : Node) : Prop extends IsProperty n object name where
  identifier : object.kind = .identifier
  process : object.compact = "process".toList
  env : "env".toList <+: name.compact
  plain : n.compact = object.compact ++ ".".toList ++ name.compact ∨
    n.compact = object.compact ++ "?.".toList ++ name.compact

/-- One node is reached from another by accesses alone, from each to its object. -/
def Chain : Node → Node → Prop := Relation.ReflTransGen IsAccess

/-- One node is what another opens with. -/
def Starts : Node → Node → Prop := Relation.ReflTransGen fun n c => n.children.head? = some c

/-- The innermost of a chain of accesses is the property `env` of the name `process`. -/
def ReadsEnvironment (n : Node) : Prop := ∃ m object name, n.Chain m ∧ m.IsEnvironment object name

/-- A node opens with a property that is taken for the environment, and is not: something other than
accesses stands around it (a call, an operator), or one of the two names is another one. -/
def Mistaken (n : Node) : Prop :=
  ∃ m object name, n.Starts m ∧ m.Resembles object name ∧
    (¬ n.Chain m ∨ object.text ≠ "process" ∨ name.text ≠ "env")

/-- The environment is read, and something other than blanks stands inside the access to it. -/
def Missed (n : Node) : Prop :=
  ∃ m object name, n.Chain m ∧ m.IsEnvironment object name ∧ m.compact ∉ environmentSpellings

variable {n m object name : Node}

theorem compact_branch (k : Kind) (r : Option Role) (c : Node) (cs : List Node) :
    (branch k r (c :: cs)).compact = c.compact ++ Text.compact (sourceAll cs).toList := by
  rw [compact, text, textAll, String.toList_append, Text.compact_append]
  rfl

theorem compact_of_starts (h : n.Starts m) : m.compact <+: n.compact := by
  induction h with
  | refl => exact List.prefix_refl _
  | @tail b c _ hc ih =>
    refine .trans ?_ ih
    cases b with
    | token => cases hc
    | branch k r cs =>
      obtain ⟨rest, rfl⟩ := List.head?_eq_some_iff.1 hc
      rw [compact_branch]
      exact List.prefix_append _ _

/-! ### Where a spelling can stand -/

/-- Before a token that a spelling goes on in, there is neither a comment
nor a blank that is left. -/
theorem compact_sourceAll_of_tails {gaps rest : List Node} {t : Node} {w s : List Char}
    (hgaps : ∀ c ∈ gaps, IsGap c) (ht : t.Spaced) (hw : w ∈ environmentSpellings) (hs : s ∈ w.tails)
    (hne : s ≠ []) (hpre : s <+: Text.compact (sourceAll (gaps ++ t :: rest)).toList) :
    gaps = [] ∧
      Text.compact (sourceAll (t :: rest)).toList = t.compact ++
      Text.compact (sourceAll rest).toList := by
  have hforeign : ∀ {c : Char} {cs : List Char}, IsForeign c → ¬ s <+: c :: cs := fun hc =>
    (diverges_cons hc _ w hw s hs hne).1
  -- A comment opens with a slash, and the blanks that are left have no width: both are foreign.
  by_cases hnil : gaps = []
  · subst hnil
    obtain ⟨blank, hblank, hsource⟩ := ht.source_eq
    rw [List.nil_append] at hpre
    have hcut : Text.compact (sourceAll (t :: rest)).toList =
        Text.compact blank ++ (t.compact ++ Text.compact (sourceAll rest).toList) := by
      rw [sourceAll, String.toList_append, hsource, Text.compact_append, Text.compact_append,
        List.append_assoc]
      rfl
    rw [hcut] at hpre ⊢
    rcases compact_spacing hblank with hb | ⟨c, cs, hc, hb⟩
    · exact ⟨rfl, by rw [hb, List.nil_append]⟩
    · rw [hb] at hpre
      exact absurd hpre (hforeign hc)
  · obtain ⟨c, cs, hc, hcs⟩ := compact_breaks (breaks_of_gaps hgaps hnil (t :: rest))
    rw [hcs] at hpre
    exact absurd hpre (hforeign hc)

theorem Link.dot_mem {link : List Node} (h : Link link) :
    '.' ∈ Text.compact (sourceAll link).toList := by
  cases h with
  | @mk before after mark name _ hmark hdot _ _ _ _ =>
    obtain ⟨blank, -, hsource⟩ := hmark.source_eq
    have hmem : '.' ∈ mark.text.toList := by
      rcases hdot with hdot | hdot <;> rw [hdot] <;> decide
    refine List.mem_filter.2 ⟨?_, rfl⟩
    simp [sourceAll_append, sourceAll, hsource, hmem]

/-- An operand that stands before the mark of a spelling is a name. -/
theorem Operand.eq_process {s : List Char} (h : Operand n)
    (hw : n.compact ++ s ∈ environmentSpellings) (hs : s.head? = some '.' ∨ s.head? = some '?') :
    n.kind = .identifier ∧ n.compact = "process".toList := by
  have hcases := eq_of_append_mark hw hs
  cases h with
  | @name r p blank word h =>
    refine ⟨rfl, hcases.resolve_right fun hquery => ?_⟩
    have hmem : '?' ∈ compact (.token .identifier r p blank word) := by
      rw [hquery]
      decide
    exact absurd (h '?' (List.mem_filter.1 hmem).1 (by decide)) (by decide)
  | fixed _ h =>
    have hhead := head?_compact_of_opensFixed h
    rcases hcases with hn | hn <;> exact absurd (congrArg List.head? hn) hhead
  | @property r object link _ _ h =>
    -- The dot of this property is the only one of the spelling, so no mark is left.
    have hmem : '.' ∈ compact (.branch .memberExpression r (object :: link)) := by
      rw [compact_branch]
      exact List.mem_append_right _ h.dot_mem
    rcases hcases with hn | hn <;> rw [hn] at hmem <;> exact absurd hmem (by decide)
  | @further k r first rest _ _ h =>
    rw [compact_branch, List.append_assoc] at hw
    have hne : Text.compact (sourceAll rest).toList ++ s ≠ [] := by
      intro hnil
      rw [(List.append_eq_nil_iff.1 hnil).2] at hs
      rcases hs with hs | hs <;> cases hs
    exact absurd (List.prefix_append _ s)
      (diverges_of_follows h _ hw _ (mem_tails_append _ _) hne).2

theorem compact_of_dot (h : n.text = "." ∨ n.text = "?.") :
    n.compact = ".".toList ∨ n.compact = "?.".toList := by
  rw [compact]
  rcases h with h | h <;> rw [h]
  · exact .inl rfl
  · exact .inr rfl

/-- What a spelling goes on with in the link of a property is its mark. -/
theorem Link.head?_of_tails {link : List Node} {w s : List Char} (h : Link link)
    (hw : w ∈ environmentSpellings) (hs : s ∈ w.tails) (hne : s ≠ [])
    (hpre : s <+: Text.compact (sourceAll link).toList) :
    s.head? = some '.' ∨ s.head? = some '?' := by
  cases h with
  | mk hbefore hmark hdot _ _ _ _ =>
    obtain ⟨rfl, hsource⟩ := compact_sourceAll_of_tails hbefore hmark hw hs hne hpre
    rw [List.nil_append, hsource] at hpre
    obtain ⟨c, cs, rfl⟩ := List.exists_cons_of_ne_nil hne
    rcases compact_of_dot hdot with hm | hm <;> rw [hm] at hpre <;>
      obtain ⟨rfl, -⟩ := List.cons_prefix_cons.1 hpre
    · exact .inl rfl
    · exact .inr rfl

/-- The link of a property that a spelling goes on with behind `process` has
nothing but blanks in it. -/
theorem Link.plain_of_tails {link : List Node} {s : List Char} (h : Link link)
    (hw : "process".toList ++ s ∈ environmentSpellings)
    (hpre : s <+: Text.compact (sourceAll link).toList) :
    ∃ mark name, link = [mark, name] ∧ mark.role ≠ some .property ∧ name.role = some .property ∧
      "env".toList <+: name.compact ∧
        (Text.compact (sourceAll link).toList = ".".toList ++ name.compact ∨
          Text.compact (sourceAll link).toList = "?.".toList ++ name.compact) := by
  have hrest : s = ".env".toList ∨ s = "?.env".toList := by simpa [environmentSpellings] using hw
  have hends : ∀ w ∈ environmentSpellings, "env".toList ∈ w.tails := by decide
  cases h with
  | @mk before after mark name hbefore hmark hdot hrole hafter hname hproperty =>
    have hne : s ≠ [] := by
      rcases hrest with rfl | rfl <;> decide
    obtain ⟨rfl, hsource⟩ :=
      compact_sourceAll_of_tails hbefore hmark hw (mem_tails_append _ s) hne hpre
    rw [List.nil_append, hsource] at hpre
    have hmarks := compact_of_dot hdot
    -- The mark of the link is that of the spelling, or the two differ at their first character.
    have henv : "env".toList <+: Text.compact (sourceAll (after ++ [name])).toList := by
      rcases hrest with rfl | rfl <;> rcases hmarks with hm | hm <;> rw [hm] at hpre
      · exact (List.cons_prefix_cons.1 hpre).2
      · cases (List.cons_prefix_cons.1 hpre).1
      · cases (List.cons_prefix_cons.1 hpre).1
      · exact (List.cons_prefix_cons.1 (List.cons_prefix_cons.1 hpre).2).2
    obtain ⟨rfl, hlast⟩ := compact_sourceAll_of_tails hafter hname hw (hends _ hw) (by decide) henv
    have hcompact : Text.compact (sourceAll ([] ++ [name])).toList = name.compact :=
      hlast.trans (List.append_nil _)
    rw [hcompact] at henv hsource
    refine ⟨mark, name, rfl, ?_, hproperty, henv, ?_⟩
    · rcases hrole with hrole | hrole <;> rw [hrole] <;> decide
    · rw [List.nil_append, hsource]
      exact hmarks.imp (congrArg (· ++ name.compact)) (congrArg (· ++ name.compact))

/-- A property access in which a spelling goes on behind the object. -/
theorem resembles_of_link {r : Option Role} {link : List Node} {s : List Char} (ho : Operand object)
    (hr : object.role = some .object) (hl : Link link)
    (hw : object.compact ++ s ∈ environmentSpellings) (hne : s ≠ [])
    (hpre : s <+: Text.compact (sourceAll link).toList) :
    ∃ name, Resembles (.branch .memberExpression r (object :: link)) object name := by
  have hhead := hl.head?_of_tails hw (mem_tails_append _ s) hne hpre
  obtain ⟨hkind, hprocess⟩ := ho.eq_process hw hhead
  obtain ⟨mark, name, rfl, hmark, hproperty, henv, hplain⟩ := hl.plain_of_tails (hprocess ▸ hw) hpre
  refine ⟨name, ⟨rfl, child?_of_head? rfl hr, ?_⟩, hkind, hprocess, henv, ?_⟩
  · simp [child?, children, hr, hmark, hproperty]
  · rw [compact_branch, List.append_assoc, List.append_assoc]
    exact hplain.imp (congrArg (object.compact ++ ·)) (congrArg (object.compact ++ ·))

/-- An operand that opens with a spelling opens with a property that is
taken for the environment. -/
theorem Operand.opens_resembling {w : List Char} (h : Operand n) (hw : w ∈ environmentSpellings)
    (hpre : w <+: n.compact) : ∃ m object name, n.Starts m ∧ m.Resembles object name := by
  -- The spelling ends in what comes first, or goes on behind it, which only a property allows.
  induction h with
  | @name r p blank word h =>
    have hdots : ∀ w ∈ environmentSpellings, '.' ∈ w := by decide
    have hmem : '.' ∈ word.toList := (List.mem_filter.1 (hpre.mem (hdots w hw))).1
    exact absurd (h '.' hmem (by decide)) (by decide)
  | fixed _ h =>
    have hheads : ∀ w ∈ environmentSpellings, w.head? = some 'p' := by decide
    obtain ⟨rest, hrest⟩ := hpre
    refine absurd ?_ (head?_compact_of_opensFixed h)
    rw [← compact, ← hrest, List.head?_append, hheads w hw, Option.some_or]
  | property ho hr hl ih =>
    rw [compact_branch] at hpre
    rcases prefix_append_cases hpre with hpre | ⟨s, hne, rfl, hs⟩
    · obtain ⟨m, object, name, hm, hres⟩ := ih hpre
      exact ⟨m, object, name, .head rfl hm, hres⟩
    · obtain ⟨name, hres⟩ := resembles_of_link ho hr hl hw hne hs
      exact ⟨_, _, name, .refl, hres⟩
  | further _ _ h ih =>
    rw [compact_branch] at hpre
    rcases prefix_append_cases hpre with hpre | ⟨s, hne, rfl, hs⟩
    · obtain ⟨m, object, name, hm, hres⟩ := ih hpre
      exact ⟨m, object, name, .head rfl hm, hres⟩
    · exact absurd hs (diverges_of_follows h _ hw s (mem_tails_append _ s) hne).1

/-! ### Accesses of a tree -/

/-- A name has nothing below it. -/
theorem Operand.children_eq_nil (h : Operand n) (hk : n.kind = .identifier) : n.children = [] := by
  cases h with
  | name => rfl
  | fixed hp _ =>
    rw [hk] at hp
    cases hp
  | property => cases hk
  | further hne _ _ => exact absurd hk hne.1

namespace Placed

/-- A property or an element is an operand. -/
theorem operand (h : Placed n)
    (hk : n.kind = .memberExpression ∨ n.kind = .subscriptExpression) : Operand n := by
  have hne : n.children ≠ [] := h.children_ne_nil (by rcases hk with hk | hk <;> rw [hk])
  have hshaped := h.shaped hne
  cases n with
  | token => exact absurd rfl hne
  | branch k r cs =>
    rcases hk with rfl | rfl
    · cases hshaped with
      | mk ho hr hl => exact .property ho hr hl
    · cases hshaped with
      | mk ho hr hl => exact .further (by decide) ho hl

/-- A property or an element opens with its object. -/
theorem head?_of_isAccess (h : Placed n) (ha : n.IsAccess object) :
    n.children.head? = some object ∧ Operand object := by
  have hne : n.children ≠ [] := List.ne_nil_of_mem (mem_children_of_child? ha.object_eq)
  obtain ⟨c, hc⟩ := Option.isSome_iff_exists.1 (List.isSome_head?.2 hne)
  obtain ⟨hoperand, hrole⟩ : Operand c ∧ c.role = some .object := by
    have hshaped := h.shaped hne
    rcases ha.kind with hk | hk <;> rw [hk] at hshaped
    · exact Accesses.head hshaped hc
    · exact Accesses.head hshaped hc
  obtain rfl := Option.some.inj ((child?_of_head? hc hrole).symm.trans ha.object_eq)
  exact ⟨hc, hoperand⟩

theorem of_starts (h : Placed n) (hm : n.Starts m) : Placed m := by
  induction hm with
  | refl => exact h
  | tail _ hc ih => exact ih.of_mem_children (List.mem_of_mem_head? hc)

/-- A node opens with everything that it accesses. -/
theorem starts_of_chain (h : Placed n) (hm : n.Chain m) : n.Starts m := by
  induction hm with
  | refl => exact .refl
  | tail _ ha ih => exact ih.tail ((h.of_starts ih).head?_of_isAccess ha).1

end Placed

theorem IsProperty.isAccess (h : n.IsProperty object name) : n.IsAccess object :=
  ⟨.inl h.kind, h.object_eq⟩

/-- Below the property of a name there is no other property at the start. -/
theorem eq_of_starts {object' name' : Node} (hn : Placed n) (h : n.IsProperty object name)
    (hk : object.kind = .identifier) (hm : n.Starts m)
    (h' : m.IsProperty object' name') : m = n := by
  obtain ⟨hhead, hoperand⟩ := hn.head?_of_isAccess h.isAccess
  rcases hm.cases_head with rfl | ⟨c, hc, hcm⟩
  · rfl
  · -- The first child is the name, and a name has no children.
    obtain rfl := Option.some.inj (hhead.symm.trans hc)
    rcases hcm.cases_head with rfl | ⟨d, hd, -⟩
    · cases hk.symm.trans h'.kind
    · rw [hoperand.children_eq_nil hk] at hd
      cases hd

/-- A node opens with at most one property of a name. -/
theorem Placed.property_unique {m' object' name' : Node} (hn : Placed n) (hm : n.Starts m)
    (h : m.IsProperty object name) (hk : object.kind = .identifier) (hm' : n.Starts m')
    (h' : m'.IsProperty object' name') (hk' : object'.kind = .identifier) :
    m = m' ∧ object = object' ∧ name = name' := by
  have hright : Relator.RightUnique fun n c : Node => n.children.head? =
      some c := fun _ _ _ hb hc =>
    Option.some.inj (hb.symm.trans hc)
  -- What a node opens with is one descent along first children, so one of the
  -- two opens with the other.
  obtain rfl : m = m' := by
    rcases Relation.ReflTransGen.total_of_right_unique hright hm hm' with hs | hs
    · exact (eq_of_starts (hn.of_starts hm) h hk hs h').symm
    · exact eq_of_starts (hn.of_starts hm') h' hk' hs h
  exact ⟨rfl, Option.some.inj (h.object_eq.symm.trans h'.object_eq),
    Option.some.inj (h.name_eq.symm.trans h'.name_eq)⟩

/-- The property of a name is the innermost access, so it alone tells
whether the environment is read. -/
theorem not_readsEnvironment (h : n.IsProperty object name) (hk : object.kind = .identifier)
    (hname : name.text ≠ "env") : ¬ n.ReadsEnvironment := by
  rintro ⟨m, object', name', hchain, henv⟩
  rcases hchain.cases_head with rfl | ⟨c, hc, hcm⟩
  · obtain rfl := Option.some.inj (h.name_eq.symm.trans henv.name_eq)
    exact hname henv.env
  · obtain rfl := Option.some.inj (h.object_eq.symm.trans hc.object_eq)
    rcases hcm.cases_head with rfl | ⟨d, hd, -⟩
    · cases hk.symm.trans henv.kind
    · rcases hd.kind with hd | hd <;> cases hk.symm.trans hd

theorem mem_descendants_of_firstExpression? {script : ParsedScript}
    (h : firstExpression? script = some n) : n ∈ script.root.descendants := by
  obtain ⟨statement, hs, hn⟩ := Option.bind_eq_some_iff.1 h
  have hmem :=
    mem_descendants_of_mem_children (mem_children_of_mem_parts (List.mem_of_mem_head? hs))
  exact mem_descendants_trans hmem (mem_descendants_of_mem_children (mem_children_of_part? hn))

/-! ### Agreement with the structure -/

theorem Resembles.exists_spelling (h : n.Resembles object name) :
    ∃ w ∈ environmentSpellings, w <+: n.compact := by
  obtain ⟨rest, hrest⟩ := h.env
  rcases h.plain with hn | hn <;> rw [hn, h.process, ← hrest, ← List.append_assoc]
  · exact ⟨"process.env".toList, by decide, List.prefix_append _ rest⟩
  · exact ⟨"process?.env".toList, by decide, List.prefix_append _ rest⟩

/-- The environment is recognized exactly when nothing but blanks stands inside the access to it. -/
theorem IsEnvironment.resembles_iff (h : n.IsEnvironment object name) :
    n.Resembles object name ↔ n.compact ∈ environmentSpellings := by
  have ho : object.compact = "process".toList := by
    rw [compact, h.process]
    rfl
  have hname : name.compact = "env".toList := by
    rw [compact, h.env]
    rfl
  constructor
  · intro hn
    rcases hn.plain with hn | hn <;> rw [hn, ho, hname] <;> decide
  · intro hn
    refine ⟨h.toIsProperty, h.identifier, ho, by rw [hname], ?_⟩
    rw [ho, hname]
    simpa [environmentSpellings] using hn

/-- What a node opens with and what it accesses agree on the environment unless
it is mistaken or missed. -/
theorem Placed.opens_iff_readsEnvironment (hn : Placed n) :
    ((∃ m object name, n.Starts m ∧ m.Resembles object name) ↔ n.ReadsEnvironment) ↔
      ¬ n.Mistaken ∧ ¬ n.Missed := by
  have hsame : ∀ {m object name m' object' name' : Node}, n.Starts m → m.Resembles object name →
      n.Chain m' →
      m'.IsEnvironment object' name' → m = m' ∧ object = object' ∧
      name = name' := fun hm hres hchain henv =>
    hn.property_unique hm hres.toIsProperty hres.identifier (hn.starts_of_chain hchain)
      henv.toIsProperty
      henv.identifier
  constructor
  · intro hagree
    constructor
    · rintro ⟨m, object, name, hm, hres, hnot⟩
      obtain ⟨m', object', name', hchain, henv⟩ := hagree.1 ⟨m, object, name, hm, hres⟩
      obtain ⟨rfl, rfl, rfl⟩ := hsame hm hres hchain henv
      rcases hnot with hnot | hnot | hnot
      · exact hnot hchain
      · exact hnot henv.process
      · exact hnot henv.env
    · rintro ⟨m, object, name, hchain, henv, hnot⟩
      obtain ⟨m', object', name', hm, hres⟩ := hagree.2 ⟨m, object, name, hchain, henv⟩
      obtain ⟨rfl, rfl, rfl⟩ := hsame hm hres hchain henv
      exact hnot (henv.resembles_iff.1 hres)
  · rintro ⟨hmistaken, hmissed⟩
    constructor
    · rintro ⟨m, object, name, hm, hres⟩
      have hnot : ¬ (¬ n.Chain m ∨ object.text ≠ "process" ∨ name.text ≠ "env") := fun hnot =>
        hmistaken ⟨m, object, name, hm, hres, hnot⟩
      simp only [not_or, not_not] at hnot
      obtain ⟨hchain, hprocess, henv⟩ := hnot
      exact ⟨m, object, name, hchain, hres.toIsProperty, hres.identifier, hprocess, henv⟩
    · rintro ⟨m, object, name, hchain, henv⟩
      have hplain := not_not.1 fun hnot => hmissed ⟨m, object, name, hchain, henv, hnot⟩
      exact ⟨m, object, name, hn.starts_of_chain hchain, henv.resembles_iff.2 hplain⟩

end Script.Node

namespace Parameter

variable {n : Node}

theorem classify_access (hk : n.kind = .memberExpression ∨ n.kind = .subscriptExpression) :
    (classify n).1 = if isEnvironment n.text then .env else .reference := by
  rcases hk with hk | hk <;> simp [classify, ExpressionShape.of, hk]

/-- An access is of the type of the environment when it opens with what is taken for it. -/
theorem classify_eq_env_iff (hn : n.Placed)
    (hk : n.kind = .memberExpression ∨ n.kind = .subscriptExpression) :
    (classify n).1 = .env ↔ ∃ m object name, n.Starts m ∧ m.Resembles object name := by
  have henv : (classify n).1 = .env ↔ isEnvironment n.text = true := by
    rw [classify_access hk]
    split <;> simp [*]
  rw [henv, isEnvironment_iff]
  constructor
  · rintro ⟨w, hw, hpre⟩
    exact (hn.operand hk).opens_resembling hw hpre
  · rintro ⟨m, object, name, hm, hres⟩
    obtain ⟨w, hw, hpre⟩ := hres.exists_spelling
    exact ⟨w, hw, hpre.trans (Node.compact_of_starts hm)⟩

/-- **The type of a property or an element**, anywhere in a script, is that of the environment or
that of a variable.  It is that of the environment exactly when the expression opens with a property
of the name `process` that opens with `env`, with nothing but blanks and the mark between the two.
This tells the expressions whose innermost access is the property `env` of the name `process` from
all others, unless such a property is mistaken for that access or something stands inside it. -/
theorem environment_by_structure_iff {source : String} {script : ParsedScript}
    (hp : ParsedScript.parse? source = some script) (hn : n ∈ script.root.descendants)
    (hk : n.kind = .memberExpression ∨ n.kind = .subscriptExpression) :
    ((classify n).1 = .env ∨ (classify n).1 = .reference) ∧
      ((classify n).1 = .env ↔ ∃ m object name, n.Starts m ∧ m.Resembles object name) ∧
        (((classify n).1 = .env ↔ n.ReadsEnvironment) ↔ ¬ n.Mistaken ∧ ¬ n.Missed) := by
  have hplaced : n.Placed := by
    refine (ParsedScript.isRoot_of_parse? hp).placed hn ?_ ?_ <;> rcases hk with hk | hk <;>
      rw [hk] <;> decide
  have hiff := classify_eq_env_iff hplaced hk
  refine ⟨?_, hiff, ?_⟩
  · rw [classify_access hk]
    split
    · exact .inl rfl
    · exact .inr rfl
  · rw [hiff]
    exact hplaced.opens_iff_readsEnvironment

/-- An element of the environment, on two lines, and a property of it. -/
def elementScript : String := "process\n  ?.env['A'].b"

/-- The environment is recognized two accesses deep. -/
theorem environment_of_elementScript :
    ∃ script n, ParsedScript.parse? elementScript = some script ∧ n ∈ script.root.descendants ∧
      n.kind = .memberExpression ∧ (classify n).1 = .env ∧ n.ReadsEnvironment ∧ ¬ n.Mistaken ∧
      ¬ n.Missed := by
  have heval : ((ParsedScript.parse? elementScript).bind fun script =>
      (Node.firstExpression? script).bind fun n =>
      (n.child? .object).bind fun e => (e.child? .object).bind fun m =>
        (m.child? .object).bind fun object =>
        (m.child? .property).map fun name =>
          ((n.kind, e.kind, m.kind, object.kind), object.text, name.text, (classify n).1)) =
      some ((.memberExpression, .subscriptExpression, .memberExpression, .identifier), "process",
        "env", .env) := by
    decide +kernel
  obtain ⟨script, hp, he⟩ := Option.bind_eq_some_iff.1 heval
  obtain ⟨n, hn, he⟩ := Option.bind_eq_some_iff.1 he
  obtain ⟨e, hne, he⟩ := Option.bind_eq_some_iff.1 he
  obtain ⟨m, hem, he⟩ := Option.bind_eq_some_iff.1 he
  obtain ⟨object, hobject, he⟩ := Option.bind_eq_some_iff.1 he
  obtain ⟨name, hname, he⟩ := Option.map_eq_some_iff.1 he
  simp only [Prod.mk.injEq] at he
  obtain ⟨⟨hnk, hek, hmk, hok⟩, hprocess, henv, htype⟩ := he
  have hmem := Node.mem_descendants_of_firstExpression? hn
  have hreads : n.ReadsEnvironment :=
    ⟨m, object, name, .head ⟨.inl hnk, hne⟩ (.single ⟨.inr hek, hem⟩), ⟨hmk, hobject, hname⟩, hok,
      hprocess, henv⟩
  have hagree :=
    (environment_by_structure_iff hp hmem (.inl hnk)).2.2.1 ⟨fun _ => hreads, fun _ => htype⟩
  exact ⟨script, n, hp, hmem, hnk, htype, hreads, hagree⟩

/-- Another property of the process. -/
def longerNameScript : String := "process.environment"

/-- **A longer name that opens with `env` is taken for the environment.** -/
theorem environment_of_longerNameScript :
    ∃ script n, ParsedScript.parse? longerNameScript = some script ∧ n ∈ script.root.descendants ∧
      n.kind = .memberExpression ∧ (classify n).1 = .env ∧ ¬ n.ReadsEnvironment := by
  have heval : ((ParsedScript.parse? longerNameScript).bind fun script =>
      (Node.firstExpression? script).bind fun n => (n.child? .object).bind fun object =>
        (n.child? .property).map fun name => (n.kind, object.kind, name.text, (classify n).1)) =
      some (.memberExpression, .identifier, "environment", .env) := by
    decide +kernel
  obtain ⟨script, hp, he⟩ := Option.bind_eq_some_iff.1 heval
  obtain ⟨n, hn, he⟩ := Option.bind_eq_some_iff.1 he
  obtain ⟨object, hobject, he⟩ := Option.bind_eq_some_iff.1 he
  obtain ⟨name, hname, he⟩ := Option.map_eq_some_iff.1 he
  simp only [Prod.mk.injEq] at he
  obtain ⟨hnk, hok, htext, htype⟩ := he
  refine ⟨script, n, hp, Node.mem_descendants_of_firstExpression? hn, hnk, htype, ?_⟩
  refine Node.not_readsEnvironment ⟨hnk, hobject, hname⟩ hok ?_
  rw [htext]
  decide

end Parameter

end FlowAnalysis
