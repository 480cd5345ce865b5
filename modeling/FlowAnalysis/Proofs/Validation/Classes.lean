import FlowAnalysis.Proofs.Bubble.Sites
import FlowAnalysis.Proofs.Validation.Parameters

/-!
# Unregistered classes

A class that is constructed must be registered when the script imports it from the bubble
package, or when it has the name of a bubble and the script does not declare it.  The rule looks
a class up by itself, under the imported and under the written name, and reports a name once per
line.  `unregistered_classes_exact` says that this comes to what the locator does: a name is
reported on a line exactly when it must be a bubble class, is constructed there, and stands for
nothing (`Registry.resolve?`).
-/

namespace FlowAnalysis

open Script

/-! ### Imports -/

namespace ByName

variable {α : Type}

/-- A table of entries has the names of the entries. -/
theorem get?_ofList_eq_none_iff {es : List (String × α)} {name : String} :
    (ofList es).get? name = none ↔ ∀ a, (name, a) ∉ es := by
  induction es using List.reverseRecOn with
  | nil => simp [ofList, empty, get?]
  | append_singleton es e ih =>
    obtain ⟨k, a⟩ := e
    have hlast : ofList (es ++ [(k, a)]) = (ofList es).insert k a := List.foldl_concat ..
    rw [hlast, get?_insert]
    split
    · next hk =>
      subst hk
      constructor
      · intro h
        cases h
      · intro h
        exact absurd (List.mem_append_right es List.mem_cons_self) (h a)
    · next hk =>
      rw [ih]
      simp [hk]

end ByName

namespace Script.Node

/-- A part of an import names what is exported, and the name under which the script
knows it when that is another. -/
def Specifies (i : Node) (name exported : String) : Prop :=
  ∃ original, i.child? .name = some original ∧ original.text = exported ∧
    ((i.child? .newName).getD original).text = name

/-- A statement imports from a module. -/
def From (s : Node) (module : String) : Prop :=
  s.kind = .importStatement ∧ ∃ source, s.child? .source = some source ∧
    Text.dropEnd Text.isQuote (Text.dropStart Text.isQuote source.text) = module

/-- A script imports by name what a module exports. -/
def ImportsAs (root : Node) (module name exported : String) : Prop :=
  ∃ s ∈ root.parts, s.From module ∧
    ∃ i ∈ s.descendants, i.kind = .importSpecifier ∧ i.Specifies name exported

/-- A script declares a class of a name, at any depth. -/
def Declares (root : Node) (name : String) : Prop :=
  ∃ c ∈ root.descendants,
    (c.kind = .classDeclaration ∨ c.kind = .abstractClassDeclaration ∨ c.kind = .classExpression) ∧
      ∃ n, c.child? .name = some n ∧ n.text = name

/-- What a node constructs is called by a plain name. -/
def Calls (n : Node) (name : String) : Prop :=
  ∃ c, n.child? .constructor = some c ∧ c.kind = .identifier ∧ c.text = name

theorem importedName?_eq_some_iff {i : Node} {name exported : String} :
    i.importedName? = some (name, exported) ↔ i.Specifies name exported := by
  simp only [importedName?, Option.bind_eq_bind, Option.bind_eq_some_iff, Specifies]
  refine exists_congr fun original => and_congr_right fun _ => ?_
  cases i.child? .newName <;> simp [and_comm]

theorem mem_importsFrom_iff {s : Node} {module name exported : String} :
    (name, exported) ∈ s.importsFrom module ↔
      s.From module ∧ ∃ i ∈ s.descendants, i.kind = .importSpecifier ∧
      i.Specifies name exported := by
  rw [importsFrom, From]
  by_cases hk : s.kind = .importStatement
  · rw [if_neg (by simp [hk])]
    cases s.child? .source with
    | none => simp
    | some source =>
      by_cases hm : Text.dropEnd Text.isQuote (Text.dropStart Text.isQuote source.text) = module
      · simp [hk, hm, importedName?_eq_some_iff, and_assoc]
      · simp [hm]
  · rw [if_pos (by simp [hk])]
    simp [hk]

/-- A name has no import exactly when the script imports nothing under it. -/
theorem get?_imports_eq_none_iff {root : Node} {module name : String} :
    (root.imports module).get? name = none ↔ ∀ exported, ¬ root.ImportsAs module name exported := by
  rw [imports, ByName.get?_ofList_eq_none_iff]
  simp only [List.mem_flatMap, mem_importsFrom_iff, ImportsAs]

theorem mem_declaredClasses_iff {root : Node} {name : String} :
    name ∈ Validation.declaredClasses root ↔ root.Declares name := by
  simp [Validation.declaredClasses, Declares, and_assoc, or_assoc]

theorem Calls.unique {n : Node} {name name' : String} (h : n.Calls name) (h' : n.Calls name') :
    name = name' := by
  obtain ⟨c, hc, -, rfl⟩ := h
  obtain ⟨c', hc', -, rfl⟩ := h'
  rw [hc] at hc'
  rw [Option.some.inj hc']

theorem className?_eq_some_iff {c : Construction} {name : String} :
    c.className? = some name ↔ c.node.Calls name := by
  simp [Construction.className?, Calls, Option.bind_eq_some_iff]

end Script.Node

/-- A name stands for nothing when neither what it imports nor the name itself is registered. -/
theorem Registry.resolve?_eq_none_iff {registry : Registry} {imports : ByName String}
    {name : String} :
    registry.resolve? imports name = none ↔
      registry.forClass? ((imports.get? name).getD name) = none ∧
      registry.forClass? name = none := by
  cases h : imports.get? name with
  | none => simp [resolve?, h]
  | some exported => cases he : registry.forClass? exported <;> simp [resolve?, h, he]

namespace Validation

/-! ### Each use once -/

/-- What tells two uses apart: the name and the line. -/
def useKey (u : String × String × Nat) : String × Nat := (u.1, u.2.2)

theorem mem_of_mem_onceEach {seen : List (String × Nat)} {us : List (String × String × Nat)}
    {u : String × String × Nat} (h : u ∈ onceEach seen us) : u ∈ us := by
  induction us generalizing seen with
  | nil => exact h
  | cons v us ih =>
    rw [onceEach] at h
    split at h
    · exact List.mem_cons_of_mem _ (ih h)
    · rcases List.mem_cons.1 h with rfl | h
      · exact List.mem_cons_self
      · exact List.mem_cons_of_mem _ (ih h)

theorem mem_map_onceEach_iff {seen : List (String × Nat)} {us : List (String × String × Nat)}
    {k : String × Nat} :
    k ∈ (onceEach seen us).map useKey ↔ k ∈ us.map useKey ∧ k ∉ seen := by
  induction us generalizing seen with
  | nil => simp [onceEach]
  | cons v us ih =>
    rw [onceEach]
    by_cases hv : useKey v ∈ seen
    · rw [if_pos (by simpa [useKey] using hv), ih]
      grind
    · rw [if_neg (by simpa [useKey] using hv), List.map_cons, List.mem_cons, ih]
      grind [useKey]

theorem nodup_map_onceEach (seen : List (String × Nat)) (us : List (String × String × Nat)) :
    ((onceEach seen us).map useKey).Nodup := by
  induction us generalizing seen with
  | nil => exact .nil
  | cons v us ih =>
    rw [onceEach]
    split
    · exact ih seen
    · rw [List.map_cons]
      refine List.nodup_cons.2 ⟨fun hm => ?_, ih _⟩
      exact (mem_map_onceEach_iff.1 hm).2 List.mem_cons_self

/-! ### What must be registered -/

/-- A name must be that of a bubble class: the script imports it from the bubble package, or does
not, and the name is that of a bubble and of no class that the script declares. -/
def Expected (root : Node) (package name : String) : Prop :=
  (∃ exported, root.ImportsAs package name exported) ∨
    (∀ exported, ¬ root.ImportsAs package name exported) ∧
      "Bubble".toList <:+ name.toList ∧ ¬ root.Declares name

/-- A name is constructed on a line, must be that of a bubble class, and stands for
nothing that the locator finds. -/
structure Unresolved (p : ParsedScript) (registry : Registry) (options : Options) (name : String)
    (line : Nat) : Prop where
  constructed : ∃ c ∈ p.root.descendants, c.kind = .newExpression ∧ c.Calls name ∧ c.line = line
  expected : Expected p.root options.bubblePackage name
  unresolved : registry.resolve? (p.root.imports options.bubblePackage) name = none

/-- The class under which a name of the script is looked up: what it imports, or the name itself. -/
def classOf (imports : ByName String) (name : String) : String := (imports.get? name).getD name

theorem bubbleClass?_eq_some_iff {root : Node} {package name className : String} :
    bubbleClass? (root.imports package) (declaredClasses root) name = some className ↔
      classOf (root.imports package) name = className ∧ Expected root package name := by
  rw [bubbleClass?, classOf, Expected]
  -- What a name of a bubble ends in does not matter here.
  generalize "Bubble".toList = ending
  cases h : (root.imports package).get? name with
  | some exported =>
    have himports : ∃ e, root.ImportsAs package name e := by
      by_contra hnone
      rw [Node.get?_imports_eq_none_iff.2 (not_exists.1 hnone)] at h
      cases h
    simp [himports]
  | none =>
    have hnone := Node.get?_imports_eq_none_iff.1 h
    simp [hnone, Node.mem_declaredClasses_iff, and_comm]

section

variable {p : ParsedScript} {registry : Registry} {options : Options} {name className : String}
  {line : Nat}

theorem mem_unregistered_iff :
    (name, className, line) ∈ unregistered p registry options ↔
      classOf (p.root.imports options.bubblePackage) name = className ∧
        Unresolved p registry options name line := by
  simp only [unregistered, List.mem_filterMap, Option.bind_eq_bind]
  constructor
  · rintro ⟨n, hn, h⟩
    obtain ⟨hmem, hkind⟩ := List.mem_filter.1 hn
    obtain ⟨c, hc, h⟩ := Option.bind_eq_some_iff.1 h
    split at h
    · next hplain =>
      obtain ⟨k, hk, h⟩ := Option.bind_eq_some_iff.1 h
      obtain ⟨rfl, hexpected⟩ := bubbleClass?_eq_some_iff.1 hk
      split at h
      · cases h
      · next hnone =>
        cases h
        -- The rule asks for both names at once where the locator tries one after the other.
        have hresolve : registry.resolve? (p.root.imports options.bubblePackage) c.text = none := by
          rw [Registry.resolve?_eq_none_iff]
          simpa [classOf] using hnone
        exact ⟨rfl, ⟨n, hmem, eq_of_beq hkind, ⟨c, hc, eq_of_beq hplain, rfl⟩, rfl⟩, hexpected,
          hresolve⟩
    · cases h
  · rintro ⟨hclass, ⟨n, hmem, hkind, ⟨c, hc, hplain, rfl⟩, rfl⟩, hexpected, hresolve⟩
    refine ⟨n, List.mem_filter.2 ⟨hmem, by simp [hkind]⟩, ?_⟩
    have hk := bubbleClass?_eq_some_iff.2 ⟨hclass, hexpected⟩
    obtain ⟨himported, hwritten⟩ := Registry.resolve?_eq_none_iff.1 hresolve
    rw [← classOf, hclass] at himported
    simp [hc, hplain, hk, himported, hwritten]

theorem mem_keys_unregistered_iff :
    (name, line) ∈ (unregistered p registry options).map useKey ↔
      Unresolved p registry options name line := by
  constructor
  · intro h
    obtain ⟨⟨n, className, l⟩, hu, hkey⟩ := List.mem_map.1 h
    cases hkey
    exact (mem_unregistered_iff.1 hu).2
  · intro h
    exact List.mem_map.2 ⟨_, mem_unregistered_iff.2 ⟨rfl, h⟩, rfl⟩

end

/-! ### What is reported -/

/-- The problems of the bubble classes are those of the structure that have their code. -/
theorem filter_structural (p : ParsedScript) (registry : Registry) (options : Options) :
    (structural p registry options).filter (fun q => q.cause.code = "V007")
      = bubbleClasses p registry options := by
  obtain ⟨qs, hqs, hcodes⟩ := exists_structural_eq p registry options
  have hnone : qs.filter (fun q => q.cause.code = "V007") = [] := by
    refine List.filter_eq_nil_iff.2 fun q hq hcode => ?_
    exact absurd (of_decide_eq_true hcode ▸ hcodes q hq) (by decide)
  have hall : (bubbleClasses p registry options).filter (fun q => q.cause.code = "V007")
      = bubbleClasses p registry options :=
    List.filter_eq_self.2 fun q hq => decide_eq_true (code_of_mem_bubbleClasses hq)
  rw [hqs, List.filter_append, hnone, hall, List.nil_append]

/-- What is reported is told by the name and the line alone. -/
theorem bubbleClasses_eq (p : ParsedScript) (registry : Registry) (options : Options) :
    bubbleClasses p registry options
      = ((onceEach [] (unregistered p registry options)).map useKey).map fun u =>
          ⟨.unregisteredClass (classOf (p.root.imports options.bubblePackage) u.1), some u.2⟩ := by
  rw [bubbleClasses, List.map_map]
  refine List.map_congr_left fun u hu => ?_
  obtain ⟨name, className, line⟩ := u
  obtain ⟨hclass, -⟩ := mem_unregistered_iff.1 (mem_of_mem_onceEach hu)
  simp [useKey, hclass]

/-! ### Agreement with the locator -/

/-- What the locator records is one of the constructions, of a plain name
that stands for the class. -/
theorem calls_of_mem_found {p : ParsedScript} {registry : Registry} {options : Options}
    {f : Bubble.Found} (h : f ∈ Bubble.found p registry options) :
    f.construction.node ∈ constructions p.root ∧
      ∃ name, f.construction.node.Calls name ∧
        registry.resolve? (p.root.imports options.bubblePackage) name =
        some (f.className, f.descriptor) := by
  rw [Bubble.found_eq_flatMap] at h
  obtain ⟨c, hc, hf⟩ := List.mem_flatMap.1 h
  obtain ⟨hoffers, hwraps⟩ := Bubble.offers_of_mem_foundAt hf
  obtain ⟨s, -, hs⟩ := List.mem_filterMap.1 hf
  obtain ⟨-, -, name, hname, hresolve⟩ := Bubble.Found.of?_spec hs
  have hmem : f.construction.node ∈ p.root.descendants :=
    Node.mem_descendants_trans (Cursor.node_mem_descendants hc)
      (Node.mem_descendants_trans hoffers.mem_descendants hwraps.mem_descendants)
  refine ⟨List.mem_filter.2 ⟨hmem, by simp [hwraps.kind_new]⟩, name, ?_, hresolve⟩
  exact Node.className?_eq_some_iff.1 hname

/-- **The rule about bubble classes agrees with the locator.**  There is one problem for each name
and line of an unresolved construction, and no other with that code, and it names the class under
which the name is looked up.  So nothing is reported of a construction that the locator records:
neither the name it calls, on whatever line, nor the class that the locator finds. -/
theorem unregistered_classes_exact (p : ParsedScript) (registry : Registry) (options : Options) :
    (∃ uses : List (String × Nat), uses.Nodup ∧
      (∀ name line, (name, line) ∈ uses ↔ Unresolved p registry options name line) ∧
      (structural p registry options).filter (fun q => q.cause.code = "V007")
        = uses.map fun u =>
            ⟨.unregisteredClass (classOf (p.root.imports options.bubblePackage) u.1), some u.2⟩) ∧
    ∀ f ∈ Bubble.found p registry options,
      f.construction.node ∈ constructions p.root ∧
      (∃ name, f.construction.node.Calls name) ∧
      (∀ name line, f.construction.node.Calls name → ¬ Unresolved p registry options name line) ∧
      ∀ line, ⟨.unregisteredClass f.className, line⟩ ∉ structural p registry options := by
  have huses : ∀ name line,
      (name, line) ∈ (onceEach [] (unregistered p registry options)).map useKey ↔
      Unresolved p registry options name line := by
    intro name line
    rw [mem_map_onceEach_iff, mem_keys_unregistered_iff]
    simp
  constructor
  · refine ⟨_, nodup_map_onceEach [] _, huses, ?_⟩
    rw [filter_structural, bubbleClasses_eq]
  · intro f hf
    obtain ⟨hmem, name, hcalls, hresolve⟩ := calls_of_mem_found hf
    refine ⟨hmem, ⟨name, hcalls⟩, ?_, ?_⟩
    · intro name' line hcalls' h
      have hnone := h.unresolved
      rw [hcalls'.unique hcalls, hresolve] at hnone
      cases hnone
    · intro line hq
      have hq : ⟨.unregisteredClass f.className, line⟩ ∈ bubbleClasses p registry options := by
        rw [← filter_structural]
        exact List.mem_filter.2 ⟨hq, rfl⟩
      rw [bubbleClasses_eq] at hq
      obtain ⟨⟨n, l⟩, hu, he⟩ := List.mem_map.1 hq
      -- A reported class is not registered, and the class of a bubble is.
      obtain ⟨hnone, -⟩ := Registry.resolve?_eq_none_iff.1 ((huses n l).1 hu).unresolved
      have hclass : classOf (p.root.imports options.bubblePackage) n = f.className := by
        injection he with hcause
        injection hcause
      rw [← classOf, hclass, Registry.forClass?_of_resolve? hresolve] at hnone
      cases hnone

/-- The bubble `slack` alone. -/
def slackOnly : Registry := .ofDescriptors [{ name := "slack", className := "SlackBubble" }]

/-- A class that is not registered under another name, twice on one line and once on the next; one
that is; one that the script declares; and one that is only called a bubble. -/
def ghostScript : String :=
  "import \x7b GhostBubble as Ghost, SlackBubble \x7d from '@bubblelab/bubble-core';\n"
    ++ "class LocalBubble \x7b\x7d\n"
    ++ "new Ghost(new Ghost()); new SlackBubble();\n"
    ++ "new LocalBubble(); new MysteryBubble(new Ghost());"

/-- The first class is reported on both lines, the last one once, and the other two not. -/
theorem unregistered_classes_ghostScript :
    ∃ p, ParsedScript.parse? ghostScript = some p ∧
      (structural p slackOnly {}).filter (fun q => q.cause.code = "V007")
        = [⟨.unregisteredClass "GhostBubble", some 3⟩, ⟨.unregisteredClass "MysteryBubble", some 4⟩,
            ⟨.unregisteredClass "GhostBubble", some 4⟩] ∧
      Unresolved p slackOnly {} "Ghost" 3 ∧ ¬ Unresolved p slackOnly {} "LocalBubble" 4 ∧
      ∃ f ∈ Bubble.found p slackOnly {}, f.construction.node.Calls "SlackBubble" ∧
        ¬ Unresolved p slackOnly {} "SlackBubble" 3 := by
  have heval : (ParsedScript.parse? ghostScript).map (fun p =>
      (bubbleClasses p slackOnly {}, (unregistered p slackOnly {}).map useKey,
        (Bubble.found p slackOnly {}).map (·.construction.className?)))
      = some ([⟨.unregisteredClass "GhostBubble", some 3⟩,
            ⟨.unregisteredClass "MysteryBubble", some 4⟩,
            ⟨.unregisteredClass "GhostBubble", some 4⟩],
          [("Ghost", 3), ("Ghost", 3), ("MysteryBubble", 4), ("Ghost", 4)],
          [some "SlackBubble"]) := by
    decide +kernel
  obtain ⟨p, hp, he⟩ := Option.map_eq_some_iff.1 heval
  obtain ⟨hproblems, he⟩ := Prod.mk.inj he
  obtain ⟨hkeys, hfound⟩ := Prod.mk.inj he
  obtain ⟨f, fs, hfs, hname, -⟩ := List.map_eq_cons_iff.1 hfound
  have hf : f ∈ Bubble.found p slackOnly {} := by
    rw [hfs]
    exact List.mem_cons_self
  have hcalls := Node.className?_eq_some_iff.1 hname
  have hquiet := ((unregistered_classes_exact p slackOnly {}).2 f hf).2.2.1
  refine ⟨p, hp, (filter_structural p slackOnly {}).trans hproblems, ?_, ?_, f, hf, hcalls,
    hquiet "SlackBubble" 3 hcalls⟩
  · rw [← mem_keys_unregistered_iff, hkeys]
    decide
  · rw [← mem_keys_unregistered_iff, hkeys]
    decide

end Validation

end FlowAnalysis
