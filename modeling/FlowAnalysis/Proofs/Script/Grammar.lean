import FlowAnalysis.Proofs.Script.Leading

/-!
# The grammar spells what it reads

Every rule of the grammar spells what it reads.  The rules refer to each other through a record, so
each is shown to do so when the rules of the record do (`Rules.Sound`), and the record is closed by
induction on the fuel.  A script that can be read is therefore laid out as its text is
(`parse?_laid`).
-/

namespace FlowAnalysis.Script

open Node Reader

/-- A rule that goes on from an operand that has been read. -/
class Extends (f : Node → Reader Node) : Prop where
  reads : ∀ {i₀ i j : Input} {left n : Node}, Reads i₀ [left] i → Operand left →
    f left i = some (n, j) → Reads i₀ [n] j

/-- Every rule of a record spells what it reads. -/
class Rules.Sound (r : Rules) : Prop where
  statement : SpellsNode r.statement
  block : ∀ e, SpellsNode (r.block e)
  expression : ∀ s, SpellsNode (r.expression s)
  operand : ∀ s, SpellsNode (r.operand s)
  operators : ∀ s least, Extends (r.operators s least)
  accesses : ∀ s, Extends (r.accesses s)
  constructed : ∀ s, Extends (r.constructed s)
  pattern : SpellsNode r.pattern
  type : ∀ e, SpellsNode (r.type e)
  typeOperand : ∀ e, SpellsNode (r.typeOperand e)
  leading : r.Leading

attribute [instance] Rules.Sound.statement Rules.Sound.block Rules.Sound.expression
  Rules.Sound.operand Rules.Sound.operators Rules.Sound.accesses Rules.Sound.constructed
  Rules.Sound.pattern Rules.Sound.type Rules.Sound.typeOperand Rules.Sound.leading

instance : Visible "<" := ⟨by decide⟩
instance : Visible ">" := ⟨by decide⟩
instance : Visible "|" := ⟨by decide⟩
instance : Visible "&" := ⟨by decide⟩
instance : Visible "-?:" := ⟨by decide⟩
instance : Visible "+?:" := ⟨by decide⟩
instance : Visible "?:" := ⟨by decide⟩
instance : Visible "\x60" := ⟨by decide⟩
instance : Visible "\x7b" := ⟨by decide⟩
instance : Visible "\x7d" := ⟨by decide⟩
instance : Visible "\x7b|" := ⟨by decide⟩
instance : Visible "|\x7d" := ⟨by decide⟩

namespace Grammar

variable {r : Rules} {i j : Input}

/-! ### Names and modifiers -/

instance (k : Kind) [Holds k.isFree] : SpellsNode (name k) :=
  inferInstanceAs (SpellsNode (token k Lexeme.word))

instance (k : Kind) [Holds k.isFree] : SpellsNode (freeName k) :=
  inferInstanceAs (SpellsNode (token k freeWord))

instance (barred : List String) : SpellsNode (boundName barred) :=
  inferInstanceAs (SpellsNode (token .identifier (wordBut barred)))

instance : SpellsNode identifier where
  reads := by
    intro i n j h
    obtain ⟨m, k, hm, h⟩ := bind_eq_some.1 h
    obtain ⟨rfl, rfl⟩ := pure_eq_some.1 h
    split
    · exact (SpellsNode.reads hm).withKind
    · exact SpellsNode.reads hm

instance : SpellsNode markupComment :=
  inferInstanceAs (SpellsNode (token .markupComment Lexeme.markupComment))

instance (e : Ending) : Spells (supplied e) where
  reads := by
    intro i ns j h
    rcases or_eq_some h with h | h
    · exact Spells.reads h
    · obtain ⟨_, k, ha, h⟩ := bind_eq_some.1 h
      rw [← absent_eq_some ha] at h
      obtain ⟨rfl, rfl⟩ := pure_eq_some.1 h
      exact .nil _

instance (x : Reader Node) [SpellsNode x] : SpellsNode (objectFirst x) where
  reads := by
    intro i n j h
    obtain ⟨_, k, ha, h⟩ := bind_eq_some.1 h
    rw [← ahead_eq_some ha] at h
    exact SpellsNode.reads h

instance : SpellsNode stringLiteral :=
  inferInstanceAs (SpellsNode (token .string Lexeme.string))

instance : SpellsNode numberLiteral :=
  inferInstanceAs (SpellsNode (token .number Lexeme.number))

instance [r.Sound] : SpellsNode (computedName r) := by
  unfold computedName
  infer_instance

instance [r.Sound] : SpellsNode (propertyName r) := by
  unfold propertyName
  infer_instance

theorem modifier_eq_some {k : Kind} {w : String} {ns : List Node}
    (h : modifier k w i = some (ns, j)) :
    sub (token k (Lexeme.keyword w)) i = some (ns, j) := by
  obtain ⟨ms, l, hm, h⟩ := bind_eq_some.1 h
  obtain ⟨_, l', hg, h⟩ := bind_eq_some.1 h
  obtain ⟨_, l'', ha, h⟩ := bind_eq_some.1 h
  obtain ⟨rfl, rfl⟩ := pure_eq_some.1 h
  rw [hm, ← ahead_eq_some ha, ← goesOn_eq_some hg]

instance (k : Kind) (w : String) [Holds k.isFree] : Spells (modifier k w) where
  reads := fun h => Spells.reads (modifier_eq_some h)

instance (k : Kind) (w : String) : Yields (modifier k w) where
  ne_nil := fun h => Yields.ne_nil (modifier_eq_some h)

instance (w : String) : Spells (flag w) := inferInstanceAs (Spells (opt (modifier .anonymous w)))

/-- Pieces of which some are put into a node of their own. -/
theorem reads_wrapped {p : Pieces} [Spells p] {ns : List Node} (h : p i = some (ns, j)) :
    Reads i (ns.map fun n =>
      if n.isComment then n else .branch .accessibilityModifier none [n]) j := by
  refine Reads.map_of_forall ?_ (Spells.reads h)
  intro i n j hn
  split
  · exact hn
  · exact hn.node (by simp) none

instance : Spells accessibility where
  reads := by
    intro i ns j h
    obtain ⟨ms, k, hm, h⟩ := bind_eq_some.1 h
    obtain ⟨rfl, rfl⟩ := pure_eq_some.1 h
    simp only [List.map] at hm
    exact reads_wrapped hm

instance : Spells methodModifiers := by
  unfold methodModifiers
  infer_instance

/-! ### Patterns -/

instance (opening closing : String) (item : Pieces) [Spells item] :
    Spells (slots opening closing item) := by
  unfold slots
  infer_instance

instance (opening closing : String) (item : Pieces) : Yields (slots opening closing item) := by
  unfold slots
  infer_instance

/-- A node around what has been read, when some pieces follow, and what has been read otherwise. -/
theorem reads_or_pure {k : Kind} {role : Role} {p : Pieces} [Spells p] [Holds k.isFree]
    {i₀ : Input} {left n : Node} (h₀ : Reads i₀ [left] i)
    (h : ((do
      let ns ← p
      return .branch k none (left.withRole role :: ns)) <|> pure left : Reader Node) i
        = some (n, j)) : Reads i₀ [n] j := by
  rcases or_eq_some h with h | h
  · obtain ⟨ns, l, hn, h⟩ := bind_eq_some.1 h
    obtain ⟨rfl, rfl⟩ := pure_eq_some.1 h
    exact (h₀.withRole role).node_cons (Spells.reads hn) none
  · obtain ⟨rfl, rfl⟩ := pure_eq_some.1 h
    exact h₀

instance (target : Reader Node) [r.Sound] [SpellsNode target] :
    SpellsNode (defaulted r target) where
  reads := by
    intro i n j h
    obtain ⟨left, k, hl, h⟩ := bind_eq_some.1 h
    exact reads_or_pure (SpellsNode.reads hl) h

instance [r.Sound] : SpellsNode (arrayPattern r) := by
  unfold arrayPattern
  infer_instance

instance (inner : Reader Node) [r.Sound] [SpellsNode inner] :
    SpellsNode (objectPatternMember r inner) := by
  have : SpellsNode (do
      let left ← oneOf [freeName .shorthandPattern, inner]
      (do
        let ns ← seq [sym "=", field .right (r.expression .inner)]
        return .branch .objectAssignmentPattern none (left.withRole .left :: ns))
        <|> (if left.kind == .shorthandPattern then pure left else failure)) := by
    constructor
    intro i n j h
    obtain ⟨left, k, hl, h⟩ := bind_eq_some.1 h
    rcases or_eq_some h with h | h
    · obtain ⟨ns, l, hn, h⟩ := bind_eq_some.1 h
      obtain ⟨rfl, rfl⟩ := pure_eq_some.1 h
      exact ((SpellsNode.reads hl).withRole .left).node_cons (Spells.reads hn) none
    · split at h
      · obtain ⟨rfl, rfl⟩ := pure_eq_some.1 h
        exact SpellsNode.reads hl
      · cases h
  unfold objectPatternMember
  infer_instance

instance [r.Sound] : SpellsNode (objectPattern r) := by
  unfold objectPattern
  infer_instance

instance [r.Sound] : SpellsNode (destructuring r) := by
  unfold destructuring
  infer_instance

instance (barred : List String) [r.Sound] : SpellsNode (binding r barred) := by
  unfold binding
  infer_instance

instance [r.Sound] : SpellsNode (target r) where
  reads := by
    intro i n j h
    obtain ⟨first, k, hf, h⟩ := bind_eq_some.1 h
    obtain ⟨m, l, hm, h⟩ := bind_eq_some.1 h
    split at h
    · obtain ⟨rfl, rfl⟩ := pure_eq_some.1 h
      exact Extends.reads (SpellsNode.reads hf) (Leads.operand hf) hm
    · cases h

instance [r.Sound] : SpellsNode (pattern r) := by
  unfold pattern
  infer_instance

instance [r.Sound] : SpellsNode (parameterTarget r) := by
  unfold parameterTarget
  infer_instance

/-! ### Types and signatures -/

instance : SpellsNode typeName := inferInstanceAs (SpellsNode (freeName .typeIdentifier))

instance [r.Sound] : SpellsNode (typeArguments r) := by
  unfold typeArguments
  infer_instance

instance [r.Sound] : SpellsNode (typeParameter r) := by
  unfold typeParameter
  infer_instance

instance [r.Sound] : SpellsNode (typeParameters r) := by
  unfold typeParameters
  infer_instance

instance (e : Ending) [r.Sound] : SpellsNode (ascription r e) := by
  unfold ascription
  infer_instance

instance : SpellsNode thisName :=
  inferInstanceAs (SpellsNode (token .thisValue (Lexeme.keyword "this")))

instance (e : Ending) [r.Sound] : SpellsNode (typePredicate r e) := by
  unfold typePredicate
  infer_instance

instance (e : Ending) [r.Sound] : SpellsNode (assertsClause r e) := by
  unfold assertsClause
  infer_instance

instance (e : Ending) [r.Sound] : SpellsNode (resultType r e) := by
  unfold resultType
  infer_instance

instance (s : Setting) [r.Sound] : Spells (initializer r s) := by
  unfold initializer
  infer_instance

/-- A parenthesis opens with a mark. -/
instance {p : Pieces} [Spells p] [Opens p] : SpellsNode (node .parenthesizedExpression p) where
  reads := by
    intro i n j h
    obtain ⟨ns, hn, rfl⟩ := map_eq_some.1 h
    obtain ⟨hne, hh⟩ := Opens.opens hn
    have hk : Shaped .parenthesizedExpression ns := hh
    exact (Spells.reads hn).branch hne hk none

/-- Property accesses one after the other. -/
theorem reads_members {i₀ : Input} {first : Node} {links : List (List Node)}
    (h₀ : Reads i₀ [first] i) (hf : Operand first) (h : Reads i links.flatten j)
    (hlinks : ∀ link ∈ links, Link link) :
    Reads i₀ [links.foldl
      (fun object link => .branch .memberExpression none (object.withRole .object :: link)) first]
      j := by
  refine (Reads.foldl_keeps (P := Operand) ?_ hlinks h₀ hf h).1
  intro i j l left link hleft hoperand hlink hl
  exact ⟨reads_member hleft hoperand hlink hl,
    .property (operand_withRole hoperand .object) (role_withRole .object left) hl⟩

theorem link_of_name {ns : List Node}
    (h : seq [sym ".", field .property (name .propertyIdentifier)] i = some (ns, j)) : Link ns :=
  link_of_seq (isDot_of_sym (.inl rfl)) spaced_of_name h

instance [r.Sound] : SpellsNode (decorator r) := by
  have : SpellsNode (do
      let first ← oneOf [node .parenthesizedExpression
        (seq [sym "(", sub (r.expression .inner), sym ")"]), name .identifier]
      let target ← (do
        let links ← many (seq [sym ".", field .property (name .propertyIdentifier)])
        return links.foldl
          (fun object link => .branch .memberExpression none (object.withRole .object :: link))
          first)
      (do
        let call ← seq [opt (field .typeArguments (typeArguments r)),
          field .arguments (node .arguments (seq [sym "(",
            opt (seq [sub (r.expression .inner),
              star (seq [sym ",", sub (r.expression .inner)])]),
            opt (sym ","), sym ")"]))]
        return .branch .callExpression none (target.withRole .function :: call))
        <|> pure target) := by
    constructor
    intro i n j h
    obtain ⟨first, k, hf, h⟩ := bind_eq_some.1 h
    obtain ⟨target, l, ht, h⟩ := bind_eq_some.1 h
    obtain ⟨links, m, hl, ht⟩ := bind_eq_some.1 ht
    obtain ⟨rfl, rfl⟩ := pure_eq_some.1 ht
    have htarget := reads_members (SpellsNode.reads hf) (Leads.operand hf) (reads_links hl)
      (forall_mem_many link_of_name hl)
    rcases or_eq_some h with h | h
    · obtain ⟨ns, m', hn, h⟩ := bind_eq_some.1 h
      obtain ⟨rfl, rfl⟩ := pure_eq_some.1 h
      exact reads_call htarget hn
    · obtain ⟨rfl, rfl⟩ := pure_eq_some.1 h
      exact htarget
  unfold decorator
  infer_instance

instance [r.Sound] : Spells (decorators r) := by
  unfold decorators
  infer_instance

theorem parameterFlag_eq_some {w : String} {ns : List Node}
    (h : formalParameter.parameterFlag w i = some (ns, j)) : kw w i = some (ns, j) := by
  obtain ⟨ms, k, hm, h⟩ := bind_eq_some.1 h
  obtain ⟨_, l, ha, h⟩ := bind_eq_some.1 h
  obtain ⟨rfl, rfl⟩ := pure_eq_some.1 h
  rw [hm, ← ahead_eq_some ha]

instance (w : String) : Spells (formalParameter.parameterFlag w) where
  reads := fun h => Spells.reads (parameterFlag_eq_some h)

instance : Spells formalParameter.parameterAccess where
  reads := by
    intro i ns j h
    obtain ⟨ms, k, hm, h⟩ := bind_eq_some.1 h
    obtain ⟨rfl, rfl⟩ := pure_eq_some.1 h
    simp only [List.map] at hm
    exact reads_wrapped hm

/-- A node of one of two kinds without a fixed shape. -/
theorem reads_branch_ite {c : Prop} [Decidable c] {k k' : Kind} [Holds k.isFree] [Holds k'.isFree]
    {ns : List Node} (h : Reads i ns j) (hne : ns ≠ []) :
    Reads i [.branch (if c then k else k') none ns] j := by
  split
  · exact h.node hne none
  · exact h.node hne none

/-- A node written in three parts, of which the second tells its kind. -/
theorem reads_three {p q o : Pieces} [Spells p] [Yields p] [Spells q] [Spells o] {k k' : Kind}
    [Holds k.isFree] [Holds k'.isFree] {n : Node}
    (h : (do
      let head ← p
      let mark ← q
      let rest ← o
      return .branch (if mark.isEmpty then k else k') none (head ++ mark ++ rest) : Reader Node) i
        = some (n, j)) : Reads i [n] j := by
  obtain ⟨head, l, hh, h⟩ := bind_eq_some.1 h
  obtain ⟨mark, l', hm, h⟩ := bind_eq_some.1 h
  obtain ⟨rest, l'', hr, h⟩ := bind_eq_some.1 h
  obtain ⟨rfl, rfl⟩ := pure_eq_some.1 h
  refine reads_branch_ite (((Spells.reads hh).append (Spells.reads hm)).append
    (Spells.reads hr)) ?_
  simp [Yields.ne_nil hh]

instance [r.Sound] : SpellsNode (formalParameter r) := ⟨reads_three⟩

instance [r.Sound] : SpellsNode (formalParameters r) := by
  unfold formalParameters
  infer_instance

instance (e : Ending) [r.Sound] : Spells (signature r e) := by
  unfold signature
  infer_instance

instance (e : Ending) : Yields (signature r e) := by
  unfold signature
  infer_instance

/-! ### Object types -/

instance [r.Sound] : Spells (indexHead r) := by
  unfold indexHead
  infer_instance

instance (e : Ending) [r.Sound] : SpellsNode (indexSignature r e) := by
  unfold indexSignature
  infer_instance

instance (e : Ending) [r.Sound] : SpellsNode (propertySignature r e) := by
  unfold propertySignature
  infer_instance

instance (e : Ending) [r.Sound] : SpellsNode (methodSignature r e) := by
  unfold methodSignature
  infer_instance

instance (e : Ending) [r.Sound] : SpellsNode (constructSignature r e) := by
  unfold constructSignature
  infer_instance

instance [r.Sound] : SpellsNode (objectTypeMember r) := by
  unfold objectTypeMember
  infer_instance

instance : Spells objectType.separator := by
  unfold objectType.separator
  infer_instance

instance (opening closing : String) [Visible opening] [Visible closing] [r.Sound] :
    Spells (objectType.braced r opening closing) := by
  unfold objectType.braced
  infer_instance

instance (opening closing : String) : Yields (objectType.braced r opening closing) := by
  unfold objectType.braced
  infer_instance

instance (k : Kind) [Holds k.isFree] [r.Sound] : SpellsNode (objectType r k) := by
  unfold objectType
  infer_instance

/-! ### Operands of types -/

instance : SpellsNode predefinedType := by
  have : SpellsNode (do
      let w ← name .anonymous
      if predefinedTypes.contains w.text then return .branch .predefinedType none [w]
      else failure) := by
    constructor
    intro i n j h
    obtain ⟨w, k, hw, h⟩ := bind_eq_some.1 h
    split at h
    · obtain ⟨rfl, rfl⟩ := pure_eq_some.1 h
      exact (SpellsNode.reads hw).node (by simp) none
    · cases h
  unfold predefinedType
  infer_instance

instance : SpellsNode literalType := by
  unfold literalType
  infer_instance

instance : SpellsNode tupleMember.restName := by
  unfold tupleMember.restName
  infer_instance

instance [r.Sound] : SpellsNode (tupleMember r) := by
  have : SpellsNode (do
      let t ← r.type .never
      around .optionalType t (sym "?") <|> pure t) := by
    constructor
    intro i n j h
    obtain ⟨t, k, ht, h⟩ := bind_eq_some.1 h
    rcases or_eq_some h with h | h
    · exact reads_around_free (SpellsNode.reads ht) h
    · obtain ⟨rfl, rfl⟩ := pure_eq_some.1 h
      exact SpellsNode.reads ht
  unfold tupleMember
  infer_instance

instance [r.Sound] : SpellsNode (tupleType r) := by
  unfold tupleType
  infer_instance

instance [r.Sound] : SpellsNode (templateLiteralType r) := by
  unfold templateLiteralType
  infer_instance

/-- A module taken by name is a call whose function is a single word. -/
instance : SpellsNode (node .callExpression
    (seq [field .function (token .importFunction (Lexeme.keyword "import")),
      field .arguments (node .arguments (seq [sym "(", sub stringLiteral, sym ")"]))])) := by
  refine spellsNode_node fun {i ns j} h => ?_
  refine ⟨Argues.hasArguments h, ?_⟩
  obtain ⟨k, ms, ls, hp, hs, rfl⟩ := seq_cons_eq_some h
  obtain ⟨l, as, es, ha, he, rfl⟩ := seq_cons_eq_some hs
  obtain ⟨rfl, rfl⟩ := pure_eq_some.1 he
  intro c hc
  right
  constructor
  · obtain ⟨cs, m, k', rfl, hm, hcs⟩ := field_eq_some hp
    cases cs with
    | nil =>
      cases hc
      rw [children_withRole]
      exact (token_eq_some hm).1
    | cons d ds =>
      cases hc
      exact (hcs c List.mem_cons_self).1
  · intro d hd
    rw [List.append_nil] at hd
    rcases List.mem_append.1 hd with hd | hd
    · rcases role_of_mem_field hp hd with hr | hr <;> rw [hr] <;> nofun
    · rcases role_of_mem_field ha hd with hr | hr <;> rw [hr] <;> nofun

instance : SpellsNode typeQuery.importCall := by
  unfold typeQuery.importCall
  infer_instance

instance : Spells typeQuery.link := by
  unfold typeQuery.link
  infer_instance

theorem reads_extend {i₀ : Input} {left : Node} {ns : List Node} (h₀ : Reads i₀ [left] i)
    (ho : Operand left) (h : Reads i ns j)
    (hl : Link ns ∨ Follows (sourceAll ns).toList ∧ ∃ n ∈ ns, n.role = some .index) :
    Reads i₀ [typeQuery.extend left ns] j ∧ Operand (typeQuery.extend left ns) := by
  unfold typeQuery.extend
  dsimp only
  rcases hl with hl | ⟨hf, hindex⟩
  · rw [if_neg (by simpa using role_ne_index_of_link hl)]
    exact ⟨reads_member h₀ ho h hl,
      .property (operand_withRole ho .object) (role_withRole .object left) hl⟩
  · rw [if_pos (by simpa using hindex)]
    exact ⟨reads_subscript h₀ ho h hf, .further (by decide) (operand_withRole ho .object) hf⟩

instance (e : Ending) [r.Sound] : SpellsNode (typeQuery r e) := by
  have : SpellsNode (do
      let first ← oneOf [typeQuery.importCall, thisName, name .identifier]
      let links ← many (further e typeQuery.link)
      let chain := links.foldl typeQuery.extend first
      (do
        let args ← further e (field .typeArguments (typeArguments r))
        return .branch .instantiationExpression none (chain.withRole .function :: args))
        <|> pure chain) := by
    constructor
    intro i n j h
    obtain ⟨first, k, hf, h⟩ := bind_eq_some.1 h
    obtain ⟨links, l, hl, h⟩ := bind_eq_some.1 h
    have hlinks := forall_mem_many (fun hn => link_or_index (further_eq_some hn)) hl
    exact reads_or_pure (Reads.foldl_keeps (P := Operand) reads_extend hlinks (SpellsNode.reads hf)
      (Leads.operand hf) (reads_links hl)).1 h
  unfold typeQuery
  infer_instance

instance (e : Ending) : SpellsNode (importedType e) where
  reads := by
    intro i n j h
    obtain ⟨call, k, hc, h⟩ := bind_eq_some.1 h
    obtain ⟨links, l, hl, h⟩ := bind_eq_some.1 h
    obtain ⟨rfl, rfl⟩ := pure_eq_some.1 h
    exact reads_members (SpellsNode.reads hc) (Leads.operand hc) (reads_links hl)
      (forall_mem_many (fun hn => link_of_name (further_eq_some hn)) hl)

/-- Names joined by dots, of which the last is taken apart from the others. -/
theorem reads_last {links : List (List Node)} (h : Reads i links.flatten j) {last : List Node}
    {before : List (List Node)} (hl : links.reverse = last :: before) :
    ∃ k, Reads i before.reverse.flatten k ∧ Reads k last j := by
  have : links = before.reverse ++ [last] := by
    rw [← List.reverse_reverse links, hl, List.reverse_cons]
  rw [this, List.flatten_append, List.flatten_singleton] at h
  exact h.split

theorem reads_qualify {i₀ : Input} {first : Node} {links : List (List Node)}
    (h₀ : Reads i₀ [first] i) (h : Reads i links.flatten j) :
    Reads i₀ [namedType.qualify first links] j := by
  unfold namedType.qualify
  split
  · next hl =>
    rw [List.reverse_eq_nil_iff.1 hl] at h
    exact h₀.append h
  · next last before hl =>
    obtain ⟨k, hb, hlast⟩ := reads_last h hl
    have hfirst := h₀.withKind (k := .identifier)
    refine Reads.node_cons (Reads.withRole (Reads.foldl ?_ hfirst hb) .module)
      (hlast.map_of_forall ?_) none
    · intro i j l left link hleft hlink
      refine (hleft.withRole .object).node_cons (hlink.map_of_forall ?_) none
      intro i n j hn
      split
      · exact hn.withKind.withRole .property
      · exact hn
    · intro i n j hn
      split
      · exact hn.withRole .name
      · exact hn

instance (e : Ending) [r.Sound] : SpellsNode (namedType r e) where
  reads := by
    intro i n j h
    obtain ⟨first, k, hf, h⟩ := bind_eq_some.1 h
    obtain ⟨links, l, hl, h⟩ := bind_eq_some.1 h
    exact reads_or_pure (reads_qualify (SpellsNode.reads hf) (reads_links hl)) h

theorem reads_typeBrackets [r.Sound] {e : Ending} {i₀ : Input} {left n : Node}
    (h₀ : Reads i₀ [left] i) (h : typeBrackets r e left i = some (n, j)) : Reads i₀ [n] j := by
  obtain ⟨brackets, k, hb, h⟩ := bind_eq_some.1 h
  obtain ⟨rfl, rfl⟩ := pure_eq_some.1 h
  refine h₀.foldl ?_ (reads_links hb)
  intro i j l left link hleft hlink
  exact reads_branch_ite (hleft.cons hlink) (by simp)

instance (e : Ending) [r.Sound] : SpellsNode (primaryType r e) where
  reads := by
    intro i n j h
    obtain ⟨first, k, hf, h⟩ := bind_eq_some.1 h
    exact reads_typeBrackets (SpellsNode.reads hf) h

instance (e : Ending) [r.Sound] : SpellsNode (functionType r e) := by
  unfold functionType
  infer_instance

instance (e : Ending) [r.Sound] : SpellsNode (constructorType r e) := by
  unfold constructorType
  infer_instance

instance (e : Ending) [r.Sound] : SpellsNode (typeOperand r e) := by
  unfold typeOperand
  infer_instance

instance (k : Kind) (m : String) (e : Ending) (operand : Reader Node) [Holds k.isFree] [Visible m]
    [SpellsNode operand] : SpellsNode (joined k m e operand) where
  reads := by
    intro i n j h
    obtain ⟨first, l, hf, h⟩ := bind_eq_some.1 h
    obtain ⟨more, l', hm, h⟩ := bind_eq_some.1 h
    obtain ⟨rfl, rfl⟩ := pure_eq_some.1 h
    exact (SpellsNode.reads hf).foldl (fun hleft hlink => hleft.node_cons hlink none)
      (reads_links hm)

instance (e : Ending) [r.Sound] : SpellsNode (unionType r e) := by
  unfold unionType
  infer_instance

instance (e : Ending) [r.Sound] : SpellsNode (type r e) where
  reads := by
    intro i n j h
    obtain ⟨left, k, hl, h⟩ := bind_eq_some.1 h
    exact reads_or_pure (SpellsNode.reads hl) h

/-! ### Lists, objects and templates -/

instance [r.Sound] : SpellsNode (spread r) := by
  unfold spread
  infer_instance

instance [r.Sound] : Spells (listItem r) := by
  unfold listItem
  infer_instance

instance [r.Sound] : SpellsNode (arguments r) := by
  unfold arguments
  infer_instance

instance : Argues (field .arguments (arguments r)) := by
  unfold arguments
  infer_instance

instance [r.Sound] : SpellsNode (array r) := by
  unfold array
  infer_instance

instance (s : Setting) [r.Sound] : SpellsNode (expressions r s) where
  reads := by
    intro i n j h
    obtain ⟨first, k, hf, h⟩ := bind_eq_some.1 h
    obtain ⟨more, l, hm, h⟩ := bind_eq_some.1 h
    obtain ⟨rfl, rfl⟩ := pure_eq_some.1 h
    have hr := (SpellsNode.reads hf).cons (Spells.reads hm)
    split
    · next he =>
      rw [List.isEmpty_iff.1 he] at hr
      exact hr
    · exact hr.node (by simp) none

instance [r.Sound] : SpellsNode (parenthesized r) := by
  unfold parenthesized
  infer_instance

instance [r.Sound] : SpellsNode (methodDefinition r) := by
  unfold methodDefinition
  infer_instance

instance [r.Sound] : SpellsNode (objectMember r) := by
  unfold objectMember
  infer_instance

instance [r.Sound] : SpellsNode (object r) := by
  unfold object
  infer_instance

instance [r.Sound] : SpellsNode (template r) := by
  unfold template
  infer_instance

instance : Argues (field .arguments (template r)) := by
  unfold template
  infer_instance

/-! ### Functions and classes -/

instance (s : Setting) [r.Sound] : Spells (arrowSignature r s) := by
  unfold arrowSignature
  split <;> infer_instance

instance (s : Setting) [r.Sound] : Spells (arrowFunction.body r s) := by
  unfold arrowFunction.body
  infer_instance

instance (s : Setting) (parameters : Pieces) [r.Sound] [Spells parameters] :
    SpellsNode (arrowFunction.arrow r s parameters) := by
  unfold arrowFunction.arrow
  infer_instance

instance (s : Setting) [r.Sound] : SpellsNode (arrowFunction r s) := by
  unfold arrowFunction
  infer_instance

instance [r.Sound] : SpellsNode (functionExpression r) := ⟨reads_three⟩

instance [r.Sound] : Spells (extendsSingle r) := by
  unfold extendsSingle
  infer_instance

instance [r.Sound] : SpellsNode (classHeritage.implements r) := by
  unfold classHeritage.implements
  infer_instance

instance [r.Sound] : SpellsNode (classHeritage r) := by
  unfold classHeritage
  infer_instance

instance [r.Sound] : SpellsNode (fieldDefinition r) := by
  unfold fieldDefinition
  infer_instance

instance [r.Sound] : SpellsNode (abstractMethod r) := by
  unfold abstractMethod
  infer_instance

instance (e : Ending) : Spells (classMember.separator e) := by
  unfold classMember.separator
  infer_instance

instance [r.Sound] : Spells (classMember r) := by
  unfold classMember
  infer_instance

instance [r.Sound] : SpellsNode (classBody r) := by
  unfold classBody
  infer_instance

instance [r.Sound] : Spells (classRest r) := by
  unfold classRest
  infer_instance

theorem className_eq_some {ns : List Node} (h : className i = some (ns, j)) :
    field .name typeName i = some (ns, j) := by
  obtain ⟨_, k, ha, h⟩ := bind_eq_some.1 h
  rwa [← absent_eq_some ha] at h

instance : Spells className := ⟨fun h => Spells.reads (className_eq_some h)⟩

instance [r.Sound] : SpellsNode (classExpression r) := by
  unfold classExpression
  infer_instance

/-! ### Operands -/

/-- A node that is taken only when something follows it. -/
theorem reads_ahead {α : Type} {x : Reader Node} {a : Reader α} [SpellsNode x] {n : Node}
    (h : (do
      let n ← x
      ahead a
      return n : Reader Node) i = some (n, j)) : Reads i [n] j := by
  obtain ⟨m, k, hm, h⟩ := bind_eq_some.1 h
  obtain ⟨_, l, ha, h⟩ := bind_eq_some.1 h
  obtain ⟨rfl, rfl⟩ := pure_eq_some.1 h
  rw [← ahead_eq_some ha]
  exact SpellsNode.reads hm

instance : SpellsNode constant := by
  have : SpellsNode (do
      let n ← token .importFunction (Lexeme.keyword "import")
      ahead (oneOf [sym "(", sym "<", sym ".", sym "?."])
      return n) := ⟨reads_ahead⟩
  unfold constant
  infer_instance

instance (s : Setting) [r.Sound] : SpellsNode (primary r s) := by
  have : SpellsNode (do
      let n ← token .privatePropertyIdentifier Lexeme.privateName
      ahead (kw "in")
      return n) := ⟨reads_ahead⟩
  unfold primary
  infer_instance

instance : Spells memberName := by
  unfold memberName
  infer_instance

instance : Spells optionalChain := by
  unfold optionalChain
  infer_instance

/-- The first of two rules that go on from what has been read. -/
theorem reads_oneOf_cons {x : Reader Node} {xs : List (Reader Node)} {i₀ : Input} {n : Node}
    (hx : x i = some (n, j) → Reads i₀ [n] j) (hxs : oneOf xs i = some (n, j) → Reads i₀ [n] j)
    (h : oneOf (x :: xs) i = some (n, j)) : Reads i₀ [n] j :=
  (or_eq_some h).elim hx hxs

theorem reads_oneOf_nil {i₀ : Input} {n : Node} (h : oneOf [] i = some (n, j)) :
    Reads i₀ [n] j := by
  cases h

theorem reads_around_member {p : Pieces} [Spells p] {i₀ : Input} {object n : Node}
    (hp : ∀ {ns}, p i = some (ns, j) → Link ns) (h₀ : Reads i₀ [object] i) (ho : Operand object)
    (h : around .memberExpression (object.withRole .object) p i = some (n, j)) :
    Reads i₀ [n] j := by
  obtain ⟨ns, hn, rfl⟩ := map_eq_some.1 h
  exact reads_member h₀ ho (Spells.reads hn) (hp hn)

theorem reads_around_subscript {p : Pieces} [Spells p] [Continues p] {i₀ : Input} {object n : Node}
    (h₀ : Reads i₀ [object] i) (ho : Operand object)
    (h : around .subscriptExpression (object.withRole .object) p i = some (n, j)) :
    Reads i₀ [n] j := by
  obtain ⟨ns, hn, rfl⟩ := map_eq_some.1 h
  exact reads_subscript h₀ ho (Spells.reads hn) (Continues.follows hn)

theorem reads_around_call {p : Pieces} [Spells p] [Argues p] {i₀ : Input} {function n : Node}
    (h₀ : Reads i₀ [function] i)
    (h : around .callExpression (function.withRole .function) p i = some (n, j)) :
    Reads i₀ [n] j := by
  obtain ⟨ns, hn, rfl⟩ := map_eq_some.1 h
  exact reads_call h₀ hn

instance [r.Sound] : Extends (memberAccess r) where
  reads := by
    intro i₀ i j left n h₀ ho h
    exact reads_oneOf_cons
      (reads_around_member link_of_member h₀ ho)
      (reads_oneOf_cons (reads_around_member link_of_optionalMember h₀ ho)
        (reads_oneOf_cons (reads_around_subscript h₀ ho)
          (reads_oneOf_cons (reads_around_free h₀) reads_oneOf_nil))) h

instance [r.Sound] : Extends (callAccess r) where
  reads := fun h₀ _ h => reads_around_call h₀ h

instance [r.Sound] : Extends (instantiation r) where
  reads := by
    intro i₀ i j left n h₀ _ h
    obtain ⟨m, k, hm, h⟩ := bind_eq_some.1 h
    obtain ⟨_, l, ha, h⟩ := bind_eq_some.1 h
    obtain ⟨rfl, rfl⟩ := pure_eq_some.1 h
    rw [← absent_eq_some ha]
    exact reads_around_free h₀ hm

instance (s : Setting) [r.Sound] : Extends (accesses r s) where
  reads := by
    intro i₀ i j left n h₀ ho h
    rcases or_eq_some h with h | h
    · obtain ⟨_, k, hg, h⟩ := bind_eq_some.1 h
      obtain ⟨m, l, hm, h⟩ := bind_eq_some.1 h
      rw [← goesOn_eq_some hg] at hm
      refine Extends.reads (reads_oneOf_cons (Extends.reads h₀ ho) (reads_oneOf_cons
        (Extends.reads h₀ ho) (reads_oneOf_cons ?_ reads_oneOf_nil)) hm) (operand_of_access ho hm) h
      split
      · exact Extends.reads h₀ ho
      · nofun
    · obtain ⟨rfl, rfl⟩ := pure_eq_some.1 h
      exact h₀

instance (s : Setting) [r.Sound] : Extends (constructed r s) where
  reads := by
    intro i₀ i j left n h₀ ho h
    rcases or_eq_some h with h | h
    · obtain ⟨_, k, hg, h⟩ := bind_eq_some.1 h
      obtain ⟨m, l, hm, h⟩ := bind_eq_some.1 h
      rw [← goesOn_eq_some hg] at hm
      refine Extends.reads (reads_oneOf_cons (Extends.reads h₀ ho) (reads_oneOf_cons
        (reads_around_call h₀) (reads_oneOf_cons ?_ reads_oneOf_nil)) hm)
        (operand_of_constructed ho hm) h
      split
      · exact Extends.reads h₀ ho
      · nofun
    · obtain ⟨rfl, rfl⟩ := pure_eq_some.1 h
      exact h₀

instance (s : Setting) [r.Sound] : SpellsNode (newExpression.nested r s) where
  reads := by
    intro i n j h
    obtain ⟨_, k, ha, h⟩ := bind_eq_some.1 h
    obtain ⟨_, l, hb, h⟩ := bind_eq_some.1 h
    rw [← absent_eq_some hb, ← ahead_eq_some ha] at h
    exact SpellsNode.reads h

instance (s : Setting) [r.Sound] : SpellsNode (newExpression r s) where
  reads := by
    intro i n j h
    obtain ⟨mark, k₁, hm, h⟩ := bind_eq_some.1 h
    obtain ⟨gap, k₂, hg, h⟩ := bind_eq_some.1 h
    obtain ⟨first, k₃, hf, h⟩ := bind_eq_some.1 h
    obtain ⟨c, k₄, hc, h⟩ := bind_eq_some.1 h
    obtain ⟨rest, k₅, hr, h⟩ := bind_eq_some.1 h
    split at h
    · cases h
    · obtain ⟨rfl, rfl⟩ := pure_eq_some.1 h
      have hclass := Extends.reads (SpellsNode.reads hf) (Leads.operand hf) hc
      have hopen := opens_append (gap ++ c.withRole .constructor :: rest) (Opens.opens hm)
      have hargs : HasArguments (mark ++ gap ++ c.withRole .constructor :: rest) := by
        refine hasArguments_append (hasArguments_append (Argues.hasArguments hm) ?_)
          (hasArguments_cons ?_ (Argues.hasArguments hr))
        · refine hasArguments_of_role fun d hd => ?_
          rw [(comments_eq_some hg d hd).2]
          nofun
        · rw [role_withRole]
          nofun
      rw [← List.append_assoc] at hopen
      have hk : Shaped .newExpression (mark ++ gap ++ c.withRole .constructor :: rest) :=
        ⟨hopen.2, hargs⟩
      exact (((Spells.reads hm).append (Spells.reads hg)).append
        ((hclass.withRole .constructor).cons (Spells.reads hr))).branch hopen.1 hk none

/-! ### Type arguments behind operators -/

/-- A call, a property access or the like keeps its shape when its first child changes and stays in
its role. -/
theorem shaped_cons_of_role {c : Kind} {first m : Node} {rest : List Node}
    (hc : c = .callExpression ∨ c = .memberExpression ∨ c = .subscriptExpression ∨ c.isFree = true)
    (h : Shaped c (first :: rest)) (hne : first.children ≠ []) (hm : m.role = first.role)
    (ho : Operand m) : Shaped c (m :: rest) := by
  rcases hc with rfl | rfl | rfl | hc
  · obtain ⟨hargs, hhead⟩ := h
    rcases hhead first rfl with hr | ⟨hch, _⟩
    · refine ⟨hasArguments_cons ?_ fun d hd => hargs d (List.mem_cons_of_mem _ hd), ?_⟩
      · simp [hm, hr]
      · rintro d ⟨⟩
        exact .inl (hm.trans hr)
    · exact absurd hch hne
  · obtain ⟨-, hr, hl⟩ := h
    exact .mk ho (hm.trans hr) hl
  · obtain ⟨-, hr, hf⟩ := h
    exact .mk ho (hm.trans hr) hf
  · exact shaped_of_isFree hc _

theorem mem_roles_of_isGenericCall {c : Kind} {role : Option Role} {cs : List Node}
    (h : isGenericCall (.branch c role cs) = true) :
    c = .callExpression ∧ ∃ d ∈ cs, d.role = some .typeArguments := by
  simp only [isGenericCall, Bool.and_eq_true, beq_iff_eq, Option.isSome_iff_exists] at h
  obtain ⟨⟨hc, d, hd⟩, _⟩ := h
  exact ⟨hc, d, mem_children_of_child? hd, by simpa using List.find?_some hd⟩

/-- An operator that ends before a call with type arguments: the operator and the operand are the
same, put together in another way. -/
theorem reads_callOver? {k : Kind} {before : List Node} {role : Option Role} {i₀ : Input}
    (hk : ∀ n, Shaped k (before ++ [n])) (hw : ∀ n, Operand (.branch k none (before ++ [n])))
    (h₀ : Reads i₀ before i) {n m : Node} {j : Input} (hn : Reads i [n] j) (ho : Operand n)
    (h : callOver? k (fun n => .branch k none (before ++ [n.inRole role])) n = some m) :
    Reads i₀ [m] j ∧ m.role = n.role ∧ n.children ≠ [] := by
  match n with
  | .token .. => cases h
  | .branch _ _ [] => cases h
  | .branch c r (first :: rest) =>
    obtain ⟨hcs, hshape⟩ := hn.of_branch
    obtain ⟨l, hfirst, hrest⟩ := (show Reads i ([first] ++ rest) j from hcs).split
    rw [callOver?] at h
    split at h
    · next hc =>
      have hfo := (operand_exchange (isPlain_of_callOver hc) ho).1
      have hc : c = .callExpression ∨ c = .memberExpression ∨ c = .subscriptExpression ∨
          c.isFree = true := by
        simp only [Bool.or_eq_true, beq_iff_eq] at hc
        rcases hc with ((rfl | rfl) | rfl) | rfl <;> simp
      have hdeeper : ∀ m', callOver? k (fun n => .branch k none (before ++ [n.inRole role])) first
          = some m' → Reads i₀ [.branch c r (m' :: rest)] j := by
        intro m' hm'
        obtain ⟨hr, hrole, hne⟩ := reads_callOver? hk hw h₀ hfirst hfo hm'
        have hoperand := (operand_callOver? (fun n => hw _) hfo hm').1
        exact (hr.cons hrest).branch (by simp)
          (shaped_cons_of_role hc hshape hne hrole hoperand) r
      have hhere : isGenericCall (.branch c r (first :: rest)) = true →
          Reads i₀ [.branch c r ((Node.branch k none (before ++ [first.inRole role])).inRole
            first.role :: rest)] j := by
        intro hg
        obtain ⟨rfl, d, hd, hdr⟩ := mem_roles_of_isGenericCall hg
        have hrole : first.role = some .function := by
          rcases hshape.2 first rfl with hr | ⟨_, hno⟩
          · exact hr
          · exact absurd hdr (hno d hd)
        have hwrap : Reads i₀ [.branch k none (before ++ [first.inRole role])] l :=
          (h₀.append (hfirst.inRole role)).branch (by simp) (hk _) none
        have hs : Shaped .callExpression
            ((Node.branch k none (before ++ [first.inRole role])).inRole
            first.role :: rest) := by
          refine ⟨hasArguments_cons ?_ fun d hd => hshape.1 d (List.mem_cons_of_mem _ hd), ?_⟩
          · simp [role_inRole, hrole]
          · rintro d ⟨⟩
            exact .inl ((role_inRole _ _).trans hrole)
        exact ((hwrap.inRole first.role).cons hrest).branch (by simp) hs r
      suffices Reads i₀ [m] j ∧ m.role = r from ⟨this.1, this.2, by simp [children]⟩
      dsimp only at h
      split at h
      · next hg =>
        split at h
        · next m' hm' =>
          obtain ⟨m'', hm'', rfl⟩ := Option.map_eq_some_iff.1 hm'
          split at h
          · cases h
            exact ⟨hhere hg, rfl⟩
          · cases h
            exact ⟨hdeeper m'' hm'', rfl⟩
        · cases h
          exact ⟨hhere hg, rfl⟩
      · obtain ⟨m'', hm'', rfl⟩ := Option.map_eq_some_iff.1 h
        exact ⟨hdeeper m'' hm'', rfl⟩
    · cases h

/-- An operator on an operand, in whatever reading is chosen. -/
theorem reads_operation {k : Kind} {before : List Node} {role : Option Role} {i₀ : Input}
    (hk : ∀ n, Shaped k (before ++ [n])) (hw : ∀ n, Operand (.branch k none (before ++ [n])))
    (h₀ : Reads i₀ before i) {n : Node} (hn : Reads i [n] j) (ho : Operand n) :
    Reads i₀ [operation k before role n] j := by
  have hwrap : Reads i₀ [.branch k none (before ++ [n.inRole role])] j :=
    (h₀.append (hn.inRole role)).branch (by simp) (hk _) none
  unfold operation
  dsimp only
  split
  · next m hm =>
    split
    · exact (reads_callOver? hk hw h₀ hn ho hm).1
    · exact hwrap
  · exact hwrap

theorem reads_prefixed {k : Kind} {operator : Pieces} {role : Option Role} {x : Reader Node}
    [Spells operator] [StartsFixed operator] [SpellsNode x] [Leads x] [hp : Holds k.isPlain]
    (hk : ∀ {i ns j}, operator i = some (ns, j) → ∀ gap n, Shaped k (ns ++ gap ++ [n])) {n : Node}
    (h : prefixed k operator role x i = some (n, j)) : Reads i [n] j := by
  obtain ⟨mark, k₁, hm, h⟩ := bind_eq_some.1 h
  obtain ⟨gap, k₂, hg, h⟩ := bind_eq_some.1 h
  obtain ⟨m, k₃, ha, h⟩ := bind_eq_some.1 h
  obtain ⟨rfl, rfl⟩ := pure_eq_some.1 h
  exact reads_operation (hk hm gap) (operand_prefixed hp.holds hm gap)
    ((Spells.reads hm).append (Spells.reads hg)) (SpellsNode.reads ha) (Leads.operand ha)

instance (k : Kind) (operator : Pieces) (role : Option Role) (x : Reader Node) [hk : Holds k.isFree]
    [Holds k.isPlain] [Spells operator] [StartsFixed operator] [SpellsNode x] [Leads x] :
    SpellsNode (prefixed k operator role x) where
  reads := fun h => reads_prefixed (fun _ _ _ => shaped_of_isFree hk.holds _) h

instance (operator : Pieces) (role : Option Role) (x : Reader Node) [Spells operator]
    [StartsFixed operator] [Opens operator] [SpellsNode x] [Leads x] :
    SpellsNode (prefixed .awaitExpression operator role x) where
  reads := by
    intro i n j h
    refine reads_prefixed (fun {i ns j} hn gap m => ?_) h
    have := opens_append (gap ++ [m]) (Opens.opens hn)
    rw [← List.append_assoc] at this
    exact this.2

instance (s : Setting) [r.Sound] : SpellsNode (usingAssignment r s) where
  reads := by
    intro i n j h
    obtain ⟨mark, k₁, hm, h⟩ := bind_eq_some.1 h
    obtain ⟨gap, k₂, hg, h⟩ := bind_eq_some.1 h
    obtain ⟨left, k₃, hl, h⟩ := bind_eq_some.1 h
    obtain ⟨rest, k₄, hr, h⟩ := bind_eq_some.1 (unless_eq_some h)
    obtain ⟨rfl, rfl⟩ := pure_eq_some.1 h
    exact (((Spells.reads hm).append (Spells.reads hg)).append
      (((SpellsNode.reads hl).withRole .left).cons (Spells.reads hr))).node (by simp) none

instance (s : Setting) [r.Sound] : SpellsNode (castOperand r s) where
  reads := by
    intro i n j h
    obtain ⟨m, k, hm, h⟩ := bind_eq_some.1 h
    obtain ⟨casts, l, hc, h⟩ := bind_eq_some.1 h
    obtain ⟨rfl, rfl⟩ := pure_eq_some.1 h
    refine (SpellsNode.reads hm).foldl ?_ (reads_links hc)
    intro i j l left link hleft hlink
    exact reads_branch_ite (hleft.cons hlink) (by simp)

instance (s : Setting) [r.Sound] : SpellsNode (awaited r s) := by
  unfold awaited
  infer_instance

instance (s : Setting) [r.Sound] : SpellsNode (operand r s) := by
  have : SpellsNode (do
      let first ← oneOf [newExpression r s, primary r s]
      let n ← r.accesses s first
      (do
        goesOn s.ending
        around .updateExpression (n.withRole .argument)
          (field .operator (token .anonymous updateOperator)))
        <|> pure n) := by
    constructor
    intro i n j h
    obtain ⟨first, k, hf, h⟩ := bind_eq_some.1 h
    obtain ⟨m, l, hm, h⟩ := bind_eq_some.1 h
    have hread := Extends.reads (SpellsNode.reads hf) (Leads.operand hf) hm
    rcases or_eq_some h with h | h
    · obtain ⟨_, l', hg, h⟩ := bind_eq_some.1 h
      rw [← goesOn_eq_some hg] at h
      exact reads_around_free (hread.withRole .argument) h
    · obtain ⟨rfl, rfl⟩ := pure_eq_some.1 h
      exact hread
  unfold operand
  infer_instance

/-! ### Operators -/

instance (e : Ending) [r.Sound] : Extends (typedAs r e) where
  reads := by
    intro i₀ i j left n h₀ _ h
    exact reads_oneOf_cons (reads_around_free h₀)
      (reads_oneOf_cons (reads_around_free h₀) reads_oneOf_nil) h

instance (s : Setting) (least : Nat) [r.Sound] : Extends (operators r s least) where
  reads := by
    intro i₀ i j left n h₀ ho h
    refine reads_oneOf_cons ?_ (reads_oneOf_cons ?_ (reads_oneOf_cons ?_ reads_oneOf_nil)) h
    · intro h
      obtain ⟨_, k₁, hg, h⟩ := bind_eq_some.1 h
      obtain ⟨mark, k₂, hm, h⟩ := bind_eq_some.1 h
      obtain ⟨gap, k₃, hc, h⟩ := bind_eq_some.1 (unless_eq_some h)
      obtain ⟨first, k₄, hf, h⟩ := bind_eq_some.1 h
      obtain ⟨right, k₅, hr, h⟩ := bind_eq_some.1 h
      rw [← goesOn_eq_some hg] at hm
      have hbefore : Reads i₀ (left.withRole .left :: mark ++ gap) k₃ :=
        ((h₀.withRole .left).cons (Spells.reads hm)).append (Spells.reads hc)
      have hfirst := Leads.operand hf
      have hright := Extends.reads (SpellsNode.reads hf) hfirst hr
      have hwrap := operand_binary ho hm gap
      refine Extends.reads ?_ ?_ h
      · split
        · exact reads_operation (fun _ => shaped_of_isFree rfl _) hwrap hbefore hright
            (Keeps.operand hfirst hr)
        · exact (hbefore.append (hright.withRole .right)).node (by simp) none
      · split
        · exact operand_operation hwrap (Keeps.operand hfirst hr)
        · exact hwrap _
    · intro h
      obtain ⟨_, k₁, hg, h⟩ := bind_eq_some.1 (unless_eq_some h)
      obtain ⟨m, k₂, hm, h⟩ := bind_eq_some.1 h
      rw [← goesOn_eq_some hg] at hm
      exact Extends.reads (Extends.reads h₀ ho hm) (Keeps.operand ho hm) h
    · intro h
      obtain ⟨rfl, rfl⟩ := pure_eq_some.1 h
      exact h₀

instance (s : Setting) [r.Sound] : Extends (ternary r s) where
  reads := by
    intro i₀ i j left n h₀ _ h
    have harrows : ∀ typed, ternary.withArrows r s left typed i = some (n, j) → Reads i₀ [n] j := by
      intro typed h
      obtain ⟨_, k, hg, h⟩ := bind_eq_some.1 h
      rw [← goesOn_eq_some hg] at h
      exact reads_around_free (h₀.withRole .condition) h
    refine reads_oneOf_cons (harrows true) (reads_oneOf_cons (harrows false)
      (reads_oneOf_cons ?_ reads_oneOf_nil)) h
    intro h
    obtain ⟨rfl, rfl⟩ := pure_eq_some.1 h
    exact h₀

instance (s : Setting) [r.Sound] : SpellsNode (yieldExpression r s) := by
  unfold yieldExpression
  infer_instance

instance (s : Setting) [r.Sound] : SpellsNode (destructuringAssignment r s) where
  reads := by
    intro i n j h
    obtain ⟨left, k, hl, h⟩ := bind_eq_some.1 h
    exact reads_around_free ((SpellsNode.reads hl).withRole .left) h

instance (s : Setting) [r.Sound] : Extends (assignment r s) where
  reads := by
    intro i₀ i j left n h₀ _ h
    unfold assignment at h
    obtain ⟨_, k, hg, h⟩ := bind_eq_some.1 (unless_eq_some h)
    rw [← goesOn_eq_some hg] at h
    exact reads_oneOf_cons (reads_around_free (h₀.withRole .left))
      (reads_oneOf_cons (reads_around_free (h₀.withRole .left)) reads_oneOf_nil) h

instance (s : Setting) [r.Sound] : SpellsNode (expression r s) := by
  have : SpellsNode (do
      let left ← r.operand s
      oneOf [assignment r s left, (do
        let n ← r.operators s 0 left
        ternary r s n)]) := by
    constructor
    intro i n j h
    obtain ⟨left, k, hl, h⟩ := bind_eq_some.1 h
    have hleft := SpellsNode.reads hl
    have ho := Leads.operand hl
    refine reads_oneOf_cons (Extends.reads hleft ho) (reads_oneOf_cons ?_ reads_oneOf_nil) h
    intro h
    obtain ⟨m, l, hm, h⟩ := bind_eq_some.1 h
    exact Extends.reads (Extends.reads hleft ho hm) (Keeps.operand ho hm) h
  unfold expression
  infer_instance

/-! ### Statements and declarations -/

instance [r.Sound] : Spells (statements r) := by
  unfold statements
  infer_instance

instance (e : Ending) [r.Sound] : SpellsNode (block r e) := by
  unfold block
  infer_instance

instance (barred : List String) [r.Sound] : SpellsNode (declarator r barred) := by
  unfold declarator
  infer_instance

instance (barred : List String) [r.Sound] : Spells (declarators r barred) where
  reads := by
    intro i ns j h
    obtain ⟨ms, k, hm, h⟩ := bind_eq_some.1 h
    obtain ⟨last, l, hl, h⟩ := bind_eq_some.1 h
    obtain ⟨rfl, rfl⟩ := pure_eq_some.1 h
    exact (Spells.reads hm).append (Spells.reads hl)

instance [r.Sound] : SpellsNode (lexicalDeclaration r) := by
  unfold lexicalDeclaration
  infer_instance

instance [r.Sound] : SpellsNode (variableDeclaration r) := by
  unfold variableDeclaration
  infer_instance

instance [r.Sound] : SpellsNode (functionDeclaration r) := ⟨reads_three⟩

instance [r.Sound] : SpellsNode (functionSignature r) := by
  unfold functionSignature
  infer_instance

instance [r.Sound] : SpellsNode (classDeclaration r) := by
  unfold classDeclaration
  infer_instance

instance [r.Sound] : SpellsNode (abstractClassDeclaration r) := by
  unfold abstractClassDeclaration
  infer_instance

instance [r.Sound] : SpellsNode (typeAlias r) := by
  unfold typeAlias
  infer_instance

instance [r.Sound] : SpellsNode (interface r) := by
  unfold interface
  infer_instance

instance [r.Sound] : Spells (enumeration.member r) := by
  unfold enumeration.member
  infer_instance

instance [r.Sound] : SpellsNode (enumeration r) := by
  unfold enumeration
  infer_instance

theorem reads_nest {i₀ : Input} {first : Node} {links : List (List Node)}
    (h₀ : Reads i₀ [first] i) (ho : Operand first) (h : Reads i links.flatten j)
    (hlinks : ∀ link ∈ links, Link link) : Reads i₀ [nestedName.nest first links] j := by
  unfold nestedName.nest
  split
  · next hl =>
    rw [List.reverse_eq_nil_iff.1 hl] at h
    exact h₀.append h
  · next last before hl =>
    obtain ⟨k, hb, hlast⟩ := reads_last h hl
    have hbefore : ∀ link ∈ before.reverse, Link link := by
      intro link hlink
      exact hlinks link
        (List.mem_reverse.1 (hl ▸ List.mem_cons_of_mem _ (List.mem_reverse.1 hlink)))
    exact ((reads_members h₀ ho hb hbefore).withRole .object).node_cons hlast none

instance : SpellsNode nestedName where
  reads := by
    intro i n j h
    obtain ⟨first, k, hf, h⟩ := bind_eq_some.1 h
    obtain ⟨links, l, hl, h⟩ := bind_eq_some.1 h
    obtain ⟨rfl, rfl⟩ := pure_eq_some.1 h
    exact reads_nest (SpellsNode.reads hf) (Leads.operand hf) (reads_links hl)
      (forall_mem_many link_of_name hl)

instance [r.Sound] : Spells (moduleRest r) := by
  unfold moduleRest
  infer_instance

instance [r.Sound] : SpellsNode (internalModule r) := by
  unfold internalModule
  infer_instance

instance [r.Sound] : SpellsNode (moduleDeclaration r) := by
  unfold moduleDeclaration
  infer_instance

instance : SpellsNode importAlias := by
  unfold importAlias
  infer_instance

instance [r.Sound] : SpellsNode (plainDeclaration r) := by
  unfold plainDeclaration
  infer_instance

instance [r.Sound] : SpellsNode (ambientDeclaration r) := by
  unfold ambientDeclaration
  infer_instance

instance [r.Sound] : SpellsNode (declaration r) := by
  unfold declaration
  infer_instance

/-! ### Imports and exports -/

instance : Spells fromClause := by
  unfold fromClause
  infer_instance

instance : SpellsNode exportedName := by
  unfold exportedName
  infer_instance

instance (x : Reader Node) [SpellsNode x] : Spells (specifiers x) := by
  unfold specifiers
  infer_instance

instance (x : Reader Node) : Yields (specifiers x) := by
  unfold specifiers
  infer_instance

instance (newName : Reader Node) [SpellsNode newName] : Spells (specifier.renamed newName) where
  reads := by
    intro i ns j h
    obtain ⟨ms, k, hm, h⟩ := bind_eq_some.1 h
    obtain ⟨_, l, ha, h⟩ := bind_eq_some.1 h
    obtain ⟨rfl, rfl⟩ := pure_eq_some.1 h
    rw [← ahead_eq_some ha]
    exact Spells.reads hm

instance (k : Kind) (newName : Reader Node) [Holds k.isFree] [SpellsNode newName] :
    SpellsNode (specifier k newName) := by
  unfold specifier
  infer_instance

instance : SpellsNode importClause.group := by
  unfold importClause.group
  infer_instance

instance : SpellsNode importClause := by
  unfold importClause
  infer_instance

instance : Spells importStatement.subject := by
  unfold importStatement.subject
  infer_instance

instance (p : Pieces) [r.Sound] [Spells p] : SpellsNode (importStatement.statementWith r p) := by
  unfold importStatement.statementWith
  infer_instance

instance [r.Sound] : SpellsNode (importStatement r) := by
  unfold importStatement
  infer_instance

instance : Spells exportStatement.clause := by
  unfold exportStatement.clause
  infer_instance

instance [r.Sound] : SpellsNode (exportStatement r) := by
  unfold exportStatement
  infer_instance

/-! ### Control flow -/

instance [r.Sound] : Spells (forHeader r) := by
  unfold forHeader
  infer_instance

instance [r.Sound] : SpellsNode (forInStatement r) := by
  unfold forInStatement
  infer_instance

instance : SpellsNode emptyStatement := by
  unfold emptyStatement
  infer_instance

instance [r.Sound] : SpellsNode (forStatement r) := by
  unfold forStatement
  infer_instance

instance [r.Sound] : Spells (switchChoice.body r) := by
  unfold switchChoice.body
  infer_instance

instance [r.Sound] : SpellsNode (switchChoice r) := by
  unfold switchChoice
  infer_instance

instance (k : Kind) (w : String) [Holds k.isFree] : SpellsNode (keywordStatement.jump k w) := by
  unfold keywordStatement.jump
  infer_instance

instance [r.Sound] : SpellsNode (keywordStatement r) := by
  unfold keywordStatement
  refine spellsNode_oneOf ?_
  simp only [List.forall_mem_cons]
  and_intros <;> first | infer_instance | nofun

instance [r.Sound] : SpellsNode (expressionStatement r) := by
  unfold expressionStatement
  infer_instance

instance [r.Sound] : SpellsNode (labeledStatement r) := by
  unfold labeledStatement
  infer_instance

instance [r.Sound] : SpellsNode (openStatement r) where
  reads := by
    intro i n j h
    obtain ⟨_, k, ha, h⟩ := bind_eq_some.1 h
    rw [← absent_eq_some ha] at h
    exact SpellsNode.reads h

instance [r.Sound] : SpellsNode (statement r) := by
  unfold statement
  infer_instance

/-! ### Scripts -/

/-- The rules spell what they read, however deep they may nest. -/
theorem rules_sound (fuel : Nat) : (rules fuel).Sound := by
  induction fuel with
  | zero =>
    have := rules_leading 0
    constructor <;> first | assumption | (intros; constructor; nofun)
  | succ fuel ih =>
    exact
      { leading := rules_leading (fuel + 1)
        statement := inferInstanceAs (SpellsNode (Grammar.statement (rules fuel)))
        block := fun e => inferInstanceAs (SpellsNode (Grammar.block (rules fuel) e))
        expression := fun s => inferInstanceAs (SpellsNode (Grammar.expression (rules fuel) s))
        operand := fun s => inferInstanceAs (SpellsNode (Grammar.operand (rules fuel) s))
        operators :=
          fun s least => inferInstanceAs (Extends (Grammar.operators (rules fuel) s least))
        accesses := fun s => inferInstanceAs (Extends (Grammar.accesses (rules fuel) s))
        constructed := fun s => inferInstanceAs (Extends (Grammar.constructed (rules fuel) s))
        pattern := inferInstanceAs (SpellsNode (Grammar.pattern (rules fuel)))
        type := fun e => inferInstanceAs (SpellsNode (Grammar.type (rules fuel) e))
        typeOperand := fun e => inferInstanceAs (SpellsNode (Grammar.typeOperand (rules fuel) e)) }

theorem end_eq_some {n : Node}
    (h : token .anonymous (fun cs => if cs.isEmpty then some ([], []) else none) i = some (n, j)) :
    ∃ start blank, n = .token .anonymous none start blank "" ∧ j.chars = [] ∧
      start = i.point.advance blank.toList ∧ i.chars = blank.toList := by
  unfold Reader.token at h
  have hb := span_append Lexeme.isSpacing i.chars
  rcases hs : i.chars.span Lexeme.isSpacing with ⟨blank, rest⟩
  rw [hs] at h hb
  dsimp only at h hb
  split at h
  · next l rest' hl =>
    obtain ⟨rfl, rfl⟩ := Prod.mk.inj (Option.some.inj h)
    split at hl
    · next he =>
      cases hl
      rw [List.isEmpty_iff.1 he, List.append_nil] at hb
      exact ⟨_, _, rfl, rfl, by simp, by simp [← hb]⟩
    · cases hl
  · cases h

end Grammar

/-- **A script is laid out as its text is.**  Its children spell the text from the start, each token
in its place, up to a last one without characters that marks the end. -/
theorem parse?_laid {source : String} {s : Script} (h : parse? source = some s) :
    ∃ cs start blank,
      s.root = .branch .program none (cs ++ [.token .anonymous none start blank ""]) ∧
      source = sourceAll cs ++ blank ∧ LaidFrom .origin cs ∧
      start = Point.origin.advance source.toList := by
  unfold parse? at h
  dsimp only at h
  split at h
  · next root rest hp =>
    cases h
    have := Grammar.rules_sound (8 * source.toList.length + 64)
    obtain ⟨ns, hn, rfl⟩ := map_eq_some.1 hp
    obtain ⟨k₁, bang, ls, hbang, hls, rfl⟩ := seq_cons_eq_some hn
    obtain ⟨k₂, body, ms, hbody, hms, rfl⟩ := seq_cons_eq_some hls
    obtain ⟨k₃, last, es, hlast, he, rfl⟩ := seq_cons_eq_some hms
    obtain ⟨rfl, rfl⟩ := pure_eq_some.1 he
    obtain ⟨cs, k₄, hc, hlast⟩ := bind_eq_some.1 hlast
    obtain ⟨n, k₅, hend, hlast⟩ := bind_eq_some.1 hlast
    obtain ⟨rfl, rfl⟩ := pure_eq_some.1 hlast
    obtain ⟨start, blank, rfl, -, rfl, hblank⟩ := Grammar.end_eq_some hend
    have hread := ((Spells.reads hbang).append (Spells.reads hbody)).append (Spells.reads hc)
    have htext : source = sourceAll (bang ++ body ++ cs) ++ blank := by
      rw [← String.toList_inj, String.toList_append, ← hblank]
      exact hread.chars
    refine ⟨bang ++ body ++ cs, k₄.point.advance blank.toList,
      blank, by simp, htext, hread.laid, ?_⟩
    rw [hread.point]
    conv_rhs => rw [htext, String.toList_append, Point.advance_append]
  · cases h

end FlowAnalysis.Script
