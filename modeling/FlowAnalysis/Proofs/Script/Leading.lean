import FlowAnalysis.Proofs.Script.Starting

/-!
# The grammar reads operands

What the rules of the grammar read before an access, a call or an operator is an operand
(`Leads`), and what they put around an operand is one again (`Keeps`).  As in the proof that the
grammar spells what it reads, the rules refer to each other through a record, which is closed by
induction on the fuel (`rules_leading`).
-/

namespace FlowAnalysis.Script

open Node Reader

/-! ### Operands -/

/-- A reader of operands. -/
class Leads (x : Reader Node) : Prop where
  operand : ∀ {i : Input} {n : Node} {j : Input}, x i = some (n, j) → Operand n

/-- A rule that makes an operand of an operand. -/
class Keeps (f : Node → Reader Node) : Prop where
  operand : ∀ {i j : Input} {left n : Node}, Operand left → f left i = some (n, j) → Operand n

/-- The rules of a record that read operands or go on with them. -/
class Rules.Leading (r : Rules) : Prop where
  operand : ∀ s, Leads (r.operand s)
  operators : ∀ s least, Keeps (r.operators s least)
  accesses : ∀ s, Keeps (r.accesses s)
  constructed : ∀ s, Keeps (r.constructed s)

attribute [instance] Rules.Leading.operand Rules.Leading.operators Rules.Leading.accesses
  Rules.Leading.constructed

namespace Reader

variable {i j : Input} {p : Pieces} {x : Reader Node} {k : Kind} {scan : Scanner}

instance [ScansFixed scan] [hk : Holds k.isPlain] : Leads (token k scan) where
  operand := by
    intro i n j h
    obtain ⟨-, rfl, -⟩ := token_spec h
    exact .fixed hk.holds (StartsFixedNode.opens h)

instance [StartsFixed p] [hk : Holds k.isPlain] : Leads (node k p) where
  operand := by
    intro i n j h
    obtain ⟨ns, hn, rfl⟩ := map_eq_some.1 h
    exact .fixed hk.holds (StartsFixed.opens hn)

instance : Leads (oneOf []) := ⟨nofun⟩

instance (xs : List (Reader Node)) [Leads x] [Leads (oneOf xs)] : Leads (oneOf (x :: xs)) where
  operand := fun h => (or_eq_some h).elim Leads.operand Leads.operand

/-- What follows an operand other than a property makes an operand of it. -/
theorem operand_around {first n : Node} [Continues p] (hk : k ≠ .identifier ∧ k ≠ .memberExpression)
    (hf : Operand first) (h : around k first p i = some (n, j)) : Operand n := by
  obtain ⟨ns, hn, rfl⟩ := map_eq_some.1 h
  exact .further hk hf (Continues.follows hn)

end Reader

instance : BreakingMark "(" := ⟨by decide⟩
instance : BreakingMark "[" := ⟨by decide⟩
instance : BreakingMark "\x7b" := ⟨by decide⟩
instance : BreakingMark "\x60" := ⟨by decide⟩
instance : BreakingMark "<" := ⟨by decide⟩
instance : BreakingMark "@" := ⟨by decide⟩
instance : BreakingMark "!" := ⟨by decide⟩
instance : BreakingMark "=>" := ⟨by decide⟩
instance : OpeningWord "this" := ⟨by decide⟩
instance : OpeningWord "super" := ⟨by decide⟩
instance : OpeningWord "true" := ⟨by decide⟩
instance : OpeningWord "false" := ⟨by decide⟩
instance : OpeningWord "null" := ⟨by decide⟩
instance : OpeningWord "new" := ⟨by decide⟩
instance : OpeningWord "import" := ⟨by decide⟩
instance : OpeningWord "async" := ⟨by decide⟩
instance : OpeningWord "function" := ⟨by decide⟩
instance : OpeningWord "class" := ⟨by decide⟩
instance : OpeningWord "await" := ⟨by decide⟩
instance : OpeningWord "using" := ⟨by decide⟩
instance : FollowingWord "as" := ⟨by decide⟩
instance : FollowingWord "satisfies" := ⟨by decide⟩
instance : FollowingWord "import" := ⟨by decide⟩

namespace Grammar

variable {r : Rules} {i j : Input}

/-! ### Names and literals -/

theorem wordBut_eq_some {barred : List String} {cs l rest : List Char}
    (h : wordBut barred cs = some (l, rest)) : Lexeme.word cs = some (l, rest) := by
  unfold wordBut at h
  split at h
  · next hw =>
    split at h
    · cases h
    · exact hw.trans h
  · cases h

/-- A token of a word is a name. -/
theorem operand_of_word {scan : Scanner}
    (hscan : ∀ {cs l rest}, scan cs = some (l, rest) → IsWord l) {n : Node}
    (h : token .identifier scan i = some (n, j)) : Operand n := by
  obtain ⟨hspaced, hk, -, cs, rest, hs⟩ := token_spec h
  cases hspaced with
  | mk =>
    obtain rfl := hk
    exact .name (hscan hs)

instance : Leads (name .identifier) := ⟨operand_of_word Lexeme.isWord_word⟩

instance : Leads (freeName .identifier) :=
  ⟨operand_of_word fun h => Lexeme.isWord_word (wordBut_eq_some h)⟩

instance : Leads identifier where
  operand := by
    intro i n j h
    obtain ⟨m, l, hm, h⟩ := bind_eq_some.1 h
    obtain ⟨rfl, rfl⟩ := pure_eq_some.1 h
    split
    · next ht =>
      refine .fixed (by rw [kind_withKind]) ?_
      rw [text_withKind, eq_of_beq ht]
      exact opensFixed_of_mem (by decide)
    · exact Leads.operand hm

/-- A lexeme opens with the first character of the input. -/
theorem head_of_splits {scan : Scanner} [Splits scan] {c : Char} {cs l rest : List Char}
    (h : scan (c :: cs) = some (l, rest)) : ∃ l', l = c :: l' := by
  obtain ⟨hne, happ⟩ := Splits.splits h
  cases l with
  | nil => exact absurd rfl hne
  | cons d l =>
    obtain ⟨rfl, -⟩ := List.cons.inj happ
    exact ⟨l, rfl⟩

instance : ScansFixed Lexeme.number where
  opens := by
    intro cs l rest h
    have hsplits := h
    unfold Lexeme.number at h
    split at h
    · obtain ⟨l', rfl⟩ := head_of_splits hsplits
      exact .digit (by decide)
    · obtain ⟨l', rfl⟩ := head_of_splits hsplits
      exact .mark (by decide)
    · unfold Lexeme.decimal Lexeme.digits1 at h
      cases cs with
      | nil => simp at h
      | cons c cs =>
        obtain ⟨l', rfl⟩ := head_of_splits hsplits
        by_cases hc : c.isDigit = true
        · exact .digit hc
        · simp [hc] at h

instance : ScansFixed Lexeme.string where
  opens := by
    intro cs l rest h
    have hsplits := h
    unfold Lexeme.string at h
    split at h
    · split at h
      · next c cs hc =>
        obtain ⟨l', rfl⟩ := head_of_splits hsplits
        simp only [Bool.or_eq_true, decide_eq_true_eq] at hc
        rcases hc with rfl | rfl <;> exact .mark (by decide)
      · cases h
    · cases h

instance : ScansFixed Lexeme.regex where
  opens := by
    intro cs l rest h
    have hsplits := h
    unfold Lexeme.regex at h
    split at h
    · obtain ⟨l', rfl⟩ := head_of_splits hsplits
      exact .mark (by decide)
    · cases h

instance : ScansFixed Lexeme.privateName where
  opens := by
    intro cs l rest h
    have hsplits := h
    unfold Lexeme.privateName at h
    split at h
    · obtain ⟨l', rfl⟩ := head_of_splits hsplits
      exact .mark (by decide)
    · cases h

theorem opensFixed_of_head? {l : List Char} (h : l.head?.any Lexeme.isMark = true) :
    OpensFixed l := by
  cases l with
  | nil => cases h
  | cons c l => exact .mark h

instance : ScansFixed unaryOperator where
  opens := by
    intro cs l rest h
    unfold unaryOperator at h
    split at h
    · split at h
      · next hm =>
        obtain ⟨rfl, rfl⟩ := Prod.mk.inj (Option.some.inj h)
        have hmarks : ∀ m ∈ ["!", "~", "-", "+"], m.toList.head?.any Lexeme.isMark = true := by
          decide
        have hhead := hmarks _ (List.contains_iff_mem.1 hm)
        rw [String.toList_ofList] at hhead
        exact opensFixed_of_head? hhead
      · cases h
    · split at h
      · split at h
        · next hw =>
          obtain ⟨rfl, rfl⟩ := Prod.mk.inj (Option.some.inj h)
          have hwords : ∀ w ∈ ["typeof", "void", "delete"], w ∈ openingWords := by decide
          have hopens := opensFixed_of_mem (hwords _ (List.contains_iff_mem.1 hw))
          rwa [String.toList_ofList] at hopens
        · cases h
      · cases h

instance : ScansBreak updateOperator where
  breaks := by
    intro cs l rest h
    unfold updateOperator at h
    rcases Option.or_eq_some_iff.1 h with h | ⟨-, h⟩
    · rw [Lexeme.symbol_eq h]
      exact ⟨'+', ['+'], rfl, by decide⟩
    · rw [Lexeme.symbol_eq h]
      exact ⟨'-', ['-'], rfl, by decide⟩

/-! ### Expressions without operators -/

instance (m closing : String) (item : Pieces) [BreakingMark m] :
    StartsFixed (slots m closing item) := by
  unfold slots
  infer_instance

instance (m closing : String) (item : Pieces) [BreakingMark m] :
    StartsBreak (slots m closing item) := by
  unfold slots
  infer_instance

instance : StartsFixedNode (typeParameters r) := by
  unfold typeParameters
  infer_instance

instance : StartsFixedNode (formalParameters r) := by
  unfold formalParameters
  infer_instance

instance : StartsFixedNode (decorator r) := by
  unfold decorator
  infer_instance

instance : StartsFixedNode (typeArguments r) := by
  unfold typeArguments
  infer_instance

instance : StartsBreakNode (typeArguments r) := by
  unfold typeArguments
  infer_instance

instance : StartsBreakNode (arguments r) := by
  unfold arguments
  infer_instance

instance : StartsBreakNode (template r) := by
  unfold template
  infer_instance

instance (s : Setting) : StartsFixed (arrowSignature r s) := by
  unfold arrowSignature signature
  split <;> infer_instance

/-- A name with an arrow after it, or what opens with a mark or a word. -/
theorem operand_arrow {body : Pieces} {n : Node}
    (h : node .arrowFunction (seq [field .parameter identifier, sym "=>", body]) i = some (n, j)) :
    Operand n := by
  obtain ⟨ns, hn, rfl⟩ := map_eq_some.1 h
  obtain ⟨l, ms, ls, hp, hs, rfl⟩ := seq_cons_eq_some hn
  obtain ⟨cs, m, l', rfl, hm, hcs⟩ := gaps_of_sub hp
  obtain ⟨name, hname, rfl⟩ := map_eq_some.1 hm
  have hfollows : Follows (sourceAll ls).toList := Continues.follows hs
  cases cs with
  | nil => exact .further (by decide) (operand_withRole (Leads.operand hname) .parameter) hfollows
  | cons c cs =>
    obtain ⟨t, ht⟩ := List.head?_eq_some_iff.1 (hcs c List.mem_cons_self).slash
    refine .fixed rfl ?_
    rw [text, List.cons_append, List.cons_append, textAll, String.toList_append, ht]
    exact .mark (by decide)

instance (s : Setting) : Leads (arrowFunction r s) where
  operand := by
    intro i n j h
    unfold arrowFunction at h
    rcases or_eq_some h with h | h
    · unfold arrowFunction.arrow at h
      rcases or_eq_some h with h | h
      · exact Leads.operand h
      · rcases or_eq_some h with h | h
        · exact operand_arrow h
        · cases h
    · rcases or_eq_some h with h | h
      · have hleads : Leads (arrowFunction.arrow r s (arrowSignature r s)) := by
          unfold arrowFunction.arrow
          infer_instance
        exact hleads.operand h
      · cases h

instance : Leads (functionExpression r) where
  operand := by
    intro i n j h
    obtain ⟨head, l₁, hh, h⟩ := bind_eq_some.1 h
    obtain ⟨mark, l₂, hm, h⟩ := bind_eq_some.1 h
    obtain ⟨rest, l₃, hr, h⟩ := bind_eq_some.1 h
    obtain ⟨rfl, rfl⟩ := pure_eq_some.1 h
    refine .fixed ?_ (opensFixed_append (opensFixed_append (StartsFixed.opens hh) mark) rest)
    rw [kind]
    split <;> rfl

instance : Leads (classExpression r) := by
  unfold classExpression decorators
  infer_instance

/-- An operand that is taken only when something follows it. -/
theorem operand_ahead {α : Type} {x : Reader Node} {a : Reader α} [Leads x] {n : Node}
    (h : (do
      let n ← x
      ahead a
      return n : Reader Node) i = some (n, j)) : Operand n := by
  obtain ⟨m, k, hm, h⟩ := bind_eq_some.1 h
  obtain ⟨_, l, ha, h⟩ := bind_eq_some.1 h
  obtain ⟨rfl, rfl⟩ := pure_eq_some.1 h
  exact Leads.operand hm

instance : Leads constant := by
  have : Leads (do
      let n ← token .importFunction (Lexeme.keyword "import")
      ahead (oneOf [sym "(", sym "<", sym ".", sym "?."])
      return n) := ⟨operand_ahead⟩
  unfold constant
  infer_instance

instance (s : Setting) : Leads (primary r s) := by
  have : Leads (do
      let n ← token .privatePropertyIdentifier Lexeme.privateName
      ahead (kw "in")
      return n) := ⟨operand_ahead⟩
  unfold primary numberLiteral stringLiteral template array object parenthesized
  infer_instance

/-! ### Accesses and calls -/

/-- The node that a token becomes in a role. -/
theorem spaced_inRole {n : Node} (h : n.Spaced) (r : Option Role) : (n.inRole r).Spaced := by
  cases h with
  | mk h => exact .mk h

/-- A dot, perhaps after a question mark, with the comments before it. -/
inductive IsDot : List Node → Prop
  | mk {before : List Node} {mark : Node} (hbefore : ∀ c ∈ before, c.IsGap) (hmark : mark.Spaced)
      (hdot : mark.text = "." ∨ mark.text = "?.") (hrole : mark.role = none ∨
        mark.role = some .optionalChain) :
      IsDot (before ++ [mark])

theorem isDot_of_sym {m : String} (hm : m = "." ∨ m = "?.") {ns : List Node}
    (h : sym m i = some (ns, j)) : IsDot ns := by
  obtain ⟨before, n, l, rfl, hn, hbefore⟩ := gaps_of_sub h
  obtain ⟨hspaced, -, hrole, cs, rest, hs⟩ := token_spec hn
  refine .mk hbefore hspaced ?_ (.inl hrole)
  rwa [String.toList_inj.1 (Lexeme.symbol_eq hs)]

/-- The mark of an optional access. -/
theorem spaced_of_optionalChain {n : Node}
    (h : (Node.withRole .optionalChain <$> token .optionalChain (Lexeme.symbol "?.") : Reader Node)
      i = some (n, j)) : n.Spaced ∧ n.text = "?." ∧ n.role = some .optionalChain := by
  obtain ⟨m, hm, rfl⟩ := map_eq_some.1 h
  obtain ⟨hspaced, -, -, cs, rest, hs⟩ := token_spec hm
  rw [withRole_eq_inRole, text_inRole, role_inRole]
  exact ⟨spaced_inRole hspaced _, String.toList_inj.1 (Lexeme.symbol_eq hs), rfl⟩

theorem isDot_of_optionalChain {ns : List Node}
    (h : optionalChain i = some (ns, j)) : IsDot ns := by
  obtain ⟨before, n, l, rfl, hn, hbefore⟩ := gaps_of_sub h
  obtain ⟨hspaced, htext, hrole⟩ := spaced_of_optionalChain hn
  exact .mk hbefore hspaced (.inr htext) (.inr hrole)

/-- A dot and the name of a property. -/
theorem link_of_seq {mark : Pieces} {name : Reader Node} {ns : List Node}
    (hmark : ∀ {i ms j}, mark i = some (ms, j) → IsDot ms)
    (hname : ∀ {i n j}, name i = some (n, j) → n.Spaced)
    (h : seq [mark, field .property name] i = some (ns, j)) : Link ns := by
  obtain ⟨l, ms, ls, hp, hs, rfl⟩ := seq_cons_eq_some h
  obtain ⟨l', ks, es, hf, he, rfl⟩ := seq_cons_eq_some hs
  obtain ⟨rfl, rfl⟩ := pure_eq_some.1 he
  obtain ⟨after, m, l₁, rfl, hm, hafter⟩ := gaps_of_sub hf
  obtain ⟨n, hn, rfl⟩ := map_eq_some.1 hm
  obtain ⟨hbefore, hspaced, hdot, hrole⟩ := hmark hp
  have hname' : (n.withRole .property).Spaced := by
    rw [withRole_eq_inRole]
    exact spaced_inRole (hname hn) _
  simpa using Link.mk hbefore hspaced hdot hrole hafter hname' (role_withRole .property n)

theorem spaced_of_name {k : Kind} {n : Node} (h : name k i = some (n, j)) : n.Spaced :=
  (token_spec h).1

theorem spaced_of_memberName {n : Node}
    (h : oneOf [token .privatePropertyIdentifier Lexeme.privateName, name .propertyIdentifier] i =
      some (n, j)) : n.Spaced := by
  rcases or_eq_some h with h | h
  · exact (token_spec h).1
  · rcases or_eq_some h with h | h
    · exact spaced_of_name h
    · cases h

theorem link_of_member {ns : List Node}
    (h : seq [sym ".", memberName] i = some (ns, j)) : Link ns :=
  link_of_seq (isDot_of_sym (.inl rfl)) spaced_of_memberName h

theorem link_of_optionalMember {ns : List Node}
    (h : seq [optionalChain, memberName] i = some (ns, j)) : Link ns :=
  link_of_seq isDot_of_optionalChain spaced_of_memberName h

/-- An element of an object goes on with a bracket, perhaps after `?.`. -/
instance :
    Continues (seq [opt optionalChain, sym "[", field .index (expressions r .inner), sym "]"]) where
  follows := fun h => follows_opt_chain
    (fun hc => ⟨(spaced_of_optionalChain hc).1, (spaced_of_optionalChain hc).2.1⟩) h

/-- A call goes on with a bracket, perhaps after `?.`. -/
instance : Continues (seq [opt (sym "?."), opt (field .typeArguments (typeArguments r)),
    field .arguments (arguments r)]) where
  follows := by
    intro i ns j h
    refine follows_opt_chain (fun hc => ?_) h
    obtain ⟨hspaced, -, -, cs, rest, hs⟩ := token_spec hc
    exact ⟨hspaced, String.toList_inj.1 (Lexeme.symbol_eq hs)⟩

theorem operand_member {object n : Node} {p : Pieces} (hp : ∀ {ns}, p i = some (ns, j) → Link ns)
    (ho : Operand object)
    (h : around .memberExpression (object.withRole .object) p i = some (n, j)) : Operand n := by
  obtain ⟨ns, hn, rfl⟩ := map_eq_some.1 h
  exact .property (operand_withRole ho .object) (role_withRole .object object) (hp hn)

instance : Keeps (memberAccess r) where
  operand := by
    intro i j left n hleft h
    rcases or_eq_some h with h | h
    · exact operand_member link_of_member hleft h
    rcases or_eq_some h with h | h
    · exact operand_member link_of_optionalMember hleft h
    rcases or_eq_some h with h | h
    · exact operand_around (by decide) (operand_withRole hleft .object) h
    rcases or_eq_some h with h | h
    · exact operand_around (by decide) hleft h
    · cases h

instance : Keeps (callAccess r) where
  operand := fun hleft h => operand_around (by decide) (operand_withRole hleft .function) h

instance : Keeps (instantiation r) where
  operand := by
    intro i j left n hleft h
    obtain ⟨m, l, hm, h⟩ := bind_eq_some.1 h
    obtain ⟨_, l', ha, h⟩ := bind_eq_some.1 h
    obtain ⟨rfl, rfl⟩ := pure_eq_some.1 h
    exact operand_around (by decide) hleft hm

/-- One access, call or instantiation. -/
theorem operand_of_access {s : Setting} {left n : Node} (hleft : Operand left)
    (h : oneOf [memberAccess r left, callAccess r left,
      if s.instances then instantiation r left else failure] i = some (n, j)) : Operand n := by
  rcases or_eq_some h with h | h
  · exact Keeps.operand hleft h
  rcases or_eq_some h with h | h
  · exact Keeps.operand hleft h
  rcases or_eq_some h with h | h
  · split at h
    · exact Keeps.operand hleft h
    · cases h
  · cases h

instance (s : Setting) [r.Leading] : Keeps (accesses r s) where
  operand := by
    intro i j left n hleft h
    rcases or_eq_some h with h | h
    · obtain ⟨_, l, hg, h⟩ := bind_eq_some.1 h
      obtain ⟨m, l', hm, h⟩ := bind_eq_some.1 h
      exact Keeps.operand (operand_of_access hleft hm) h
    · obtain ⟨rfl, rfl⟩ := pure_eq_some.1 h
      exact hleft

/-- One access of the class after `new`, or a call of a template or of another `new`. -/
theorem operand_of_constructed {left n : Node} (hleft : Operand left)
    (h : oneOf [memberAccess r left,
      around .callExpression (left.withRole .function) (field .arguments (template r)),
      if left.kind == .newExpression then callAccess r left else failure] i = some (n, j)) :
    Operand n := by
  rcases or_eq_some h with h | h
  · exact Keeps.operand hleft h
  rcases or_eq_some h with h | h
  · exact operand_around (by decide) (operand_withRole hleft .function) h
  rcases or_eq_some h with h | h
  · split at h
    · exact Keeps.operand hleft h
    · cases h
  · cases h

instance (s : Setting) [r.Leading] : Keeps (constructed r s) where
  operand := by
    intro i j left n hleft h
    rcases or_eq_some h with h | h
    · obtain ⟨_, l, hg, h⟩ := bind_eq_some.1 h
      obtain ⟨m, l', hm, h⟩ := bind_eq_some.1 h
      exact Keeps.operand (operand_of_constructed hleft hm) h
    · obtain ⟨rfl, rfl⟩ := pure_eq_some.1 h
      exact hleft

instance (s : Setting) [r.Leading] : Leads (newExpression.nested r s) where
  operand := by
    intro i n j h
    obtain ⟨_, l, -, h⟩ := bind_eq_some.1 h
    obtain ⟨_, l', -, h⟩ := bind_eq_some.1 h
    exact Leads.operand h

instance (s : Setting) : Leads (newExpression r s) where
  operand := by
    intro i n j h
    obtain ⟨mark, l₁, hm, h⟩ := bind_eq_some.1 h
    obtain ⟨gap, l₂, hg, h⟩ := bind_eq_some.1 h
    obtain ⟨first, l₃, hf, h⟩ := bind_eq_some.1 h
    obtain ⟨c, l₄, hc, h⟩ := bind_eq_some.1 h
    obtain ⟨rest, l₅, hr, h⟩ := bind_eq_some.1 h
    split at h
    · cases h
    · obtain ⟨rfl, rfl⟩ := pure_eq_some.1 h
      exact .fixed rfl (opensFixed_append (opensFixed_append (StartsFixed.opens hm) gap) _)

/-! ### Accesses in types -/

/-- A module taken by name is an operand. -/
instance : Leads (node .callExpression
    (seq [field .function (token .importFunction (Lexeme.keyword "import")),
      field .arguments (node .arguments (seq [sym "(", sub stringLiteral, sym ")"]))])) where
  operand := by
    intro i n j h
    obtain ⟨ns, hn, rfl⟩ := map_eq_some.1 h
    obtain ⟨l, ms, ls, hp, hs, rfl⟩ := seq_cons_eq_some hn
    obtain ⟨cs, m, l', rfl, hm, hcs⟩ := gaps_of_sub hp
    obtain ⟨word, hword, rfl⟩ := map_eq_some.1 hm
    have hfollows : Follows (sourceAll ls).toList := Continues.follows hs
    cases cs with
    | nil => exact .further (by decide) (operand_withRole (Leads.operand hword) .function) hfollows
    | cons c cs =>
      -- A comment comes first, and the word follows it.
      have hc := hcs c List.mem_cons_self
      obtain ⟨t, ht⟩ := List.head?_eq_some_iff.1 hc.slash
      have hcomment : Operand c := .fixed (by rw [hc.kind]) (by rw [ht]; exact .mark (by decide))
      have hcs' := fun d hd => hcs d (List.mem_cons_of_mem _ hd)
      have hrest : Follows (sourceAll (cs ++ [word.withRole .function] ++ ls)).toList := by
        have hword' := follows_word hword hcs'
        rw [sourceAll_append, sourceAll_singleton] at hword'
        rw [sourceAll_append, sourceAll_append, sourceAll_singleton, withRole_eq_inRole,
          source_inRole, String.toList_append]
        exact hword'.append _
      exact .further (by decide) hcomment hrest

instance : Leads typeQuery.importCall := by
  unfold typeQuery.importCall
  infer_instance

instance : Leads thisName := inferInstanceAs (Leads (token .thisValue (Lexeme.keyword "this")))

theorem role_ne_index_of_link {ns : List Node} (h : Link ns) : ∀ n ∈ ns, n.role ≠ some .index := by
  obtain ⟨hbefore, -, -, hrole, hafter, -, hproperty⟩ := h
  intro n hn
  simp only [List.mem_append, List.mem_cons, List.not_mem_nil, or_false] at hn
  rcases hn with hn | rfl | hn | rfl
  · simp [(hbefore n hn).role]
  · rcases hrole with hr | hr <;> simp [hr]
  · simp [(hafter n hn).role]
  · simp [hproperty]

/-- An access in a type is to a property, or it has an index. -/
theorem link_or_index {ns : List Node} (h : typeQuery.link i = some (ns, j)) :
    Link ns ∨ Follows (sourceAll ns).toList ∧ ∃ n ∈ ns, n.role = some .index := by
  rcases or_eq_some h with h | h
  · refine .inl (link_of_seq (fun hm => ?_) spaced_of_memberName h)
    rcases or_eq_some hm with hm | hm
    · exact isDot_of_sym (.inl rfl) hm
    rcases or_eq_some hm with hm | hm
    · exact isDot_of_sym (.inr rfl) hm
    · cases hm
  rcases or_eq_some h with h | h
  · refine .inr ⟨follows_opt_chain (fun hc => ?_) h, ?_⟩
    · obtain ⟨hspaced, -, -, cs, rest, hs⟩ := token_spec hc
      exact ⟨hspaced, String.toList_inj.1 (Lexeme.symbol_eq hs)⟩
    · obtain ⟨l₁, ms₁, ls₁, -, hs₁, rfl⟩ := seq_cons_eq_some h
      obtain ⟨l₂, ms₂, ls₂, -, hs₂, rfl⟩ := seq_cons_eq_some hs₁
      obtain ⟨l₃, ms₃, ls₃, hp, -, rfl⟩ := seq_cons_eq_some hs₂
      obtain ⟨cs, n, l', rfl, hn, -⟩ := field_eq_some hp
      exact ⟨n.withRole .index, by simp, role_withRole .index n⟩
  · cases h

/-! ### Operators -/

/-- The first child of an access or a call can be exchanged for another operand in its role. -/
theorem operand_exchange {c : Kind} {role : Option Role} {first : Node} {rest : List Node}
    (hc : c.isPlain = false) (h : Operand (.branch c role (first :: rest))) :
    Operand first ∧ ∀ m : Node, Operand m → m.role = first.role →
    Operand (.branch c role (m :: rest)) := by
  cases h with
  | fixed hk _ => exact absurd (hk.symm.trans hc) (by decide)
  | property ho hr hl => exact ⟨ho, fun m hm hrole => .property hm (hrole.trans hr) hl⟩
  | further hk hf hs => exact ⟨hf, fun m hm _ => .further hk hm hs⟩

theorem isPlain_of_callOver {c : Kind} (h : (c == .callExpression || c == .memberExpression
    || c == .subscriptExpression || c == .nonNullExpression) = true) : c.isPlain = false := by
  simp only [Bool.or_eq_true, beq_iff_eq] at h
  rcases h with ((rfl | rfl) | rfl) | rfl <;> rfl

/-- An operator that ends before a call with type arguments. -/
theorem operand_callOver? {k : Kind} {wrap : Node → Node} (hwrap : ∀ m, Operand (wrap m))
    {n m : Node} (hn : Operand n) (h : callOver? k wrap n = some m) :
    Operand m ∧ m.role = n.role := by
  -- The descent wraps the first child of a call with type arguments, or goes on in the first child;
  -- either way one operand is exchanged for another in its role.
  fun_induction callOver? k wrap n generalizing m with
  | case1 => cases h
  | case2 => cases h
  | case3 c role first rest hc here =>
    obtain ⟨-, hexchange⟩ := operand_exchange (isPlain_of_callOver hc) hn
    cases h
    exact ⟨hexchange _ ((hwrap first).inRole first.role) (role_inRole _ _), rfl⟩
  | case4 c role first rest hc deeper _ m' hm' _ =>
    rename_i ih
    obtain ⟨hfirst, hexchange⟩ := operand_exchange (isPlain_of_callOver hc) hn
    obtain ⟨m'', hm'', rfl⟩ := Option.map_eq_some_iff.1 hm'
    cases h
    obtain ⟨ho, hr⟩ := ih hfirst hm''
    exact ⟨hexchange m'' ho hr, rfl⟩
  | case5 c role first rest hc here =>
    obtain ⟨-, hexchange⟩ := operand_exchange (isPlain_of_callOver hc) hn
    cases h
    exact ⟨hexchange _ ((hwrap first).inRole first.role) (role_inRole _ _), rfl⟩
  | case6 c role first rest hc deeper _ =>
    rename_i ih
    obtain ⟨hfirst, hexchange⟩ := operand_exchange (isPlain_of_callOver hc) hn
    obtain ⟨m', hm', rfl⟩ := Option.map_eq_some_iff.1 h
    obtain ⟨ho, hr⟩ := ih hfirst hm'
    exact ⟨hexchange m' ho hr, rfl⟩
  | case7 => cases h

/-- An operator on an operand, in whatever reading is chosen. -/
theorem operand_operation {k : Kind} {before : List Node} {role : Option Role}
    (hwrap : ∀ m, Operand (.branch k none (before ++ [m]))) {n : Node} (hn : Operand n) :
    Operand (operation k before role n) := by
  unfold operation
  dsimp only
  split
  · next m hm =>
    split
    · exact (operand_callOver? (fun m => hwrap _) hn hm).1
    · exact hwrap _
  · exact hwrap _

/-- What stands behind an operator in front does not count. -/
theorem operand_prefixed {k : Kind} (hk : k.isPlain = true) {operator : Pieces}
    [StartsFixed operator] {mark : List Node} (hm : operator i = some (mark, j)) (gap : List Node)
    (m : Node) : Operand (.branch k none (mark ++ gap ++ [m])) :=
  .fixed hk (opensFixed_append (opensFixed_append (StartsFixed.opens hm) gap) [m])

instance (k : Kind) (operator : Pieces) (role : Option Role) (x : Reader Node)
    [hk : Holds k.isPlain] [StartsFixed operator] [Leads x] :
    Leads (prefixed k operator role x) where
  operand := by
    intro i n j h
    obtain ⟨mark, l₁, hm, h⟩ := bind_eq_some.1 h
    obtain ⟨gap, l₂, hg, h⟩ := bind_eq_some.1 h
    obtain ⟨m, l₃, ha, h⟩ := bind_eq_some.1 h
    obtain ⟨rfl, rfl⟩ := pure_eq_some.1 h
    exact operand_operation (operand_prefixed hk.holds hm gap) (Leads.operand ha)

/-- Types after an operand. -/
theorem operand_casts {kind : List Node → Kind}
    (hk : ∀ ns, kind ns ≠ .identifier ∧ kind ns ≠ .memberExpression) {casts : List (List Node)}
    (hcasts : ∀ ns ∈ casts, Follows (sourceAll ns).toList) {n : Node} (hn : Operand n) :
    Operand (casts.foldl (fun left ns => .branch (kind ns) none (left :: ns)) n) := by
  induction casts generalizing n with
  | nil => exact hn
  | cons ns casts ih =>
    exact ih (fun ms hms => hcasts ms (List.mem_cons_of_mem _ hms))
      (.further (hk ns) hn (hcasts ns List.mem_cons_self))

instance (s : Setting) : Leads (usingAssignment r s) where
  operand := by
    intro i n j h
    obtain ⟨mark, l₁, hm, h⟩ := bind_eq_some.1 h
    obtain ⟨gap, l₂, -, h⟩ := bind_eq_some.1 h
    obtain ⟨left, l₃, -, h⟩ := bind_eq_some.1 h
    obtain ⟨rest, l₄, -, h⟩ := bind_eq_some.1 (unless_eq_some h)
    obtain ⟨rfl, rfl⟩ := pure_eq_some.1 h
    exact .fixed rfl (opensFixed_append (opensFixed_append (StartsFixed.opens hm) gap) _)

instance (s : Setting) [r.Leading] : Leads (castOperand r s) where
  operand := by
    intro i n j h
    obtain ⟨m, l, hm, h⟩ := bind_eq_some.1 h
    obtain ⟨casts, l', hc, h⟩ := bind_eq_some.1 h
    obtain ⟨rfl, rfl⟩ := pure_eq_some.1 h
    refine operand_casts (fun ns => by split <;> decide) ?_ (Leads.operand hm)
    exact forall_mem_many (fun hns => Continues.follows (further_eq_some hns)) hc

instance (s : Setting) [r.Leading] : Leads (awaited r s) := by
  unfold awaited
  infer_instance

instance (s : Setting) [r.Leading] : Leads (operand r s) := by
  have : Leads (do
      let first ← oneOf [newExpression r s, primary r s]
      let n ← r.accesses s first
      (do
        goesOn s.ending
        around .updateExpression (n.withRole .argument)
          (field .operator (token .anonymous updateOperator)))
        <|> pure n) := by
    constructor
    intro i n j h
    obtain ⟨first, l₁, hf, h⟩ := bind_eq_some.1 h
    obtain ⟨m, l₂, hm, h⟩ := bind_eq_some.1 h
    have hm : Operand m := Keeps.operand (Leads.operand hf) hm
    rcases or_eq_some h with h | h
    · obtain ⟨_, l₃, hg, h⟩ := bind_eq_some.1 h
      exact operand_around (by decide) (operand_withRole hm .argument) h
    · obtain ⟨rfl, rfl⟩ := pure_eq_some.1 h
      exact hm
  unfold operand
  infer_instance

instance (e : Ending) : Keeps (typedAs r e) where
  operand := by
    intro i j left n hleft h
    rcases or_eq_some h with h | h
    · exact operand_around (by decide) hleft h
    rcases or_eq_some h with h | h
    · exact operand_around (by decide) hleft h
    · cases h

/-- A binary operator opens with a mark other than a dot, or it is `??` or a word. -/
theorem operator_cases {w : String} (h : (level? w).isSome = true) :
    w.toList.head?.any (fun c => Lexeme.isMark c && c != '.' && c != '?') = true ∨ w = "??" ∨
    w ∈ followingWords := by
  unfold level? at h
  split at h <;> first | decide | cases h

instance : Continues (field .operator (token .anonymous binaryOperator)) where
  follows := by
    intro i ns j h
    obtain ⟨cs, n, l, rfl, hn, hcs⟩ := gaps_of_sub h
    by_cases hne : cs = []
    · obtain ⟨m, hm, rfl⟩ := map_eq_some.1 hn
      obtain ⟨hspaced, -, -, ds, rest, hs⟩ := token_spec hm
      obtain ⟨blank, hb, hsource⟩ := hspaced.source_eq
      have hlevel : (level? m.text).isSome = true := by
        unfold binaryOperator at hs
        split at hs
        · split at hs
          · next hl =>
            rw [(Prod.mk.inj (Option.some.inj hs)).1, String.ofList_toList] at hl
            exact hl
          · cases hs
        · cases hs
      rw [hne, List.nil_append, sourceAll_singleton, withRole_eq_inRole, source_inRole, hsource]
      rcases operator_cases hlevel with hmark | hmissing | hword
      · have : BreakingMark m.text := ⟨hmark⟩
        obtain ⟨c, l, hl, hc, hdot, hquery⟩ := BreakingMark.exists_cons m.text
        rw [hl]
        exact .mark (.mk hb hc hdot hquery)
      · rw [hmissing]
        exact .missing hb
      · rw [← List.append_nil m.text.toList]
        exact .word hb hword
    · exact .mark (breaks_of_gaps hcs hne [n])

/-- What stands behind a binary operator does not count. -/
theorem operand_binary {left : Node} (hleft : Operand left) {mark : List Node}
    (hm : field .operator (token .anonymous binaryOperator) i = some (mark, j)) (gap : List Node)
    (m : Node) :
    Operand (.branch .binaryExpression none (left.withRole .left :: mark ++ gap ++ [m])) := by
  have hfollows : Follows (sourceAll (mark ++ gap ++ [m])).toList := by
    rw [List.append_assoc, sourceAll_append, String.toList_append]
    exact (Continues.follows hm).append _
  exact .further (by decide) (operand_withRole hleft .left) hfollows

instance (s : Setting) (least : Nat) [r.Leading] : Keeps (operators r s least) where
  operand := by
    intro i j left n hleft h
    rcases or_eq_some h with h | h
    · obtain ⟨_, l₁, hg, h⟩ := bind_eq_some.1 h
      obtain ⟨mark, l₂, hm, h⟩ := bind_eq_some.1 h
      obtain ⟨gap, l₃, hc, h⟩ := bind_eq_some.1 (unless_eq_some h)
      obtain ⟨first, l₄, hf, h⟩ := bind_eq_some.1 h
      obtain ⟨right, l₅, hr, h⟩ := bind_eq_some.1 h
      refine Keeps.operand ?_ h
      split
      · exact operand_operation (operand_binary hleft hm gap) (Keeps.operand (Leads.operand hf) hr)
      · exact operand_binary hleft hm gap _
    rcases or_eq_some h with h | h
    · obtain ⟨_, l₁, hg, h⟩ := bind_eq_some.1 (unless_eq_some h)
      obtain ⟨m, l₂, hm, h⟩ := bind_eq_some.1 h
      exact Keeps.operand (Keeps.operand hleft hm) h
    rcases or_eq_some h with h | h
    · obtain ⟨rfl, rfl⟩ := pure_eq_some.1 h
      exact hleft
    · cases h

/-- The rules read operands and go on with them, however deep they may nest. -/
theorem rules_leading (fuel : Nat) : (rules fuel).Leading := by
  induction fuel with
  | zero => constructor <;> (intros; constructor; nofun)
  | succ fuel ih =>
    exact
      { operand := fun s => inferInstanceAs (Leads (Grammar.operand (rules fuel) s))
        operators := fun s least => inferInstanceAs (Keeps (Grammar.operators (rules fuel) s least))
        accesses := fun s => inferInstanceAs (Keeps (Grammar.accesses (rules fuel) s))
        constructed := fun s => inferInstanceAs (Keeps (Grammar.constructed (rules fuel) s)) }

end Grammar

end FlowAnalysis.Script
