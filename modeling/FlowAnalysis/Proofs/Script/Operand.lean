import FlowAnalysis.Script.Lexeme
import FlowAnalysis.Script.Node

/-!
# How operands are written

An operand of an expression is written from left to right in one of three ways (`Operand`): it is
a name, it opens with a mark, a digit or a keyword, or it is another operand and what goes on with
it.  Only a property access goes on with a dot and a name (`Link`); a call, an index or an
operator goes on with another mark or with a word of its own (`Follows`).  So the first characters
of an operand tell its innermost part.
-/

namespace FlowAnalysis.Script

open Lexeme

/-! ### Pieces of text -/

/-- The only marks in a word are those of its escapes. -/
def IsWord (cs : List Char) : Prop := ∀ c ∈ cs, isMark c = true → c = '\\' ∨ c = '\x7b' ∨ c = '\x7d'

/-- The words other than names that an operand can open with. -/
def openingWords : List String :=
  ["this", "super", "true", "false", "null", "undefined", "new", "import", "async", "function",
    "class", "typeof", "void", "delete", "await", "using"]

/-- The words that can follow an operand, and `import`, which can follow a comment. -/
def followingWords : List String := ["as", "satisfies", "in", "instanceof", "import"]

/-- A text that opens with a mark, a digit or a keyword. -/
inductive OpensFixed : List Char → Prop
  | mark {c : Char} {cs : List Char} (h : isMark c = true) : OpensFixed (c :: cs)
  | digit {c : Char} {cs : List Char} (h : c.isDigit = true) : OpensFixed (c :: cs)
  | word {w : String} {cs : List Char} (h : w ∈ openingWords) : OpensFixed (w.toList ++ cs)

theorem OpensFixed.append {cs : List Char} (h : OpensFixed cs) (ds : List Char) :
    OpensFixed (cs ++ ds) := by
  cases h with
  | mark h => exact .mark h
  | digit h => exact .digit h
  | word h =>
    rw [List.append_assoc]
    exact .word h

theorem opensFixed_of_mem {w : String} (h : w ∈ openingWords) : OpensFixed w.toList := by
  rw [← List.append_nil w.toList]
  exact .word h

/-- Blanks, and then a mark that is neither a dot nor a question mark.  A
comment is one such text. -/
inductive Breaks : List Char → Prop
  | mk {blank cs : List Char} {c : Char} (hb : ∀ b ∈ blank, isSpacing b = true)
      (hc : isMark c = true) (hdot : c ≠ '.') (hquery : c ≠ '?') : Breaks (blank ++ c :: cs)

theorem Breaks.append {cs : List Char} (h : Breaks cs) (ds : List Char) : Breaks (cs ++ ds) := by
  cases h with
  | mk hb hc hdot hquery =>
    rw [List.append_assoc]
    exact .mk hb hc hdot hquery

/-- A text that can go on with an operand, a property apart: blanks, and then a mark other than a
dot, one of the words, `??`, or `?.` with a bracket after it. -/
inductive Follows : List Char → Prop
  | mark {cs : List Char} (h : Breaks cs) : Follows cs
  | word {blank cs : List Char} {w : String} (hb : ∀ b ∈ blank, isSpacing b = true)
      (hw : w ∈ followingWords) : Follows (blank ++ (w.toList ++ cs))
  | missing {blank cs : List Char} (hb : ∀ b ∈ blank, isSpacing b = true) :
      Follows (blank ++ '?' :: '?' :: cs)
  | optional {blank cs : List Char} (hb : ∀ b ∈ blank, isSpacing b = true) (h : Breaks cs) :
      Follows (blank ++ '?' :: '.' :: cs)

theorem Follows.append {cs : List Char} (h : Follows cs) (ds : List Char) : Follows (cs ++ ds) := by
  cases h with
  | mark h => exact .mark (h.append ds)
  | word hb hw =>
    rw [List.append_assoc, List.append_assoc]
    exact .word hb hw
  | missing hb =>
    rw [List.append_assoc]
    exact .missing hb
  | optional hb h =>
    rw [List.append_assoc]
    exact .optional hb (h.append ds)

/-! ### Operands -/

/-- Whether nodes of a kind are neither names nor accesses nor calls, which open with
what is accessed or called. -/
@[reducible]
def Kind.isPlain : Kind → Bool
  | .identifier | .memberExpression | .subscriptExpression | .nonNullExpression | .callExpression =>
    false
  | _ => true

namespace Node

/-- A token with nothing but spacing before it. -/
inductive Spaced : Node → Prop
  | mk {k : Kind} {r : Option Role} {p : Point} {blank lexeme : String}
      (h : ∀ c ∈ blank.toList, isSpacing c = true) : Spaced (.token k r p blank lexeme)

/-- A comment before a token. -/
structure IsGap (n : Node) : Prop where
  kind : n.kind = .comment
  spaced : n.Spaced
  role : n.role = none
  slash : n.text.toList.head? = some '/'

/-- What makes a property access of an operand: a dot, perhaps after a question mark, and the name
of the property.  Comments can stand before both. -/
inductive Link : List Node → Prop
  | mk {before after : List Node} {mark name : Node} (hbefore : ∀ c ∈ before, IsGap c)
      (hmark : mark.Spaced) (hdot : mark.text = "." ∨ mark.text = "?.")
      (hrole : mark.role = none ∨ mark.role = some .optionalChain)
      (hafter : ∀ c ∈ after, IsGap c) (hname : name.Spaced)
      (hproperty : name.role = some .property) :
      Link (before ++ mark :: (after ++ [name]))

/-- How an operand is written. -/
inductive Operand : Node → Prop
  | name {r : Option Role} {p : Point} {blank word : String} (h : IsWord word.toList) :
      Operand (.token .identifier r p blank word)
  | fixed {n : Node} (hk : n.kind.isPlain = true) (h : OpensFixed n.text.toList) : Operand n
  | property {r : Option Role} {object : Node} {link : List Node} (ho : Operand object)
      (hr : object.role = some .object) (h : Link link) :
      Operand (.branch .memberExpression r (object :: link))
  | further {k : Kind} {r : Option Role} {first : Node} {rest : List Node}
      (hk : k ≠ .identifier ∧ k ≠ .memberExpression) (hf : Operand first)
      (h : Follows (sourceAll rest).toList) : Operand (.branch k r (first :: rest))

/-- An access opens with an operand in the role of the object. -/
inductive Accesses (q : List Node → Prop) : List Node → Prop
  | mk {object : Node} {rest : List Node} (ho : Operand object) (hr : object.role = some .object)
      (h : q rest) : Accesses q (object :: rest)

theorem Accesses.head {q : List Node → Prop} {cs : List Node} (h : Accesses q cs) {c : Node}
    (hc : cs.head? = some c) : Operand c ∧ c.role = some .object := by
  cases h with
  | mk ho hr _ =>
    cases hc
    exact ⟨ho, hr⟩

theorem kind_inRole (r : Option Role) (n : Node) : (n.inRole r).kind = n.kind := by
  cases n <;> rfl

theorem text_inRole (r : Option Role) (n : Node) : (n.inRole r).text = n.text := by
  cases n <;> rfl

theorem role_inRole (r : Option Role) (n : Node) : (n.inRole r).role = r := by
  cases n <;> rfl

theorem kind_withKind (k : Kind) (n : Node) : (n.withKind k).kind = k := by
  cases n <;> rfl

theorem text_withKind (k : Kind) (n : Node) : (n.withKind k).text = n.text := by
  cases n <;> rfl

/-- The role of an operand does not count. -/
theorem Operand.inRole {n : Node} (h : Operand n) (r : Option Role) : Operand (n.inRole r) := by
  cases h with
  | name h => exact .name h
  | fixed hk h => exact .fixed (by rwa [kind_inRole]) (by rwa [text_inRole])
  | property ho hr h => exact .property ho hr h
  | further hk hf h => exact .further hk hf h

end Node

end FlowAnalysis.Script
