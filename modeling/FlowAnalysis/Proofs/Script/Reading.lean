import FlowAnalysis.Proofs.Script.Operand
import FlowAnalysis.Proofs.Script.Scanner

/-!
# Readers spell what they read

A reader loses nothing: the nodes it gives spell the characters it has consumed, and every
token stands where its characters stood (`Reads`).  This is shown for each way of putting
readers together.  Whether a given reader does so is then found by instance resolution:
`Spells` is for readers of pieces, `SpellsNode` for readers of one node, and `Yields` says
that there is at least one piece.

Some nodes also have a fixed shape (`Shaped`): a `new` expression, an `await` and a parenthesis
open with a word or a mark, a call opens with what is called, and an access to a property or an
element opens with an operand.
-/

namespace FlowAnalysis.Script

theorem Point.advance_append (p : Point) (cs ds : List Char) :
    p.advance (cs ++ ds) = (p.advance cs).advance ds := List.foldl_append

/-! ### The layout of a tree -/

/-- Whether nodes of a kind have no fixed shape. -/
@[reducible]
def Kind.isFree : Kind → Bool
  | .parenthesizedExpression | .awaitExpression | .newExpression | .callExpression
  | .memberExpression | .subscriptExpression => false
  | _ => true

namespace Node

/-- The arguments of a call or a construction are a list in parentheses or a template. -/
def HasArguments (cs : List Node) : Prop :=
  ∀ c ∈ cs, c.role = some .arguments → c.kind = .arguments ∨ c.kind = .templateString

/-- What is fixed about the children of a node of a kind. -/
def Shaped : Kind → List Node → Prop
  | .parenthesizedExpression, cs | .awaitExpression, cs => ∀ c ∈ cs.head?, c.children = []
  | .newExpression, cs => (∀ c ∈ cs.head?, c.children = []) ∧ HasArguments cs
  | .callExpression, cs =>
    HasArguments cs ∧ ∀ c ∈ cs.head?, c.role = some .function ∨
      c.children = [] ∧ ∀ d ∈ cs, d.role ≠ some .typeArguments
  | .memberExpression, cs => Accesses Link cs
  | .subscriptExpression, cs => Accesses (fun rest => Follows (sourceAll rest).toList) cs
  | _, _ => True

mutual

/-- A node whose blank text starts at a place: every token in it stands where it should and is of a
kind without a fixed shape, and every branch has children and the shape of its kind. -/
def LaidAt (p : Point) : Node → Prop
  | token k _ start blank lexeme => start = p.advance blank.toList ∧ lexeme.toList ≠ [] ∧
    k.isFree = true
  | branch k _ cs => cs ≠ [] ∧ Shaped k cs ∧ LaidFrom p cs

/-- Siblings laid one after the other from a place. -/
def LaidFrom (p : Point) : List Node → Prop
  | [] => True
  | c :: cs => LaidAt p c ∧ LaidFrom (p.advance c.source.toList) cs

end

theorem sourceAll_append (ns ms : List Node) :
    sourceAll (ns ++ ms) = sourceAll ns ++ sourceAll ms := by
  induction ns with
  | nil => simp [sourceAll]
  | cons n ns ih => rw [List.cons_append, sourceAll, sourceAll, ih, String.append_assoc]

theorem source_token (k : Kind) (r : Option Role) (p : Point) (b l : String) :
    (token k r p b l).source = b ++ l := rfl

theorem source_branch (k : Kind) (r : Option Role) (cs : List Node) :
    (branch k r cs).source = sourceAll cs := rfl

theorem sourceAll_singleton (n : Node) : sourceAll [n] = n.source := by
  simp [sourceAll]

theorem laidFrom_append {p : Point} {ns ms : List Node} :
    LaidFrom p (ns ++ ms) ↔ LaidFrom p ns ∧ LaidFrom (p.advance (sourceAll ns).toList) ms := by
  induction ns generalizing p with
  | nil => simp [LaidFrom, sourceAll, Point.advance]
  | cons n ns ih =>
    rw [List.cons_append, LaidFrom, LaidFrom, ih, sourceAll, String.toList_append,
      Point.advance_append, and_assoc]

@[simp]
theorem source_inRole (r : Option Role) (n : Node) : (n.inRole r).source = n.source := by
  cases n <;> rfl

@[simp]
theorem laidAt_inRole {p : Point} {r : Option Role} {n : Node} :
    LaidAt p (n.inRole r) ↔ LaidAt p n := by
  cases n <;> simp [inRole, LaidAt]

theorem withRole_eq_inRole (r : Role) (n : Node) : n.withRole r = n.inRole (some r) := by
  cases n <;> rfl

theorem operand_withRole {n : Node} (h : Operand n) (r : Role) : Operand (n.withRole r) := by
  rw [withRole_eq_inRole]
  exact h.inRole (some r)

end Node

/-- A condition that instance resolution can check by computing it. -/
class Holds (b : Bool) : Prop where
  holds : b = true

instance : Holds true := ⟨rfl⟩

theorem Node.shaped_of_isFree {k : Kind} (h : k.isFree = true) (cs : List Node) : Shaped k cs := by
  cases k <;> trivial

/-! ### What readers give -/

open Node

/-- From an input to a later one, nodes that spell the characters between the two and are laid from
the place of the first. -/
structure Reads (i : Input) (ns : List Node) (j : Input) : Prop where
  chars : i.chars = (sourceAll ns).toList ++ j.chars
  point : j.point = i.point.advance (sourceAll ns).toList
  laid : LaidFrom i.point ns

namespace Reads

variable {i j l : Input} {ns ms : List Node} {n : Node} {k : Kind}

theorem nil (i : Input) : Reads i [] i := ⟨rfl, rfl, trivial⟩

theorem append (h : Reads i ns j) (h' : Reads j ms l) : Reads i (ns ++ ms) l where
  chars := by rw [sourceAll_append, String.toList_append, List.append_assoc, ← h'.chars, h.chars]
  point := by rw [sourceAll_append, String.toList_append, Point.advance_append, ← h.point, h'.point]
  laid := laidFrom_append.2 ⟨h.laid, h.point ▸ h'.laid⟩

theorem cons (h : Reads i [n] j) (h' : Reads j ms l) : Reads i (n :: ms) l := h.append h'

/-- The source and the layout of a node are all that counts. -/
theorem congr {m : Node} (h : Reads i [n] j) (hs : m.source = n.source)
    (hl : LaidAt i.point n → LaidAt i.point m) : Reads i [m] j where
  chars := by rw [h.chars, sourceAll_singleton, sourceAll_singleton, hs]
  point := by rw [h.point, sourceAll_singleton, sourceAll_singleton, hs]
  laid := ⟨hl h.laid.1, trivial⟩

theorem inRole (h : Reads i [n] j) (r : Option Role) : Reads i [n.inRole r] j :=
  h.congr (source_inRole r n) laidAt_inRole.2

theorem withRole (h : Reads i [n] j) (r : Role) : Reads i [n.withRole r] j := by
  rw [withRole_eq_inRole]
  exact h.inRole (some r)

/-- A node around children. -/
theorem branch (h : Reads i ns j) (hne : ns ≠ []) (hk : Shaped k ns) (r : Option Role) :
    Reads i [.branch k r ns] j where
  chars := by
    rw [sourceAll_singleton]
    exact h.chars
  point := by
    rw [sourceAll_singleton]
    exact h.point
  laid := ⟨⟨hne, hk, h.laid⟩, trivial⟩

/-- The children of a node. -/
theorem of_branch {r : Option Role} (h : Reads i [.branch k r ns] j) :
    Reads i ns j ∧ Shaped k ns where
  left := ⟨by rw [h.chars, sourceAll_singleton, source_branch], by
    rw [h.point, sourceAll_singleton, source_branch], h.laid.1.2.2⟩
  right := h.laid.1.2.1

/-- A node without a fixed shape. -/
theorem node [hk : Holds k.isFree] (h : Reads i ns j) (hne : ns ≠ []) (r : Option Role) :
    Reads i [.branch k r ns] j :=
  h.branch hne (shaped_of_isFree hk.holds ns) r

/-- A node without a fixed shape, with a first child that has been read already. -/
theorem node_cons [Holds k.isFree] (h : Reads i [n] j) (h' : Reads j ms l) (r : Option Role) :
    Reads i [.branch k r (n :: ms)] l :=
  (h.cons h').node (by simp) r

/-- A kind without a fixed shape can take the place of any other. -/
theorem withKind [hk : Holds k.isFree] (h : Reads i [n] j) : Reads i [n.withKind k] j := by
  refine h.congr (by cases n <;> rfl) ?_
  cases n with
  | token => exact fun hl => ⟨hl.1, hl.2.1, hk.holds⟩
  | branch => exact fun hl => ⟨hl.1, shaped_of_isFree hk.holds _, hl.2.2⟩

/-- Between nodes and those after them there is an input. -/
theorem split (h : Reads i (ns ++ ms) j) : ∃ k, Reads i ns k ∧ Reads k ms j := by
  have hc := h.chars
  have hp := h.point
  rw [sourceAll_append, String.toList_append] at hc hp
  obtain ⟨hns, hms⟩ := laidFrom_append.1 h.laid
  refine ⟨⟨(sourceAll ms).toList ++ j.chars, i.point.advance (sourceAll ns).toList⟩, ?_, ?_⟩
  · exact ⟨by rw [hc, List.append_assoc], rfl, hns⟩
  · exact ⟨rfl, by rw [hp, Point.advance_append], hms⟩

theorem map_of_forall {f : Node → Node}
    (hf : ∀ {i : Input} {n : Node} {j : Input}, Reads i [n] j → Reads i [f n] j)
    (h : Reads i ns j) : Reads i (ns.map f) j := by
  induction ns generalizing i with
  | nil => exact h
  | cons n ns ih =>
    obtain ⟨k, hn, hns⟩ := split (show Reads i ([n] ++ ns) j from h)
    exact (hf hn).cons (ih hns)

/-- A chain of links, each of which makes a node around what has been read before, and keeps what is
known of it. -/
theorem foldl_keeps {extend : Node → List Node → Node} {P : Node → Prop} {Q : List Node → Prop}
    (hx : ∀ {i j l left link}, Reads i [left] j → P left → Reads j link l → Q link →
      Reads i [extend left link] l ∧ P (extend left link))
    {links : List (List Node)} (hQ : ∀ link ∈ links, Q link) (h : Reads i [n] j) (hP : P n)
    (h' : Reads j links.flatten l) :
    Reads i [links.foldl extend n] l ∧ P (links.foldl extend n) := by
  induction links generalizing n j with
  | nil =>
    have := h.append h'
    rw [List.flatten_nil, List.append_nil] at this
    exact ⟨this, hP⟩
  | cons link links ih =>
    obtain ⟨k, hlink, hlinks⟩ := split h'
    obtain ⟨hread, hkept⟩ := hx h hP hlink (hQ link List.mem_cons_self)
    exact ih (fun l hl => hQ l (List.mem_cons_of_mem _ hl)) hread hkept hlinks

/-- A chain of links, each of which makes a node around what has been read before. -/
theorem foldl {extend : Node → List Node → Node} {links : List (List Node)}
    (hx : ∀ {i j l left link}, Reads i [left] j → Reads j link l → Reads i [extend left link] l)
    (h : Reads i [n] j) (h' : Reads j links.flatten l) : Reads i [links.foldl extend n] l :=
  (foldl_keeps (P := fun _ => True) (Q := fun _ => True) (fun hl _ hk _ => ⟨hx hl hk, trivial⟩)
    (fun _ _ => trivial) h trivial h').1

end Reads

/-- A reader of pieces that spell what it consumes. -/
class Spells (p : Pieces) : Prop where
  reads : ∀ {i : Input} {ns : List Node} {j : Input}, p i = some (ns, j) → Reads i ns j

/-- A reader of a node that spells what it consumes. -/
class SpellsNode (p : Reader Node) : Prop where
  reads : ∀ {i : Input} {n : Node} {j : Input}, p i = some (n, j) → Reads i [n] j

/-- A reader that gives at least one piece. -/
class Yields (p : Pieces) : Prop where
  ne_nil : ∀ {i : Input} {ns : List Node} {j : Input}, p i = some (ns, j) → ns ≠ []

namespace Reader

variable {α β : Type} {i j : Input}

/-! ### Readers as functions -/

theorem bind_eq_some {x : Reader α} {f : α → Reader β} {b : β} :
    (x >>= f) i = some (b, j) ↔ ∃ a k, x i = some (a, k) ∧ f a k = some (b, j) := by
  show (x i).bind (fun r => f r.1 r.2) = some (b, j) ↔ _
  rw [Option.bind_eq_some_iff]
  constructor
  · rintro ⟨⟨a, k⟩, hx, hf⟩
    exact ⟨a, k, hx, hf⟩
  · rintro ⟨a, k, hx, hf⟩
    exact ⟨(a, k), hx, hf⟩

theorem map_eq_some {x : Reader α} {f : α → β} {b : β} :
    (f <$> x) i = some (b, j) ↔ ∃ a, x i = some (a, j) ∧ f a = b := by
  show (x i).bind (fun r => some (f r.1, r.2)) = some (b, j) ↔ _
  rw [Option.bind_eq_some_iff]
  constructor
  · rintro ⟨⟨a, k⟩, hx, hf⟩
    cases hf
    exact ⟨a, hx, rfl⟩
  · rintro ⟨a, hx, rfl⟩
    exact ⟨(a, j), hx, rfl⟩

theorem pure_eq_some {a b : α} : (pure a : Reader α) i = some (b, j) ↔ a = b ∧ i = j := by
  show some (a, i) = some (b, j) ↔ _
  simp

theorem or_eq_some {x y : Reader α} {a : α} (h : (x <|> y) i = some (a, j)) :
    x i = some (a, j) ∨ y i = some (a, j) := by
  have h : (x i <|> y i) = some (a, j) := h
  cases hx : x i with
  | none =>
    rw [hx] at h
    exact .inr h
  | some r =>
    rw [hx] at h
    exact .inl h

/-- A reader that refuses under a condition. -/
theorem unless_eq_some {c : Prop} [Decidable c] {f : PUnit → Reader α} {a : α}
    (h : (if c then failure >>= f else f ⟨⟩ : Reader α) i = some (a, j)) :
    f ⟨⟩ i = some (a, j) := by
  split at h
  · cases h
  · exact h

/-! ### Ways of putting readers together -/

variable {p q : Pieces} {x y : Reader Node}

instance (k : Kind) (scan : Scanner) [hk : Holds k.isFree] [Splits scan] :
    SpellsNode (token k scan) where
  reads := by
    intro i n j h
    unfold token at h
    have hb := span_append Lexeme.isSpacing i.chars
    rcases hs : i.chars.span Lexeme.isSpacing with ⟨blank, rest⟩
    rw [hs] at h hb
    dsimp only at h hb
    split at h
    · next lexeme rest' hl =>
      obtain ⟨rfl, rfl⟩ := Prod.mk.inj (Option.some.inj h)
      obtain ⟨hne, happ⟩ := Splits.splits hl
      refine ⟨?_, ?_, ⟨?_, ?_, hk.holds⟩, trivial⟩
      · rw [sourceAll_singleton, source_token]
        simp [← hb, ← happ]
      · rw [sourceAll_singleton, source_token]
        simp [Point.advance_append]
      · simp
      · simpa using hne
    · cases h

instance (k : Kind) (scan : Scanner) [hk : Holds k.isFree] [Splits scan] :
    SpellsNode (tight k scan) where
  reads := by
    intro i n j h
    unfold tight at h
    split at h
    · next lexeme rest hl =>
      obtain ⟨rfl, rfl⟩ := Prod.mk.inj (Option.some.inj h)
      obtain ⟨hne, happ⟩ := Splits.splits hl
      refine ⟨?_, ?_, ⟨?_, ?_, hk.holds⟩, trivial⟩
      · rw [sourceAll_singleton, source_token]
        simp [← happ]
      · rw [sourceAll_singleton, source_token]
        simp
      · simp [Point.advance]
      · simpa using hne
    · cases h

/-- What one more repetition keeps holds after all of them. -/
theorem repeated_induction {r : Reader α} {P : List α → Input → Prop}
    (step : ∀ {as i a j}, P as i → r i = some (a, j) → P (as ++ [a]) j) (fuel : Nat) {i j : Input}
    {acc as : List α} (hacc : P acc.reverse i) (h : repeated r fuel i acc = (as, j)) : P as j := by
  induction fuel generalizing i acc with
  | zero =>
    cases h
    exact hacc
  | succ fuel ih =>
    rw [repeated] at h
    split at h
    · cases h
      exact hacc
    · next a next ha =>
      refine ih ?_ h
      rw [List.reverse_cons]
      exact step hacc ha

theorem many_induction {r : Reader α} {P : List α → Input → Prop}
    (step : ∀ {as i a j}, P as i → r i = some (a, j) → P (as ++ [a]) j) (h₀ : P [] i) {as : List α}
    (h : many r i = some (as, j)) : P as j :=
  repeated_induction step i.chars.length (show P [].reverse i from h₀) (Option.some.inj h)

theorem forall_mem_many {r : Reader α} {P : α → Prop} (hr : ∀ {i a j}, r i = some (a, j) → P a)
    {as : List α} (h : many r i = some (as, j)) : ∀ a ∈ as, P a := by
  refine many_induction (P := fun as _ => ∀ a ∈ as, P a) ?_ (by simp) h
  intro as k a l has ha b hb
  rcases List.mem_append.1 hb with hb | hb
  · exact has b hb
  · rw [List.mem_singleton.1 hb]
    exact hr ha

/-- Zero or more repetitions, each giving nodes. -/
theorem reads_many {r : Reader α} (out : α → List Node)
    (hr : ∀ {i a j}, r i = some (a, j) → Reads i (out a) j) {as : List α}
    (h : many r i = some (as, j)) : Reads i (as.flatMap out) j := by
  refine many_induction (P := fun as k => Reads i (as.flatMap out) k) ?_ (.nil i) h
  intro as k a l hk ha
  rw [List.flatMap_append, List.flatMap_singleton]
  exact hk.append (hr ha)

theorem reads_links [Spells p] {links : List (List Node)} (h : many p i = some (links, j)) :
    Reads i links.flatten j := by
  have := reads_many id Spells.reads h
  rwa [List.flatMap_id] at this

instance : Spells comments where
  reads := by
    intro i ns j h
    have := reads_many (fun n => [n]) SpellsNode.reads h
    rwa [List.flatMap_singleton'] at this

instance [SpellsNode x] : Spells (sub x) where
  reads := by
    intro i ns j h
    obtain ⟨cs, k, hc, h⟩ := bind_eq_some.1 h
    obtain ⟨n, l, hn, h⟩ := bind_eq_some.1 h
    obtain ⟨rfl, rfl⟩ := pure_eq_some.1 h
    exact (Spells.reads hc).append (SpellsNode.reads hn)

instance : Yields (sub x) where
  ne_nil := by
    intro i ns j h
    obtain ⟨cs, k, hc, h⟩ := bind_eq_some.1 h
    obtain ⟨n, l, hn, h⟩ := bind_eq_some.1 h
    obtain ⟨rfl, rfl⟩ := pure_eq_some.1 h
    simp

instance (r : Role) [SpellsNode x] : SpellsNode (Node.withRole r <$> x) where
  reads := by
    intro i n j h
    obtain ⟨m, hm, rfl⟩ := map_eq_some.1 h
    exact (SpellsNode.reads hm).withRole r

instance (r : Role) [SpellsNode x] : Spells (field r x) :=
  inferInstanceAs (Spells (sub (Node.withRole r <$> x)))

instance (r : Role) : Yields (field r x) := inferInstanceAs (Yields (sub (Node.withRole r <$> x)))

instance (r : Role) [Spells p] : Spells (fields r p) where
  reads := by
    intro i ns j h
    obtain ⟨ms, hm, rfl⟩ := map_eq_some.1 h
    refine Reads.map_of_forall ?_ (Spells.reads hm)
    intro i n j hn
    split
    · exact hn
    · exact hn.withRole r

instance (r : Role) [Yields p] : Yields (fields r p) where
  ne_nil := by
    intro i ns j h
    obtain ⟨ms, hm, rfl⟩ := map_eq_some.1 h
    simpa using Yields.ne_nil hm

instance (w : String) : Spells (kw w) :=
  inferInstanceAs (Spells (sub (token .anonymous (Lexeme.keyword w))))

instance (w : String) : Yields (kw w) :=
  inferInstanceAs (Yields (sub (token .anonymous (Lexeme.keyword w))))

instance (m : String) : Spells (sym m) :=
  inferInstanceAs (Spells (sub (token .anonymous (Lexeme.symbol m))))

instance (m : String) : Yields (sym m) :=
  inferInstanceAs (Yields (sub (token .anonymous (Lexeme.symbol m))))

/-- A mark that has characters. -/
class Visible (m : String) : Prop where
  toList_ne_nil : m.toList ≠ []

instance (m : String) [Visible m] : Spells (glyph m) := by
  have : Splits (Lexeme.exactly m.toList) := by
    cases hm : m.toList with
    | nil => exact absurd hm Visible.toList_ne_nil
    | cons c cs => infer_instance
  exact inferInstanceAs (Spells (sub (token .anonymous (Lexeme.exactly m.toList))))

instance (m : String) : Yields (glyph m) :=
  inferInstanceAs (Yields (sub (token .anonymous (Lexeme.exactly m.toList))))

instance : Spells (seq []) where
  reads := by
    intro i ns j h
    obtain ⟨rfl, rfl⟩ := pure_eq_some.1 h
    exact .nil _

theorem seq_cons_eq_some {ps : List Pieces} {ns : List Node} (h : seq (p :: ps) i = some (ns, j)) :
    ∃ k ms ls, p i = some (ms, k) ∧ seq ps k = some (ls, j) ∧ ms ++ ls = ns := by
  obtain ⟨ms, k, hp, h⟩ := bind_eq_some.1 h
  obtain ⟨ls, l, hs, h⟩ := bind_eq_some.1 h
  obtain ⟨rfl, rfl⟩ := pure_eq_some.1 h
  exact ⟨k, ms, ls, hp, hs, rfl⟩

instance (ps : List Pieces) [Spells p] [Spells (seq ps)] : Spells (seq (p :: ps)) where
  reads := by
    intro i ns j h
    obtain ⟨k, ms, ls, hp, hs, rfl⟩ := seq_cons_eq_some h
    exact (Spells.reads hp).append (Spells.reads hs)

instance (ps : List Pieces) [Yields p] : Yields (seq (p :: ps)) where
  ne_nil := by
    intro i ns j h
    obtain ⟨k, ms, ls, hp, hs, rfl⟩ := seq_cons_eq_some h
    simp [Yields.ne_nil hp]

instance (priority := low) (ps : List Pieces) [Yields (seq ps)] : Yields (seq (p :: ps)) where
  ne_nil := by
    intro i ns j h
    obtain ⟨k, ms, ls, hp, hs, rfl⟩ := seq_cons_eq_some h
    simp [Yields.ne_nil hs]

instance : Spells (oneOf []) := ⟨nofun⟩

instance : Yields (oneOf []) := ⟨nofun⟩

instance : SpellsNode (oneOf []) := ⟨nofun⟩

instance (ps : List Pieces) [Spells p] [Spells (oneOf ps)] : Spells (oneOf (p :: ps)) where
  reads := fun h => (or_eq_some h).elim Spells.reads Spells.reads

instance (ps : List Pieces) [Yields p] [Yields (oneOf ps)] : Yields (oneOf (p :: ps)) where
  ne_nil := fun h => (or_eq_some h).elim Yields.ne_nil Yields.ne_nil

instance (xs : List (Reader Node)) [SpellsNode x] [SpellsNode (oneOf xs)] :
    SpellsNode (oneOf (x :: xs)) where
  reads := fun h => (or_eq_some h).elim SpellsNode.reads SpellsNode.reads

/-- Each of many alternatives on its own. -/
theorem spellsNode_oneOf {xs : List (Reader Node)} (h : ∀ x ∈ xs, SpellsNode x) :
    SpellsNode (oneOf xs) := by
  induction xs with
  | nil => infer_instance
  | cons x xs ih =>
    have := h x List.mem_cons_self
    have := ih fun y hy => h y (List.mem_cons_of_mem _ hy)
    infer_instance

instance [SpellsNode x] [SpellsNode y] : SpellsNode (x <|> y) where
  reads := fun h => (or_eq_some h).elim SpellsNode.reads SpellsNode.reads

instance [Spells p] [Spells q] : Spells (p <|> q) where
  reads := fun h => (or_eq_some h).elim Spells.reads Spells.reads

instance : Spells (pure []) where
  reads := by
    intro i ns j h
    obtain ⟨rfl, rfl⟩ := pure_eq_some.1 h
    exact .nil _

instance [Spells p] : Spells (opt p) := inferInstanceAs (Spells (p <|> pure []))

instance [Spells p] : Spells (star p) where
  reads := by
    intro i ns j h
    obtain ⟨nss, hm, rfl⟩ := map_eq_some.1 h
    exact reads_links hm

instance [Spells p] [Spells q] : Spells (sepBy1 p q) :=
  inferInstanceAs (Spells (seq [p, star (seq [q, p])]))

instance [SpellsNode x] : Spells ((fun n => [n]) <$> x) where
  reads := by
    intro i ns j h
    obtain ⟨n, hn, rfl⟩ := map_eq_some.1 h
    exact SpellsNode.reads hn

instance : Yields ((fun n => [n]) <$> x) where
  ne_nil := by
    intro i ns j h
    obtain ⟨n, hn, rfl⟩ := map_eq_some.1 h
    simp

/-- A node of a fixed shape. -/
theorem spellsNode_node {k : Kind} [Spells p] [Yields p]
    (hk : ∀ {i ns j}, p i = some (ns, j) → Shaped k ns) : SpellsNode (node k p) where
  reads := by
    intro i n j h
    obtain ⟨ns, hn, rfl⟩ := map_eq_some.1 h
    exact (Spells.reads hn).branch (Yields.ne_nil hn) (hk hn) none

instance (k : Kind) [Spells p] [Yields p] [hk : Holds k.isFree] : SpellsNode (node k p) :=
  spellsNode_node fun _ => shaped_of_isFree hk.holds _

/-! ### Looking ahead -/

/-- What only looks ahead gives back the input. -/
theorem ahead_eq_some {r : Reader α} (h : ahead r i = some ((), j)) : i = j := by
  unfold ahead at h
  split at h
  · exact (Prod.mk.inj (Option.some.inj h)).2
  · cases h

theorem absent_eq_some {r : Reader α} (h : absent r i = some ((), j)) : i = j := by
  unfold absent at h
  split at h
  · cases h
  · exact (Prod.mk.inj (Option.some.inj h)).2

theorem goesOn_eq_some {e : Ending} (h : goesOn e i = some ((), j)) : i = j := by
  unfold goesOn at h
  split at h
  · exact (pure_eq_some.1 h).2
  · exact absent_eq_some h

theorem reads_suppliedAfter {e : Ending} (fuel : Nat) {ns : List Node}
    (h : suppliedAfter e fuel i = some (ns, j)) : Reads i ns j := by
  induction fuel generalizing i ns with
  | zero => cases h
  | succ fuel ih =>
    rw [suppliedAfter] at h
    split at h
    · cases h
      exact .nil _
    · split at h
      · next c next hc =>
        obtain ⟨⟨cs, last⟩, hs, he⟩ := Option.map_eq_some_iff.1 h
        cases he
        exact (SpellsNode.reads hc).cons (ih hs)
      · cases h

instance (e : Ending) : Spells (automatic e) := ⟨reads_suppliedAfter _⟩

instance (e : Ending) : Spells (semicolon e) :=
  inferInstanceAs (Spells (automatic e <|> sym ";"))

theorem further_eq_some {e : Ending} {ns : List Node} (h : further e p i = some (ns, j)) :
    p i = some (ns, j) := by
  obtain ⟨_, k, hg, h⟩ := bind_eq_some.1 h
  rwa [← goesOn_eq_some hg] at h

instance (e : Ending) [Spells p] : Spells (further e p) where
  reads := fun h => Spells.reads (further_eq_some h)

/-! ### Shapes -/

theorem token_eq_some {k : Kind} {scan : Scanner} {n : Node} (h : token k scan i = some (n, j)) :
    n.children = [] ∧ n.role = none := by
  unfold token at h
  dsimp only at h
  split at h
  · cases h
    exact ⟨rfl, rfl⟩
  · cases h

/-- Comments are leaves without a role. -/
theorem comments_eq_some {ns : List Node} (h : comments i = some (ns, j)) :
    ∀ n ∈ ns, n.children = [] ∧ n.role = none := by
  refine many_induction (P := fun ns _ => ∀ n ∈ ns, n.children = [] ∧ n.role = none) ?_ (by simp) h
  intro ns k m l hns hm n hn
  rcases List.mem_append.1 hn with hn | hn
  · exact hns n hn
  · rw [List.mem_singleton.1 hn]
    exact token_eq_some hm

/-- A node with comments before it. -/
theorem sub_eq_some {ns : List Node} (h : sub x i = some (ns, j)) :
    ∃ cs n k, ns = cs ++ [n] ∧ x k = some (n, j) ∧ ∀ c ∈ cs, c.children = [] ∧ c.role = none := by
  obtain ⟨cs, k, hc, h⟩ := bind_eq_some.1 h
  obtain ⟨n, l, hn, h⟩ := bind_eq_some.1 h
  obtain ⟨rfl, rfl⟩ := pure_eq_some.1 h
  exact ⟨cs, n, k, rfl, hn, comments_eq_some hc⟩

/-- Pieces that open with a leaf. -/
class Opens (p : Pieces) : Prop where
  opens : ∀ {i : Input} {ns : List Node} {j : Input}, p i = some (ns, j) →
    ns ≠ [] ∧ ∀ c ∈ ns.head?, c.children = []

instance (k : Kind) (scan : Scanner) : Opens (sub (token k scan)) where
  opens := by
    intro i ns j h
    obtain ⟨cs, n, l, rfl, hn, hcs⟩ := sub_eq_some h
    refine ⟨by simp, ?_⟩
    cases cs with
    | nil =>
      rintro c ⟨⟩
      exact (token_eq_some hn).1
    | cons d ds =>
      rintro c ⟨⟩
      exact (hcs d List.mem_cons_self).1

instance (w : String) : Opens (kw w) :=
  inferInstanceAs (Opens (sub (token .anonymous (Lexeme.keyword w))))

instance (m : String) : Opens (sym m) :=
  inferInstanceAs (Opens (sub (token .anonymous (Lexeme.symbol m))))

/-- The leaf stays in front of what is put after it. -/
theorem opens_append {ns : List Node} (ms : List Node)
    (h : ns ≠ [] ∧ ∀ c ∈ ns.head?, c.children = []) :
    ns ++ ms ≠ [] ∧ ∀ c ∈ (ns ++ ms).head?, c.children = [] := by
  obtain ⟨hne, hh⟩ := h
  cases ns with
  | nil => exact absurd rfl hne
  | cons n ns => exact ⟨by simp, hh⟩

instance (ps : List Pieces) [Opens p] : Opens (seq (p :: ps)) where
  opens := by
    intro i ns j h
    obtain ⟨k, ms, ls, hp, hs, rfl⟩ := seq_cons_eq_some h
    exact opens_append ls (Opens.opens hp)

/-- Pieces that can follow what is called: the arguments among them are arguments. -/
class Argues (p : Pieces) : Prop where
  hasArguments : ∀ {i : Input} {ns : List Node} {j : Input}, p i = some (ns, j) → HasArguments ns

theorem hasArguments_append {ns ms : List Node} (h : HasArguments ns) (h' : HasArguments ms) :
    HasArguments (ns ++ ms) := fun c hc => (List.mem_append.1 hc).elim (h c) (h' c)

theorem hasArguments_cons {n : Node} {ns : List Node} (hn : n.role ≠ some .arguments)
    (h : HasArguments ns) : HasArguments (n :: ns) := by
  intro c hc hr
  rcases List.mem_cons.1 hc with rfl | hc
  · exact absurd hr hn
  · exact h c hc hr

/-- Nodes in other roles are no arguments. -/
theorem hasArguments_of_role {ns : List Node} (h : ∀ n ∈ ns, n.role ≠ some .arguments) :
    HasArguments ns := fun n hn hr => absurd hr (h n hn)

instance (k : Kind) (scan : Scanner) : Argues (sub (token k scan)) where
  hasArguments := by
    intro i ns j h
    obtain ⟨cs, n, l, rfl, hn, hcs⟩ := sub_eq_some h
    refine hasArguments_of_role fun c hc => ?_
    rcases List.mem_append.1 hc with hc | hc
    · rw [(hcs c hc).2]
      nofun
    · rw [List.mem_singleton.1 hc, (token_eq_some hn).2]
      nofun

instance (w : String) : Argues (kw w) :=
  inferInstanceAs (Argues (sub (token .anonymous (Lexeme.keyword w))))

instance (m : String) : Argues (sym m) :=
  inferInstanceAs (Argues (sub (token .anonymous (Lexeme.symbol m))))

theorem role_withRole (r : Role) (n : Node) : (n.withRole r).role = some r := by
  cases n <;> rfl

theorem children_withRole (r : Role) (n : Node) : (n.withRole r).children = n.children := by
  cases n <;> rfl

/-- A node in a role, with comments before it. -/
theorem field_eq_some {r : Role} {ns : List Node} (h : field r x i = some (ns, j)) :
    ∃ cs n k, ns = cs ++ [n.withRole r] ∧ x k = some (n, j) ∧
      ∀ c ∈ cs, c.children = [] ∧ c.role = none := by
  obtain ⟨cs, n, l, rfl, hn, hcs⟩ := sub_eq_some h
  obtain ⟨m, hm, rfl⟩ := map_eq_some.1 hn
  exact ⟨cs, m, l, rfl, hm, hcs⟩

/-- A piece in a role has that role, and comments have none. -/
theorem role_of_mem_field {r : Role} {ns : List Node} (h : field r x i = some (ns, j)) {n : Node}
    (hn : n ∈ ns) : n.role = none ∨ n.role = some r := by
  obtain ⟨cs, m, l, rfl, hm, hcs⟩ := field_eq_some h
  rcases List.mem_append.1 hn with hn | hn
  · exact .inl (hcs n hn).2
  · rw [List.mem_singleton.1 hn]
    exact .inr (role_withRole r m)

instance : Argues (field .typeArguments x) where
  hasArguments := by
    intro i ns j h
    refine hasArguments_of_role fun n hn => ?_
    rcases role_of_mem_field h hn with hr | hr <;> rw [hr] <;> nofun

instance : Argues (field .function x) where
  hasArguments := by
    intro i ns j h
    refine hasArguments_of_role fun n hn => ?_
    rcases role_of_mem_field h hn with hr | hr <;> rw [hr] <;> nofun

/-- What is in the role of arguments has one of their kinds. -/
theorem argues_field {k : Kind} (hk : k = .arguments ∨ k = .templateString) :
    Argues (field .arguments (node k p)) where
  hasArguments := by
    intro i ns j h c hc hr
    obtain ⟨cs, m, l, rfl, hm, hcs⟩ := field_eq_some h
    obtain ⟨ms, _, rfl⟩ := map_eq_some.1 hm
    rcases List.mem_append.1 hc with hc | hc
    · rw [(hcs c hc).2] at hr
      cases hr
    · rw [List.mem_singleton.1 hc]
      exact hk

instance : Argues (field .arguments (node .arguments p)) := argues_field (.inl rfl)

instance : Argues (field .arguments (node .templateString p)) := argues_field (.inr rfl)

instance : Argues (seq []) where
  hasArguments := by
    intro i ns j h
    obtain ⟨rfl, rfl⟩ := pure_eq_some.1 h
    nofun

instance (ps : List Pieces) [Argues p] [Argues (seq ps)] : Argues (seq (p :: ps)) where
  hasArguments := by
    intro i ns j h
    obtain ⟨k, ms, ls, hp, hs, rfl⟩ := seq_cons_eq_some h
    exact hasArguments_append (Argues.hasArguments hp) (Argues.hasArguments hs)

instance : Argues (oneOf []) := ⟨nofun⟩

instance (ps : List Pieces) [Argues p] [Argues (oneOf ps)] : Argues (oneOf (p :: ps)) where
  hasArguments := fun h => (or_eq_some h).elim Argues.hasArguments Argues.hasArguments

instance [Argues p] : Argues (opt p) where
  hasArguments := by
    intro i ns j h
    rcases or_eq_some h with h | h
    · exact Argues.hasArguments h
    · obtain ⟨rfl, rfl⟩ := pure_eq_some.1 h
      nofun

instance (e : Ending) [Argues p] : Argues (further e p) where
  hasArguments := fun h => Argues.hasArguments (further_eq_some h)

/-! ### Nodes whose first child has been read -/

/-- A node around what has been read and some pieces. -/
theorem reads_around {k : Kind} {i₀ : Input} {first n : Node} [Spells p]
    (hk : ∀ {ns}, p i = some (ns, j) → Shaped k (first :: ns)) (h₀ : Reads i₀ [first] i)
    (h : around k first p i = some (n, j)) : Reads i₀ [n] j := by
  obtain ⟨ns, hn, rfl⟩ := map_eq_some.1 h
  exact (h₀.cons (Spells.reads hn)).branch (by simp) (hk hn) none

theorem reads_around_free {k : Kind} {i₀ : Input} {first n : Node} [Spells p]
    [hk : Holds k.isFree] (h₀ : Reads i₀ [first] i) (h : around k first p i = some (n, j)) :
    Reads i₀ [n] j :=
  reads_around (fun _ => shaped_of_isFree hk.holds _) h₀ h

/-- A call of what has been read. -/
theorem reads_call {i₀ : Input} {function : Node} {ns : List Node} [Spells p] [Argues p]
    (h₀ : Reads i₀ [function] i) (h : p i = some (ns, j)) :
    Reads i₀ [.branch .callExpression none (function.withRole .function :: ns)] j := by
  have hk : Shaped .callExpression (function.withRole .function :: ns) := by
    refine ⟨hasArguments_cons ?_ (Argues.hasArguments h), ?_⟩
    · rw [role_withRole]
      nofun
    · rintro c ⟨⟩
      exact .inl (role_withRole .function function)
  exact ((h₀.withRole .function).cons (Spells.reads h)).branch (by simp) hk none

/-- A property of what has been read. -/
theorem reads_member {i₀ : Input} {object : Node} {ns : List Node} (h₀ : Reads i₀ [object] i)
    (ho : Operand object) (h : Reads i ns j) (hl : Link ns) :
    Reads i₀ [.branch .memberExpression none (object.withRole .object :: ns)] j := by
  have hk : Shaped .memberExpression (object.withRole .object :: ns) :=
    .mk (operand_withRole ho .object) (role_withRole .object object) hl
  exact ((h₀.withRole .object).cons h).branch (by simp) hk none

/-- An element of what has been read. -/
theorem reads_subscript {i₀ : Input} {object : Node} {ns : List Node} (h₀ : Reads i₀ [object] i)
    (ho : Operand object) (h : Reads i ns j) (hf : Follows (sourceAll ns).toList) :
    Reads i₀ [.branch .subscriptExpression none (object.withRole .object :: ns)] j := by
  have hk : Shaped .subscriptExpression (object.withRole .object :: ns) :=
    .mk (operand_withRole ho .object) (role_withRole .object object) hf
  exact ((h₀.withRole .object).cons h).branch (by simp) hk none

end Reader

end FlowAnalysis.Script
