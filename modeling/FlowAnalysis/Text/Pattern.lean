import FlowAnalysis.Text.Blank
import FlowAnalysis.Text.Letter

/-!
# Patterns

A pattern describes pieces of text.  A match is found from left to right: at each step the first
alternative that leads to a match of the whole pattern is taken, and a greedy repetition tries the
longest run first.
-/

namespace FlowAnalysis.Text

/-- A description of pieces of text. -/
inductive Pattern
  /-- Exactly these characters. -/
  | exact (cs : List Char)
  /-- One character of a class. -/
  | one (p : Char → Bool)
  /-- At least `least` characters of a class, as many as possible when greedy. -/
  | run (greedy : Bool) (least : Nat) (p : Char → Bool)
  | seq (a b : Pattern)
  /-- The first if it leads to a match, the second otherwise. -/
  | either (a b : Pattern)
  /-- The text that a part matches, under a number. -/
  | group (index : Nat) (a : Pattern)
  /-- A place with a word character on exactly one side. -/
  | boundary
  /-- The start of the text. -/
  | start
  /-- The end of the text. -/
  | stop

namespace Pattern

/-- A place in a text: the characters before it, nearest first, and after it, and the groups matched
so far. -/
structure Place where
  before : List Char
  after : List Char
  groups : List (Nat × String)

/-- Nothing at all. -/
def nothing : Pattern := .exact []

/-- A pattern that may be absent. -/
def optional (a : Pattern) : Pattern := .either a nothing

/-- Patterns one after the other. -/
def all : List Pattern → Pattern
  | [] => nothing
  | a :: as => .seq a (all as)

/-- A fixed text. -/
def text (s : String) : Pattern := .exact s.toList

/-- Any number of blanks. -/
def blanks : Pattern := .run true 0 isBlank

/-- The place after fixed characters. -/
def skip : List Char → Place → Option Place
  | [], p => some p
  | c :: cs, p =>
    match p.after with
    | d :: rest => if c = d then skip cs ⟨d :: p.before, rest, p.groups⟩ else none
    | [] => none

/-- The place after one character of a class. -/
def stepOver (cls : Char → Bool) (p : Place) : Option Place :=
  match p.after with
  | c :: rest => if cls c then some ⟨c :: p.before, rest, p.groups⟩ else none
  | [] => none

/-- Runs of at most the given length, the longest first or the shortest first. -/
def runs (greedy : Bool) (cls : Char → Bool) (k : Place → Option Place) :
    Nat → Nat → Place → Option Place
  | 0, _, p => k p
  | fuel + 1, least + 1, p =>
    match stepOver cls p with
    | some q => runs greedy cls k fuel least q
    | none => none
  | fuel + 1, 0, p =>
    if greedy then
      match stepOver cls p with
      | some q =>
        match runs greedy cls k fuel 0 q with
        | some r => some r
        | none => k p
      | none => k p
    else
      match k p with
      | some r => some r
      | none =>
        match stepOver cls p with
        | some q => runs greedy cls k fuel 0 q
        | none => none

/-- Whether a place has a word character on exactly one side. -/
def isBoundary (p : Place) : Bool :=
  (p.before.head?.map isWordCharacter).getD false != (p.after.head?.map isWordCharacter).getD false

/-- Matches a pattern at a place and goes on with `k`. -/
def walk : Pattern → Place → (Place → Option Place) → Option Place
  | .exact cs, p, k => (skip cs p).bind k
  | .one cls, p, k => (stepOver cls p).bind k
  | .run greedy least cls, p, k => runs greedy cls k (p.after.length + 1) least p
  | .seq a b, p, k => walk a p fun q => walk b q k
  | .either a b, p, k =>
    match walk a p k with
    | some r => some r
    | none => walk b p k
  | .group i a, p, k =>
    walk a p fun q =>
      let piece := (q.before.take (q.before.length - p.before.length)).reverse
      k ⟨q.before, q.after, (i, String.ofList piece) :: q.groups⟩
  | .boundary, p, k => if isBoundary p then k p else none
  | .start, p, k => if p.before.isEmpty then k p else none
  | .stop, p, k => if p.after.isEmpty then k p else none

/-- The place after a match that starts at the given place. -/
def matchAt (a : Pattern) (p : Place) : Option Place := walk a { p with groups := [] } some

/-- The place after the first match at or after the given one; `fuel` bounds the places tried. -/
def searchFrom (a : Pattern) : Nat → Place → Option Place
  | 0, _ => none
  | fuel + 1, p =>
    match matchAt a p with
    | some q => some q
    | none =>
      match p.after with
      | c :: rest => searchFrom a fuel ⟨c :: p.before, rest, []⟩
      | [] => none

/-- The groups of the first match in a text. -/
def first? (a : Pattern) (s : String) : Option (List (Nat × String)) :=
  let cs := s.toList
  (searchFrom a (cs.length + 1) ⟨[], cs, []⟩).map (·.groups)

/-- The groups of every match after a place, none of which overlap; every match is taken to be
longer than nothing. -/
def allFrom (a : Pattern) : Nat → Place → List (List (Nat × String))
  | 0, _ => []
  | fuel + 1, p =>
    match searchFrom a (p.after.length + 1) p with
    | some q => q.groups :: allFrom a fuel q
    | none => []

/-- The groups of every match in a text, none of which overlap. -/
def all? (a : Pattern) (s : String) : List (List (Nat × String)) :=
  let cs := s.toList
  allFrom a (cs.length + 1) ⟨[], cs, []⟩

end Pattern

end FlowAnalysis.Text
