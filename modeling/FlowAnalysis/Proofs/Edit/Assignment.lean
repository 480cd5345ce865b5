import FlowAnalysis.Edit
import FlowAnalysis.Proofs.Text.Match

/-!
# Assignments on a line

An assignment to a name is found on a line by a pattern.  `assigned?` gives its parts, with
which another value is put in (`assignOnLine?_eq`), and `IsAssignment` says what the parts are:
an indentation, perhaps a keyword, the name, perhaps an annotation, an equals sign, the value,
perhaps a semicolon, and nothing but blanks after that (`isAssignment_of_assigned?`).  Nothing
is said of what else the script has on the line: an annotation may hold anything but an equals
sign, other statements with it.
-/

namespace FlowAnalysis.Edit

open Text (isBlank trim)

/-- The parts of an assignment on a line: everything up to the value, the
value, and the semicolon. -/
structure Assignment where
  head : String
  value : String
  last : String

/-- The line with another value. -/
def Assignment.withValue (a : Assignment) (value : String) : String := a.head ++ value ++ a.last

/-- The parts that the groups of a match are. -/
def Assignment.ofGroups (groups : List (Nat × String)) : Assignment :=
  ⟨(groups.lookup 1).getD "" ++ (groups.lookup 2).getD "", (groups.lookup 3).getD "",
    (groups.lookup 4).getD ""⟩

/-- The assignment to a name on a line. -/
def assigned? (line name : String) : Option Assignment :=
  (((assignmentPattern name).first? line).map Assignment.ofGroups).filter fun a =>
    isWholeValue a.value.toList

/-- Another value is put in between the parts of the assignment. -/
theorem assignOnLine?_eq (line name value : String) :
    assignOnLine? line name value = (assigned? line name).map (·.withValue (trim value)) := by
  unfold assignOnLine? assigned?
  cases (assignmentPattern name).first? line with
  | none => rfl
  | some groups =>
    simp only [Option.bind_eq_bind, Option.bind_some, Option.map_some, Option.filter_some,
      Assignment.ofGroups]
    split <;> rfl

/-! ### What the parts are -/

/-- Nothing but blanks. -/
def Blank (cs : List Char) : Prop := ∀ c ∈ cs, isBlank c = true

/-- What declares a name, exported or not. -/
def IsKeyword (cs : List Char) : Prop :=
  ∃ exported word gap, cs = exported ++ word.toList ++ gap ∧
    (exported = [] ∨ ∃ blank, exported = "export".toList ++ blank ∧ blank ≠ [] ∧ Blank blank) ∧
    word ∈ ["const", "let", "var"] ∧ gap ≠ [] ∧ Blank gap

/-- What stands between a name and the equals sign after it: blanks, or a colon before
anything without an equals sign. -/
def IsAnnotation (cs : List Char) : Prop :=
  Blank cs ∨ ∃ blank type, cs = blank ++ ':' :: type ∧ Blank blank ∧ '=' ∉ type

/-- A line is an assignment to a name with these parts, up to blanks at its end. -/
structure IsAssignment (name line : String) (a : Assignment) : Prop where
  line : ∃ tail, line.toList = (a.withValue a.value).toList ++ tail ∧ Blank tail
  head : ∃ indentation keyword annotation gap,
    a.head.toList = indentation ++ keyword ++ name.toList ++ annotation ++ '=' :: gap ∧
      Blank indentation ∧ (keyword = [] ∨ IsKeyword keyword) ∧ IsAnnotation annotation ∧ Blank gap
  last : a.last = "" ∨ a.last = ";"
  value : isWholeValue a.value.toList = true

theorem Blank.not_mem_equals {cs : List Char} (h : Blank cs) : '=' ∉ cs := by
  intro hc
  exact absurd (h '=' hc) (by decide)

section

open Text Text.Pattern

variable {before piece after : List Char} {gs : List (Nat × String)}

theorem blank_of_matches (h : Matches .blanks before piece after gs) : Blank piece ∧ gs = [] := h.2

theorem gap_of_matches (h : Matches (.run true 1 isBlank) before piece after gs) :
    (piece ≠ [] ∧ Blank piece) ∧ gs = [] := by
  obtain ⟨hlength, hall, hgs⟩ := h
  exact ⟨⟨List.ne_nil_of_length_pos hlength, hall⟩, hgs⟩

theorem isKeyword_of_matches
    (h : Matches (.all [.optional (.all [.text "export", .run true 1 isBlank]),
      .either (.text "const") (.either (.text "let") (.text "var")), .run true 1 isBlank])
      before piece after gs) :
    IsKeyword piece ∧ gs = [] := by
  obtain ⟨exported, _, hs, _, rfl, rfl, hexported, h⟩ := h
  obtain ⟨word, _, hs', _, rfl, rfl, hword, h⟩ := h
  obtain ⟨gap, _, _, _, rfl, rfl, hgap, rfl, rfl⟩ := h
  obtain ⟨hblank, rfl⟩ := gap_of_matches hgap
  have hleft : (exported = [] ∨ ∃ blank, exported = "export".toList ++ blank ∧ blank ≠ [] ∧
      Blank blank) ∧ hs = [] := by
    rcases hexported with ⟨_, _, _, _, rfl, rfl, ⟨rfl, rfl⟩, blank, _, _, _, rfl, rfl, hb, rfl,
      rfl⟩ | ⟨rfl, rfl⟩
    · obtain ⟨hgap', rfl⟩ := gap_of_matches hb
      exact ⟨.inr ⟨blank, by simp, hgap'⟩, rfl⟩
    · exact ⟨.inl rfl, rfl⟩
  have hmiddle : (∃ w ∈ ["const", "let", "var"], word = w.toList) ∧ hs' = [] := by
    rcases hword with ⟨rfl, rfl⟩ | ⟨rfl, rfl⟩ | ⟨rfl, rfl⟩ <;> exact ⟨⟨_, by simp, rfl⟩, rfl⟩
  obtain ⟨hexport, rfl⟩ := hleft
  obtain ⟨⟨w, hw, rfl⟩, rfl⟩ := hmiddle
  exact ⟨⟨exported, w, gap, by simp, hexport, hw, hblank⟩, rfl⟩

/-- The blanks before the equals sign belong to the annotation. -/
theorem isAnnotation_of_matches {x y : List Char} (hy : Blank y)
    (h : Matches (.optional (.all [.blanks, .text ":", .run true 0 (· != '=')])) before x
      after gs) : IsAnnotation (x ++ y) ∧ gs = [] := by
  rcases h with h | ⟨rfl, rfl⟩
  · obtain ⟨blank, _, _, _, rfl, rfl, hb, h⟩ := h
    obtain ⟨_, _, _, _, rfl, rfl, ⟨rfl, rfl⟩, h⟩ := h
    obtain ⟨type, _, _, _, rfl, rfl, ⟨-, htype, rfl⟩, rfl, rfl⟩ := h
    obtain ⟨hblank, rfl⟩ := blank_of_matches hb
    refine ⟨.inr ⟨blank, type ++ y, by simp, hblank, ?_⟩, rfl⟩
    intro hm
    rcases List.mem_append.1 hm with hm | hm
    · simpa using htype '=' hm
    · exact hy.not_mem_equals hm
  · exact ⟨.inl hy, rfl⟩

/-- Everything from the keyword up to the value. -/
theorem head_of_matches {name : String}
    (h : Matches (.all [
      .optional (.all [.optional (.all [.text "export", .run true 1 isBlank]),
        .either (.text "const") (.either (.text "let") (.text "var")), .run true 1 isBlank]),
      .text name, .boundary,
      .optional (.all [.blanks, .text ":", .run true 0 (· != '=')]),
      .blanks, .text "=", .blanks]) before piece after gs) :
    (∃ keyword annotation gap, piece = keyword ++ name.toList ++ annotation ++ '=' :: gap ∧
      (keyword = [] ∨ IsKeyword keyword) ∧ IsAnnotation annotation ∧ Blank gap) ∧ gs = [] := by
  obtain ⟨keyword, _, hs, _, rfl, rfl, hkeyword, h⟩ := h
  obtain ⟨_, _, _, _, rfl, rfl, ⟨rfl, rfl⟩, h⟩ := h
  obtain ⟨_, _, _, _, rfl, rfl, ⟨-, rfl, rfl⟩, h⟩ := h
  obtain ⟨x, _, _, _, rfl, rfl, hannotation, h⟩ := h
  obtain ⟨y, _, _, _, rfl, rfl, hy, h⟩ := h
  obtain ⟨_, _, _, _, rfl, rfl, ⟨rfl, rfl⟩, h⟩ := h
  obtain ⟨gap, _, _, _, rfl, rfl, hgap, rfl, rfl⟩ := h
  obtain ⟨hblank, rfl⟩ := blank_of_matches hgap
  obtain ⟨hblank', rfl⟩ := blank_of_matches hy
  obtain ⟨hx, rfl⟩ := isAnnotation_of_matches hblank' hannotation
  have hdeclared : (keyword = [] ∨ IsKeyword keyword) ∧ hs = [] := by
    rcases hkeyword with hm | ⟨rfl, rfl⟩
    · obtain ⟨hk, rfl⟩ := isKeyword_of_matches hm
      exact ⟨.inr hk, rfl⟩
    · exact ⟨.inl rfl, rfl⟩
  obtain ⟨hk, rfl⟩ := hdeclared
  exact ⟨⟨keyword, x ++ y, gap, by simp, hk, hx, hblank⟩, rfl⟩

end

/-- **What is found on a line is an assignment to the name.** -/
theorem isAssignment_of_assigned? {line name : String} {a : Assignment}
    (h : assigned? line name = some a) : IsAssignment name line a := by
  obtain ⟨hmap, hvalue⟩ := Option.filter_eq_some_iff.1 h
  obtain ⟨groups, hfirst, rfl⟩ := Option.map_eq_some_iff.1 hmap
  obtain ⟨before, piece, after, hline, hm⟩ := Text.Pattern.exists_matches_of_first? hfirst
  obtain ⟨_, _, _, _, rfl, rfl, ⟨rfl, rfl, rfl⟩, hm⟩ := hm
  -- One line for each part of the pattern, with the groups that it gives.
  obtain ⟨indentation, _, _, _, rfl, rfl, ⟨_, rfl, hindent⟩, hm⟩ := hm
  obtain ⟨head, _, _, _, rfl, rfl, ⟨_, rfl, hhead⟩, hm⟩ := hm
  obtain ⟨old, _, _, _, rfl, rfl, ⟨_, rfl, -, -, rfl⟩, hm⟩ := hm
  obtain ⟨last, _, _, _, rfl, rfl, ⟨hs, rfl, hsemi⟩, hm⟩ := hm
  obtain ⟨tail, _, _, _, rfl, rfl, hend, hm⟩ := hm
  obtain ⟨_, _, _, _, rfl, rfl, ⟨hafter, rfl, rfl⟩, rfl, rfl⟩ := hm
  obtain rfl : after = [] := hafter
  obtain ⟨hindentation, rfl⟩ := blank_of_matches hindent
  obtain ⟨⟨keyword, annotation, gap, hparts, hkeyword, hannotation, hgap⟩, rfl⟩ :=
    head_of_matches hhead
  obtain ⟨htail, rfl⟩ := blank_of_matches hend
  have hlast : (String.ofList last = "" ∨ String.ofList last = ";") ∧ hs = [] := by
    rcases hsemi with ⟨rfl, rfl⟩ | ⟨rfl, rfl⟩
    · exact ⟨.inr (by simp), rfl⟩
    · exact ⟨.inl rfl, rfl⟩
  obtain ⟨hlast, rfl⟩ := hlast
  have hgroups : Assignment.ofGroups ([] ++ [] ++ [] ++ [(4, String.ofList last)] ++
      [(3, String.ofList old)] ++
      [(2, String.ofList head)] ++ [(1, String.ofList indentation)] ++ [])
      = ⟨String.ofList indentation ++ String.ofList head, String.ofList old, String.ofList last⟩ :=
        rfl
  rw [hgroups] at hvalue ⊢
  refine ⟨⟨tail, ?_, htail⟩, ⟨indentation, keyword, annotation, gap, ?_, hindentation, hkeyword,
    hannotation, hgap⟩, hlast, hvalue⟩
  · rw [hline, Assignment.withValue]
    simp
  · rw [String.toList_append, String.toList_ofList, String.toList_ofList, hparts]
    simp

end FlowAnalysis.Edit
