import FlowAnalysis.Proofs.Edit.Assignment
import FlowAnalysis.Proofs.Script.Span
import FlowAnalysis.Proofs.Text.Page

/-!
# The value of a variable and the text around it

The values that a script gives to a variable are the initial value of its declaration and the
default values of parameters and patterns (`givenValues`); each has its span in the text.  Giving
the variable another value comes to one of three things (`ParsedScript.outcome`):

* it is refused;
* the value in a declaration of the plain name is replaced, and nothing else, since replacing the
  bytes of a node replaces its text (`Edit.splice_of_spans`);
* the line on which the variable is bound reads as an assignment, and the line gets the new value.

In the last case nothing of the tree is looked at.  The new value stands where a value of the
variable stood exactly when the assignment is that value's place (`IsOwnAssignment`).  One direction
goes by places on the page: the head of the assignment leads to the start of the value, and one
place is reached by one initial part of the text only.  The other goes by a value that shows where
it was put, since it cannot overlap itself (`Text.eq_of_mark`), and by the lines that make a text
(`Text.Page.getElem?_of_toText_withLine`).
-/

namespace FlowAnalysis

open Script Text

/-! ### Values of variables -/

namespace Script.Node

/-- Under which roles a node of a kind has a name and the value that the name is given. -/
def bindingRoles? : Kind → Option (Role × Role)
  | .variableDeclarator => some (.name, .value)
  | .requiredParameter | .optionalParameter => some (.pattern, .value)
  | .assignmentPattern | .objectAssignmentPattern => some (.left, .right)
  | _ => none

/-- Whether a node is a plain name that stands where a variable is bound. -/
def isNameOf (v : Variable) (n : Node) : Bool :=
  (n.kind == .identifier || n.kind == .shorthandPattern) &&
    n.start.row + 1 == v.location.startLine && n.start.column == v.location.startCol

/-- The value that a node gives to a variable: the initial value in a declaration of its name, the
default value of a parameter, or the default value in a pattern. -/
def givenValue? (v : Variable) (n : Node) : Option Node :=
  (bindingRoles? n.kind).bind fun roles =>
    if (n.child? roles.1).any (isNameOf v) then n.child? roles.2 else none

/-- The values that a tree gives to a variable. -/
def givenValues (root : Node) (v : Variable) : List Node :=
  root.descendants.filterMap (givenValue? v)

theorem exists_parent_of_mem_givenValues {root e : Node} {v : Variable}
    (h : e ∈ givenValues root v) : ∃ n ∈ root.descendants, e ∈ n.children := by
  obtain ⟨n, hn, he⟩ := List.mem_filterMap.1 h
  obtain ⟨roles, -, hroles⟩ := Option.bind_eq_some_iff.1 he
  split at hroles
  · exact ⟨n, hn, mem_children_of_child? hroles⟩
  · cases hroles

/-- The value in the declaration of a plain name is given to the variable. -/
theorem mem_givenValues_of_declaredValue? {root e : Node} {v : Variable}
    (h : Edit.declaredValue? root v = some e) : e ∈ givenValues root v := by
  obtain ⟨n, hn, he⟩ := Option.bind_eq_some_iff.1 h
  refine List.mem_filterMap.2 ⟨n, List.mem_of_find?_eq_some hn, ?_⟩
  have hdeclares := List.find?_some hn
  rw [Edit.declares, Bool.and_eq_true, beq_iff_eq] at hdeclares
  obtain ⟨hkind, hname⟩ := hdeclares
  have hplace : (n.child? .name).any (isNameOf v) = true := by
    cases hc : n.child? .name with
    | none => simp [hc] at hname
    | some name =>
      simp only [hc, Bool.and_eq_true] at hname
      simp [isNameOf, hname]
  rw [givenValue?, hkind]
  show (if (n.child? .name).any (isNameOf v) then n.child? .value else none) = some e
  rw [if_pos hplace, he]

end Script.Node

open Script.Node

/-! ### Texts put in the place of others -/

namespace Edit

theorem takeBytes_append (as bs : List Char) :
    splice.takeBytes (Point.bytes as) (as ++ bs) = as := by
  induction as with
  | nil => cases bs <;> rfl
  | cons a as ih =>
    have hpos : 0 < a.utf8Size := a.utf8Size_pos
    rw [List.cons_append, Point.bytes_cons, splice.takeBytes, if_neg (by omega),
      Nat.add_sub_cancel_left, ih]

theorem dropBytes_append (as bs : List Char) :
    splice.dropBytes (Point.bytes as) (as ++ bs) = bs := by
  induction as with
  | nil => cases bs <;> rfl
  | cons a as ih =>
    have hpos : 0 < a.utf8Size := a.utf8Size_pos
    rw [List.cons_append, Point.bytes_cons, splice.dropBytes, if_neg (by omega),
      Nat.add_sub_cancel_left, ih]

/-- Replacing the bytes of a node replaces its text. -/
theorem splice_of_spans {source before after : String} {e : Node} (h : Spans source e before after)
    (new : String) :
    String.ofList (splice source.toList e.start.offset e.stop.offset new.toList) =
    before ++ new ++ after := by
  have hstart : e.start.offset = Point.bytes before.toList := by
    rw [h.start, Point.offset_advance]
    exact Nat.zero_add _
  have hstop : e.stop.offset = Point.bytes (before ++ e.text).toList := by
    rw [h.stop, Point.offset_advance]
    exact Nat.zero_add _
  have htake : splice.takeBytes (Point.bytes before.toList) source.toList = before.toList := by
    rw [h.text, String.append_assoc, String.toList_append]
    exact takeBytes_append before.toList _
  have hdrop : splice.dropBytes (Point.bytes (before ++ e.text).toList) source.toList =
      after.toList := by
    have hsource : source.toList = (before ++ e.text).toList ++ after.toList := by
      rw [h.text, ← String.toList_append]
    rw [hsource]
    exact dropBytes_append _ _
  rw [splice, hstart, hstop, htake, hdrop, ← String.toList_inj]
  simp only [String.toList_ofList, String.toList_append]

end Edit

/-! ### Places on a page -/

/-- Every line with its line end leads to the start of the next row. -/
theorem advance_lines (e : LineEnd) {ls : List (List Char)} (h : ∀ l ∈ ls, '\n' ∉ l) (p : Point)
    (hp : p.column = 0) :
    (p.advance (ls.flatMap (· ++ e.text.toList))).row = p.row + ls.length ∧
      (p.advance (ls.flatMap (· ++ e.text.toList))).column = 0 := by
  induction ls generalizing p with
  | nil => exact ⟨rfl, hp⟩
  | cons l ls ih =>
    obtain ⟨hl, hls⟩ := List.forall_mem_cons.1 h
    have hend : (p.advance (l ++ e.text.toList)).row = p.row + 1 ∧
        (p.advance (l ++ e.text.toList)).column = 0 := by
      rw [Point.advance_append, Point.advance_of_not_mem p hl]
      cases e <;> exact ⟨rfl, rfl⟩
    obtain ⟨hrow, hcolumn⟩ := ih hls _ hend.2
    rw [List.flatMap_cons, Point.advance_append, List.length_cons]
    refine ⟨?_, hcolumn⟩
    rw [hrow, hend.1]
    omega

/-- The place at which a text starts that stands on a line after another. -/
theorem key_advance_upTo {s head : String} {i : Nat} (hi : i < (Page.ofText s).lines.length)
    (hhead : '\n' ∉ head.toList) :
    let q := Point.origin.advance ((Page.ofText s).upTo i ++ head.toList)
    q.row = i ∧ q.column = Point.bytes head.toList := by
  intro q
  have hfeed : ∀ l ∈ ((Page.ofText s).lines.take i).map String.toList, '\n' ∉ l := by
    intro l hl
    obtain ⟨line, hline, rfl⟩ := List.mem_map.1 hl
    exact Page.not_mem_of_mem_lines (List.mem_of_mem_take hline)
  obtain ⟨hrow, hcolumn⟩ := advance_lines (Page.ofText s).ending hfeed Point.origin rfl
  have hq : q = (Point.origin.advance ((Page.ofText s).upTo i)).advance head.toList :=
    Point.advance_append ..
  rw [hq, Point.advance_of_not_mem _ hhead]
  refine ⟨?_, ?_⟩
  · show (Point.origin.advance ((Page.ofText s).upTo i)).row = i
    rw [Page.upTo, hrow, List.length_map, List.length_take, Nat.min_eq_left (Nat.le_of_lt hi)]
    exact Nat.zero_add i
  · show (Point.origin.advance ((Page.ofText s).upTo i)).column + _ = _
    rw [Page.upTo, hcolumn, Nat.zero_add]

/-! ### A value that shows where it was put -/

namespace Text

/-- A text that cannot overlap a copy of itself by half or more. -/
def mark (n : Nat) : List Char := List.replicate n '0' ++ List.replicate n '1'

/-- A long enough mark shows what stands before it and after it. -/
theorem eq_of_mark {n : Nat} {as as' bs bs' : List Char}
    (h : as ++ mark n ++ bs = as' ++ mark n ++ bs') (ha : as.length < n) (ha' : as'.length < n) :
    as = as' ∧ bs = bs' := by
  have hlonger : ∀ {ms cs ds : List Char}, ms.length < n → mark n ++ cs = ms ++ (mark n ++ ds) →
      ms = [] := by
    intro ms cs ds hms he
    by_contra hne
    have hpos : 0 < ms.length := List.length_pos_iff.2 hne
    -- The first one of the mark would stand where the moved mark has a zero.
    have hleft : (mark n ++ cs)[n]? = some '1' := by
      rw [mark, List.append_assoc, List.getElem?_append_right (by simp), List.length_replicate,
        Nat.sub_self,
        List.getElem?_append_left (by simp; omega), List.getElem?_replicate, if_pos (by omega)]
    have hright : (ms ++ (mark n ++ ds))[n]? = some '0' := by
      rw [List.getElem?_append_right (by omega), mark, List.append_assoc,
        List.getElem?_append_left (by simp; omega), List.getElem?_replicate, if_pos (by omega)]
    rw [he, hright] at hleft
    exact absurd hleft (by decide)
  rw [List.append_assoc, List.append_assoc] at h
  rcases List.append_eq_append_iff.1 h with ⟨ms, rfl, he⟩ | ⟨ms, rfl, he⟩
  · have hms : ms = [] := hlonger (by simp at ha'; omega) he
    rw [hms] at he
    rw [hms, List.append_nil]
    exact ⟨rfl, List.append_cancel_left he⟩
  · have hms : ms = [] := hlonger (by simp at ha; omega) he
    rw [hms] at he
    rw [hms, List.append_nil]
    exact ⟨rfl, (List.append_cancel_left he).symm⟩

theorem trim_mark {n : Nat} (h : 0 < n) :
    trim (String.ofList (mark n)) = String.ofList (mark n) := by
  obtain ⟨k, rfl⟩ : ∃ k, n = k + 1 := ⟨n - 1, by omega⟩
  have hfirst : (mark (k + 1)).dropWhile isBlank = mark (k + 1) := by
    rw [mark, List.replicate_succ, List.cons_append, List.dropWhile_cons_of_neg (by decide)]
  have hlast : (mark (k + 1)).reverse.dropWhile isBlank = (mark (k + 1)).reverse := by
    rw [mark, List.reverse_append, List.reverse_replicate, List.replicate_succ, List.cons_append,
      List.dropWhile_cons_of_neg (by decide)]
  rw [trim, dropStart, dropEnd, String.toList_ofList, String.toList_ofList, hfirst, hlast,
    List.reverse_reverse]

end Text

/-! ### What becomes of the text -/

namespace ParsedScript

theorem source_of_parse? {source : String} {p : ParsedScript} (h : parse? source = some p) :
    p.source = source := by
  obtain ⟨s, -, rfl⟩ := Option.map_eq_some_iff.1 h
  rfl

/-- The assignment that is found on the line of a variable, unless the variable is declared with
a value by its plain name. -/
def lineAssignment? (p : ParsedScript) (v : Variable) : Option Edit.Assignment :=
  if (Edit.declaredValue? p.root v).isSome then none
  else (Page.ofText p.source).lines[v.location.startLine - 1]?.bind fun line =>
    Edit.assigned? line v.name

/-- The text with another value in the assignment on the line of a variable. -/
def assignedText (p : ParsedScript) (v : Variable) (a : Edit.Assignment)
    (value : String) : String :=
  ((Page.ofText p.source).withLine (v.location.startLine - 1) (a.withValue value)).toText

/-- An assignment found on the line of a variable is the place of a value that the variable is
given: such a value stands right after the head of the assignment, the line has nothing but it
between the head and the last part, and the lines of the text make the text. -/
def IsOwnAssignment (p : ParsedScript) (v : Variable) (a : Edit.Assignment) : Prop :=
  (Page.ofText p.source).toText = p.source ∧
    ∃ e ∈ givenValues p.root v,
      e.start.row = v.location.startLine - 1 ∧ e.start.column = Point.bytes a.head.toList ∧
        (Page.ofText p.source).lines[v.location.startLine - 1]? = some (a.withValue e.text)

instance (p : ParsedScript) (v : Variable) (a : Edit.Assignment) :
    Decidable (p.IsOwnAssignment v a) :=
  inferInstanceAs (Decidable (_ ∧ ∃ e ∈ givenValues p.root v, _ ∧ _ ∧ _))

/-- What giving a variable another value comes to, whatever the value: a refusal, another value in a
declaration, or another value on a line. -/
inductive Outcome (p : ParsedScript) (id : Int) : Prop
  | refused (hline : ∀ v, p.scopes.get? id = some v → p.lineAssignment? v = none)
      (h : ∀ value, ∃ err, Edit.reassign p id value = .error err)
  | declared {v : Variable} {e : Node} {before after : String} (hv : p.scopes.get? id = some v)
      (hline : p.lineAssignment? v = none) (he : e ∈ givenValues p.root v)
      (hspans : Spans p.source e before after)
      (h : ∀ value, Edit.reassign p id value = .ok (before ++ trim value ++ after))
  | onLine {v : Variable} {a : Edit.Assignment} (hv : p.scopes.get? id = some v)
      (hline : p.lineAssignment? v = some a)
      (h : ∀ value, Edit.reassign p id value = .ok (p.assignedText v a (trim value)))

/-- A value has its span in the text of the script. -/
theorem exists_spans_of_mem_givenValues {source : String} {p : ParsedScript}
    (hp : parse? source = some p) {v : Variable} {e : Node} (he : e ∈ givenValues p.root v) :
    ∃ before after, Spans p.source e before after := by
  obtain ⟨n, hn, hc⟩ := exists_parent_of_mem_givenValues he
  rw [source_of_parse? hp]
  exact exists_spans hp hn hc

section

variable {source : String} {p : ParsedScript} {id : Int} {v : Variable}

/-- The value in a declaration is replaced if it has its row to itself. -/
theorem outcome_of_declaredValue? (hp : parse? source = some p) (hv : p.scopes.get? id = some v)
    {e : Node} (hd : Edit.declaredValue? p.root v = some e) : p.Outcome id := by
  have hline : p.lineAssignment? v = none := by
    rw [lineAssignment?, hd]
    rfl
  by_cases hrows : e.start.row = e.stop.row
  · have he := mem_givenValues_of_declaredValue? hd
    obtain ⟨before, after, hspans⟩ := exists_spans_of_mem_givenValues hp he
    refine .declared hv hline he hspans fun value => ?_
    simp [Edit.reassign, hv, hd, hrows, Edit.splice_of_spans hspans]
  · refine .refused ?_ fun value => ⟨.multiLineValue v.name v.location.startLine, ?_⟩
    · intro w hw
      rw [hv] at hw
      obtain rfl := Option.some.inj hw
      exact hline
    · simp [Edit.reassign, hv, hd, hrows]

/-- Without such a value, the line of the variable decides. -/
theorem outcome_of_line (hv : p.scopes.get? id = some v)
    (hd : Edit.declaredValue? p.root v = none) : p.Outcome id := by
  have hassign : ∀ value, Edit.reassign p id value
      = Edit.assignAtLine p.source v.name v.location.startLine value := by
    intro value
    simp [Edit.reassign, hv, hd]
  have hline : p.lineAssignment? v = (Page.ofText p.source).lines[v.location.startLine - 1]?.bind
      fun line => Edit.assigned? line v.name := by
    rw [lineAssignment?, hd]
    rfl
  have hrefused : p.lineAssignment? v = none →
      (∀ value, ∃ err, Edit.reassign p id value = .error err) → p.Outcome id := by
    intro hnone herr
    refine .refused ?_ herr
    intro w hw
    rw [hv] at hw
    obtain rfl := Option.some.inj hw
    exact hnone
  cases hl : (Page.ofText p.source).lines[v.location.startLine - 1]? with
  | none =>
    rw [hl] at hline
    refine hrefused hline fun value =>
      ⟨.lineOutOfRange v.location.startLine (Page.ofText p.source).lines.length, ?_⟩
    rw [hassign, Edit.assignAtLine]
    simp only [hl]
  | some line =>
    rw [hl, Option.bind_some] at hline
    cases ha : Edit.assigned? line v.name with
    | none =>
      refine hrefused (hline.trans ha) fun value =>
        ⟨.notAnAssignment v.name v.location.startLine line, ?_⟩
      rw [hassign, Edit.assignAtLine]
      simp only [hl, Edit.assignOnLine?_eq, ha, Option.map_none]
    | some a =>
      refine .onLine hv (hline.trans ha) fun value => ?_
      rw [hassign, Edit.assignAtLine]
      simp only [hl, Edit.assignOnLine?_eq, ha, Option.map_some]
      rfl

theorem outcome (hp : parse? source = some p) (id : Int) : p.Outcome id := by
  cases hv : p.scopes.get? id with
  | none => exact .refused (by simp [hv]) fun value =>
    ⟨.variableNotFound id, by rw [Edit.reassign, hv]⟩
  | some v =>
    cases hd : Edit.declaredValue? p.root v with
    | some e => exact outcome_of_declaredValue? hp hv hd
    | none => exact outcome_of_line hv hd

/-! ### When a line holds the own value -/

variable {a : Edit.Assignment}

/-- An assignment found on a line is an assignment to the name of the variable. -/
theorem exists_line_of_lineAssignment? (h : p.lineAssignment? v = some a) :
    ∃ line, (Page.ofText p.source).lines[v.location.startLine - 1]? = some line ∧
      Edit.IsAssignment v.name line a := by
  rw [lineAssignment?] at h
  split at h
  · cases h
  · obtain ⟨line, hline, ha⟩ := Option.bind_eq_some_iff.1 h
    exact ⟨line, hline, Edit.isAssignment_of_assigned? ha⟩

/-- The text before the value of an assignment on the line of a variable. -/
def leftOf (p : ParsedScript) (v : Variable) (a : Edit.Assignment) : List Char :=
  (Page.ofText p.source).upTo (v.location.startLine - 1) ++ a.head.toList

/-- The text after the value of an assignment on the line of a variable. -/
def rightOf (p : ParsedScript) (v : Variable) (a : Edit.Assignment) : List Char :=
  a.last.toList ++ (Page.ofText p.source).beyond (v.location.startLine - 1)

theorem toList_assignedText (h : v.location.startLine - 1 < (Page.ofText p.source).lines.length)
    (value : String) :
    (p.assignedText v a value).toList = p.leftOf v a ++ value.toList ++ p.rightOf v a := by
  rw [assignedText, Page.toList_toText_withLine h, Edit.Assignment.withValue, leftOf, rightOf]
  simp only [String.toList_append, List.append_assoc]

/-- The head of an assignment ends where the value on its line starts. -/
theorem key_advance_leftOf {value : String}
    (h : (Page.ofText p.source).lines[v.location.startLine - 1]? = some (a.withValue value)) :
    (Point.origin.advance (p.leftOf v a)).row = v.location.startLine - 1 ∧
      (Point.origin.advance (p.leftOf v a)).column = Point.bytes a.head.toList := by
  obtain ⟨hi, hline⟩ := List.getElem?_eq_some_iff.1 h
  refine key_advance_upTo hi fun hm => ?_
  have hfeed := Page.not_mem_of_mem_lines (List.mem_of_getElem hline)
  rw [Edit.Assignment.withValue, String.toList_append, String.toList_append] at hfeed
  exact hfeed (List.mem_append_left _ (List.mem_append_left _ hm))

/-- In its own place a value is replaced and nothing else. -/
theorem IsOwnAssignment.exists_spans (hp : parse? source = some p) (h : p.IsOwnAssignment v a) :
    ∃ e ∈ givenValues p.root v, ∃ before after, Spans p.source e before after ∧
      ∀ value, p.assignedText v a value = before ++ value ++ after := by
  obtain ⟨hpage, e, he, hrow, hcolumn, hline⟩ := h
  obtain ⟨before, after, hspans⟩ := exists_spans_of_mem_givenValues hp he
  obtain ⟨hi, -⟩ := List.getElem?_eq_some_iff.1 hline
  -- With the value that the line has, the text is what it was.
  have hsame : p.leftOf v a ++ e.text.toList ++ p.rightOf v a = p.source.toList := by
    rw [← toList_assignedText hi, assignedText, Page.withLine_of_getElem? hline, hpage]
  have hsplit : p.source.toList = before.toList ++ e.text.toList ++ after.toList := by
    conv_lhs => rw [hspans.text]
    simp only [String.toList_append]
  have hkey : (Point.origin.advance (p.leftOf v a)).key =
      (Point.origin.advance before.toList).key := by
    obtain ⟨hr, hc⟩ := key_advance_leftOf hline
    rw [Point.key_eq_iff, ← hspans.start, hr, hc]
    exact ⟨hrow.symm, hcolumn.symm⟩
  rw [hsplit, List.append_assoc, List.append_assoc] at hsame
  have hleft : p.leftOf v a = before.toList := Point.eq_of_key_advance_eq hsame hkey
  have hright : p.rightOf v a = after.toList := by
    rw [hleft] at hsame
    exact List.append_cancel_left (List.append_cancel_left hsame)
  refine ⟨e, he, before, after, hspans, fun value => ?_⟩
  rw [← String.toList_inj, toList_assignedText hi, hleft, hright]
  simp only [String.toList_append]

/-- **The mark tells the place.**  If a long enough mark is put where a value of the variable
stands, the assignment is the place of that value. -/
theorem isOwnAssignment_of_mark {n : Nat} {e : Node} {before after : String}
    (hi : v.location.startLine - 1 < (Page.ofText p.source).lines.length)
    (he : e ∈ givenValues p.root v) (hspans : Spans p.source e before after)
    (hn : (p.leftOf v a).length < n) (hn' : p.source.toList.length < n)
    (h : p.assignedText v a (String.ofList (mark n)) = before ++ String.ofList (mark n) ++ after) :
    p.IsOwnAssignment v a := by
  have hsplit : p.source.toList = before.toList ++ e.text.toList ++ after.toList := by
    conv_lhs => rw [hspans.text]
    simp only [String.toList_append]
  have hbefore : before.toList.length < n := by
    rw [hsplit] at hn'
    simp at hn'
    omega
  have hmark : p.leftOf v a ++ mark n ++ p.rightOf v a = before.toList ++ mark n ++
      after.toList := by
    rw [← String.toList_inj, toList_assignedText hi] at h
    simpa only [String.toList_append, String.toList_ofList] using h
  obtain ⟨hleft, hright⟩ := eq_of_mark hmark hn hbefore
  have htext : p.assignedText v a e.text = p.source := by
    rw [← String.toList_inj, toList_assignedText hi, hleft, hright, ← hsplit]
  obtain ⟨hline, hpage⟩ := Page.getElem?_of_toText_withLine hi htext
  obtain ⟨hrow, hcolumn⟩ := key_advance_leftOf hline
  refine ⟨hpage, e, he, ?_, ?_, hline⟩
  · rw [hspans.start, ← hleft, hrow]
  · rw [hspans.start, ← hleft, hcolumn]

end

end ParsedScript

end FlowAnalysis
