import FlowAnalysis.Proofs.Edit.OwnValue
import FlowAnalysis.Proofs.Text.Search
import FlowAnalysis.Validation

/-!
# Flows on a schedule

A flow that runs on a schedule names it in a field of its class.  When the class has no such field,
the whole text of the script is searched for something that reads like one, and whatever is found is
taken for the schedule: a comment, a string or another class will do.  So a missing schedule is
reported exactly when the text has no such assignment anywhere (`missing_schedule_reported_iff`).
-/

namespace FlowAnalysis

open Script

namespace Trigger

open Edit (Blank blank_of_matches)

/-- A text has an assignment of a schedule: the name of the field, perhaps its type, an equals sign
and the schedule in quotes, with any blanks between them. -/
def Assigns (source schedule : List Char) : Prop :=
  ∃ before gap type gap' opening closing after,
    source = before ++ ("cronSchedule".toList ++ gap ++ type ++ '=' :: gap' ++
      opening :: schedule ++ [closing]) ++ after ∧ Blank gap ∧
      (type = [] ∨ ∃ left right, type = ':' :: left ++ "string".toList ++ right ∧ Blank left ∧
        Blank right) ∧
      Blank gap' ∧ Text.isQuote opening = true ∧ schedule ≠ [] ∧
      (∀ c ∈ schedule, Text.isQuote c = false) ∧ Text.isQuote closing = true

section

open Text Text.Pattern

variable {before piece after : List Char} {gs : List (Nat × String)}

theorem exists_of_matches (h : Matches schedulePattern before piece after gs) :
    ∃ schedule, gs = [(1, String.ofList schedule)] ∧
    Assigns (before.reverse ++ (piece ++ after)) schedule := by
  -- One line for each part of the pattern, with the groups that it gives.
  obtain ⟨_, _, _, _, rfl, rfl, ⟨rfl, rfl⟩, h⟩ := h
  obtain ⟨gap, _, _, _, rfl, rfl, hgap, h⟩ := h
  obtain ⟨type, _, hs, _, rfl, rfl, htype, h⟩ := h
  obtain ⟨_, _, _, _, rfl, rfl, ⟨rfl, rfl⟩, h⟩ := h
  obtain ⟨gap', _, _, _, rfl, rfl, hgap', h⟩ := h
  obtain ⟨_, _, _, _, rfl, rfl, ⟨⟨opening, rfl, hopening⟩, rfl⟩, h⟩ := h
  obtain ⟨schedule, _, _, _, rfl, rfl, ⟨_, rfl, hlength, hplain, rfl⟩, h⟩ := h
  obtain ⟨_, _, _, _, rfl, rfl, ⟨⟨closing, rfl, hclosing⟩, rfl⟩, rfl, rfl⟩ := h
  obtain ⟨hblank, rfl⟩ := blank_of_matches hgap
  obtain ⟨hblank', rfl⟩ := blank_of_matches hgap'
  have htyped : (type = [] ∨ ∃ left right, type = ':' :: left ++ "string".toList ++ right ∧
      Blank left ∧ Blank right) ∧ hs = [] := by
    rcases htype with htype | ⟨rfl, rfl⟩
    · obtain ⟨_, _, _, _, rfl, rfl, ⟨rfl, rfl⟩, htype⟩ := htype
      obtain ⟨left, _, _, _, rfl, rfl, hleft, htype⟩ := htype
      obtain ⟨_, _, _, _, rfl, rfl, ⟨rfl, rfl⟩, htype⟩ := htype
      obtain ⟨right, _, _, _, rfl, rfl, hright, rfl, rfl⟩ := htype
      obtain ⟨hbefore, rfl⟩ := blank_of_matches hleft
      obtain ⟨hafter, rfl⟩ := blank_of_matches hright
      exact ⟨.inr ⟨left, right, by simp, hbefore, hafter⟩, rfl⟩
    · exact ⟨.inl rfl, rfl⟩
  obtain ⟨htyped, rfl⟩ := htyped
  refine ⟨schedule, rfl, before.reverse, gap, type, gap', opening, closing,
    after, by simp, hblank, htyped, hblank',
    hopening, List.ne_nil_of_length_pos hlength, fun c hc => ?_, hclosing⟩
  simpa using hplain c hc

theorem exists_matches_of_assigns {source schedule : List Char} (h : Assigns source schedule) :
    ∃ before piece after gs, source = before ++ (piece ++ after) ∧
      Matches schedulePattern before.reverse piece after gs := by
  obtain ⟨before, gap, type, gap', opening, closing, after, hsource, hgap, htype, hgap', hopening,
    hne, hplain, hclosing⟩ := h
  have htyped : ∀ left right,
      Matches (.optional (.all [.text ":", .blanks, .text "string", .blanks]))
      left type right [] := by
    intro left right
    rcases htype with rfl | ⟨x, y, rfl, hx, hy⟩
    · exact .inr ⟨rfl, rfl⟩
    · refine .inl ⟨":".toList, x ++ ("string".toList ++ (y ++ [])), [],
        [], by simp, rfl, ⟨rfl, rfl⟩, ?_⟩
      refine ⟨x, _, [], [], rfl, rfl, ⟨Nat.zero_le _, hx, rfl⟩, ?_⟩
      refine ⟨_, _, [], [], rfl, rfl, ⟨rfl, rfl⟩, ?_⟩
      exact ⟨y, [], [], [], rfl, rfl, ⟨Nat.zero_le _, hy, rfl⟩, rfl, rfl⟩
  have hlength : 1 ≤ schedule.length := List.length_pos_of_ne_nil hne
  have hrun : ∀ c ∈ schedule, (!isQuote c) = true := fun c hc => by simp [hplain c hc]
  refine ⟨before, "cronSchedule".toList ++
    (gap ++ (type ++ ("=".toList ++ (gap' ++ ([opening] ++ (schedule ++
    ([closing] ++ []))))))), after, [(1, String.ofList schedule)], by simp [hsource], ?_⟩
  refine ⟨_, _, [], [(1, String.ofList schedule)], rfl, rfl, ⟨rfl, rfl⟩, ?_⟩
  refine ⟨gap, _, [], [(1, String.ofList schedule)], rfl, rfl, ⟨Nat.zero_le _, hgap, rfl⟩, ?_⟩
  refine ⟨type, _, [], [(1, String.ofList schedule)], rfl, rfl, htyped _ _, ?_⟩
  refine ⟨_, _, [], [(1, String.ofList schedule)], rfl, rfl, ⟨rfl, rfl⟩, ?_⟩
  refine ⟨gap', _, [], [(1, String.ofList schedule)], rfl, rfl, ⟨Nat.zero_le _, hgap', rfl⟩, ?_⟩
  refine ⟨[opening], _, [], [(1, String.ofList schedule)], rfl, rfl,
    ⟨⟨opening, rfl, hopening⟩, rfl⟩, ?_⟩
  refine ⟨schedule, _, [(1, String.ofList schedule)], [], rfl, rfl,
    ⟨[], rfl, hlength, hrun, rfl⟩, ?_⟩
  exact ⟨[closing], [], [], [], rfl, rfl, ⟨⟨closing, rfl, hclosing⟩, rfl⟩, rfl, rfl⟩

/-- What a search for the schedule finds is assigned somewhere in the text. -/
theorem assigns_of_first? {source schedule : String}
    (h : (schedulePattern.first? source).bind (·.lookup 1) = some schedule) :
    Assigns source.toList schedule.toList := by
  obtain ⟨gs, hfirst, hlookup⟩ := Option.bind_eq_some_iff.1 h
  obtain ⟨before, piece, after, hsource, hm⟩ := exists_matches_of_first? hfirst
  obtain ⟨found, rfl, hassigns⟩ := exists_of_matches hm
  obtain rfl : String.ofList found = schedule := Option.some.inj hlookup
  rwa [hsource, String.toList_ofList]

/-- A search for the schedule fails exactly when none is assigned anywhere in the text. -/
theorem first?_eq_none_iff_forall {source : String} :
    (schedulePattern.first? source).bind (·.lookup 1) = none ↔
    ∀ schedule, ¬ Assigns source.toList schedule := by
  constructor
  · intro hnone schedule hassigns
    obtain ⟨before, piece, after, gs, hsource, hm⟩ := exists_matches_of_assigns hassigns
    cases hfirst : schedulePattern.first? source with
    | none => exact first?_eq_none_iff.1 hfirst before piece after gs hsource hm
    | some hs =>
      obtain ⟨_, _, _, _, hm'⟩ := exists_matches_of_first? hfirst
      obtain ⟨found, rfl, -⟩ := exists_of_matches hm'
      rw [hfirst] at hnone
      cases hnone
  · intro hall
    cases hfirst : (schedulePattern.first? source).bind (·.lookup 1) with
    | none => rfl
    | some schedule => exact absurd (assigns_of_first? hfirst) (hall schedule.toList)

end

/-! ### The trigger of a flow on a schedule -/

theorem declaredSchedule?_eq_none {c : FlowClass} (h : c.field? "cronSchedule" = none) :
    declaredSchedule? c = none := by
  simp [declaredSchedule?, FlowClass.fieldValue?, h]

/-- A flow on a schedule that its class does not give takes what the text gives. -/
theorem extract?_of_field?_eq_none {p : ParsedScript} {options : Options} {c : FlowClass}
    (hclass : (FlowClass.all options.flowBaseClass p.root).head? = some c)
    (htype : orFound (declaredType? c) (typePattern options.flowBaseClass) p.source =
      some Event.schedule.name) (hfield : c.field? "cronSchedule" = none) :
    extract? p options =
    some ⟨Event.schedule.name, (schedulePattern.first? p.source).bind (·.lookup 1)⟩ := by
  simp only [extract?, hclass, Option.bind_some, htype, Option.bind_eq_bind,
    declaredSchedule?_eq_none hfield]
  rfl

end Trigger

namespace Validation

variable {p : ParsedScript} {registry : Registry} {options : Options} {c : FlowClass}

/-- With nothing wrong in its structure a script has one flow class. -/
theorem all_eq_singleton (h : structural p registry options = [])
    (hc : c ∈ FlowClass.all options.flowBaseClass p.root) :
    FlowClass.all options.flowBaseClass p.root = [c] := by
  have hcount : classCount options.flowBaseClass (FlowClass.all options.flowBaseClass p.root) =
      [] := by
    rw [structural] at h
    exact (List.append_eq_nil_iff.1 (List.append_eq_nil_iff.1 h).1).1
  cases hall : FlowClass.all options.flowBaseClass p.root with
  | nil =>
    rw [hall] at hc
    cases hc
  | cons first extra =>
    rw [hall] at hcount hc
    obtain rfl : extra = [] := List.map_eq_nil_iff.1 hcount
    rw [List.mem_singleton.1 hc]

theorem problems_eq_trigger (hstructural : structural p registry options = [])
    (hparameters : parameters p registry = []) :
    problems p registry options = trigger p options := by
  rw [problems, hstructural, hparameters]
  rfl

/-- What is wrong with a flow on a schedule. -/
theorem trigger_of_schedule {schedule : Option String}
    (hclass : (FlowClass.all options.flowBaseClass p.root).head? = some c)
    (h : Trigger.extract? p options = some ⟨Event.schedule.name, schedule⟩) :
    (schedule = none → trigger p options = [⟨.noSchedule, some c.line⟩]) ∧
      ∀ text, schedule = some text →
        (∀ e, CronExpression.parse text = .ok e → trigger p options = []) ∧
        ∀ e, CronExpression.parse text = .error e → trigger p options =
        [⟨.badSchedule text e, some c.line⟩] := by
  have hevent : Event.ofName? Event.schedule.name = some .schedule := by decide
  refine ⟨?_, fun text htext => ⟨fun e he => ?_, fun e he => ?_⟩⟩
  · rintro rfl
    simp [trigger, hclass, h, triggerCause?, hevent]
  · subst htext
    simp [trigger, hclass, h, triggerCause?, hevent, he]
  · subst htext
    simp [trigger, hclass, h, triggerCause?, hevent, he]

/-- **A missing schedule is reported exactly when nothing in the whole text reads like one.**  For
every script, registry and options for which the rules about structure and parameters report
nothing, and every flow class on a schedule that has no field for it: the missing schedule is the
one problem when no schedule is assigned anywhere in the text; otherwise one that is assigned
somewhere is taken for it, and there is no problem at all when it is a cron expression. -/
theorem missing_schedule_reported_iff {source : String} (hp : ParsedScript.parse? source = some p)
    (hstructural : structural p registry options = []) (hparameters : parameters p registry = [])
    (hclass : c ∈ FlowClass.all options.flowBaseClass p.root)
    (htype : Trigger.orFound (Trigger.declaredType? c) (Trigger.typePattern options.flowBaseClass)
      source = some Event.schedule.name) (hfield : c.field? "cronSchedule" = none) :
    ((∃ q ∈ problems p registry options, q.cause.code = "T003") ↔
        ∀ schedule, ¬ Trigger.Assigns source.toList schedule) ∧
      ((∀ schedule, ¬ Trigger.Assigns source.toList schedule) →
        problems p registry options = [⟨.noSchedule, some c.line⟩]) ∧
      ((∃ schedule, Trigger.Assigns source.toList schedule) →
        ∃ schedule : String, Trigger.Assigns source.toList schedule.toList ∧
          (∀ e, CronExpression.parse schedule = .ok e → problems p registry options = []) ∧
          ∀ e, CronExpression.parse schedule = .error e →
            problems p registry options = [⟨.badSchedule schedule e, some c.line⟩]) := by
  obtain rfl : p.source = source := ParsedScript.source_of_parse? hp
  have hhead : (FlowClass.all options.flowBaseClass p.root).head? = some c := by
    rw [all_eq_singleton hstructural hclass]
    rfl
  have htrigger := trigger_of_schedule hhead (Trigger.extract?_of_field?_eq_none hhead htype hfield)
  rw [← problems_eq_trigger hstructural hparameters] at htrigger
  obtain ⟨hnone, hsome⟩ := htrigger
  have hmissing : (∀ schedule, ¬ Trigger.Assigns p.source.toList schedule) →
      problems p registry options = [⟨.noSchedule, some c.line⟩] :=
    fun hall => hnone (Trigger.first?_eq_none_iff_forall.2 hall)
  -- What the search finds is assigned, and decides what is reported.
  have hfound : ∀ schedule, (Trigger.schedulePattern.first? p.source).bind (·.lookup 1) =
      some schedule → ∀ q ∈ problems p registry options, q.cause.code ≠ "T003" := by
    intro schedule hschedule q hq
    cases hparse : CronExpression.parse schedule with
    | ok e =>
      rw [(hsome schedule hschedule).1 e hparse] at hq
      cases hq
    | error e =>
      rw [(hsome schedule hschedule).2 e hparse, List.mem_singleton] at hq
      simp [hq, Cause.code]
  refine ⟨⟨?_, fun hall => ?_⟩, hmissing, ?_⟩
  · rintro ⟨q, hq, hcode⟩
    cases hsearch : (Trigger.schedulePattern.first? p.source).bind (·.lookup 1) with
    | none => exact Trigger.first?_eq_none_iff_forall.1 hsearch
    | some schedule => exact absurd hcode (hfound schedule hsearch q hq)
  · rw [hmissing hall]
    exact ⟨_, List.mem_singleton_self _, rfl⟩
  · rintro ⟨text, htext⟩
    cases hsearch : (Trigger.schedulePattern.first? p.source).bind (·.lookup 1) with
    | none => exact absurd htext (Trigger.first?_eq_none_iff_forall.1 hsearch text)
    | some schedule => exact ⟨schedule, Trigger.assigns_of_first? hsearch, hsome schedule hsearch⟩

/-- A script with default options and no bubbles for which the rules about structure and
parameters report nothing, and whose flow class is on a schedule that no field gives: the line of
the class and what is reported. -/
def withoutField? (source : String) : Option (Nat × List Problem) := do
  let p ← ParsedScript.parse? source
  let c ← (FlowClass.all ({} : Options).flowBaseClass p.root).head?
  if structural p .empty {} = [] ∧ parameters p .empty = [] ∧
      Trigger.declaredType? c = some Event.schedule.name ∧
      (c.field? "cronSchedule").isNone = true then
    return (c.line, problems p .empty {})
  else none

theorem withoutField?_spec {source : String} {line : Nat} {ps : List Problem}
    (h : withoutField? source = some (line, ps)) :
    ∃ p c, ParsedScript.parse? source = some p ∧ structural p .empty {} = [] ∧
      parameters p .empty = [] ∧
      c ∈ FlowClass.all ({} : Options).flowBaseClass p.root ∧
      Trigger.declaredType? c = some Event.schedule.name ∧
      c.field? "cronSchedule" = none ∧ c.line = line ∧ problems p .empty {} = ps := by
  obtain ⟨p, hp, h⟩ := Option.bind_eq_some_iff.1 h
  obtain ⟨c, hc, h⟩ := Option.bind_eq_some_iff.1 h
  split at h
  · next hall =>
    obtain ⟨hline, hproblems⟩ := Prod.mk.inj (Option.some.inj h)
    exact ⟨p, c, hp, hall.1, hall.2.1, List.mem_of_head? hc, hall.2.2.1,
      Option.isNone_iff_eq_none.1 hall.2.2.2, hline,
      hproblems⟩
  · cases h

/-- A comment has the name of the field, but assigns nothing to it. -/
def remarkScript : String :=
  "// cronSchedule: '@daily'\n"
    ++ "export class F extends BubbleFlow<'schedule/cron'>\x7basync handle()\x7b\x7d\x7d"

/-- The missing schedule is reported, at the line of the class. -/
theorem missing_schedule_remarkScript :
    ∃ p c, ParsedScript.parse? remarkScript = some p ∧ structural p .empty {} = [] ∧
      parameters p .empty = [] ∧
      c ∈ FlowClass.all ({} : Options).flowBaseClass p.root ∧
      Trigger.declaredType? c = some Event.schedule.name ∧
      c.field? "cronSchedule" = none ∧ problems p .empty {} = [⟨.noSchedule, some 2⟩] := by
  have heval : withoutField? remarkScript = some (2, [⟨.noSchedule, some 2⟩]) := by decide +kernel
  have hsearch : (Trigger.schedulePattern.first? remarkScript).bind (·.lookup 1) = none := by
    decide +kernel
  obtain ⟨p, c, hp, hstructural, hparameters, hc, htype, hfield, hline, -⟩ :=
    withoutField?_spec heval
  have hfound : Trigger.orFound (Trigger.declaredType? c)
      (Trigger.typePattern ({} : Options).flowBaseClass) remarkScript
      = some Event.schedule.name := by
    rw [htype]
    rfl
  obtain ⟨-, hmissing, -⟩ :=
    missing_schedule_reported_iff hp hstructural hparameters hc hfound hfield
  rw [← hline]
  exact ⟨p, c, hp, hstructural, hparameters, hc, htype, hfield,
    hmissing (Trigger.first?_eq_none_iff_forall.1 hsearch)⟩

/-- A comment shows how a schedule would be given. -/
def commentScript : String :=
  "// cronSchedule = '@daily'\n"
    ++ "export class F extends BubbleFlow<'schedule/cron'>\x7basync handle()\x7b\x7d\x7d"

/-- **A schedule in a comment is taken for the one of the flow**, and nothing is reported. -/
theorem problems_commentScript :
    ∃ p c, ParsedScript.parse? commentScript = some p ∧ structural p .empty {} = [] ∧
      parameters p .empty = [] ∧
      c ∈ FlowClass.all ({} : Options).flowBaseClass p.root ∧
      Trigger.declaredType? c = some Event.schedule.name ∧
      c.field? "cronSchedule" = none ∧ problems p .empty {} = [] := by
  have heval : withoutField? commentScript = some (2, []) := by decide +kernel
  obtain ⟨p, c, hp, hstructural, hparameters, hc, htype, hfield, -, hproblems⟩ :=
    withoutField?_spec heval
  exact ⟨p, c, hp, hstructural, hparameters, hc, htype, hfield, hproblems⟩

end Validation

end FlowAnalysis
