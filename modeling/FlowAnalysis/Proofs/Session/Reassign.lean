import FlowAnalysis.Proofs.Edit.OwnValue
import FlowAnalysis.Proofs.Session.Coherence

/-!
# Giving a variable another value

On a fresh session a variable is given another value in the place of one that it has, or
the session refuses and stays as it is, in every case but one: the line on which the
variable is bound reads as an assignment to its name, and the assignment is not the place
of its value (`reassign_own_value_iff`).
-/

namespace FlowAnalysis

theorem ParsedScript.parse?_of_read {source : String} {p : ParsedScript} (h : read source = .ok p) :
    parse? source = some p := by
  rw [read] at h
  cases hp : parse? source with
  | none => simp [hp] at h
  | some q =>
    rw [hp] at h
    rw [Except.ok.inj h]

namespace Session

open Script Script.Node Text ParsedScript

/-- Giving a variable another value puts the value in the place of one that the variable is given,
and changes nothing else of the text, or it is refused and changes nothing at all. -/
def SetsOwnValue (s : Session) (p : ParsedScript) (id : Int) (value : String) : Prop :=
  (∃ v e before after, p.scopes.get? id = some v ∧ e ∈ givenValues p.root v ∧
    Spans s.source e before after ∧ s.run (.reassign id value)
      = (s.replace (before ++ trim value ++ after), .source (before ++ trim value ++ after))) ∨
  ∃ err, s.run (.reassign id value) = (s, .failed [.ofEdit err])

section

variable {s : Session} {p : ParsedScript} {a : Analysis} {id : Int} {value : String}

theorem run_reassign_ok (hs : s.analysed = some (p, a)) {text : String}
    (h : Edit.reassign p id value = .ok text) :
    s.run (.reassign id value) = (s.replace text, .source text) := by
  simp only [run, reassign, fresh, hs, h, bind, Except.bind, pure, Except.pure, changed]
  rfl

theorem run_reassign_error (hs : s.analysed = some (p, a)) {err : EditError}
    (h : Edit.reassign p id value = .error err) :
    s.run (.reassign id value) = (s, .failed [.ofEdit err]) := by
  simp only [run, reassign, fresh, hs, h, bind, Except.bind, changed]

/-- An assignment on the line of a variable gets the new value. -/
theorem run_reassign_of_line (hs : s.analysed = some (p, a))
    (hp : ParsedScript.parse? s.source = some p) {v : Variable} {b : Edit.Assignment}
    (hv : p.scopes.get? id = some v) (hb : p.lineAssignment? v = some b) (value : String) :
    s.run (.reassign id value)
      = (s.replace (p.assignedText v b (trim value)),
        .source (p.assignedText v b (trim value))) := by
  refine run_reassign_ok hs ?_
  cases outcome hp id with
  | refused hnone => exact absurd hb (by simp [hnone v hv])
  | declared hv' hnone =>
    obtain rfl := Option.some.inj (hv.symm.trans hv')
    exact absurd hb (by simp [hnone])
  | onLine hv' hb' hok =>
    obtain rfl := Option.some.inj (hv.symm.trans hv')
    obtain rfl := Option.some.inj (hb.symm.trans hb')
    exact hok value

/-- A session sets own values exactly if an assignment that is found on the line of the variable
is the place of its value. -/
theorem setsOwnValue_iff (hs : s.analysed = some (p, a))
    (hp : ParsedScript.parse? s.source = some p) :
    (∀ value, s.SetsOwnValue p id value) ↔
      ∀ v b, p.scopes.get? id = some v → p.lineAssignment? v = some b → p.IsOwnAssignment v b := by
  have hsource := source_of_parse? hp
  constructor
  · intro h v b hv hb
    obtain ⟨line, hline, -⟩ := exists_line_of_lineAssignment? hb
    obtain ⟨hi, -⟩ := List.getElem?_eq_some_iff.1 hline
    -- A mark longer than everything that can stand before it.
    obtain ⟨n, hn, hn'⟩ : ∃ n, (p.leftOf v b).length < n ∧ p.source.toList.length < n :=
      ⟨(p.leftOf v b).length + p.source.toList.length + 1, by omega, by omega⟩
    have htrim : trim (String.ofList (mark n)) = String.ofList (mark n) := trim_mark (by omega)
    have hrun := run_reassign_of_line hs hp hv hb (String.ofList (mark n))
    rw [htrim] at hrun
    rcases h (String.ofList (mark n)) with ⟨v', e, before, after, hv', he, hspans,
      hset⟩ | ⟨err, hset⟩
    · obtain rfl := Option.some.inj (hv.symm.trans hv')
      rw [hrun, htrim] at hset
      have htext : p.assignedText v b (String.ofList (mark n)) =
          before ++ String.ofList (mark n) ++ after :=
        Reply.source.inj (congrArg Prod.snd hset)
      rw [← hsource] at hspans
      exact isOwnAssignment_of_mark hi he hspans hn hn' htext
    · rw [hrun] at hset
      exact absurd (congrArg Prod.snd hset) Reply.noConfusion
  · intro h value
    cases outcome hp id with
    | refused _ herr =>
      obtain ⟨err, herr⟩ := herr value
      exact .inr ⟨err, run_reassign_error hs herr⟩
    | declared hv _ he hspans hok =>
      rw [hsource] at hspans
      exact .inl ⟨_, _, _, _, hv, he, hspans, run_reassign_ok hs (hok value)⟩
    | onLine hv hb hok =>
      obtain ⟨e, he, before, after, hspans, htext⟩ := (h _ _ hv hb).exists_spans hp
      rw [hsource] at hspans
      refine .inl ⟨_, e, before, after, hv, he, hspans, ?_⟩
      rw [← htext]
      exact run_reassign_ok hs (hok value)

end

/-- **Giving a variable another value.**  On a session that is fresh after any commands, and for
every number: all new values, without the blanks around them, take the place of a value that the
variable is given, and nothing else of the text changes, or they are refused and nothing changes at
all, exactly when the assignment that is found on the line of the variable, if one is looked for
there and found, is the place of its value.  Where one is found, the line is an assignment to the
name up to the blanks at its end, and the text becomes its lines with the new value on that one. -/
theorem reassign_own_value_iff (registry : Registry) (options : Options) (source : String)
    (cs : List Command) (h : ((start registry options source).after cs).isStale = false) :
    let s := (start registry options source).after cs
    ∃ p, ParsedScript.parse? s.source = some p ∧ ∀ id,
      ((∀ value, s.SetsOwnValue p id value) ↔
        ∀ v a, p.scopes.get? id = some v → p.lineAssignment? v = some a → p.IsOwnAssignment v a) ∧
      ∀ v a, p.scopes.get? id = some v → p.lineAssignment? v = some a →
        (∃ line, (Page.ofText s.source).lines[v.location.startLine - 1]? = some line ∧
          Edit.IsAssignment v.name line a) ∧
        ∀ value, s.run (.reassign id value)
          = (s.replace (p.assignedText v a (trim value)),
            .source (p.assignedText v a (trim value))) := by
  intro s
  obtain ⟨hcoherent, -⟩ := coherent_run registry options source cs
  cases hs : s.analysed with
  | none => simp [isStale, s, hs] at h
  | some found =>
    obtain ⟨p, a⟩ := found
    have hp : ParsedScript.parse? s.source = some p := parse?_of_read (hcoherent p a hs).1
    refine ⟨p, hp, fun id => ⟨setsOwnValue_iff hs hp, fun v b hv hb =>
      ⟨?_, run_reassign_of_line hs hp hv hb⟩⟩⟩
    rw [← source_of_parse? hp]
    exact exists_line_of_lineAssignment? hb

/-- A parameter with a default value on a line of its own. -/
def defaultScript : String := "function f(\n  a = 1\n) {}\n"

/-- The default value is the own value of the parameter, so any other takes its place. -/
theorem reassign_own_value_defaultScript :
    let s := (start (Registry.ofDescriptors []) {} defaultScript).after [.analyse]
    s.isStale = false ∧ (s.run (.reassign 2 " 7 ")).1.source = "function f(\n  a = 7\n) {}\n" ∧
      ∃ p v a, ParsedScript.parse? s.source = some p ∧ p.scopes.get? 2 = some v ∧ v.name = "a" ∧
        p.lineAssignment? v = some a ∧ p.IsOwnAssignment v a ∧ ∀ value,
        s.SetsOwnValue p 2 value := by
  have heval : ((start (Registry.ofDescriptors []) {} defaultScript).after [.analyse]).isStale =
      false ∧ (((start (Registry.ofDescriptors []) {} defaultScript).after [.analyse]).run
        (.reassign 2 " 7 ")).1.source = "function f(\n  a = 7\n) {}\n" ∧
      (ParsedScript.parse? ((start (Registry.ofDescriptors []) {} defaultScript).after
        [.analyse]).source).all
        (fun p => (p.scopes.get? 2).any fun v => v.name == "a" &&
          (p.lineAssignment? v).any fun a => decide (p.IsOwnAssignment v a)) = true := by
    decide +kernel
  intro s
  obtain ⟨hstale, hrun, hfound⟩ := heval
  obtain ⟨p, hp, hall⟩ := reassign_own_value_iff _ _ _ _ hstale
  rw [hp, Option.all_some] at hfound
  obtain ⟨v, hv, hname⟩ := (Option.any_eq_true _ _).1 hfound
  rw [Bool.and_eq_true, beq_iff_eq] at hname
  obtain ⟨a, ha, hown⟩ := (Option.any_eq_true _ _).1 hname.2
  have hown : p.IsOwnAssignment v a := of_decide_eq_true hown
  refine ⟨hstale, hrun, p, v, a, hp, hv, hname.1, ha, hown, (hall 2).1.2 ?_⟩
  intro w b hw hb
  obtain rfl := Option.some.inj (hv.symm.trans hw)
  obtain rfl := Option.some.inj (ha.symm.trans hb)
  exact hown

/-- A declaration without a value, with another statement on its line. -/
def looseScript : String := "let x: number; y = 3"

/-- **A variable without a value is given one that belongs to another.**  The declaration gives no
value to its variable, yet a new one is put in, for that of the statement after it. -/
theorem reassign_looseScript :
    let s := (start (Registry.ofDescriptors []) {} looseScript).after [.analyse]
    s.isStale = false ∧ (s.run (.reassign 1 "7")).1.source = "let x: number; y = 7" ∧
      ∃ p v, ParsedScript.parse? s.source = some p ∧ p.scopes.get? 1 = some v ∧ v.name = "x" ∧
        givenValues p.root v = [] ∧ ¬ s.SetsOwnValue p 1 "7" := by
  have heval : ((start (Registry.ofDescriptors []) {} looseScript).after [.analyse]).isStale =
      false ∧ (((start (Registry.ofDescriptors []) {} looseScript).after [.analyse]).run
        (.reassign 1 "7")).1.source = "let x: number; y = 7" ∧
      ((start (Registry.ofDescriptors []) {} looseScript).after [.analyse]).source = looseScript ∧
      (ParsedScript.parse? looseScript).any (fun p => (p.scopes.get? 1).any fun v =>
        v.name == "x" && (givenValues p.root v).isEmpty) = true := by
    decide +kernel
  intro s
  obtain ⟨hstale, hrun, hsource, hfound⟩ := heval
  obtain ⟨p, hp, hfound⟩ := (Option.any_eq_true _ _).1 hfound
  obtain ⟨v, hv, hname⟩ := (Option.any_eq_true _ _).1 hfound
  rw [Bool.and_eq_true, beq_iff_eq, List.isEmpty_iff] at hname
  refine ⟨hstale, hrun, p, v, by rw [hsource, hp], hv, hname.1, hname.2, ?_⟩
  rintro (⟨w, e, before, after, hw, he, -⟩ | ⟨err, hrefused⟩)
  · obtain rfl := Option.some.inj (hv.symm.trans hw)
    rw [hname.2] at he
    cases he
  · rw [hrefused, hsource] at hrun
    exact absurd hrun (by decide)

end Session

end FlowAnalysis
