import FlowAnalysis.Proofs.History
import FlowAnalysis.Session
import Mathlib.Data.List.Induction

/-!
# Coherence of editing sessions

`coherent_after` says what holds after every run of commands on a new session, whatever the commands
are and whichever of them fail:

* an analysis that is held is the analysis of the text that is held;
* the session is fresh exactly when the text was analysed and no later command outdated that
  analysis (`isStale_after_eq_false_iff`);
* a command that fails changes nothing, except that a failed analysis leaves the session stale;
* whatever needs the analysis is refused as stale exactly when the session is stale
  (`run_eq_stale_iff`).

Everything rests on `run_effect`, which lists the four things that a command can do to a session.
-/

namespace FlowAnalysis.Session

/-! ### Kinds of command -/

/-- The commands that give the session another text when they succeed. -/
def Command.isChange : Command → Bool
  | .reassign .. | .reassignNamed .. | .inject .. | .replace _ => true
  | _ => false

/-- The commands that only ask about the analysis. -/
def Command.isQuestion : Command → Bool
  | .visible _ | .scope _ | .resolve .. | .trigger | .schema | .credentials | .validate => true
  | _ => false

/-- The commands that cannot be carried out on a stale session: the questions, and giving a variable
another value. -/
def Command.needsAnalysis : Command → Bool
  | .reassign .. | .reassignNamed .. => true
  | c => c.isQuestion

/-- The reply of a session that has to be analysed first. -/
def Reply.stale : Reply := .failed [.ofEdit .stale]

/-! ### What one command does -/

/-- The script and the analysis of the text of a session. -/
def IsAnalysisOf (s : Session) (p : ParsedScript) (a : Analysis) : Prop :=
  ParsedScript.read s.source = .ok p ∧ Analysis.ofScript p s.registry s.options = .ok a

/-- What a command can do: with an analysis it succeeds or fails, with a change it gives another
text, and everything else leaves the session as it is. -/
inductive Effect (s : Session) : Command → Session → Reply → Prop
  | analysed {p : ParsedScript} {a : Analysis} (h : s.IsAnalysisOf p a) :
      Effect s .analyse { s with analysed := some (p, a) } (.analysed a)
  | broken (ps : List Problem) : Effect s .analyse { s with analysed := none } (.failed ps)
  | changed {c : Command} (h : c.isChange = true) (text : String) :
      Effect s c (s.replace text) (.source text)
  | kept {c : Command} {r : Reply} (h : c ≠ .analyse)
      (hr : c.isChange = true → ∀ text, r ≠ .source text) : Effect s c s r

theorem analyse_effect (s : Session) : Effect s .analyse (s.run .analyse).1 (s.run .analyse).2 := by
  simp only [run, analyse]
  cases hp : ParsedScript.read s.source with
  | error ps => exact .broken ps
  | ok p =>
    cases ha : Analysis.ofScript p s.registry s.options with
    | error ps =>
      simp only [ha, bind, Except.bind]
      exact .broken ps
    | ok a =>
      simp only [ha, bind, Except.bind, pure, Except.pure]
      exact .analysed ⟨hp, ha⟩

/-- The outcome of a change, given that the change ends with another text. -/
theorem changed_effect {s : Session} {c : Command} (hc : c.isChange = true) (hn : c ≠ .analyse)
    {e : Except EditError Session} (h : ∀ t, e = .ok t → ∃ text, t = s.replace text) :
    Effect s c (s.changed e).1 (s.changed e).2 := by
  cases e with
  | error e => exact .kept hn fun _ text => Reply.noConfusion
  | ok t =>
    obtain ⟨text, rfl⟩ := h t rfl
    exact .changed hc text

theorem eq_replace_of_reassign {s t : Session} {id : Int} {value : String}
    (h : s.reassign id value = .ok t) : ∃ text, t = s.replace text := by
  simp only [reassign, bind, Except.bind, pure, Except.pure] at h
  split at h
  · cases h
  · split at h
    · cases h
    · exact ⟨_, (Except.ok.inj h).symm⟩

theorem eq_replace_of_inject {s t : Session} {lines : List String} {line : Nat}
    (h : s.inject lines line = .ok t) : ∃ text, t = s.replace text := by
  simp only [inject, bind, Except.bind, pure, Except.pure] at h
  split at h
  · cases h
  · exact ⟨_, (Except.ok.inj h).symm⟩

/-- **Every command does one of the four things.** -/
theorem run_effect (s : Session) (c : Command) : Effect s c (s.run c).1 (s.run c).2 := by
  cases c with
  | analyse => exact analyse_effect s
  | reassign id value =>
    exact changed_effect rfl (by simp) fun _ => eq_replace_of_reassign
  | reassignNamed name line value =>
    -- The name is looked up first; a name without a variable changes nothing.
    simp only [run]
    split
    · exact .kept (by simp) fun _ text => Reply.noConfusion
    · exact .kept (by simp) fun _ text => Reply.noConfusion
    · exact changed_effect rfl (by simp) fun _ => eq_replace_of_reassign
  | inject lines line =>
    exact changed_effect rfl (by simp) fun _ => eq_replace_of_inject
  | replace source => exact .changed rfl source
  | _ => exact .kept (by simp) (by simp [Command.isChange])

/-! ### What needs an analysis -/

/-- Refusals for reasons other than a stale analysis. -/
theorem edit_reassign_ne_stale (p : ParsedScript) (id : Int) (value : String) :
    Edit.reassign p id value ≠ .error .stale := by
  intro h
  unfold Edit.reassign at h
  split at h
  · cases h
  · dsimp only at h
    split at h
    · split at h <;> cases h
    · unfold Edit.assignAtLine at h
      dsimp only at h
      split at h
      · cases h
      · split at h <;> cases h

/-- A variable can be given another value only on a fresh session, and is then never refused as
stale. -/
theorem reassign_eq_stale_iff (s : Session) (id : Int) (value : String) :
    s.reassign id value = .error .stale ↔ s.isStale = true := by
  unfold reassign fresh isStale
  cases s.analysed with
  | none => simp [bind, Except.bind]
  | some a =>
    obtain ⟨p, _⟩ := a
    have hne := edit_reassign_ne_stale p id value
    simp only [bind, Except.bind, pure, Except.pure, Option.isNone_some, Bool.false_eq_true,
      iff_false]
    cases he : Edit.reassign p id value with
    | error e =>
      intro h
      exact hne (he.trans (by rw [Except.error.inj h]))
    | ok text => simp

/-- The reply to a refused change says why it was refused. -/
theorem changed_eq_stale_iff (s : Session) (e : Except EditError Session) :
    (s.changed e).2 = Reply.stale ↔ e = .error .stale := by
  cases e with
  | ok t => simp [changed, Reply.stale]
  | error e =>
    constructor
    · intro h
      simp only [changed, Reply.stale, Reply.failed.injEq, List.cons.injEq, Problem.ofEdit,
        Problem.mk.injEq, Cause.edit.injEq] at h
      rw [h.1.1]
    · intro h
      rw [Except.error.inj h]
      rfl

/-- A question is answered on a fresh session and refused as stale on any other. -/
theorem run_question (s : Session) {c : Command} (hc : c.isQuestion = true) :
    if s.isStale = true then (s.run c).2 = Reply.stale
    else ∀ ps, (s.run c).2 ≠ .failed ps := by
  cases h : s.analysed <;> cases c <;>
    simp_all [Command.isQuestion, run, isStale, visibleAt, scopeAt, resolve, trigger, inputSchema,
      credentials, problems, fresh, bind, Except.bind, pure, Except.pure, Reply.ofAnswer,
      Reply.stale]

/-- **Whatever needs the analysis is refused as stale exactly on a stale session.** -/
theorem run_eq_stale_iff (s : Session) {c : Command} (hc : c.needsAnalysis = true) :
    (s.run c).2 = Reply.stale ↔ s.isStale = true := by
  have question : c.isQuestion = true → ((s.run c).2 = Reply.stale ↔ s.isStale = true) := by
    intro hq
    have h := run_question s hq
    split at h
    · next hs => exact ⟨fun _ => hs, fun _ => h⟩
    · next hs => exact ⟨fun he => absurd he (h _), fun he => absurd he hs⟩
  cases c with
  | reassign id value =>
    exact (changed_eq_stale_iff s _).trans (reassign_eq_stale_iff s id value)
  | reassignNamed name line value =>
    simp only [run]
    cases hs : s.analysed with
    | none => simp [resolve, fresh, isStale, hs, bind, Except.bind, Reply.stale]
    | some a =>
      have hfresh : s.isStale = false := by simp [isStale, hs]
      have hr : s.resolve name line = .ok (a.1.scopes.resolve? name line) := by
        simp [resolve, fresh, hs, bind, Except.bind, pure, Except.pure]
      rw [hr]
      -- A name without a variable is refused on a fresh session, but not as stale.
      cases a.1.scopes.resolve? name line with
      | none => simp [hfresh, Reply.stale]
      | some id => exact (changed_eq_stale_iff s _).trans (reassign_eq_stale_iff s id value)
  | _ => exact question hc

/-! ### Runs -/

/-- The session after commands. -/
def after (s : Session) (cs : List Command) : Session :=
  ((s.runAll cs).getLast?.map Prod.fst).getD s

/-- The commands carried out, each with its reply. -/
def log (s : Session) (cs : List Command) : List (Command × Reply) :=
  cs.zip ((s.runAll cs).map Prod.snd)

theorem length_runAll (s : Session) (cs : List Command) : (s.runAll cs).length = cs.length := by
  induction cs generalizing s with
  | nil => rfl
  | cons c cs ih => exact congrArg _ (ih _)

theorem after_cons (s : Session) (c : Command) (cs : List Command) :
    s.after (c :: cs) = (s.run c).1.after cs := by
  unfold after
  rw [runAll, List.getLast?_cons]
  cases (runAll (s.run c).1 cs).getLast? <;> rfl

/-- One more command is carried out on the session after the others. -/
theorem runAll_concat (s : Session) (cs : List Command) (c : Command) :
    s.runAll (cs ++ [c]) = s.runAll cs ++ [(s.after cs).run c] := by
  induction cs generalizing s with
  | nil => rfl
  | cons d cs ih =>
    rw [List.cons_append, runAll, runAll, after_cons, ih]
    rfl

theorem after_concat (s : Session) (cs : List Command) (c : Command) :
    s.after (cs ++ [c]) = ((s.after cs).run c).1 := by
  rw [after, runAll_concat, List.getLast?_concat]
  rfl

theorem log_concat (s : Session) (cs : List Command) (c : Command) :
    s.log (cs ++ [c]) = s.log cs ++ [(c, ((s.after cs).run c).2)] := by
  have hlen : cs.length = ((s.runAll cs).map Prod.snd).length := by
    rw [List.length_map, length_runAll]
  rw [log, runAll_concat, List.map_append, List.zip_append hlen]
  rfl

/-! ### Fresh analyses -/

/-- A session is coherent when an analysis that it holds is that of its text. -/
def Coherent (s : Session) : Prop := ∀ p a, s.analysed = some (p, a) → s.IsAnalysisOf p a

theorem coherent_start (registry : Registry) (options : Options) (source : String) :
    (start registry options source).Coherent := by
  intro p a h
  cases h

/-- A command keeps a session coherent, and never touches the registry and the options. -/
theorem coherent_effect {s t : Session} {c : Command} {r : Reply} (h : Effect s c t r)
    (hs : s.Coherent) : t.Coherent ∧ t.registry = s.registry ∧ t.options = s.options := by
  cases h with
  | analysed h =>
    refine ⟨fun p a he => ?_, rfl, rfl⟩
    cases he
    exact h
  | broken ps => exact ⟨fun p a he => (nomatch he), rfl, rfl⟩
  | changed _ text => exact ⟨fun p a he => (nomatch he), rfl, rfl⟩
  | kept => exact ⟨hs, rfl, rfl⟩

/-- Coherence, the registry and the options last through a whole run. -/
theorem coherent_run (registry : Registry) (options : Options) (source : String)
    (cs : List Command) :
    let s := (start registry options source).after cs
    s.Coherent ∧ s.registry = registry ∧ s.options = options := by
  induction cs using List.reverseRecOn with
  | nil => exact ⟨coherent_start registry options source, rfl, rfl⟩
  | append_singleton cs c ih =>
    obtain ⟨hc, hr, ho⟩ := ih
    rw [after_concat]
    obtain ⟨hc', hr', ho'⟩ := coherent_effect (run_effect _ c) hc
    exact ⟨hc', hr'.trans hr, ho'.trans ho⟩

/-- A command that analysed the text with success. -/
def Refreshes (e : Command × Reply) : Prop := e.1 = .analyse ∧ ∃ a, e.2 = .analysed a

/-- A command that outdated every earlier analysis: a change that succeeded, or an analysis that
failed. -/
def Outdates (e : Command × Reply) : Prop :=
  (e.1.isChange = true ∧ ∃ text, e.2 = .source text) ∨ (e.1 = .analyse ∧ ∃ ps, e.2 = .failed ps)

/-- A log in which the text was analysed and nothing outdated the analysis after that. -/
def EndsFresh (es : List (Command × Reply)) : Prop :=
  ∃ before e later, es = before ++ e :: later ∧ Refreshes e ∧ ∀ x ∈ later, ¬ Outdates x

theorem not_outdates_of_refreshes {e : Command × Reply} (h : Refreshes e) : ¬ Outdates e := by
  obtain ⟨c, r⟩ := e
  obtain ⟨rfl, a, rfl⟩ := h
  rintro (⟨h, _⟩ | ⟨_, ps, h⟩)
  · cases h
  · cases h

/-- How the last command decides whether a log ends fresh. -/
theorem endsFresh_concat (es : List (Command × Reply)) (e : Command × Reply) :
    EndsFresh (es ++ [e]) ↔ Refreshes e ∨ (EndsFresh es ∧ ¬ Outdates e) :=
  since_concat_iff (P := fun _ => Refreshes) (Q := fun x => ¬ Outdates x)

/-- A command that neither refreshes nor outdates leaves the session as stale as it was. -/
theorem isStale_effect {s t : Session} {c : Command} {r : Reply} (h : Effect s c t r) :
    t.isStale = false ↔ Refreshes (c, r) ∨ (s.isStale = false ∧ ¬ Outdates (c, r)) := by
  cases h with
  | analysed => exact ⟨fun _ => .inl ⟨rfl, _, rfl⟩, fun _ => rfl⟩
  | broken ps =>
    have hout : Outdates (.analyse, .failed ps) := .inr ⟨rfl, ps, rfl⟩
    exact ⟨fun h => (nomatch h),
      fun h => h.elim (fun hr => absurd hout (not_outdates_of_refreshes hr)) fun h =>
      absurd hout h.2⟩
  | changed hc text =>
    have hout : Outdates (c, .source text) := .inl ⟨hc, text, rfl⟩
    exact ⟨fun h => (nomatch h),
      fun h => h.elim (fun hr => absurd hout (not_outdates_of_refreshes hr)) fun h =>
      absurd hout h.2⟩
  | kept hn hr =>
    have hre : ¬ Refreshes (c, r) := fun h => hn h.1
    have hout : ¬ Outdates (c, r) := by
      rintro (⟨hc, text, ht⟩ | ⟨hc, _⟩)
      · exact hr hc text ht
      · exact hn hc
    simp [hre, hout]

/-- **A session is fresh exactly when its log ends fresh.** -/
theorem isStale_after_eq_false_iff (registry : Registry) (options : Options) (source : String)
    (cs : List Command) :
    ((start registry options source).after cs).isStale = false
      ↔ EndsFresh ((start registry options source).log cs) := by
  -- From the end: the last command decides, given what held before it.
  induction cs using List.reverseRecOn with
  | nil =>
    refine ⟨fun h => (nomatch h), ?_⟩
    rintro ⟨before, e, later, h, -⟩
    exact absurd h (by simp [log])
  | append_singleton cs c ih =>
    rw [after_concat, log_concat]
    refine (isStale_effect (run_effect _ c)).trans ?_
    rw [ih]
    exact (endsFresh_concat _ _).symm

/-! ### Failures -/

/-- What is left of a session after a command that failed. -/
theorem effect_failed {s t : Session} {c : Command} {ps : List Problem}
    (h : Effect s c t (.failed ps)) :
    if c = .analyse then t.source = s.source ∧ t.isStale = true else t = s := by
  cases h with
  | broken => exact ⟨rfl, rfl⟩
  | kept hn =>
    rw [if_neg hn]

/-! ### All together -/

/-- **Coherence over whole runs.**  After any commands on a new session: an analysis that is held is
that of the text that is held; the session is fresh exactly when the text was analysed and nothing
outdated the analysis since; a next command that fails leaves the session as it is, except that a
failed analysis keeps only the text and leaves the session stale; and a next command that needs the
analysis is refused as stale exactly when the session is stale, which is the only way in which a
question is refused. -/
theorem coherent_after (registry : Registry) (options : Options) (source : String)
    (cs : List Command) :
    let s := (start registry options source).after cs
    (s.isStale = false →
      ∃ p a, s.analysed = some (p, a) ∧ ParsedScript.read s.source = .ok p
        ∧ Analysis.ofScript p registry options = .ok a)
    ∧ (s.isStale = false ↔ EndsFresh ((start registry options source).log cs))
    ∧ (∀ c ps, (s.run c).2 = .failed ps →
        if c = .analyse then (s.run c).1.source = s.source ∧ (s.run c).1.isStale = true
        else (s.run c).1 = s)
    ∧ (∀ c, c.needsAnalysis = true → ((s.run c).2 = Reply.stale ↔ s.isStale = true))
    ∧ (∀ c, c.isQuestion = true → ∀ ps, (s.run c).2 = .failed ps → s.isStale = true) := by
  intro s
  obtain ⟨hcoh, hreg, hopt⟩ := coherent_run registry options source cs
  refine ⟨fun hfresh => ?_, isStale_after_eq_false_iff registry options source cs, ?_,
    fun c hc => run_eq_stale_iff s hc, ?_⟩
  · cases hs : s.analysed with
    | none => simp [isStale, hs] at hfresh
    | some pa =>
      obtain ⟨p, a⟩ := pa
      obtain ⟨hp, ha⟩ := hcoh p a hs
      rw [hreg, hopt] at ha
      exact ⟨p, a, rfl, hp, ha⟩
  · intro c ps h
    exact effect_failed (h ▸ run_effect s c)
  · intro c hc ps h
    by_contra hs
    have hq := run_question s hc
    rw [if_neg hs] at hq
    exact hq ps h

end FlowAnalysis.Session
