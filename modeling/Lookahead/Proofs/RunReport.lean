import Lookahead.Bundled.Demo
import Lookahead.Pipeline
import Lookahead.Proofs.SortedEntries
import Lookahead.Proofs.StreamCursor

/-!
What a run reports. An operation of a stream that succeeds emits debug events at most,
and one that fails emits the event of its error after them. So does a step of a parse;
a parse that comes to its end emits what it says about the input left over instead. From
this the events of a whole run are known up to debug events, and the session in which
the run takes place puts its name on every one of them.
-/
namespace Lookahead

namespace Log

/-- What an event says, apart from its context. -/
structure Headline where
  level : Level
  code : Code
  message : String
  span : Option Span
deriving DecidableEq

def Event.headline (e : Event) : Headline := ⟨e.level, e.code, e.message, e.span⟩

@[simp] theorem Event.headline_annotate (e : Event) (name value : String) :
    (e.annotate name value).headline = e.headline := rfl

@[simp] theorem Event.headline_withAll (e : Event) (pairs : List (String × String)) :
    (e.withAll pairs).headline = e.headline := by
  induction pairs generalizing e with
  | nil => rfl
  | cons pair pairs ih => exact ih (e.annotate pair.1 pair.2)

/-- Debug events and no others. -/
def Quiet (events : List Event) : Prop := ∀ e ∈ events, e.level = .debug

theorem quiet_nil : Quiet [] := by simp [Quiet]

theorem Quiet.append {events events' : List Event} (h : Quiet events) (h' : Quiet events') :
    Quiet (events ++ events') := by
  intro e he
  cases List.mem_append.mp he with
  | inl he => exact h e he
  | inr he => exact h' e he

end Log

open Log (Event Headline Quiet)

namespace LexerError

/-- The report of an operation of the lexer. -/
def reportOf {α : Type} : Except LexerError α → List Event
  | .ok _ => []
  | .error e => [e.event]

end LexerError

open LexerError (reportOf)

/-- The events of the reply are the report of its result after debug events. -/
def Reply.Reported {α σ : Type} (r : Reply α σ) : Prop :=
  ∃ quiet, Quiet quiet ∧ r.events = quiet ++ reportOf r.result

theorem Reply.Reported.quiet {α σ : Type} {a : α} {rest : σ} {events : List Event}
    (h : (⟨.ok a, rest, events⟩ : Reply α σ).Reported) : Quiet events := by
  obtain ⟨quiet, hquiet, hevents⟩ := h
  obtain rfl : events = quiet := by simpa [reportOf] using hevents
  exact hquiet

theorem Reply.Reported.error {α σ : Type} {e : LexerError} {rest : σ} {events : List Event}
    (h : (⟨.error e, rest, events⟩ : Reply α σ).Reported) :
    ∃ quiet, Quiet quiet ∧ events = quiet ++ [e.event] := h

theorem Tokenizer.next_reported {σ : Type} [CharSource σ] (t : Tokenizer σ) :
    t.next.Reported := by
  have hevents : t.next.events = t.preferences.report t.next.result := rfl
  rw [Reply.Reported, hevents]
  cases t.next.result with
  | error e => exact ⟨[], Log.quiet_nil, rfl⟩
  | ok next =>
      cases next with
      | none => exact ⟨[], Log.quiet_nil, rfl⟩
      | some x =>
          refine ⟨t.preferences.report (.ok (some x)), ?_, by simp [reportOf]⟩
          intro e he
          simp only [LexicalPreferences.report] at he
          split at he
          · rw [List.mem_singleton.mp he]
            rfl
          · cases he

namespace TokenStream

/-- The operations of a stream report what they answer. -/
def Reporting (τ : Type) [TokenStream τ] : Prop :=
  ∀ s : τ, (peek s).Reported ∧ (pull s).Reported

variable {τ : Type} [TokenStream τ] (hreporting : Reporting τ)
include hreporting

theorem skip_reported (before : List Event) (s : τ) :
    ∃ quiet, Quiet quiet ∧
      (skip before s).events = before.reverse ++ quiet ++ reportOf (skip before s).result := by
  fun_induction skip before s with
  | case1 before s x shown emitted hshown htrivia e rest more htaken =>
      have hpeek := (hreporting s).1
      have hpull := (hreporting shown).2
      rw [hshown] at hpeek
      rw [htaken] at hpull
      obtain ⟨quiet, hquiet, rfl⟩ := hpull.error
      exact ⟨emitted ++ quiet, hpeek.quiet.append hquiet, by simp [reportOf]⟩
  | case2 before s x shown emitted hshown htrivia taken rest more htaken ih =>
      have hpeek := (hreporting s).1
      have hpull := (hreporting shown).2
      rw [hshown] at hpeek
      rw [htaken] at hpull
      obtain ⟨quiet, hquiet, hlater⟩ := ih
      refine ⟨emitted ++ (more ++ quiet), hpeek.quiet.append (hpull.quiet.append hquiet), ?_⟩
      rw [hlater]
      simp
  | case3 before s x shown emitted hshown htrivia =>
      have hpeek := (hreporting s).1
      rw [hshown] at hpeek
      exact ⟨emitted, hpeek.quiet, by simp [reportOf]⟩
  | case4 before s result shown emitted hother hshown =>
      have hpeek := (hreporting s).1
      rw [hshown] at hpeek
      obtain ⟨quiet, hquiet, hemitted⟩ := hpeek
      refine ⟨quiet, hquiet, ?_⟩
      simp only at hemitted
      simp [hemitted]

theorem peekProper_reported (s : τ) : (peekProper s).Reported :=
  skip_reported hreporting [] s

theorem pullProper_reported (s : τ) : (pullProper s).Reported := by
  have hpeek := peekProper_reported hreporting s
  cases hshown : peekProper s with
  | mk result shown events =>
      rw [hshown] at hpeek
      cases result with
      | error e =>
          rw [pullProper_of_error hshown]
          exact hpeek
      | ok next =>
          rw [pullProper_of_ok hshown]
          obtain ⟨quiet, hquiet, hmore⟩ := (hreporting shown).2
          refine ⟨events ++ quiet, hpeek.quiet.append hquiet, ?_⟩
          rw [hmore, List.append_assoc]

end TokenStream

theorem LookaheadStream.reporting {σ : Type} [CharSource σ] :
    TokenStream.Reporting (LookaheadStream σ) := by
  intro s
  have hpeek : (TokenStream.peek s).Reported := by
    obtain ⟨t, buffer⟩ := s
    cases buffer with
    | token x | endOfInput => exact ⟨[], Log.quiet_nil, rfl⟩
    | empty =>
        have hnext := t.next_reported
        cases hresult : t.next.result with
        | error e =>
            rw [peek_of_error hresult]
            rwa [Reply.Reported, hresult] at hnext
        | ok next =>
            rw [peek_of_ok hresult]
            rwa [Reply.Reported, hresult] at hnext
  refine ⟨hpeek, ?_⟩
  cases hshown : TokenStream.peek s with
  | mk result shown events =>
      rw [hshown] at hpeek
      by_cases htoken : ∃ x, result = .ok (some x)
      · obtain ⟨x, rfl⟩ := htoken
        rw [pull_of_peek_some hshown]
        exact hpeek
      · rw [pull_of_peek_other hshown (by simpa using htoken)]
        exact hpeek

namespace Parse

variable {τ : Type} {g : Grammar} {preferences : SyntaxPreferences} {before : List Event}

/-- What a parse says in the end. -/
def closing (preferences : SyntaxPreferences) : Except SyntaxError ParseOutcome → List Event
  | .error e => [e.event]
  | .ok outcome => completionEvents preferences outcome.tree.size outcome.trailing

/-- After the given events a step has added debug events, and a step that is the last
one also what the parse says in the end. -/
def Reported (preferences : SyntaxPreferences) (before : List Event) : Progress τ → Prop
  | .running p => ∃ quiet, Quiet quiet ∧ p.events.reverse = before ++ quiet
  | .stopped result p => ∃ quiet, Quiet quiet ∧
      p.events.reverse = before ++ quiet ++ closing preferences result

theorem Reported.after {quiet : List Event} {progress : Progress τ}
    (h : Reported preferences (before ++ quiet) progress) (hquiet : Quiet quiet) :
    Reported preferences before progress := by
  cases progress with
  | running p =>
      obtain ⟨quiet', hquiet', hevents⟩ := h
      exact ⟨quiet ++ quiet', hquiet.append hquiet', by rw [hevents, List.append_assoc]⟩
  | stopped result p =>
      obtain ⟨quiet', hquiet', hevents⟩ := h
      exact ⟨quiet ++ quiet', hquiet.append hquiet', by simp [hevents]⟩

theorem events_emit (p : Parse τ) (events : List Event) :
    (p.emit events).events.reverse = p.events.reverse ++ events := by
  simp [emit]

/-- A parse that stops because of the lexer passes on what the lexer has reported. -/
theorem reported_of_lexical {α σ : Type} {p : Parse τ} {e : LexerError} {rest : σ}
    {events : List Event} (h : (⟨.error e, rest, events⟩ : Reply α σ).Reported) :
    Reported preferences p.events.reverse (.stopped (.error (.lexical e)) (p.emit events)) := by
  obtain ⟨quiet, hquiet, rfl⟩ := h.error
  refine ⟨quiet, hquiet, ?_⟩
  rw [events_emit, ← List.append_assoc]
  rfl

theorem reject_reported (p : Parse τ) (expected : String) (lookahead : Option Token) :
    Reported preferences p.events.reverse (p.reject expected lookahead) := by
  refine ⟨[], Log.quiet_nil, ?_⟩
  rw [events_emit, List.append_nil]
  rfl

theorem expansionEvents_quiet (preferences : SyntaxPreferences) (label : String)
    (lookahead : Option String) (rhs : List String) :
    Quiet (expansionEvents preferences label lookahead rhs) := by
  intro e he
  simp only [expansionEvents] at he
  split at he
  · rw [List.mem_singleton.mp he]
    rfl
  · cases he

theorem stepNonterminal_reported (p : Parse τ) (id : Nat) (label : String)
    (lookahead : Option Token) :
    Reported preferences p.events.reverse
      (p.stepNonterminal g preferences id label lookahead) := by
  simp only [stepNonterminal]
  cases g.entry label (lookahead.map (·.lexClass)) with
  | none => exact reject_reported p label lookahead
  | some rhs => exact ⟨_, expansionEvents_quiet _ _ _ _, events_emit p _⟩

variable [TokenStream τ] (hreporting : TokenStream.Reporting τ)
include hreporting

theorem stepTerminal_reported (p : Parse τ) (id : Nat) (label : String)
    (lookahead : Option Token) :
    Reported preferences p.events.reverse (p.stepTerminal id label lookahead) := by
  cases lookahead with
  | none => exact reject_reported p label none
  | some x =>
      simp only [stepTerminal]
      split
      · have hpull := TokenStream.pullProper_reported hreporting p.stream
        cases hreply : TokenStream.pullProper p.stream with
        | mk result rest events =>
            rw [hreply] at hpull
            cases result with
            | error e => exact reported_of_lexical hpull
            | ok taken => exact ⟨events, hpull.quiet, events_emit _ events⟩
      · exact reject_reported p label (some x)

theorem stepNode_reported (p : Parse τ) (id : Nat) (label : String)
    (lookahead : Option Token) :
    Reported preferences p.events.reverse (p.stepNode g preferences id label lookahead) := by
  simp only [stepNode]
  split
  · exact stepNonterminal_reported p id label lookahead
  · exact stepTerminal_reported hreporting p id label lookahead

theorem complete_reported (p : Parse τ) :
    Reported preferences p.events.reverse (p.complete preferences) := by
  simp only [complete]
  have hpull := TokenStream.pullProper_reported hreporting p.stream
  cases hreply : TokenStream.pullProper p.stream with
  | mk result rest events =>
      rw [hreply] at hpull
      cases result with
      | error e => exact reported_of_lexical hpull
      | ok trailing =>
          refine ⟨events, hpull.quiet, ?_⟩
          rw [events_emit, events_emit]
          rfl

theorem step_reported (g : Grammar) (preferences : SyntaxPreferences) (p : Parse τ) :
    Reported preferences p.events.reverse (p.step g preferences) := by
  simp only [step]
  split
  · exact complete_reported hreporting p
  · rename_i id stack htop
    have hpeek := TokenStream.peekProper_reported hreporting p.stream
    cases hreply : TokenStream.peekProper p.stream with
    | mk result rest events =>
        rw [hreply] at hpeek
        cases result with
        | error e => exact reported_of_lexical hpeek
        | ok lookahead =>
            apply Reported.after _ hpeek.quiet
            rw [← events_emit p]
            exact stepNode_reported hreporting _ id (p.tree.label id) lookahead

theorem run_reported {bound : Nat} {p last : Parse τ} {result : Except SyntaxError ParseOutcome}
    (h : p.run g preferences bound = some (result, last)) :
    ∃ quiet, Quiet quiet ∧
      last.events.reverse = p.events.reverse ++ quiet ++ closing preferences result := by
  induction bound generalizing p with
  | zero => cases h
  | succ bound ih =>
      have hstep := step_reported hreporting g preferences p
      rw [run] at h
      cases hp : p.step g preferences with
      | running q =>
          rw [hp] at h hstep
          obtain ⟨quiet, hquiet, hevents⟩ := hstep
          obtain ⟨quiet', hquiet', hlast⟩ := ih h
          refine ⟨quiet ++ quiet', hquiet.append hquiet', ?_⟩
          rw [hlast, hevents]
          simp
      | stopped stopResult q =>
          rw [hp] at h hstep
          cases h
          exact hstep

end Parse

theorem Grammar.parseAs?_reported {τ : Type} [TokenStream τ]
    (hreporting : TokenStream.Reporting τ) {g : Grammar} {preferences : SyntaxPreferences}
    {bound : Nat} {symbol : String} {stream : τ} {run : ParseRun τ}
    (h : g.parseAs? preferences bound symbol stream = some run) :
    ∃ quiet, Quiet quiet ∧ run.events = quiet ++ Parse.closing preferences run.result := by
  rw [parseAs?] at h
  cases hrun : (Parse.start g symbol stream).run g preferences bound with
  | none => simp [hrun] at h
  | some last =>
      rw [hrun] at h
      cases h
      exact Parse.run_reported hreporting hrun

namespace Log.Desk

@[simp] theorem headline_tagged (session : Option Session) (e : Event) :
    (tagged session e).headline = e.headline := by
  cases session with
  | none => rfl
  | some s => exact e.headline_annotate "session" s.name

theorem dispatched_performAll (d : Desk) (events : List Event) :
    (d.performAll (events.map .emit)).dispatched =
      (events.map (tagged d.session)).reverse ++ d.dispatched := by
  induction events generalizing d with
  | nil => rfl
  | cons e events ih =>
      rw [List.map_cons, performAll, perform, ih]
      simp [dispatch]

/-- A session delivers the events of its body, each with the name of the session. -/
theorem dispatched_session (d : Desk) (name : String) (events : List Event) :
    ∃ delivered : List Event, (d.perform (.session name none (events.map .emit))).dispatched =
        delivered.reverse ++ d.dispatched ∧
      delivered.map Event.headline = events.map Event.headline ∧
      ∀ e ∈ delivered, e.context.get? "session" = some name := by
  refine ⟨events.map (tagged (some ⟨name, sinkOf d.session⟩)), ?_, ?_, ?_⟩
  · rw [perform]
    exact dispatched_performAll (d.enter name none) events
  · simp
  · intro e he
    obtain ⟨event, -, rfl⟩ := List.mem_map.mp he
    exact SortedMap.get?_insert_self _ _ _

end Log.Desk

namespace PipelineError

/-- The text of the error inside. -/
def causeMessage : PipelineError → String
  | .input cause => cause.message
  | .lexicalAnalysis cause => cause.message
  | .syntaxAnalysis cause => cause.message
  | .exportFailure cause => cause.render

end PipelineError

namespace Run

/-- The first thing that a run says. -/
def started : Headline := ⟨.info, .plainInfo, "Starting parse", none⟩

/-- What a run says about the token left over, if there is one. -/
def leftOver (preferences : SyntaxPreferences) : Option Token → List Headline
  | none => [⟨.info, .parseSuccessful, "Parse successful.", none⟩]
  | some x =>
      if preferences.warnOnTrailingInput then
        [⟨.warning, .trailingInput,
          Log.limitMessage s!"Warning: {x.value} found after parse completed.", none⟩]
      else []

/-- What a run says about its result. -/
def findingsReport (preferences : SyntaxPreferences) :
    Except PipelineError ParseResult → List Headline
  | .error e => [⟨.error, e.code, Log.limitMessage e.causeMessage, e.span?⟩]
  | .ok r => leftOver preferences r.trailing ++
      [⟨.info, .pipelineComplete, "Pipeline completed", none⟩]

/-- Debug events apart, a run says that it has started and then what has come of it; these
are its first event and its last. An error is told in its own words, as many as fit. -/
structure Reports (preferences : SyntaxPreferences) (result : Except PipelineError ParseResult)
    (headlines : List Headline) : Prop where
  noted : headlines.filter (fun h => h.level ≠ .debug) =
    started :: findingsReport preferences result
  first : headlines.head? = some started
  last : headlines.getLast? = (findingsReport preferences result).getLast?
  told : ∀ e, result = .error e →
    ∃ h, headlines.getLast? = some h ∧ Log.Abridged e.causeMessage h.message

theorem findingsReport_ne_nil (preferences : SyntaxPreferences)
    (result : Except PipelineError ParseResult) : findingsReport preferences result ≠ [] := by
  cases result <;> simp [findingsReport]

theorem findingsReport_not_debug {preferences : SyntaxPreferences}
    {result : Except PipelineError ParseResult} {h : Headline}
    (hmem : h ∈ findingsReport preferences result) : h.level ≠ .debug := by
  cases result with
  | error e =>
      rw [List.mem_singleton.mp hmem]
      simp
  | ok r =>
      cases List.mem_append.mp hmem with
      | inr hlast =>
          rw [List.mem_singleton.mp hlast]
          simp
      | inl hleft =>
          cases htrailing : r.trailing with
          | none =>
              rw [htrailing] at hleft
              rw [List.mem_singleton.mp hleft]
              simp
          | some x =>
              rw [htrailing, leftOver] at hleft
              split at hleft
              · rw [List.mem_singleton.mp hleft]
                simp
              · cases hleft

/-- Whatever a run says before, its findings come last. -/
theorem getLast?_append_findings (front : List Headline) (preferences : SyntaxPreferences)
    (result : Except PipelineError ParseResult) :
    (front ++ findingsReport preferences result).getLast? =
      (findingsReport preferences result).getLast? := by
  rw [List.getLast?_append]
  cases hlast : (findingsReport preferences result).getLast? with
  | none =>
      exact absurd (List.getLast?_eq_none_iff.mp hlast) (findingsReport_ne_nil preferences result)
  | some last => rfl

theorem reports_of_quiet {preferences : SyntaxPreferences}
    {result : Except PipelineError ParseResult} {quiet : List Event} (hquiet : Quiet quiet) :
    Reports preferences result
      (started :: (quiet.map Event.headline ++ findingsReport preferences result)) := by
  constructor
  · have hnone : (quiet.map Event.headline).filter (fun h => h.level ≠ .debug) = [] := by
      rw [List.filter_eq_nil_iff]
      intro h hmem
      obtain ⟨e, he, rfl⟩ := List.mem_map.mp hmem
      simp [Event.headline, hquiet e he]
    have hall : (findingsReport preferences result).filter (fun h => h.level ≠ .debug) =
        findingsReport preferences result := by
      rw [List.filter_eq_self]
      intro h hmem
      simpa using findingsReport_not_debug hmem
    rw [List.filter_cons_of_pos (by simp [started]), List.filter_append, hnone, hall,
      List.nil_append]
  · rfl
  · exact getLast?_append_findings (started :: quiet.map Event.headline) preferences result
  · rintro e rfl
    refine ⟨⟨.error, e.code, Log.limitMessage e.causeMessage, e.span?⟩, ?_, ?_⟩
    · exact getLast?_append_findings (started :: quiet.map Event.headline) preferences (.error e)
    · exact Log.limitMessage_eq_iff.mp rfl

theorem headline_closing (preferences : SyntaxPreferences) (nodes : Nat)
    (trailing : Option Token) :
    (Parse.completionEvents preferences nodes trailing).map Event.headline =
      leftOver preferences trailing := by
  cases trailing with
  | none => rfl
  | some x =>
      rw [Parse.completionEvents, leftOver]
      split <;> rfl

/-- All events of a run, its completion included. -/
def report (r : Run ParseResult) (elapsed : Elapsed) : List Event :=
  r.events ++ match r.result with
    | .ok result => [result.completion elapsed]
    | .error _ => []

theorem activity_eq (r : Run ParseResult) (elapsed : Elapsed) :
    r.activity (fun result => result.completion elapsed) =
      .session r.session none ((r.report elapsed).map .emit) := by
  obtain ⟨session, events, result⟩ := r
  cases result <;> rfl

theorem headline_opening (pairs : List (String × String)) :
    ((Event.info "Starting parse").withAll pairs).headline = started := by
  rw [Event.headline_withAll]
  rfl

theorem headline_completion (r : ParseResult) (elapsed : Elapsed) :
    (r.completion elapsed).headline =
      ⟨.info, .pipelineComplete, "Pipeline completed", none⟩ := by
  rw [ParseResult.completion, Event.headline_withAll]
  rfl

end Run

section Reports

variable {bound : Nat} {text : List Char} {acceptors : List Acceptor} {grammar : Grammar}
  {config : Config} {run : Run ParseResult}

theorem parseText?_report (h : parseText? bound text acceptors grammar config = some run)
    (elapsed : Elapsed) :
    run.session = unnamedSource ∧ ∃ quiet, Quiet quiet ∧
      (run.report elapsed).map Event.headline =
        Run.started :: (quiet.map Event.headline ++
          Run.findingsReport config.parsing run.result) := by
  simp only [parseText?, parseSource?, Grammar.parse?] at h
  split at h
  · cases h
  · rename_i e stream metrics events hparsed
    cases h
    obtain ⟨quiet, hquiet, hevents⟩ :=
      Grammar.parseAs?_reported LookaheadStream.reporting hparsed
    have hevents : events = quiet ++ [e.event] := hevents
    refine ⟨rfl, quiet, hquiet, ?_⟩
    simp only [Run.report, hevents, List.append_nil, List.map_cons, List.map_append,
      Run.headline_opening]
    rfl
  · rename_i outcome stream metrics events hparsed
    cases h
    obtain ⟨quiet, hquiet, hevents⟩ :=
      Grammar.parseAs?_reported LookaheadStream.reporting hparsed
    have hevents : events = quiet ++
        Parse.completionEvents config.parsing outcome.tree.size outcome.trailing := hevents
    refine ⟨rfl, quiet, hquiet, ?_⟩
    simp only [Run.report, hevents, List.cons_append, List.append_assoc, List.map_cons,
      List.map_append, List.map_nil, Run.headline_opening, Run.headline_closing,
      Run.headline_completion, Run.findingsReport]

/-- A run on a text that ends reports its start, then its error or what has come of it, and
no error otherwise; every event is delivered with the name of the session. -/
theorem parseText?_reports (h : parseText? bound text acceptors grammar config = some run)
    (elapsed : Elapsed) (d : Log.Desk) :
    ∃ delivered : List Event,
      (d.perform (run.activity fun r => r.completion elapsed)).dispatched =
        delivered.reverse ++ d.dispatched ∧
      (∀ e ∈ delivered, e.context.get? "session" = some unnamedSource) ∧
      Run.Reports config.parsing run.result (delivered.map Event.headline) := by
  obtain ⟨hsession, quiet, hquiet, hreport⟩ := parseText?_report h elapsed
  rw [Run.activity_eq, hsession]
  obtain ⟨delivered, hdispatched, hheadlines, hnamed⟩ :=
    d.dispatched_session unnamedSource (run.report elapsed)
  refine ⟨delivered, hdispatched, hnamed, ?_⟩
  rw [hheadlines, hreport]
  exact Run.reports_of_quiet hquiet

theorem parseText?_reports_demo :
    ∃ run e, parseText? 12 "ab a".toList Demo.acceptors Demo.grammar {} = some run ∧
      run.result = .error e ∧ ∃ delivered : List Event,
        (({} : Log.Desk).perform (run.activity fun r => r.completion ⟨0⟩)).dispatched =
          delivered.reverse ++ [] ∧
        (∀ e ∈ delivered, e.context.get? "session" = some unnamedSource) ∧
        Run.Reports {} run.result (delivered.map Event.headline) := by
  have hends : (parseText? 12 "ab a".toList Demo.acceptors Demo.grammar {}).any
      (fun run => !run.result.isOk) = true := by
    decide +kernel
  obtain ⟨run, hrun, hresult⟩ := (Option.any_eq_true _ _).mp hends
  cases herror : run.result with
  | ok r => simp [herror, Except.isOk, Except.toBool] at hresult
  | error e =>
      refine ⟨run, e, hrun, herror, ?_⟩
      exact parseText?_reports hrun ⟨0⟩ {}

end Reports

end Lookahead
