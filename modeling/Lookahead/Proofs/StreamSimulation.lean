import Lookahead.Parser.Basic
import Lookahead.Proofs.LookaheadCursor

/-!
Parsing over two streams that answer alike. The parser knows its stream only by what it
shows and hands out, so if two streams give the same answers to both, and are related
again afterwards, then a parse over one goes through the same states as a parse over
the other. Errors that the streams do not give rise to are no errors of the parse.
-/
namespace Lookahead

variable {τ τ' : Type} {R : τ → τ' → Prop} {Allowed : LexerError → Prop}

/-- The replies say the same and leave related streams, and if they are errors then
allowed ones. -/
structure Reply.Parallel (R : τ → τ' → Prop) (Allowed : LexerError → Prop)
    (r : Reply (Option Token) τ) (r' : Reply (Option Token) τ') : Prop where
  result_eq : r'.result = r.result
  events_eq : r'.events = r.events
  allowed : ∀ e, r.result = .error e → Allowed e
  rest : R r.rest r'.rest

theorem Reply.Parallel.exists_eq {result : Except LexerError (Option Token)} {rest : τ}
    {events : List Log.Event} {r' : Reply (Option Token) τ'}
    (h : Reply.Parallel R Allowed ⟨result, rest, events⟩ r') :
    ∃ rest', r' = ⟨result, rest', events⟩ ∧ R rest rest' := by
  obtain ⟨result', rest', events'⟩ := r'
  obtain ⟨rfl, rfl, -, hrest⟩ := h
  exact ⟨rest', rfl, hrest⟩

variable [TokenStream τ] [TokenStream τ']

namespace TokenStream

structure Simulates (R : τ → τ' → Prop) (Allowed : LexerError → Prop) : Prop where
  peek : ∀ {s : τ} {s' : τ'}, R s s' →
    (TokenStream.peek s).Parallel R Allowed (TokenStream.peek s')
  pull : ∀ {s : τ} {s' : τ'}, R s s' →
    (TokenStream.pull s).Parallel R Allowed (TokenStream.pull s')

theorem Simulates.skip (h : Simulates R Allowed) (events : List Log.Event) (s : τ) :
    ∀ s' : τ', R s s' →
      (TokenStream.skip events s).Parallel R Allowed (TokenStream.skip events s') := by
  fun_induction TokenStream.skip events s with
  | case1 events s t shown emitted hshown htrivia e rest more htaken =>
      -- what was shown can be taken
      have hpull := @pull_peek τ _ s (some t) (by rw [hshown])
      rw [hshown, htaken] at hpull
      cases hpull
  | case2 events s t shown emitted hshown htrivia taken rest more htaken ih =>
      intro s' hs
      have hpeek := h.peek hs
      rw [hshown] at hpeek
      obtain ⟨shown', hshown', hrelated⟩ := hpeek.exists_eq
      have hpull := h.pull hrelated
      rw [htaken] at hpull
      obtain ⟨rest', htaken', hrest⟩ := hpull.exists_eq
      rw [skip_of_trivia hshown' htrivia htaken']
      exact ih rest' hrest
  | case3 events s t shown emitted hshown hproper =>
      intro s' hs
      have hpeek := h.peek hs
      rw [hshown] at hpeek
      obtain ⟨shown', hshown', hrelated⟩ := hpeek.exists_eq
      have hother : ∀ y, (.ok (some t) : Except LexerError (Option Token)) = .ok (some y) →
          y.isTrivia = false := by
        intro y hy
        cases hy
        simpa using hproper
      rw [skip_of_other hshown' hother]
      exact ⟨rfl, rfl, hpeek.allowed, hrelated⟩
  | case4 events s result shown emitted hnone hshown =>
      intro s' hs
      have hpeek := h.peek hs
      rw [hshown] at hpeek
      obtain ⟨shown', hshown', hrelated⟩ := hpeek.exists_eq
      have hother : ∀ y, result = .ok (some y) → y.isTrivia = false := by
        intro y hy
        exact absurd hy (hnone y)
      rw [skip_of_other hshown' hother]
      exact ⟨rfl, rfl, hpeek.allowed, hrelated⟩

theorem Simulates.peekProper (h : Simulates R Allowed) {s : τ} {s' : τ'} (hs : R s s') :
    (TokenStream.peekProper s).Parallel R Allowed (TokenStream.peekProper s') :=
  h.skip [] s s' hs

theorem Simulates.pullProper (h : Simulates R Allowed) {s : τ} {s' : τ'} (hs : R s s') :
    (TokenStream.pullProper s).Parallel R Allowed (TokenStream.pullProper s') := by
  have hpeek := h.peekProper hs
  simp only [TokenStream.pullProper]
  generalize TokenStream.peekProper s = reply at hpeek
  obtain ⟨result, shown, events⟩ := reply
  obtain ⟨shown', hshown', hrelated⟩ := hpeek.exists_eq
  rw [hshown']
  cases result with
  | error e => exact ⟨rfl, rfl, hpeek.allowed, hrelated⟩
  | ok next =>
      have hpull := h.pull hrelated
      exact ⟨hpull.result_eq, congrArg (events ++ ·) hpull.events_eq, hpull.allowed, hpull.rest⟩

end TokenStream

namespace Parse

section Stationary

omit [TokenStream τ] [TokenStream τ']

/-- The same parse over another stream. -/
def withStream (p : Parse τ) (stream : τ') : Parse τ' :=
  ⟨p.tree, p.stack, stream, p.metrics, p.events⟩

/-- Two parses that differ in their streams only, which are related. -/
inductive Parallel (R : τ → τ' → Prop) (p : Parse τ) : Parse τ' → Prop where
  | intro {stream : τ'} (h : R p.stream stream) : Parallel R p (p.withStream stream)

/-- Two parses after one more step. -/
def Abreast (R : τ → τ' → Prop) (Allowed : LexerError → Prop) :
    Progress τ → Progress τ' → Prop
  | .running p, .running q => p.Parallel R q
  | .stopped result p, .stopped result' q =>
      result' = result ∧ (∀ e, result = .error (.lexical e) → Allowed e) ∧ p.Parallel R q
  | _, _ => False

variable {p : Parse τ} {q : Parse τ'} {g : Grammar} {preferences : SyntaxPreferences}

theorem Parallel.emit (h : p.Parallel R q) (events : List Log.Event) :
    (p.emit events).Parallel R (q.emit events) := by
  obtain ⟨hstream⟩ := h
  exact .intro hstream

theorem Parallel.expand (h : p.Parallel R q) (g : Grammar) (id : Nat) (rhs : List String) :
    (p.expand g id rhs).Parallel R (q.expand g id rhs) := by
  obtain ⟨hstream⟩ := h
  exact .intro hstream

theorem Parallel.accept (h : p.Parallel R q) (id : Nat) (t : Token) :
    (p.accept id t).Parallel R (q.accept id t) := by
  obtain ⟨hstream⟩ := h
  exact .intro hstream

theorem Parallel.reject (h : p.Parallel R q) (expected : String) (lookahead : Option Token) :
    Abreast R Allowed (p.reject expected lookahead) (q.reject expected lookahead) := by
  refine ⟨rfl, ?_, h.emit _⟩
  intro e he
  cases lookahead <;> cases he

theorem Parallel.stepNonterminal (h : p.Parallel R q) (id : Nat) (label : String)
    (lookahead : Option Token) :
    Abreast R Allowed (p.stepNonterminal g preferences id label lookahead)
      (q.stepNonterminal g preferences id label lookahead) := by
  simp only [Parse.stepNonterminal]
  split
  · exact h.reject label lookahead
  · exact (h.emit _).expand g id _

/-- The streams have moved on, and have emitted the same. -/
theorem parallel_advance (p : Parse τ) {stream : τ} {stream' : τ'} (h : R stream stream')
    (events : List Log.Event) :
    ({ p with stream := stream }.emit events).Parallel R ((p.withStream stream').emit events) :=
  .intro h

/-- An error of the streams is the error of both parses. -/
theorem Parallel.fail (h : p.Parallel R q) {e : LexerError} (he : Allowed e) :
    Abreast R Allowed (.stopped (.error (.lexical e)) p) (.stopped (.error (.lexical e)) q) := by
  refine ⟨rfl, ?_, h⟩
  intro e' he'
  cases he'
  exact he

end Stationary

variable {p : Parse τ} {q : Parse τ'} {g : Grammar} {preferences : SyntaxPreferences}
variable (hR : TokenStream.Simulates R Allowed)
include hR

theorem Parallel.stepTerminal (h : p.Parallel R q) (id : Nat) (label : String)
    (lookahead : Option Token) :
    Abreast R Allowed (p.stepTerminal id label lookahead) (q.stepTerminal id label lookahead) := by
  cases lookahead with
  | none => exact h.reject label none
  | some t =>
      simp only [Parse.stepTerminal]
      split
      · obtain ⟨hstream⟩ := h
        have hpull := hR.pullProper hstream
        generalize TokenStream.pullProper p.stream = reply at hpull
        obtain ⟨result, rest, events⟩ := reply
        obtain ⟨rest', hrest', hrelated⟩ := hpull.exists_eq
        have hadvance := parallel_advance p hrelated events
        simp only [Parse.withStream, hrest']
        cases result with
        | error e => exact hadvance.fail (hpull.allowed e rfl)
        | ok taken => exact hadvance.accept id t
      · exact h.reject label (some t)

theorem Parallel.complete (h : p.Parallel R q) :
    Abreast R Allowed (p.complete preferences) (q.complete preferences) := by
  obtain ⟨hstream⟩ := h
  have hpull := hR.pullProper hstream
  simp only [Parse.complete, Parse.withStream]
  generalize TokenStream.pullProper p.stream = reply at hpull
  obtain ⟨result, rest, events⟩ := reply
  obtain ⟨rest', hrest', hrelated⟩ := hpull.exists_eq
  have hadvance := parallel_advance p hrelated events
  rw [hrest']
  cases result with
  | error e => exact hadvance.fail (hpull.allowed e rfl)
  | ok trailing =>
      refine ⟨rfl, ?_, hadvance.emit _⟩
      intro e he
      cases he

theorem Parallel.step (h : p.Parallel R q) :
    Abreast R Allowed (p.step g preferences) (q.step g preferences) := by
  have hparallel := h
  obtain ⟨hstream⟩ := h
  simp only [Parse.step, Parse.withStream]
  cases p.stack.uncons? with
  | none => exact hparallel.complete hR
  | some top =>
      obtain ⟨id, stack⟩ := top
      have hpeek := hR.peekProper hstream
      generalize TokenStream.peekProper p.stream = reply at hpeek
      obtain ⟨result, shown, events⟩ := reply
      obtain ⟨shown', hshown', hrelated⟩ := hpeek.exists_eq
      have hadvance := parallel_advance { p with stack := stack } hrelated events
      rw [hshown']
      cases result with
      | error e => exact hadvance.fail (hpeek.allowed e rfl)
      | ok lookahead =>
          simp only [Parse.stepNode]
          split
          · exact hadvance.stepNonterminal id _ lookahead
          · exact hadvance.stepTerminal hR id _ lookahead

theorem Parallel.run (h : p.Parallel R q) (bound : Nat) :
    Option.Rel (fun a b => b.1 = a.1 ∧ (∀ e, a.1 = .error (.lexical e) → Allowed e) ∧
      a.2.Parallel R b.2) (p.run g preferences bound) (q.run g preferences bound) := by
  induction bound generalizing p q with
  | zero => exact .none
  | succ bound ih =>
      have hstep : Abreast R Allowed (p.step g preferences) (q.step g preferences) := h.step hR
      simp only [Parse.run]
      cases hp : p.step g preferences with
      | running p' =>
          cases hq : q.step g preferences with
          | running q' =>
              rw [hp, hq] at hstep
              exact ih hstep
          | stopped result' q' =>
              rw [hp, hq] at hstep
              exact hstep.elim
      | stopped result p' =>
          cases hq : q.step g preferences with
          | running q' =>
              rw [hp, hq] at hstep
              exact hstep.elim
          | stopped result' q' =>
              rw [hp, hq] at hstep
              exact .some hstep

end Parse

/-- Two parses that have ended with the same answer. -/
structure ParseRun.Parallel (R : τ → τ' → Prop) (Allowed : LexerError → Prop) (r : ParseRun τ)
    (r' : ParseRun τ') : Prop where
  result_eq : r'.result = r.result
  allowed : ∀ e, r.result = .error (.lexical e) → Allowed e
  metrics_eq : r'.metrics = r.metrics
  events_eq : r'.events = r.events
  stream : R r.stream r'.stream

theorem Grammar.parseAs?_parallel (hR : TokenStream.Simulates R Allowed) {s : τ} {s' : τ'}
    (hs : R s s') (g : Grammar) (preferences : SyntaxPreferences) (bound : Nat)
    (symbol : String) :
    Option.Rel (ParseRun.Parallel R Allowed) (g.parseAs? preferences bound symbol s)
      (g.parseAs? preferences bound symbol s') := by
  have hstart : (Parse.start g symbol s).Parallel R (Parse.start g symbol s') :=
    .intro hs
  have hrun : Option.Rel _ ((Parse.start g symbol s).run g preferences bound)
      ((Parse.start g symbol s').run g preferences bound) := hstart.run hR bound
  simp only [Grammar.parseAs?]
  generalize (Parse.start g symbol s).run g preferences bound = ended at hrun
  generalize (Parse.start g symbol s').run g preferences bound = ended' at hrun
  cases hrun with
  | none => exact .none
  | @some ended ended' h =>
      obtain ⟨result, p⟩ := ended
      obtain ⟨result', q⟩ := ended'
      obtain ⟨hresult, hallowed, ⟨hstream⟩⟩ := h
      exact .some ⟨hresult, hallowed, rfl, rfl, hstream⟩

end Lookahead
