import Lookahead.Proofs.LookaheadCursor
import Lookahead.Proofs.ParserAnswer

/-!
Parsing while lexing, and parsing a queue of all the tokens. The two parses go
through the same states as long as the queue has a proper token whenever one is
asked for, or the lexer comes to the end of the input without an error. An error of
the lexer shows where the queue has run dry. Beyond the token with which a parse
ends nothing is lexed.
-/
namespace Lookahead

theorem dropTrivia_ne_nil {tokens : List Token} (h : proper tokens ≠ []) :
    dropTrivia tokens ≠ [] := by
  intro hnil
  apply h
  rw [← proper_dropTrivia, hnil]
  rfl

namespace Parse

variable {σ : Type} [CharSource σ] {t : Tokenizer σ} {tokens : List Token}
  {failure : Option LexerError} {p : Parse (LookaheadStream σ)} {q : Parse TokenQueue}

structure Agrees (t : Tokenizer σ) (tokens : List Token) (failure : Option LexerError)
    (p : Parse (LookaheadStream σ)) (q : Parse TokenQueue) : Prop where
  tree : p.tree = q.tree
  stack : p.stack = q.stack
  metrics : p.metrics = q.metrics
  stream : ∃ front, front ++ q.stream.tokens = tokens ∧
    LookaheadStream.Stands t failure front q.stream.tokens p.stream

/-- The tokenizer was called once for each token up to the one that was left over or
did not fit, and no more. -/
def LexedNoFurther (t : Tokenizer σ) (tokens : List Token) (stream : LookaheadStream σ)
    (queue : TokenQueue) : Except SyntaxError ParseOutcome → Prop
  | .ok ⟨_, some x⟩ => ∃ front, tokens = front ++ x :: queue.tokens ∧
      stream = ⟨t.afterCalls (front.length + 1), .empty⟩
  | .error (.unexpectedInput _ found span) => ∃ front x back, tokens = front ++ x :: back ∧
      queue.tokens = x :: back ∧ found = x.lexClass ∧ span = x.span ∧
      stream = ⟨t.afterCalls (front.length + 1), .token x⟩
  | _ => True

structure SameAnswer (t : Tokenizer σ) (tokens : List Token)
    (run : ParseRun (LookaheadStream σ)) (run' : ParseRun TokenQueue) : Prop where
  result_eq : run.result = run'.result
  metrics_eq : run.metrics = run'.metrics
  lexed : LexedNoFurther t tokens run.stream run'.stream run.result

def ended {τ : Type} (p : Parse τ) (result : Except SyntaxError ParseOutcome) : ParseRun τ :=
  ⟨result, p.stream, p.metrics, p.events.reverse⟩

def Alike (t : Tokenizer σ) (tokens : List Token) (failure : Option LexerError) :
    Progress (LookaheadStream σ) → Progress TokenQueue → Prop
  | .running p, .running q => Agrees t tokens failure p q
  | .stopped result p, .stopped result' q => SameAnswer t tokens (p.ended result) (q.ended result')
  | _, _ => False

/-- Both parses have looked at what comes next. -/
structure Faces (t : Tokenizer σ) (failure : Option LexerError) (front back : List Token)
    (p : Parse (LookaheadStream σ)) (q : Parse TokenQueue) : Prop where
  tree : p.tree = q.tree
  stack : p.stack = q.stack
  metrics : p.metrics = q.metrics
  stream : p.stream = LookaheadStream.facing t front back
  queue : q.stream = ⟨back⟩
  proper : dropTrivia back = back
  supplied : back ≠ [] ∨ failure = none

section Faces

variable {front back : List Token} (h : Faces t failure front back p q)
include h

theorem Faces.reject (expected : String) :
    Alike t (front ++ back) failure (p.reject expected back.head?)
      (q.reject expected back.head?) := by
  refine ⟨rfl, h.metrics, ?_⟩
  cases back with
  | nil => trivial
  | cons x back =>
      refine ⟨front, x, back, rfl, ?_, rfl, rfl, h.stream⟩
      exact congrArg TokenQueue.tokens h.queue

theorem Faces.stepNonterminal (g : Grammar) (preferences : SyntaxPreferences) (id : Nat)
    (label : String) :
    Alike t (front ++ back) failure (p.stepNonterminal g preferences id label back.head?)
      (q.stepNonterminal g preferences id label back.head?) := by
  simp only [Parse.stepNonterminal]
  cases g.entry label (back.head?.map (·.lexClass)) with
  | none => exact h.reject label
  | some rhs =>
      refine ⟨?_, ?_, ?_, front, ?_, ?_⟩
      · simp only [expand, emit, h.tree]
      · simp only [expand, emit, h.tree, h.stack]
      · simp only [expand, emit, h.tree, h.stack, h.metrics]
      · simp only [expand, emit, h.queue]
      · simp only [expand, emit, h.stream, h.queue]
        exact .asked h.supplied

theorem Faces.stepTerminal (hyields : t.Yields (front ++ back) failure) (id : Nat)
    (label : String) :
    Alike t (front ++ back) failure (p.stepTerminal id label back.head?)
      (q.stepTerminal id label back.head?) := by
  cases back with
  | nil => exact h.reject label
  | cons x back =>
      by_cases hclass : x.lexClass = label
      · have hstands : LookaheadStream.Stands t failure front (x :: back) p.stream := by
          rw [h.stream]
          exact .asked h.supplied
        obtain ⟨front', emitted, hfront, hpull⟩ := hstands.pullProper_cons hyields h.proper
        have hpull' := TokenQueue.pullProper_eq q.stream
        rw [h.queue] at hpull'
        simp only [h.proper, List.tail_cons] at hpull'
        simp only [Parse.stepTerminal, List.head?_cons, hclass, if_true, hpull, h.queue, hpull']
        refine ⟨?_, h.stack, ?_, front' ++ [x], ?_, ?_⟩
        · simp only [accept, emit, h.tree]
        · simp only [accept, emit, h.metrics]
        · simpa [accept, emit] using hfront
        · exact .between back
      · have hreject := h.reject label
        simp only [List.head?_cons] at hreject ⊢
        simp only [Parse.stepTerminal, hclass, if_false]
        exact hreject

theorem Faces.stepNode (hyields : t.Yields (front ++ back) failure) (g : Grammar)
    (preferences : SyntaxPreferences) (id : Nat) (label : String) :
    Alike t (front ++ back) failure (p.stepNode g preferences id label back.head?)
      (q.stepNode g preferences id label back.head?) := by
  cases hkind : g.isNonterminal label with
  | true =>
      simp only [Parse.stepNode, hkind, if_true]
      exact h.stepNonterminal g preferences id label
  | false =>
      simp only [Parse.stepNode, hkind, Bool.false_eq_true, if_false]
      exact h.stepTerminal hyields id label

end Faces

theorem Agrees.complete (h : Agrees t tokens failure p q) (hyields : t.Yields tokens failure)
    (hsupplied : proper q.stream.tokens ≠ [] ∨ failure = none)
    (preferences : SyntaxPreferences) :
    Alike t tokens failure (p.complete preferences) (q.complete preferences) := by
  obtain ⟨front, rfl, hstands⟩ := h.stream
  have hqueue := TokenQueue.pullProper_eq q.stream
  cases hproper : proper q.stream.tokens with
  | nil =>
      have hdropped := dropTrivia_eq_nil hproper
      obtain rfl : failure = none := hsupplied.resolve_left (absurd hproper)
      obtain ⟨emitted, hpull⟩ := hstands.pullProper_nil hyields hdropped
      rw [hproper] at hqueue
      simp only [Parse.complete, hpull, hqueue]
      exact ⟨by rw [h.tree]; rfl, h.metrics, trivial⟩
  | cons x rest =>
      obtain ⟨tail, hdropped, -⟩ := dropTrivia_eq_cons hproper
      obtain ⟨front', emitted, hfront, hpull⟩ := hstands.pullProper_cons hyields hdropped
      rw [hproper, hdropped] at hqueue
      simp only [Parse.complete, hpull, hqueue]
      refine ⟨by rw [h.tree]; rfl, h.metrics, front', hfront.symm, ?_⟩
      simp [ended, emit]

theorem Agrees.step (h : Agrees t tokens failure p q) (hyields : t.Yields tokens failure)
    (hsupplied : proper q.stream.tokens ≠ [] ∨ failure = none) (g : Grammar)
    (preferences : SyntaxPreferences) :
    Alike t tokens failure (p.step g preferences) (q.step g preferences) := by
  simp only [Parse.step, h.stack]
  cases q.stack.uncons? with
  | none => exact h.complete hyields hsupplied preferences
  | some top =>
      obtain ⟨id, stack⟩ := top
      obtain ⟨front, rfl, hstands⟩ := h.stream
      have hdropped : dropTrivia q.stream.tokens ≠ [] ∨ failure = none :=
        hsupplied.imp_left dropTrivia_ne_nil
      obtain ⟨front', emitted, hfront, hpeek⟩ := hstands.skip hyields hdropped []
      have hqueue := TokenQueue.peekProper_eq q.stream
      rw [← head?_dropTrivia] at hqueue
      rw [← TokenStream.peekProper] at hpeek
      rw [← hfront] at hyields ⊢
      simp only [hpeek, hqueue, h.tree]
      apply Faces.stepNode _ hyields
      exact ⟨rfl, rfl, h.metrics, rfl, rfl, dropTrivia_dropTrivia q.stream.tokens, hdropped⟩

theorem Agrees.step_dry {e : LexerError} (h : Agrees t tokens (some e) p q)
    (hyields : t.Yields tokens (some e)) (hdry : proper q.stream.tokens = []) (g : Grammar)
    (preferences : SyntaxPreferences) :
    ∃ p', p.step g preferences = .stopped (.error (.lexical e)) p' := by
  obtain ⟨front, rfl, hstands⟩ := h.stream
  have hdropped := dropTrivia_eq_nil hdry
  simp only [Parse.step]
  cases p.stack.uncons? with
  | none =>
      obtain ⟨rest, emitted, hpull⟩ := hstands.pullProper_failure hyields hdropped
      simp only [Parse.complete, hpull]
      exact ⟨_, rfl⟩
  | some top =>
      obtain ⟨rest, emitted, hpeek⟩ := hstands.skip_failure hyields hdropped []
      rw [← TokenStream.peekProper] at hpeek
      simp only [hpeek]
      exact ⟨_, rfl⟩

/-- The parse comes to a step while its queue has no proper token left. Each step
begins by asking for one. -/
def RunsDry (g : Grammar) (preferences : SyntaxPreferences) (q : Parse TokenQueue) : Prop :=
  ∃ last, Reaches g preferences q last ∧ proper last.stream.tokens = []

theorem Agrees.run {g : Grammar} {preferences : SyntaxPreferences}
    (h : Agrees t tokens failure p q) (hyields : t.Yields tokens failure)
    (hsupplied : ¬ RunsDry g preferences q ∨ failure = none) (bound : Nat) :
    Option.Rel (fun end' end'' => SameAnswer t tokens (end'.2.ended end'.1) (end''.2.ended end''.1))
      (p.run g preferences bound) (q.run g preferences bound) := by
  induction bound generalizing p q with
  | zero => exact .none
  | succ bound ih =>
      have hhere : proper q.stream.tokens ≠ [] ∨ failure = none :=
        hsupplied.imp_left fun hnever hdry => hnever ⟨q, .refl, hdry⟩
      have hstep := h.step hyields hhere g preferences
      simp only [Parse.run]
      cases hp : p.step g preferences with
      | running p' =>
          cases hq : q.step g preferences with
          | running q' =>
              rw [hp, hq] at hstep
              refine ih hstep (hsupplied.imp_left ?_)
              rintro hnever ⟨last, hreaches, hdry⟩
              exact hnever ⟨last, .head hq hreaches, hdry⟩
          | stopped result' q' =>
              rw [hp, hq] at hstep
              exact hstep.elim
      | stopped result p' =>
          cases hq : q.step g preferences with
          | running q' =>
              rw [hp, hq] at hstep
              exact hstep.elim
          | stopped result' q' =>
              rw [hp, hq] at hstep
              exact .some hstep

theorem Agrees.run_dry {g : Grammar} {preferences : SyntaxPreferences} {e : LexerError}
    (h : Agrees t tokens (some e) p q) (hyields : t.Yields tokens (some e))
    (hdry : RunsDry g preferences q) :
    ∃ bound p', p.run g preferences bound = some (.error (.lexical e), p') := by
  obtain ⟨last, hreaches, hlast⟩ := hdry
  induction hreaches using Relation.ReflTransGen.head_induction_on generalizing p with
  | refl =>
      obtain ⟨p', hstep⟩ := h.step_dry hyields hlast g preferences
      exact ⟨1, p', by rw [Parse.run, hstep]⟩
  | @head q q' hq _ ih =>
      by_cases hhere : proper q.stream.tokens = []
      · obtain ⟨p', hstep⟩ := h.step_dry hyields hhere g preferences
        exact ⟨1, p', by rw [Parse.run, hstep]⟩
      · have hstep := h.step hyields (Or.inl hhere) g preferences
        rw [hq] at hstep
        cases hp : p.step g preferences with
        | stopped result p' =>
            rw [hp] at hstep
            exact hstep.elim
        | running p' =>
            rw [hp] at hstep
            obtain ⟨bound, last', hrun⟩ := ih hstep
            exact ⟨bound + 1, last', by rw [Parse.run, hp]; exact hrun⟩

end Parse

namespace Grammar

variable {σ : Type} [CharSource σ]

theorem parseAs?_eq_map {τ : Type} [TokenStream τ] (g : Grammar) (preferences : SyntaxPreferences)
    (bound : Nat) (symbol : String) (stream : τ) :
    g.parseAs? preferences bound symbol stream =
      ((Parse.start g symbol stream).run g preferences bound).map fun last =>
        last.2.ended last.1 := by
  rw [parseAs?]
  cases (Parse.start g symbol stream).run g preferences bound <;> rfl

theorem agrees_start (g : Grammar) (symbol : String) (t : Tokenizer σ) (tokens : List Token)
    (failure : Option LexerError) :
    Parse.Agrees t tokens failure (.start g symbol ⟨t, .empty⟩) (.start g symbol ⟨tokens⟩) :=
  ⟨rfl, rfl, rfl, [], rfl, .between tokens⟩

/-- The parse that lexes while it goes and the parse over a queue of tokens stop after
the same number of steps, if ever, with the same answer. -/
def StopAlike (g : Grammar) (preferences : SyntaxPreferences) (symbol : String)
    (t : Tokenizer σ) (tokens : List Token) : Prop :=
  ∀ bound, Option.Rel (Parse.SameAnswer t tokens)
    (g.parseAs? preferences bound symbol (⟨t, .empty⟩ : LookaheadStream σ))
    (g.parseAs? preferences bound symbol (⟨tokens⟩ : TokenQueue))

theorem stopAlike_of_supplied {g : Grammar} {preferences : SyntaxPreferences} {symbol : String}
    {t : Tokenizer σ} {tokens : List Token} {failure : Option LexerError}
    (hyields : t.Yields tokens failure)
    (hsupplied : ¬ Parse.RunsDry g preferences (.start g symbol ⟨tokens⟩) ∨ failure = none) :
    g.StopAlike preferences symbol t tokens := by
  intro bound
  have hends := (agrees_start g symbol t tokens failure).run hyields hsupplied bound
  rw [parseAs?_eq_map, parseAs?_eq_map]
  revert hends
  generalize (Parse.start g symbol (⟨t, .empty⟩ : LookaheadStream σ)).run g preferences bound = lazy
  generalize (Parse.start g symbol (⟨tokens⟩ : TokenQueue)).run g preferences bound = batch
  rintro (h | _)
  · exact .some h
  · exact .none

/-- The tokens are those that the tokenizer yields before it first fails or comes to
the end of its input. An error of the lexer is answered exactly if the queue of these
tokens runs dry; in all other cases the two parses agree. -/
theorem parseAs?_lookahead (g : Grammar) (preferences : SyntaxPreferences) (symbol : String)
    (t : Tokenizer σ) :
    let stream : LookaheadStream σ := ⟨t, .empty⟩
    let queue : TokenQueue := ⟨t.all.tokens⟩
    t.Yields t.all.tokens t.all.failure ∧
    (t.all.failure = none → g.StopAlike preferences symbol t t.all.tokens) ∧
    ∀ e, t.all.failure = some e →
      (Parse.RunsDry g preferences (.start g symbol queue) →
        ∃ bound run, g.parseAs? preferences bound symbol stream = some run ∧
          run.result = .error (.lexical e)) ∧
      (¬ Parse.RunsDry g preferences (.start g symbol queue) →
        g.StopAlike preferences symbol t t.all.tokens) := by
  have hyields := t.all_yields
  refine ⟨hyields, ?_, ?_⟩
  · intro hnone
    exact stopAlike_of_supplied hyields (Or.inr hnone)
  · intro e hfailure
    constructor
    · intro hdry
      rw [hfailure] at hyields
      obtain ⟨bound, last, hrun⟩ :=
        (agrees_start g symbol t t.all.tokens (some e)).run_dry hyields hdry
      exact ⟨bound, _, parseAs?_of_run hrun, rfl⟩
    · intro hnever
      exact stopAlike_of_supplied hyields (Or.inl hnever)

end Grammar

end Lookahead
