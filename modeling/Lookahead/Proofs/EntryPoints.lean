import Lookahead.Pipeline
import Lookahead.Proofs.InputLines
import Lookahead.Proofs.TokenCounts

/-!
The ways to tokenize a text agree. What the calls of a tokenizer yield, one after
another, up to the end of the input or the first error, is what a batch of all tokens
holds; a batch of the proper tokens holds the same without the trivia and ends with the
same error and the same counts. The interactive lexer lists each line of its input in
this way, and no line has an effect on another.
-/
namespace Lookahead

namespace Tokenizer

variable {σ : Type} [CharSource σ] {t : Tokenizer σ} {tokens : List Token}
  {failure : Option LexerError}

theorem Yields.stop_ne (h : t.Yields tokens failure) (x : Token) :
    t.answer tokens.length ≠ .ok (some x) := by
  rw [h.stop]
  cases failure <;> simp

theorem Yields.length_le {tokens' : List Token} {failure' : Option LexerError}
    (h : t.Yields tokens failure) (h' : t.Yields tokens' failure') :
    tokens'.length ≤ tokens.length := by
  apply Nat.not_lt.mp
  intro hlt
  exact h.stop_ne _ (h'.answer_of_lt hlt)

/-- The tokens and the failure are determined by the calls. -/
theorem Yields.unique {tokens' : List Token} {failure' : Option LexerError}
    (h : t.Yields tokens failure) (h' : t.Yields tokens' failure') :
    tokens = tokens' ∧ failure = failure' := by
  have hlength : tokens.length = tokens'.length := Nat.le_antisymm (h'.length_le h) (h.length_le h')
  have hstop := h.stop
  rw [hlength, h'.stop] at hstop
  refine ⟨?_, ?_⟩
  · apply List.ext_getElem hlength
    intro i hi hi'
    have hanswer := h.answer_of_lt hi
    rw [h'.answer_of_lt hi'] at hanswer
    exact (Option.some.inj (Except.ok.inj hanswer)).symm
  · cases failure <;> cases failure' <;> cases hstop <;> rfl

theorem Yields.metrics_eq (h : t.Yields tokens none) (hfresh : t.metrics = {}) :
    (t.afterCalls (tokens.length + 1)).metrics = .ofTokens t.preferences tokens := by
  rw [metrics_of_end h.stop, h.produces.metrics_eq hfresh]

theorem collect_rest (found : List Token) (events : List Log.Event) (t : Tokenizer σ) :
    ∃ more, (t.collect found events).tokens = found.reverse ++ more ∧
      (t.collect found events).rest = t.afterCalls (more.length + 1) := by
  fun_induction collect found events t with
  | case1 found events t e rest emitted hnext | case2 found events t rest emitted hnext =>
      exact ⟨[], by simp, by simp [afterCalls, hnext]⟩
  | case3 found events t x rest emitted hnext ih =>
      obtain ⟨more, htokens, hrest⟩ := ih
      refine ⟨x :: more, by simpa using htokens, ?_⟩
      rw [hrest, List.length_cons, afterCalls_succ t (more.length + 1), hnext]

theorem all_rest (t : Tokenizer σ) : t.all.rest = t.afterCalls (t.all.tokens.length + 1) := by
  obtain ⟨more, htokens, hrest⟩ := t.collect_rest [] []
  have htokens : t.all.tokens = more := htokens
  rw [htokens]
  exact hrest

end Tokenizer

namespace TokenStream

variable {τ : Type} [TokenStream τ] {s rest : τ} {found : List Token}
  {events emitted : List Log.Event}

theorem collectProper_of_token {x : Token} (h : pullProper s = ⟨.ok (some x), rest, emitted⟩) :
    collectProper found events s =
      collectProper (x :: found) (emitted.reverseAux events) rest := by
  rw [collectProper]
  split <;> rename_i hpull <;> rw [h] at hpull <;> cases hpull
  rfl

theorem collectProper_of_end (h : pullProper s = ⟨.ok none, rest, emitted⟩) :
    collectProper found events s =
      ⟨found.reverse, none, rest, (emitted.reverseAux events).reverse⟩ := by
  rw [collectProper]
  split <;> rename_i hpull <;> rw [h] at hpull <;> cases hpull
  rfl

theorem collectProper_of_error {e : LexerError} (h : pullProper s = ⟨.error e, rest, emitted⟩) :
    collectProper found events s =
      ⟨found.reverse, some e, rest, (emitted.reverseAux events).reverse⟩ := by
  rw [collectProper]
  split <;> rename_i hpull <;> rw [h] at hpull <;> cases hpull
  rfl

end TokenStream

namespace LookaheadStream

variable {σ : Type} [CharSource σ] {t : Tokenizer σ} {failure : Option LexerError}
  {front back : List Token} {s : LookaheadStream σ}

/-- A batch of proper tokens that was started in the middle of a stream. -/
theorem Stands.collectProper (h : Stands t failure front back s)
    (hyields : t.Yields (front ++ back) failure) (found : List Token)
    (events : List Log.Event) :
    let batch := TokenStream.collectProper found events s
    batch.tokens = found.reverse ++ proper back ∧ batch.failure = failure ∧
      (failure = none → batch.rest.tokenizer = t.afterCalls ((front ++ back).length + 1)) := by
  -- each round takes one proper token and the trivia before it
  induction hproper : proper back generalizing front back s found events with
  | nil =>
      have hdry := dropTrivia_eq_nil hproper
      cases failure with
      | none =>
          obtain ⟨emitted, hpull⟩ := h.pullProper_nil hyields hdry
          rw [TokenStream.collectProper_of_end hpull]
          exact ⟨by simp, rfl, fun _ => rfl⟩
      | some e =>
          obtain ⟨rest, emitted, hpull⟩ := h.pullProper_failure hyields hdry
          rw [TokenStream.collectProper_of_error hpull]
          exact ⟨by simp, rfl, fun hnone => absurd hnone (by simp)⟩
  | cons x others ih =>
      obtain ⟨rest, hdrop, hrest⟩ := dropTrivia_eq_cons hproper
      obtain ⟨front', emitted, hfront, hpull⟩ := h.pullProper_cons hyields hdrop
      have hassoc : front ++ back = front' ++ [x] ++ rest := by
        rw [← hfront, List.append_assoc, List.singleton_append]
      rw [hassoc] at hyields ⊢
      rw [TokenStream.collectProper_of_token hpull]
      have hlater := ih (.between rest) hyields (x :: found) (emitted.reverseAux events) hrest
      simpa using hlater

theorem allProper_of_yields {tokens : List Token} (h : t.Yields tokens failure) :
    let batch := TokenStream.allProper (⟨t, .empty⟩ : LookaheadStream σ)
    batch.tokens = proper tokens ∧ batch.failure = failure ∧
      (failure = none → batch.rest.tokenizer = t.afterCalls (tokens.length + 1)) := by
  have hstart : Stands t failure [] tokens (⟨t, .empty⟩ : LookaheadStream σ) := .between tokens
  exact hstart.collectProper h [] []

end LookaheadStream

/-- What comes of a run that took all tokens, or was ended by an error. -/
def ended {α : Type} (failure : Option LexerError) (a : α) : Except LexerError α :=
  match failure with
  | none => .ok a
  | some e => .error e

theorem Tokenizer.all_result {σ : Type} [CharSource σ] {t : Tokenizer σ} {tokens : List Token}
    {failure : Option LexerError} (h : t.Yields tokens failure) :
    t.all.result = ended failure tokens := by
  obtain ⟨htokens, hfailure⟩ := t.all_yields.unique h
  rw [Batch.result, htokens, hfailure]
  rfl

namespace CommandLine

/-- The line of a token: its value, a blank and a tab, and its class. -/
def tokenLine (x : Token) : String :=
  String.ofList (x.value.toList ++ [' ', '\t'] ++ x.lexClass.toList ++ ['\n'])

/-- The lines of the tokens, without the trivia, and of the error at the end, if any. -/
def listing (tokens : List Token) (failure : Option LexerError) : String :=
  String.join ((proper tokens).map tokenLine) ++
    match failure with
    | none => ""
    | some e => "Error: " ++ e.message ++ "\n"

theorem render_newline (x : Token) : x.render ++ "\n" = tokenLine x := by
  simp [← String.toList_inj, x.toList_render, tokenLine]

theorem foldl_render (tokens : List Token) (out : String) :
    tokens.foldl (fun out x => out ++ x.render ++ "\n") out =
      out ++ String.join (tokens.map tokenLine) := by
  induction tokens generalizing out with
  | nil => simp
  | cons x tokens ih =>
      have hline : out ++ x.render ++ "\n" = out ++ tokenLine x := by
        rw [String.append_assoc, render_newline]
      rw [List.foldl_cons, hline, ih, List.map_cons, String.join_cons, String.append_assoc]

end CommandLine

open CommandLine

/-- What the ways to tokenize a text make of it, when the calls of its tokenizer yield
the given tokens and then the failure or the end of the input. -/
structure Tokenizes (text : List Char) (acceptors : List Acceptor) (config : Config)
    (tokens : List Token) (failure : Option LexerError) : Prop where
  all : (tokenizeAll text acceptors config.lexical).result = ended failure tokens
  withMetrics : (tokenizeWithMetrics text acceptors config.lexical).result =
    ended failure (tokens, .ofTokens config.lexical tokens)
  proper : (tokenizeText text acceptors config).result =
    (ended failure ⟨unnamedSource, proper tokens, .ofTokens config.lexical tokens⟩).mapError
      .lexicalAnalysis
  line : IsLine text → listLine acceptors config.lexical text = listing tokens failure

section

variable {text : List Char} {acceptors : List Acceptor} {preferences : LexicalPreferences}
  {tokens : List Token} {failure : Option LexerError}

theorem tokenizeWithMetrics_result
    (h : (Tokenizer.ofText text acceptors preferences).Yields tokens failure) :
    (tokenizeWithMetrics text acceptors preferences).result =
      ended failure (tokens, .ofTokens preferences tokens) := by
  rw [tokenizeWithMetrics, Tokenizer.all_result h]
  cases failure with
  | some e => rfl
  | none =>
      obtain ⟨htokens, hfailure⟩ := (Tokenizer.ofText text acceptors preferences).all_yields.unique h
      have hmetrics := h.metrics_eq rfl
      rw [Tokenizer.all_rest, htokens, hmetrics]
      rfl

theorem tokenizeText_eq (text : List Char) (acceptors : List Acceptor) (config : Config) :
    let batch := TokenStream.allProper
      (⟨.ofText text acceptors config.lexical, .empty⟩ : LookaheadStream TextSource)
    (tokenizeText text acceptors config).result =
      (ended batch.failure ⟨unnamedSource, batch.tokens, batch.rest.tokenizer.metrics⟩).mapError
        .lexicalAnalysis := by
  rw [tokenizeText]
  cases TokenStream.allProper
      (⟨.ofText text acceptors config.lexical, .empty⟩ : LookaheadStream TextSource) with
  | mk found failure rest events => cases failure <;> rfl

theorem tokenizeText_result {config : Config}
    (h : (Tokenizer.ofText text acceptors config.lexical).Yields tokens failure) :
    (tokenizeText text acceptors config).result =
      (ended failure ⟨unnamedSource, proper tokens, .ofTokens config.lexical tokens⟩).mapError
        .lexicalAnalysis := by
  obtain ⟨htokens, hfailure, hrest⟩ := LookaheadStream.allProper_of_yields h
  rw [tokenizeText_eq, htokens, hfailure]
  cases failure with
  | some e => rfl
  | none =>
      rw [hrest rfl, h.metrics_eq rfl]
      rfl

theorem listLine_eq (h : (Tokenizer.ofText text acceptors preferences).Yields tokens failure)
    (hline : IsLine text) : listLine acceptors preferences text = listing tokens failure := by
  obtain ⟨htokens, hfailure, hrest⟩ := LookaheadStream.allProper_of_yields h
  rw [listLine, trimLineEnd_of_isLine hline]
  simp only [htokens, hfailure, foldl_render, String.empty_append, listing]
  cases failure with
  | none => simp
  | some e => simp [String.append_assoc]

end

/-- All ways to tokenize a text agree with the calls of its tokenizer, which come to the
end of the input or to an error on every text; and the interactive lexer lists every line
of its input as it lists that line alone. This is so for every configuration, and hence for
the defaults that any environment gives. -/
theorem tokenizes_alike (acceptors : List Acceptor) (config : Config) :
    (∀ text, ∃ tokens failure,
      (Tokenizer.ofText text acceptors config.lexical).Yields tokens failure) ∧
    (∀ text tokens failure,
      (Tokenizer.ofText text acceptors config.lexical).Yields tokens failure →
        Tokenizes text acceptors config tokens failure) ∧
    ∀ lines last, (∀ line ∈ lines, IsLine line) → IsLine last →
      repl acceptors config.lexical (Utf8.encode (inputText lines last)) =
        (session acceptors config.lexical (lines ++ unfinished last) ++ prompt ++ "\n", none) := by
  refine ⟨?_, ?_, ?_⟩
  · intro text
    exact ⟨_, _, (Tokenizer.ofText text acceptors config.lexical).all_yields⟩
  · intro text tokens failure h
    exact ⟨Tokenizer.all_result h, tokenizeWithMetrics_result h, tokenizeText_result h,
      listLine_eq h⟩
  · intro lines last hlines hlast
    exact repl_inputText acceptors config.lexical hlines hlast

end Lookahead
