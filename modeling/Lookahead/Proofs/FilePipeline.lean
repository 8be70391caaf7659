import Lookahead.Bundled.Demo
import Lookahead.Pipeline
import Lookahead.Proofs.Overreading
import Lookahead.Proofs.StreamSimulation

/-!
Parsing a file and parsing its text. A file is read as a stream with a bounded window,
a text is held in memory. As long as the lexer does not read beyond a token by more than
the window, the two streams of tokens answer alike, and so do the two runs. A
configuration that is accepted has a window of ten characters at least, and the bundled
lexers read at most two characters too many.
-/
namespace Lookahead

/-- The error does not come from the source of the characters. -/
def LexerError.Internal (e : LexerError) : Prop := ∀ cause, e ≠ .input cause

namespace Scan

variable {acceptors : List Acceptor}

theorem reading_not_refused (hlawful : ∀ a ∈ acceptors, a.Lawful) {text : List Char} {s : Scan}
    (h : s.Follows acceptors text) (max : Option Nat) (rest : List Char) (e : LexerError) :
    (s.reading max rest).stop ≠ .refused e := by
  induction rest generalizing text s with
  | nil => simp [reading]
  | cons c rest ih =>
      obtain ⟨s', hpush, hfollows⟩ := h.push hlawful c
      simp only [reading]
      split
      · simp
      · rw [hpush]
        simp only
        split
        · exact ih hfollows
        · simp

theorem token_internal (hlawful : ∀ a ∈ acceptors, a.Lawful) {max : Option Nat}
    {source : TextSource} {e : LexerError} (h : (token acceptors max source).1 = .error e) :
    e.Internal := by
  have hrefused := reading_not_refused hlawful (follows_start acceptors) max source.rest
  rw [token_text] at h
  generalize (start acceptors).reading max source.rest = r at h hrefused
  rintro cause rfl
  simp only [Reading.verdict] at h
  split at h
  · cases h
  · rename_i e hstop
    exact hrefused e hstop
  · split at h
    · cases h
    · split at h <;> cases h

end Scan

namespace LookaheadStream

/-- Both streams hold the same in their buffers and have tokenizers at the same place. -/
structure Matches (text : List Char) (window : Nat) (acceptors : List Acceptor)
    (s : LookaheadStream TextSource) (s' : LookaheadStream StreamSource) : Prop where
  buffer_eq : s'.buffer = s.buffer
  acceptors_eq : s.tokenizer.acceptors = acceptors
  tokenizers : Tokenizer.Matches text window s.tokenizer s'.tokenizer

variable {text : List Char} {window : Nat} {acceptors : List Acceptor}
  {s : LookaheadStream TextSource} {s' : LookaheadStream StreamSource} {k : Nat}

theorem Matches.peek (hlawful : ∀ a ∈ acceptors, a.Lawful) (hpatience : Patience acceptors k)
    (hwindow : k ≤ window) (h : Matches text window acceptors s s') :
    (TokenStream.peek s).Parallel (Matches text window acceptors) LexerError.Internal
      (TokenStream.peek s') := by
  have hmatches := h
  obtain ⟨tokenizer, buffer⟩ := s
  obtain ⟨tokenizer', buffer'⟩ := s'
  obtain ⟨hbuffer, hacceptors, htokenizers⟩ := h
  simp only at hbuffer hacceptors htokenizers
  subst hbuffer
  cases buffer' with
  | token t => exact ⟨rfl, rfl, by rintro e ⟨⟩, hmatches⟩
  | endOfInput => exact ⟨rfl, rfl, by rintro e ⟨⟩, hmatches⟩
  | empty =>
      subst hacceptors
      have hwithin := Tokenizer.not_overreaches hlawful hpatience hwindow
      obtain ⟨hresult, hevents, hrest⟩ := htokenizers.next.2 hwithin
      cases hnext : tokenizer.next.result with
      | error e =>
          have herror : (Scan.token tokenizer.acceptors tokenizer.preferences.maxTokenLength
              tokenizer.source).1 = .error e := hnext
          rw [peek_of_error hnext, peek_of_error (hresult.trans hnext)]
          refine ⟨rfl, hevents, ?_, rfl, rfl, hrest⟩
          intro e' he'
          cases he'
          exact Scan.token_internal hlawful herror
      | ok next =>
          rw [peek_of_ok hnext, peek_of_ok (hresult.trans hnext)]
          exact ⟨rfl, hevents, by rintro e ⟨⟩, rfl, rfl, hrest⟩

/-- To take a token is to look at it and to empty the buffer. -/
theorem Matches.pull (hlawful : ∀ a ∈ acceptors, a.Lawful) (hpatience : Patience acceptors k)
    (hwindow : k ≤ window) (h : Matches text window acceptors s s') :
    (TokenStream.pull s).Parallel (Matches text window acceptors) LexerError.Internal
      (TokenStream.pull s') := by
  have hpeek := h.peek hlawful hpatience hwindow
  simp only [TokenStream.pull, LookaheadStream.pull]
  change s.peek.Parallel _ _ s'.peek at hpeek
  generalize s.peek = reply at hpeek
  obtain ⟨result, shown, events⟩ := reply
  obtain ⟨shown', hshown', hrelated⟩ := hpeek.exists_eq
  rw [hshown']
  cases result with
  | error e => exact ⟨rfl, rfl, hpeek.allowed, hrelated⟩
  | ok next =>
      cases next with
      | none => exact ⟨rfl, rfl, hpeek.allowed, hrelated⟩
      | some t =>
          exact ⟨rfl, rfl, hpeek.allowed, rfl, hrelated.acceptors_eq, hrelated.tokenizers⟩

theorem simulates (hlawful : ∀ a ∈ acceptors, a.Lawful) (hpatience : Patience acceptors k)
    (hwindow : k ≤ window) :
    TokenStream.Simulates (Matches text window acceptors) LexerError.Internal where
  peek h := h.peek hlawful hpatience hwindow
  pull h := h.pull hlawful hpatience hwindow

end LookaheadStream

/-- The failure of the input that an error tells of, if it does. -/
def PipelineError.inputError? : PipelineError → Option InputError
  | .input cause => some cause
  | .lexicalAnalysis (.input cause) => some cause
  | .syntaxAnalysis (.lexical (.input cause)) => some cause
  | _ => none

theorem PipelineError.inputError?_of_internal {e : SyntaxError}
    (h : ∀ cause, e = .lexical cause → cause.Internal) :
    (PipelineError.syntaxAnalysis e).inputError? = none := by
  cases e with
  | unexpectedInput expected found span => rfl
  | unexpectedEndOfInput expected => rfl
  | lexical cause =>
      cases cause with
      | input failure => exact absurd rfl (h _ rfl failure)
      | _ => rfl

namespace Run

/-- What a run has found, apart from the name of its source. -/
def findings (r : Run ParseResult) :
    Except PipelineError (SyntaxTree × Option Token × LexicalMetrics × ParseMetrics) :=
  r.result.map fun p => (p.tree, p.trailing, p.lexicalMetrics, p.parseMetrics)

/-- The input could be read, and could be gone back in as far as it was needed. -/
def InputServed (r : Run ParseResult) : Prop :=
  ∀ e, r.result = .error e → e.inputError? = none

/-- The second run has the findings of the first, and does not fail for its input. -/
structure Reproduces (r r' : Run ParseResult) : Prop where
  findings_eq : r'.findings = r.findings
  served : r'.InputServed

end Run

section Pipelines

variable {acceptors : List Acceptor} {k : Nat}

theorem LookaheadStream.matches_start (text : List Char) (window : Nat)
    (acceptors : List Acceptor) (preferences : LexicalPreferences) :
    Matches text window acceptors
      ⟨{ source := .ofText text, acceptors, preferences }, .empty⟩
      ⟨{ source := .ofFeed (.ofBytes (Utf8.encode text)) window, acceptors, preferences },
        .empty⟩ :=
  ⟨rfl, rfl, rfl, rfl, rfl, StreamSource.matches_start (Feed.serves_ofBytes (Utf8.encode text))⟩

/-- The names of the sources can differ, and so can the events, which mention them. -/
theorem parseSource?_reproduces (hlawful : ∀ a ∈ acceptors, a.Lawful)
    (hpatience : Patience acceptors k) (text : List Char) (grammar : Grammar) (config : Config)
    (hwindow : k ≤ config.input.rewindWindow) (bound : Nat) (name name' : String) :
    Option.Rel Run.Reproduces
      (parseSource? bound name (TextSource.ofText text) acceptors grammar config)
      (parseSource? bound name'
        (StreamSource.ofFeed (.ofBytes (Utf8.encode text)) config.input.rewindWindow) acceptors
        grammar config) := by
  have hstreams := LookaheadStream.matches_start text config.input.rewindWindow acceptors
    config.lexical
  have hparse := Grammar.parseAs?_parallel (LookaheadStream.simulates hlawful hpatience hwindow)
    hstreams grammar config.parsing bound grammar.startSymbol
  simp only [parseSource?, Grammar.parse?]
  generalize @Grammar.parseAs? (LookaheadStream TextSource) _ _ _ _ _ _ = ended at hparse ⊢
  generalize @Grammar.parseAs? (LookaheadStream StreamSource) _ _ _ _ _ _ = ended' at hparse ⊢
  cases hparse with
  | none => exact .none
  | @some run run' h =>
      obtain ⟨result, stream, metrics, events⟩ := run
      obtain ⟨result', stream', metrics', events'⟩ := run'
      obtain ⟨hresult, hallowed, hmetrics, -, hstream⟩ := h
      simp only at hresult hallowed hmetrics hstream
      subst hresult hmetrics
      cases result' with
      | ok outcome =>
          refine .some ⟨?_, by rintro e ⟨⟩⟩
          simp only [Run.findings, Except.map, hstream.tokenizers.metrics_eq]
      | error e =>
          refine .some ⟨rfl, ?_⟩
          rintro _ ⟨⟩
          exact PipelineError.inputError?_of_internal fun cause hcause =>
            hallowed cause (by rw [hcause])

theorem Config.window_of_validate {config : Config} (h : config.validate = .ok config) :
    minRewindWindow ≤ config.input.rewindWindow := by
  simp only [validate] at h
  split at h
  · cases h
  · omega

/-- With a bundled lexer and a configuration that is accepted, a run on a file ends within
the same bounds as the run on the text of the file, with the same tree, trailing token and
metrics or with the same error. -/
theorem parseFile?_reproduces (bound : Nat) (files : Files) (path : String) (text : List Char)
    (acceptors : List Acceptor) (grammar : Grammar) (config : Config)
    (hbundled : acceptors = Demo.acceptors ∨ acceptors = MicroHaskell.acceptors)
    (hvalid : config.validate = .ok config)
    (hfile : files.openFeed path = .ok (.ofBytes (Utf8.encode text))) :
    Option.Rel Run.Reproduces (parseText? bound text acceptors grammar config)
      (parseFile? bound files path acceptors grammar config) := by
  have hwindow := Config.window_of_validate hvalid
  have hsource : Option.Rel Run.Reproduces
      (parseSource? bound unnamedSource (TextSource.ofText text) acceptors grammar config)
      (parseSource? bound path
        (StreamSource.ofFeed (.ofBytes (Utf8.encode text)) config.input.rewindWindow) acceptors
        grammar config) := by
    obtain rfl | rfl := hbundled
    · exact parseSource?_reproduces Demo.lawful Demo.patience text grammar config
        (Nat.le_trans (by decide) hwindow) bound unnamedSource path
    · exact parseSource?_reproduces MicroHaskell.lawful MicroHaskell.patience text grammar config
        (Nat.le_trans (by decide) hwindow) bound unnamedSource path
  simp only [parseText?, parseFile?, openStream, hfile]
  generalize @parseSource? TextSource _ _ _ _ _ _ _ = ended at hsource ⊢
  generalize @parseSource? StreamSource _ _ _ _ _ _ _ = ended' at hsource ⊢
  cases hsource with
  | none => exact .none
  | some h => exact .some ⟨h.findings_eq, h.served⟩

theorem parseFile?_reproduces_demo :
    let text := "ab&& ".toList
    let files : Files := ⟨fun _ => .ok (.file (Utf8.encode text)), []⟩
    ((parseText? 12 text Demo.acceptors Demo.grammar {}).map fun r => r.result.isOk) = some true ∧
    Option.Rel Run.Reproduces (parseText? 12 text Demo.acceptors Demo.grammar {})
      (parseFile? 12 files "words.txt" Demo.acceptors Demo.grammar {}) := by
  refine ⟨by decide +kernel, ?_⟩
  exact parseFile?_reproduces 12 _ "words.txt" "ab&& ".toList Demo.acceptors Demo.grammar {}
    (.inl rfl) rfl rfl

end Pipelines

end Lookahead
