import Lookahead.Lexer.Metrics
import Lookahead.Lexer.Scan
import Lookahead.Source.Text

/-!
The tokenizer: a source, the acceptors in order of priority, and the counts of
what has been read. It keeps nothing from one scan to the next but the source.
After an error it can be asked for more, and goes on where the source stands.
-/
namespace Lookahead

open Log (Event)

/-- What an operation answers, what it leaves behind, and the events it emitted. -/
structure Reply (α σ : Type) where
  result : Except LexerError α
  rest : σ
  events : List Event := []

/-- Tokens taken one after another until the input ended or an error came up. -/
structure Batch (σ : Type) where
  tokens : List Token
  failure : Option LexerError
  rest : σ
  events : List Event

namespace Batch

/-- All tokens, or the error that came in between. -/
def result {σ : Type} (b : Batch σ) : Except LexerError (List Token) :=
  match b.failure with
  | none => .ok b.tokens
  | some e => .error e

end Batch

structure Tokenizer (σ : Type) where
  source : σ
  /-- Highest priority first. -/
  acceptors : List Acceptor
  preferences : LexicalPreferences := {}
  metrics : LexicalMetrics := {}

namespace Tokenizer

variable {σ : Type} [CharSource σ]

/-- The next token, or none at the end of the input. -/
def next (t : Tokenizer σ) : Reply (Option Token) (Tokenizer σ) :=
  let scanned := Scan.token t.acceptors t.preferences.maxTokenLength t.source
  { result := scanned.1
    rest :=
      { t with
        source := scanned.2
        metrics := t.metrics.record t.preferences scanned.1 }
    events := t.preferences.report scanned.1 }

def remaining (t : Tokenizer σ) : Nat := CharSource.remaining t.source

theorem remaining_next {t : Tokenizer σ} {token : Token} (h : t.next.result = .ok (some token)) :
    t.next.rest.remaining < t.remaining :=
  Scan.remaining_token h

/-- Takes tokens as long as there are any. The tokens and events found so far are
kept newest first. -/
def collect (tokens : List Token) (events : List Event) (t : Tokenizer σ) :
    Batch (Tokenizer σ) :=
  match _h : t.next with
  | ⟨.error e, rest, emitted⟩ =>
      ⟨tokens.reverse, some e, rest, (emitted.reverseAux events).reverse⟩
  | ⟨.ok none, rest, emitted⟩ =>
      ⟨tokens.reverse, none, rest, (emitted.reverseAux events).reverse⟩
  | ⟨.ok (some token), rest, emitted⟩ =>
      rest.collect (token :: tokens) (emitted.reverseAux events)
termination_by t.remaining
decreasing_by
  have hlt := @remaining_next σ _ t token (by rw [_h])
  rwa [_h] at hlt

def all (t : Tokenizer σ) : Batch (Tokenizer σ) := t.collect [] []

def ofText (text : List Char) (acceptors : List Acceptor) (preferences : LexicalPreferences) :
    Tokenizer TextSource :=
  { source := .ofText text, acceptors := acceptors, preferences := preferences }

end Tokenizer

/-- The tokens of a whole text, trivia included. -/
def tokenizeAll (text : List Char) (acceptors : List Acceptor) (preferences : LexicalPreferences) :
    Batch (Tokenizer TextSource) :=
  (Tokenizer.ofText text acceptors preferences).all

/-- The tokens of a whole text together with the counts. -/
def tokenizeWithMetrics (text : List Char) (acceptors : List Acceptor)
    (preferences : LexicalPreferences) : Reply (List Token × LexicalMetrics) Unit :=
  let batch := (Tokenizer.ofText text acceptors preferences).all
  ⟨batch.result.map fun tokens => (tokens, batch.rest.metrics), (), batch.events⟩

end Lookahead
