import Lookahead.Config
import Lookahead.Json.Failure
import Lookahead.Log.Session
import Lookahead.Tree.Render

/-!
Whole runs: from a text or a file through the lexer and the parser to a tree. A
run takes place in a session that is named after its input. What it reports in
the end includes the time it took, which only its caller can know.
-/
namespace Lookahead

open Log (Activity Code Event)

inductive PipelineError where
  | input (cause : InputError)
  | lexicalAnalysis (cause : LexerError)
  | syntaxAnalysis (cause : SyntaxError)
  | exportFailure (cause : Json.Failure)
deriving DecidableEq, Repr

namespace PipelineError

def message : PipelineError → String
  | .input cause => s!"Input failed: {cause.message}"
  | .lexicalAnalysis cause => s!"Lexical analysis failed: {cause.message}"
  | .syntaxAnalysis cause => s!"Syntax analysis failed: {cause.message}"
  | .exportFailure cause => s!"Tree export failed: {cause.render}"

def code : PipelineError → Code
  | .input cause => cause.code
  | .lexicalAnalysis cause => cause.code
  | .syntaxAnalysis cause => cause.code
  | .exportFailure _ => .treeExportFailure

def span? : PipelineError → Option Span
  | .lexicalAnalysis cause => cause.span?
  | .syntaxAnalysis cause => cause.span?
  | .input _ | .exportFailure _ => none

end PipelineError

/-- The time that a run took, in hundredths of a millisecond. -/
structure Elapsed where
  hundredths : Nat

namespace Elapsed

def render (e : Elapsed) : String :=
  toString (e.hundredths / 100) ++ "." ++ Log.Timestamp.padded 2 (e.hundredths % 100)

end Elapsed

structure TokenizeResult where
  source : String
  /-- The tokens that are not trivia. -/
  tokens : List Token
  metrics : LexicalMetrics

namespace TokenizeResult

def completion (r : TokenizeResult) (elapsed : Elapsed) : Event :=
  (Event.success .tokenizationComplete "Tokenization completed").withAll
    [("source", r.source), ("tokens", toString r.metrics.total),
      ("trivia", toString r.metrics.trivia), ("duration_ms", elapsed.render)]

end TokenizeResult

structure ParseResult where
  source : String
  tree : SyntaxTree
  trailing : Option Token
  lexicalMetrics : LexicalMetrics
  parseMetrics : ParseMetrics

namespace ParseResult

def isComplete (r : ParseResult) : Bool := r.trailing.isNone

def completion (r : ParseResult) (elapsed : Elapsed) : Event :=
  (Event.success .pipelineComplete "Pipeline completed").withAll
    [("source", r.source), ("tokens", toString r.lexicalMetrics.total),
      ("trivia", toString r.lexicalMetrics.trivia), ("nodes", toString r.tree.size),
      ("complete", toString r.isComplete), ("duration_ms", elapsed.render)]

/-- The document in which a result is exported. -/
def toJson (r : ParseResult) : Json :=
  .obj [
    ("source", .str r.source),
    ("complete", .bool r.isComplete),
    ("trailing", match r.trailing with | some t => t.toJson | none => .null),
    ("token_count", .num r.lexicalMetrics.total),
    ("trivia_count", .num r.lexicalMetrics.trivia),
    ("tree", r.tree.toJson)]

end ParseResult

/-- A run that has ended, with the events it emitted apart from its completion. -/
structure Run (α : Type) where
  session : String
  events : List Event
  result : Except PipelineError α

namespace Run

/-- The session of a run; a run that succeeded reports its completion last. -/
def activity {α : Type} (r : Run α) (completion : α → Event) : Activity :=
  .session r.session none
    ((r.events ++ match r.result with
      | .ok a => [completion a]
      | .error _ => []).map .emit)

end Run

/-- The name of an input that is not in a file. -/
def unnamedSource : String := "<string>"

/-- Tokenizes a text and drops its trivia. -/
def tokenizeText (text : List Char) (acceptors : List Acceptor) (config : Config) :
    Run TokenizeResult :=
  let stream : LookaheadStream TextSource := ⟨.ofText text acceptors config.lexical, .empty⟩
  match TokenStream.allProper stream with
  | ⟨_, some e, _, events⟩ => ⟨unnamedSource, events, .error (.lexicalAnalysis e)⟩
  | ⟨tokens, none, stream, events⟩ =>
      ⟨unnamedSource, events, .ok ⟨unnamedSource, tokens, stream.tokenizer.metrics⟩⟩

/-- Lexes and parses what a source supplies, in at most `bound` parser steps. -/
def parseSource? {σ : Type} [CharSource σ] (bound : Nat) (name : String) (source : σ)
    (acceptors : List Acceptor) (grammar : Grammar) (config : Config) :
    Option (Run ParseResult) :=
  let opening := (Event.info "Starting parse").withAll
    [("source", name), ("start_symbol", grammar.startSymbol)]
  let stream : LookaheadStream σ :=
    ⟨{ source := source, acceptors := acceptors, preferences := config.lexical }, .empty⟩
  match grammar.parse? config.parsing bound stream with
  | none => none
  | some ⟨.error e, _, _, events⟩ => some ⟨name, opening :: events, .error (.syntaxAnalysis e)⟩
  | some ⟨.ok outcome, stream, metrics, events⟩ =>
      some ⟨name, opening :: events,
        .ok ⟨name, outcome.tree, outcome.trailing, stream.tokenizer.metrics, metrics⟩⟩

def parseText? (bound : Nat) (text : List Char) (acceptors : List Acceptor) (grammar : Grammar)
    (config : Config) : Option (Run ParseResult) :=
  parseSource? bound unnamedSource (TextSource.ofText text) acceptors grammar config

/-- Opens a file as a streaming source. -/
def openStream (files : Files) (path : String) (window : Nat) : Except InputError StreamSource :=
  match files.openFeed path with
  | .ok feed => .ok (.ofFeed feed window)
  | .error .notFound => .error (.fileNotFound path)
  | .error e => .error (.io e.message)

def parseFile? (bound : Nat) (files : Files) (path : String) (acceptors : List Acceptor)
    (grammar : Grammar) (config : Config) : Option (Run ParseResult) :=
  match openStream files path config.input.rewindWindow with
  | .error e => some ⟨path, [], .error (.input e)⟩
  | .ok source =>
      let opened := (Event.success .sourceOpened "Opened input file").withAll
        [("path", path), ("rewind_window", toString source.window)]
      match parseSource? bound path source acceptors grammar config with
      | none => none
      | some run => some { run with events := opened :: run.events }

end Lookahead
