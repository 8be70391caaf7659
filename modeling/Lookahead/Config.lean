import Lookahead.Files
import Lookahead.Lexer.Metrics
import Lookahead.Log.Setup
import Lookahead.Parser.Basic
import Lookahead.Source.Stream
import Lookahead.Toml.Document

/-!
Preferences of a run. Every preference has a default that an environment variable
can change; a TOML document changes the preferences that it mentions. A variable
whose value cannot be read is ignored, whereas a document with a value of the
wrong kind is refused; keys that are not known are passed over.
-/
namespace Lookahead

open Log (Code Level)

/-- The smallest rewind window that may be chosen. -/
def minRewindWindow : Nat := 10

structure InputPreferences where
  /-- The number of characters over which a streaming source can be rewound. -/
  rewindWindow : Nat := StreamSource.defaultWindow
deriving DecidableEq, Repr

structure Config where
  input : InputPreferences := {}
  lexical : LexicalPreferences := {}
  parsing : SyntaxPreferences := {}
  logging : Log.Preferences := {}
deriving DecidableEq, Repr

inductive ConfigError where
  | io (path message : String)
  | unreadable (path message : String)
  | invalid (field message : String)
deriving DecidableEq, Repr

namespace ConfigError

def message : ConfigError → String
  | .io path message => s!"Failed to read configuration file '{path}': {message}"
  | .unreadable path message => s!"Invalid configuration in '{path}': {message}"
  | .invalid field message => s!"Invalid configuration value for {field}: {message}"

def code (_ : ConfigError) : Code := .configurationError

end ConfigError

/-- The environment variables of a run. -/
structure Environment where
  get? : String → Option String := fun _ => none

namespace Environment

/-- A count of 64 bits: digits, with or without a plus sign. -/
def readCount? (text : String) : Option Nat :=
  match text.toList with
  | '+' :: digits => Digits.count? digits
  | digits => Digits.count? digits

def readBool? (text : String) : Option Bool :=
  if text = "true" then some true
  else if text = "false" then some false
  else none

def count? (e : Environment) (name : String) : Option Nat := (e.get? name).bind readCount?

def bool? (e : Environment) (name : String) : Option Bool := (e.get? name).bind readBool?

def level? (e : Environment) (name : String) : Option Level := (e.get? name).bind Level.ofSetting?

end Environment

namespace Config

/-- The defaults under an environment. -/
def ofEnvironment (e : Environment) : Config where
  input :=
    { rewindWindow := (e.count? "LL1_INPUT_REWIND_WINDOW").getD StreamSource.defaultWindow }
  lexical :=
    { collectClassMetrics := (e.bool? "LL1_LEXICAL_CLASS_METRICS").getD true
      logEachToken := (e.bool? "LL1_LEXICAL_LOG_TOKENS").getD false
      maxTokenLength := e.count? "LL1_LEXICAL_MAX_TOKEN_LENGTH" }
  parsing :=
    { logExpansions := (e.bool? "LL1_SYNTAX_LOG_EXPANSIONS").getD false
      warnOnTrailingInput := (e.bool? "LL1_SYNTAX_WARN_TRAILING").getD true }
  logging :=
    { structured := (e.bool? "LL1_LOGGING_USE_STRUCTURED").getD false
      console := (e.bool? "LL1_LOGGING_ENABLE_CONSOLE").getD true
      threshold := (e.level? "LL1_LOGGING_MIN_LEVEL").getD .info }

def validate (c : Config) : Except ConfigError Config :=
  if c.input.rewindWindow < minRewindWindow then
    .error (.invalid "input.rewind_window"
      s!"must be at least {minRewindWindow} (got {c.input.rewindWindow})")
  else if c.lexical.maxTokenLength = some 0 then
    .error (.invalid "lexical.max_token_length" "must be at least 1 when set")
  else .ok c

/-- Counts come from integers that are not negative. -/
def countOf? : Toml → Option Nat
  | .integer n => if 0 ≤ n then some n.toNat else none
  | _ => none

def boolOf? : Toml → Option Bool
  | .boolean b => some b
  | _ => none

def isEmptyValue : Toml → Bool
  | .array [] | .table _ [] | .tables [] => true
  | _ => false

/-- A level by its name, or a table whose only key is the name. -/
def levelOf? : Toml → Option Level
  | .string name => Level.ofName? name
  | .table _ [(name, value)] => if isEmptyValue value then Level.ofName? name else none
  | _ => none

/-- Sets one preference from a value, if the value is of the right kind. -/
structure Setter (α : Type) where
  key : String
  set : α → Toml → Option α

section

variable {α : Type}

/-- Applies the setters to the values that stand at their keys. -/
def applyEntries (setters : List (Setter α)) (entries : Toml.Entries) (a : α) : Option α :=
  setters.foldlM (fun a setter =>
    match entries.find? setter.key with
    | none => some a
    | some value => setter.set a value) a

/-- Applies the setters in order to the values of a list. -/
def applyItems : List (Setter α) → List Toml → α → Option α
  | setter :: setters, value :: values, a => do applyItems setters values (← setter.set a value)
  | _, _, a => some a

/-- A section is a table, or a list of its values in order. A date has no key
that a section knows. -/
def applySection (setters : List (Setter α)) (a : α) : Toml → Option α
  | .table _ entries => applyEntries setters entries a
  | .array values => applyItems setters values a
  | .tables tables => applyItems setters (tables.reverse.map (.table .header)) a
  | .dateTime => some a
  | _ => none

end

def inputSetters : List (Setter InputPreferences) :=
  [⟨"rewind_window", fun p v => (countOf? v).map fun n => { p with rewindWindow := n }⟩]

def lexicalSetters : List (Setter LexicalPreferences) :=
  [ ⟨"collect_class_metrics", fun p v =>
      (boolOf? v).map fun b => { p with collectClassMetrics := b }⟩,
    ⟨"log_each_token", fun p v => (boolOf? v).map fun b => { p with logEachToken := b }⟩,
    ⟨"max_token_length", fun p v =>
      (countOf? v).map fun n => { p with maxTokenLength := some n }⟩ ]

def parsingSetters : List (Setter SyntaxPreferences) :=
  [ ⟨"log_expansions", fun p v => (boolOf? v).map fun b => { p with logExpansions := b }⟩,
    ⟨"warn_on_trailing_input", fun p v =>
      (boolOf? v).map fun b => { p with warnOnTrailingInput := b }⟩ ]

def loggingSetters : List (Setter Log.Preferences) :=
  [ ⟨"use_structured_logging", fun p v => (boolOf? v).map fun b => { p with structured := b }⟩,
    ⟨"enable_console_logging", fun p v => (boolOf? v).map fun b => { p with console := b }⟩,
    ⟨"min_log_level", fun p v => (levelOf? v).map fun l => { p with threshold := l }⟩ ]

def setters : List (Setter Config) :=
  [ ⟨"input", fun c v => (applySection inputSetters c.input v).map fun p => { c with input := p }⟩,
    ⟨"lexical", fun c v =>
      (applySection lexicalSetters c.lexical v).map fun p => { c with lexical := p }⟩,
    ⟨"syntax", fun c v =>
      (applySection parsingSetters c.parsing v).map fun p => { c with parsing := p }⟩,
    ⟨"logging", fun c v =>
      (applySection loggingSetters c.logging v).map fun p => { c with logging := p }⟩ ]

/-- The configuration that a document describes. -/
def ofToml (e : Environment) (path : String) (text : List Char) : Except ConfigError Config :=
  match Toml.parse? text with
  | none => .error (.unreadable path "not a TOML document")
  | some entries =>
      match applyEntries setters entries (ofEnvironment e) with
      | none => .error (.unreadable path "a value is not of the expected kind")
      | some c => c.validate

/-- The name under which a document is known that is not in a file. -/
def unnamed : String := "<string>"

def ofText (e : Environment) (text : List Char) : Except ConfigError Config := ofToml e unnamed text

def ofFile (e : Environment) (files : Files) (path : String) : Except ConfigError Config :=
  match files.readText path with
  | .error error => .error (.io path error.message)
  | .ok text => ofToml e path text

end Config

end Lookahead
