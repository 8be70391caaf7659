import Lookahead.Grammar.Basic
import Lookahead.SizedList
import Lookahead.Stream.Basic
import Lookahead.Tree.Basic

/-!
The table-driven parser. It keeps a stack of tree nodes that are still to be
matched. Every step takes the top node and looks at the next token that is not
trivia: a terminal has to match the token's class, and a nonterminal is expanded
by the table entry for that class, its children going on the stack so that the
leftmost comes first. When the stack is empty the parse is complete, and a token
that is left over is reported and no error.

A table that belongs to no suitable grammar can keep the parser busy for ever, so
a run has a bound on the number of its steps, and a run that needs more has no
answer.
-/
namespace Lookahead

open Log (Code Event)

def endOfInput : String := "end of input"

inductive SyntaxError where
  | unexpectedInput (expected found : String) (span : Span)
  | unexpectedEndOfInput (expected : String)
  | lexical (cause : LexerError)
deriving DecidableEq, Repr

namespace SyntaxError

def message : SyntaxError → String
  | .unexpectedInput expected found _ =>
      s!"Parse error: {found} encountered where {expected} expected."
  | .unexpectedEndOfInput expected =>
      s!"Parse error: {endOfInput} encountered where {expected} expected."
  | .lexical cause => cause.message

def code : SyntaxError → Code
  | .unexpectedInput _ _ _ => .unexpectedInput
  | .unexpectedEndOfInput _ => .unexpectedEndOfInput
  | .lexical cause => cause.code

def expected? : SyntaxError → Option String
  | .unexpectedInput expected _ _ | .unexpectedEndOfInput expected => some expected
  | .lexical _ => none

def found? : SyntaxError → Option String
  | .unexpectedInput _ found _ => some found
  | .unexpectedEndOfInput _ => some endOfInput
  | .lexical _ => none

def span? : SyntaxError → Option Span
  | .unexpectedInput _ _ span => some span
  | .unexpectedEndOfInput _ => none
  | .lexical cause => cause.span?

def event (e : SyntaxError) : Event := (Event.error e.code e.message).withSpan e.span?

/-- The error of a symbol that does not go with what is ahead. -/
def mismatch (expected : String) : Option Token → SyntaxError
  | some t => .unexpectedInput expected t.lexClass t.span
  | none => .unexpectedEndOfInput expected

end SyntaxError

structure SyntaxPreferences where
  /-- Emit a debug event for every expansion. -/
  logExpansions : Bool := false
  /-- Warn of input that is left over after a complete parse. -/
  warnOnTrailingInput : Bool := true
deriving DecidableEq, Repr

structure ParseMetrics where
  expansions : Nat := 0
  epsilonExpansions : Nat := 0
  terminalsMatched : Nat := 0
  /-- The greatest height of the stack right after an expansion. -/
  maxStackDepth : Nat := 0
deriving DecidableEq, Repr

structure ParseOutcome where
  tree : SyntaxTree
  /-- The first token that was left over, trivia aside. -/
  trailing : Option Token

namespace ParseOutcome

def isComplete (o : ParseOutcome) : Bool := o.trailing.isNone

end ParseOutcome

/-- A parse under way. -/
structure Parse (τ : Type) where
  tree : SyntaxTree
  /-- The nodes still to be matched, the next one first. -/
  stack : SizedList Nat
  stream : τ
  metrics : ParseMetrics := {}
  /-- The events so far, newest first. -/
  events : List Event := []

/-- A parse after one more step. -/
inductive Progress (τ : Type) where
  | running (parse : Parse τ)
  | stopped (result : Except SyntaxError ParseOutcome) (parse : Parse τ)

namespace Parse

variable {τ : Type}

def start (g : Grammar) (symbol : String) (stream : τ) : Parse τ where
  tree := .ofRoot (.fresh symbol (g.isNonterminal symbol))
  stack := SizedList.nil.cons SyntaxTree.root
  stream := stream

def emit (p : Parse τ) (events : List Event) : Parse τ :=
  { p with events := events.reverseAux p.events }

/-- Stops at a symbol that does not go with what is ahead. -/
def reject (p : Parse τ) (expected : String) (lookahead : Option Token) : Progress τ :=
  let error := SyntaxError.mismatch expected lookahead
  .stopped (.error error) (p.emit [error.event])

def expansionEvents (preferences : SyntaxPreferences) (label : String) (lookahead : Option String)
    (rhs : List String) : List Event :=
  if preferences.logExpansions then
    [(Event.debug "Expanding nonterminal").withAll
      [("nonterminal", label), ("lookahead", lookahead.getD endOfInput),
        ("rhs", String.intercalate " " rhs)]]
  else []

/-- Replaces a nonterminal by its right-hand side. -/
def expand (g : Grammar) (p : Parse τ) (id : Nat) (rhs : List String) : Parse τ :=
  let first := p.tree.size
  let children := List.range' first rhs.length
  let stack := p.stack.prepend children
  { p with
    tree :=
      (p.tree.append (rhs.map fun symbol => .fresh symbol (g.isNonterminal symbol))).setExpansion
        id rhs children
    stack := stack
    metrics :=
      { p.metrics with
        expansions := p.metrics.expansions + 1
        epsilonExpansions :=
          if rhs.isEmpty then p.metrics.epsilonExpansions + 1 else p.metrics.epsilonExpansions
        maxStackDepth := max p.metrics.maxStackDepth stack.size } }

/-- Lets a terminal match a token. -/
def accept (p : Parse τ) (id : Nat) (t : Token) : Parse τ :=
  { p with
    tree := p.tree.setMatched id t.value t.span
    metrics := { p.metrics with terminalsMatched := p.metrics.terminalsMatched + 1 } }

def stepNonterminal (g : Grammar) (preferences : SyntaxPreferences) (p : Parse τ) (id : Nat)
    (label : String) (lookahead : Option Token) : Progress τ :=
  let lexClass := lookahead.map (·.lexClass)
  match g.entry label lexClass with
  | none => p.reject label lookahead
  | some rhs =>
      .running ((p.emit (expansionEvents preferences label lexClass rhs)).expand g id rhs)

variable [TokenStream τ]

def stepTerminal (p : Parse τ) (id : Nat) (label : String) (lookahead : Option Token) :
    Progress τ :=
  match lookahead with
  | none => p.reject label none
  | some t =>
      if t.lexClass = label then
        match TokenStream.pullProper p.stream with
        | ⟨.error e, stream, events⟩ =>
            .stopped (.error (.lexical e)) ({ p with stream := stream }.emit events)
        | ⟨.ok _, stream, events⟩ =>
            .running (({ p with stream := stream }.emit events).accept id t)
      else p.reject label (some t)

/-- Deals with the node that was on top of the stack. -/
def stepNode (g : Grammar) (preferences : SyntaxPreferences) (p : Parse τ) (id : Nat)
    (label : String) (lookahead : Option Token) : Progress τ :=
  if g.isNonterminal label then p.stepNonterminal g preferences id label lookahead
  else p.stepTerminal id label lookahead

def completionEvents (preferences : SyntaxPreferences) (nodes : Nat) : Option Token → List Event
  | some t =>
      if preferences.warnOnTrailingInput then
        [(Event.warning .trailingInput s!"Warning: {t.value} found after parse completed.").withAll
          [("class", t.lexClass), ("span", t.span.render)]]
      else []
  | none =>
      [(Event.success .parseSuccessful "Parse successful.").annotate "nodes" (toString nodes)]

/-- The stack is empty: takes the token that is left over, if there is one. -/
def complete (preferences : SyntaxPreferences) (p : Parse τ) : Progress τ :=
  match TokenStream.pullProper p.stream with
  | ⟨.error e, stream, events⟩ =>
      .stopped (.error (.lexical e)) ({ p with stream := stream }.emit events)
  | ⟨.ok trailing, stream, events⟩ =>
      .stopped (.ok ⟨p.tree, trailing⟩)
        (({ p with stream := stream }.emit events).emit
          (completionEvents preferences p.tree.size trailing))

def step (g : Grammar) (preferences : SyntaxPreferences) (p : Parse τ) : Progress τ :=
  match p.stack.uncons? with
  | none => p.complete preferences
  | some (id, stack) =>
      match TokenStream.peekProper p.stream with
      | ⟨.error e, stream, events⟩ =>
          .stopped (.error (.lexical e))
            ({ p with stream := stream, stack := stack }.emit events)
      | ⟨.ok lookahead, stream, events⟩ =>
          ({ p with stream := stream, stack := stack }.emit events).stepNode g preferences id
            (p.tree.label id) lookahead

/-- Steps until the parse stops, at most as often as the bound allows. -/
def run (g : Grammar) (preferences : SyntaxPreferences) :
    Nat → Parse τ → Option (Except SyntaxError ParseOutcome × Parse τ)
  | 0, _ => none
  | bound + 1, p =>
      match p.step g preferences with
      | .running p => p.run g preferences bound
      | .stopped result p => some (result, p)

end Parse

/-- A parse that has come to its end. -/
structure ParseRun (τ : Type) where
  result : Except SyntaxError ParseOutcome
  stream : τ
  metrics : ParseMetrics
  events : List Event

namespace Grammar

variable {τ : Type} [TokenStream τ]

/-- Parses a stream as the given symbol in at most `bound` steps. -/
def parseAs? (g : Grammar) (preferences : SyntaxPreferences) (bound : Nat) (symbol : String)
    (stream : τ) : Option (ParseRun τ) :=
  match (Parse.start g symbol stream).run g preferences bound with
  | none => none
  | some (result, p) => some ⟨result, p.stream, p.metrics, p.events.reverse⟩

/-- Parses a stream as the start symbol in at most `bound` steps. -/
def parse? (g : Grammar) (preferences : SyntaxPreferences) (bound : Nat) (stream : τ) :
    Option (ParseRun τ) :=
  g.parseAs? preferences bound g.startSymbol stream

end Grammar

end Lookahead
