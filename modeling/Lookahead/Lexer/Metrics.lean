import Lookahead.Log.Event
import Lookahead.Acceptor.Basic
import Lookahead.Token

/-!
Preferences of a lexer, the counts it keeps, and the events it gives rise to. All
three depend only on the results of its scans.
-/
namespace Lookahead

open Log (Event)

structure LexicalPreferences where
  /-- Count the tokens of every class. -/
  collectClassMetrics : Bool := true
  /-- Emit a debug event for every token. -/
  logEachToken : Bool := false
  /-- The number of characters that one scan may read. -/
  maxTokenLength : Option Nat := none
deriving DecidableEq, Repr

structure LexicalMetrics where
  total : Nat := 0
  trivia : Nat := 0
  chars : Nat := 0
  longest : Nat := 0
  errors : Nat := 0
  byClass : SortedMap String Nat := {}

namespace LexicalMetrics

/-- Tokens that are not trivia. -/
def proper (m : LexicalMetrics) : Nat := m.total - m.trivia

def countClass (m : LexicalMetrics) (lexClass : String) : SortedMap String Nat :=
  m.byClass.insert lexClass ((m.byClass.get? lexClass).getD 0 + 1)

def recordToken (m : LexicalMetrics) (preferences : LexicalPreferences) (t : Token) :
    LexicalMetrics :=
  let length := t.value.length
  { m with
    total := m.total + 1
    trivia := if t.isTrivia then m.trivia + 1 else m.trivia
    chars := m.chars + length
    longest := max m.longest length
    byClass :=
      if !t.isTrivia && preferences.collectClassMetrics then m.countClass t.lexClass
      else m.byClass }

def record (m : LexicalMetrics) (preferences : LexicalPreferences) :
    Except LexerError (Option Token) → LexicalMetrics
  | .ok (some t) => m.recordToken preferences t
  | .ok none => m
  | .error _ => { m with errors := m.errors + 1 }

end LexicalMetrics

namespace LexerError

def event (e : LexerError) : Event := (Event.error e.code e.message).withSpan e.span?

end LexerError

namespace LexicalPreferences

def report (preferences : LexicalPreferences) : Except LexerError (Option Token) → List Event
  | .ok (some t) =>
      if preferences.logEachToken then
        [(Event.debug "Token recognized").withAll
          [("value", t.value), ("class", t.lexClass), ("span", t.span.render)]]
      else []
  | .ok none => []
  | .error e => [e.event]

end LexicalPreferences

end Lookahead
