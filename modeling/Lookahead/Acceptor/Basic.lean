import Lookahead.Acceptor.CharMatcher
import Lookahead.Source.Basic

/-!
Acceptors of lexical classes. An acceptor is a deterministic automaton: it
starts in state 0 and declares the states below `states`, one of which is dead.
Its transition function is total on the integers and not trusted: an automaton,
which is an acceptor in some state, refuses to enter a state that is not
declared.
-/
namespace Lookahead

open Log (Code)

structure Acceptor where
  /-- The class of the tokens that it wins; tokens of the empty class are trivia. -/
  lexClass : String
  states : Nat
  transition : Int → Char → Int
  accepting : Int → Bool
  dead : Int

inductive LexerError where
  | unrecognizedInput (text : String) (span : Span)
  | illegalState (state : Int) (lexClass : String)
  | tokenTooLong (max : Nat) (span : Span)
  | input (cause : InputError)
deriving DecidableEq, Repr

namespace LexerError

def message : LexerError → String
  | .unrecognizedInput text _ => s!"Can't make lexical token from input \"{text}\""
  | .illegalState state lexClass => s!"Illegal state {state} in acceptor for {lexClass}"
  | .tokenTooLong max _ => s!"Token exceeds maximum length of {max} characters"
  | .input cause => cause.message

def code : LexerError → Code
  | .unrecognizedInput _ _ => .unrecognizedInput
  | .illegalState _ _ => .illegalState
  | .tokenTooLong _ _ => .tokenTooLong
  | .input cause => cause.code

def span? : LexerError → Option Span
  | .unrecognizedInput _ span | .tokenTooLong _ span => some span
  | .illegalState _ _ | .input _ => none

end LexerError

namespace Acceptor

/-- The states an acceptor declares. -/
def Declares (a : Acceptor) (state : Int) : Prop := 0 ≤ state ∧ state < a.states

instance (a : Acceptor) (state : Int) : Decidable (a.Declares state) :=
  inferInstanceAs (Decidable (_ ∧ _))

/-- One checked transition. -/
def step (a : Acceptor) (state : Int) (c : Char) : Except LexerError Int :=
  if a.Declares (a.transition state c) then .ok (a.transition state c)
  else .error (.illegalState (a.transition state c) a.lexClass)

/-- The text under which an acceptor is listed. -/
def render (a : Acceptor) : String :=
  "Acceptor \x7b lex_class: " ++ Quoted.text a.lexClass ++ s!", number_of_states: {a.states}" ++
    " \x7d"

end Acceptor

/-- An acceptor in some state. -/
structure Automaton where
  acceptor : Acceptor
  state : Int

namespace Automaton

def start (a : Acceptor) : Automaton := ⟨a, 0⟩

def reset (m : Automaton) : Automaton := start m.acceptor

def step (m : Automaton) (c : Char) : Except LexerError Automaton :=
  match m.acceptor.step m.state c with
  | .ok state => .ok { m with state := state }
  | .error e => .error e

def isAccepting (m : Automaton) : Bool := m.acceptor.accepting m.state

def isDead (m : Automaton) : Bool := m.state == m.acceptor.dead

/-- Steps through a text until a step is refused. -/
def feed (m : Automaton) : List Char → Automaton × Option LexerError
  | [] => (m, none)
  | c :: text =>
      match m.step c with
      | .ok m => m.feed text
      | .error e => (m, some e)

end Automaton

end Lookahead
