import Lookahead.Acceptor.Basic

/-!
Acceptors given by data: the acceptor of one fixed text, and acceptors given by
a table of edges. Of several edges that match, the first one counts; where none
matches the automaton dies. Edges that leave an undeclared state, and undeclared
accepting states, have no effect; an edge may well lead to an undeclared state.
-/
namespace Lookahead

structure Edge where
  source : Int
  matcher : CharMatcher
  target : Int

structure EdgeTable where
  lexClass : String
  states : Nat
  dead : Int
  edges : List Edge
  accept : List Int

namespace EdgeTable

def declares (t : EdgeTable) (state : Int) : Bool := 0 ≤ state && state < t.states

def transition (t : EdgeTable) (state : Int) (c : Char) : Int :=
  if t.declares state then
    match t.edges.find? fun edge => edge.source == state && edge.matcher.admits c with
    | some edge => edge.target
    | none => t.dead
  else t.dead

def acceptor (t : EdgeTable) : Acceptor where
  lexClass := t.lexClass
  states := t.states
  transition := t.transition
  accepting state := t.declares state && t.accept.contains state
  dead := t.dead

end EdgeTable

namespace Acceptor

/-- The acceptor of one text, whose class is the text itself. State `i` says that
the first `i` characters have matched; the state after the last one is dead. -/
def literal (text : String) : Acceptor :=
  let chars := text.toList.toArray
  let size : Int := chars.size
  { lexClass := text
    states := chars.size + 2
    transition := fun state c =>
      if 0 ≤ state ∧ chars[state.toNat]? = some c then state + 1 else size + 1
    accepting := fun state => state == size
    dead := size + 1 }

end Acceptor

end Lookahead
