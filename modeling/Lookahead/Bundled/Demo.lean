import Lookahead.Acceptor.Basic
import Lookahead.Token

/-!
The demonstration lexer: words of an even number of letters, the sign `&&`, and
single spaces and line breaks as trivia.
-/
namespace Lookahead.Demo

def evenClass : String := "EVEN"

def andClass : String := "&&"

/-- Letters in pairs. The initial state accepts as well, but the empty text is
never a token. -/
def evenLetters : Acceptor where
  lexClass := evenClass
  states := 3
  transition state c :=
    if CharClass.letter.contains c then
      if state = 0 then 1 else if state = 1 then 0 else 2
    else 2
  accepting state := state == 0
  dead := 2

def doubleAmpersand : Acceptor where
  lexClass := andClass
  states := 4
  transition state c :=
    if c = '&' then
      if state = 0 then 1 else if state = 1 then 2 else 3
    else 3
  accepting state := state == 2
  dead := 3

def space : Acceptor where
  lexClass := triviaClass
  states := 3
  transition state c := if state = 0 ∧ (c = ' ' ∨ c = '\n' ∨ c = '\r') then 1 else 2
  accepting state := state == 1
  dead := 2

def acceptors : List Acceptor := [evenLetters, doubleAmpersand, space]

end Lookahead.Demo
