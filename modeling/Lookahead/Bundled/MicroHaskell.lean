import Lookahead.Acceptor.Table
import Lookahead.Token

/-!
The lexer of Micro-Haskell. Comments and blanks are trivia; reserved words and
punctuation are classes of their own and outrank the general classes of the same
length, so that `if` is a keyword and `iffy` a variable.
-/
namespace Lookahead.MicroHaskell

open CharMatcher (ofClass)

/-- Texts whose class is the text itself. -/
def reserved : List String := ["if", "(", ")", "then", ";", "else", "Bool", "Integer"]

/-- A small letter or underscore, then letters, digits and primes. -/
def variableName : Acceptor :=
  EdgeTable.acceptor
    { lexClass := "VAR"
      states := 3
      dead := 2
      edges :=
        [ ⟨0, ofClass .small, 1⟩,
          ⟨1, .satisfying fun c =>
            CharClass.letter.contains c || CharClass.digit.contains c || c == '\x27', 1⟩ ]
      accept := [1] }

/-- A zero alone, or digits of which the first is not zero. -/
def numeral : Acceptor :=
  EdgeTable.acceptor
    { lexClass := "NUM"
      states := 4
      dead := 3
      edges := [⟨0, .exact '0', 1⟩, ⟨0, ofClass .digit, 2⟩, ⟨2, ofClass .digit, 2⟩]
      accept := [1, 2] }

def boolean : Acceptor :=
  EdgeTable.acceptor
    { lexClass := "BOOLEAN"
      states := 9
      dead := 8
      edges :=
        [ ⟨0, .exact 'T', 1⟩, ⟨0, .exact 'F', 2⟩, ⟨1, .exact 'r', 7⟩, ⟨7, .exact 'u', 5⟩,
          ⟨2, .exact 'a', 3⟩, ⟨3, .exact 'l', 4⟩, ⟨4, .exact 's', 5⟩, ⟨5, .exact 'e', 6⟩ ]
      accept := [6] }

def symbol : Acceptor :=
  EdgeTable.acceptor
    { lexClass := "SYM"
      states := 3
      dead := 2
      edges := [⟨0, ofClass .symbolic, 1⟩, ⟨1, ofClass .symbolic, 1⟩]
      accept := [1] }

def blanks : Acceptor :=
  EdgeTable.acceptor
    { lexClass := triviaClass
      states := 3
      dead := 2
      edges := [⟨0, ofClass .whitespace, 1⟩, ⟨1, ofClass .whitespace, 1⟩]
      accept := [1] }

/-- Two or more dashes, then anything up to the end of the line. A symbolic
character right after the dashes makes it an operator instead. -/
def comment : Acceptor :=
  EdgeTable.acceptor
    { lexClass := triviaClass
      states := 5
      dead := 4
      edges :=
        [ ⟨0, .exact '-', 1⟩, ⟨1, .exact '-', 2⟩, ⟨2, .exact '-', 2⟩,
          ⟨2, .satisfying fun c =>
            !CharClass.newline.contains c && !CharClass.symbolic.contains c, 3⟩,
          ⟨3, .satisfying fun c => !CharClass.newline.contains c, 3⟩ ]
      accept := [2, 3] }

def acceptors : List Acceptor :=
  [comment, blanks] ++ reserved.map Acceptor.literal ++ [boolean, symbol, variableName, numeral]

end Lookahead.MicroHaskell
