import Lookahead.Bundled.Demo

/-!
Grammars as predictive tables. Symbols are texts. By convention a nonterminal
starts with a number sign, and every other symbol is a terminal, which stands
for the lexical class of that name. An entry gives the right-hand side with which
a nonterminal is replaced in front of a token of some class, or at the end of
the input. Nothing checks that the table belongs to a grammar without conflicts.
-/
namespace Lookahead

/-- Whether a symbol is written like a nonterminal. -/
def isNonterminalSymbol (symbol : String) : Bool := symbol.toList.head? == some '#'

structure Grammar where
  startSymbol : String
  /-- The right-hand side for a nonterminal and the class of the token ahead. -/
  entry : String → Option String → Option (List String)
  isNonterminal : String → Bool := isNonterminalSymbol

namespace Demo

def startSymbol : String := "#S"

/-- Balanced sequences: the start symbol is empty, or a word, itself, the sign
and itself again. -/
def grammar : Grammar where
  startSymbol := startSymbol
  entry nonterminal lookahead :=
    if nonterminal = startSymbol then
      if lookahead = none ∨ lookahead = some andClass then some []
      else if lookahead = some evenClass then
        some [evenClass, startSymbol, andClass, startSymbol]
      else none
    else none

end Demo

end Lookahead
