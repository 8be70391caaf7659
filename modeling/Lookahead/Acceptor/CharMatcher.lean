import Lookahead.Text.CharClass
import Lookahead.Text.Quoted

/-!
Tests of a single character, as they stand on the edges of an acceptor's table.
-/
namespace Lookahead

inductive CharMatcher where
  | exact (char : Char)
  /-- Both ends belong to the range; it is empty if they are reversed. -/
  | range (first last : Char)
  | oneOf (chars : List Char)
  | satisfying (test : Char → Bool)
  | any

namespace CharMatcher

def admits : CharMatcher → Char → Bool
  | .exact char, c => char == c
  | .range first last, c => first ≤ c && c ≤ last
  | .oneOf chars, c => chars.contains c
  | .satisfying test, c => test c
  | .any, _ => true

def ofClass (k : CharClass) : CharMatcher := .satisfying k.contains

/-- A test that is given as a function has no text of its own. -/
def render : CharMatcher → String
  | .exact char => Quoted.char char
  | .range first last => Quoted.char first ++ "..=" ++ Quoted.char last
  | .oneOf chars => "one of " ++ Quoted.text (String.ofList chars)
  | .satisfying _ => "<predicate>"
  | .any => "any"

end CharMatcher

end Lookahead
