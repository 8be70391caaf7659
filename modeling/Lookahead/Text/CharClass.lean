/-!
Character classes of the bundled lexers. All of them are sets of ASCII
characters: no letter or blank outside ASCII belongs to any class.
-/
namespace Lookahead

inductive CharClass where
  | letter
  | small
  | large
  | digit
  | symbolic
  | whitespace
  | newline
deriving DecidableEq, Repr

namespace CharClass

def isLowercase (c : Char) : Bool := 'a' ≤ c && c ≤ 'z'

def isUppercase (c : Char) : Bool := 'A' ≤ c && c ≤ 'Z'

def isDigit (c : Char) : Bool := '0' ≤ c && c ≤ '9'

/-- The characters that operators are made of. -/
def symbols : List Char :=
  ['!', '#', '$', '%', '&', '*', '+', '.', '/', '<', '=', '>', '?', '@', '\\', '^', '|', '-',
    '~', ':']

def blanks : List Char := [' ', '\t', '\r', '\n', '\x0c']

def lineEnds : List Char := ['\r', '\n', '\x0c']

def contains : CharClass → Char → Bool
  | .letter, c => isLowercase c || isUppercase c
  | .small, c => isLowercase c || c == '_'
  | .large, c => isUppercase c
  | .digit, c => isDigit c
  | .symbolic, c => symbols.contains c
  | .whitespace, c => blanks.contains c
  | .newline, c => lineEnds.contains c

end CharClass

end Lookahead
