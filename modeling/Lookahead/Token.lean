import Lookahead.Json.Basic
import Lookahead.Span

/-!
Lexical tokens: a piece of text, the class of the acceptor that won it, and the
span it was read from. Tokens of the empty class are trivia.
-/
namespace Lookahead

structure Token where
  value : String
  lexClass : String
  span : Span := .origin
deriving DecidableEq, Repr

def triviaClass : String := ""

namespace Token

def isTrivia (t : Token) : Bool := t.lexClass == triviaClass

/-- Value and class, as a listing of tokens shows them. -/
def render (t : Token) : String := t.value ++ " \t" ++ t.lexClass

theorem toList_render (t : Token) :
    t.render.toList = t.value.toList ++ [' ', '\t'] ++ t.lexClass.toList := by
  simp [render]

end Token

namespace Position

def toJson (p : Position) : Json :=
  .obj [("offset", .num p.offset), ("line", .num p.line), ("column", .num p.column)]

end Position

namespace Span

def toJson (s : Span) : Json := .obj [("start", s.start.toJson), ("end", s.stop.toJson)]

end Span

namespace Token

def toJson (t : Token) : Json :=
  .obj [("value", .str t.value), ("lex_class", .str t.lexClass), ("span", t.span.toJson)]

end Token

end Lookahead
