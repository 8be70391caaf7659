import Lookahead.Span

/-!
Excerpts of a source text under an error message: the line on which a span
starts, and a row of carets below the part of it that the span covers. Lines end
at a newline, and carriage returns at the end of a line are not part of it.
-/
namespace Lookahead

/-- The newline-delimited pieces of a text, in order; there is always at least one. -/
def splitLines (text : List Char) : List (List Char) :=
  go [] [] text
where
  go (finished : List (List Char)) (current : List Char) : List Char → List (List Char)
    | [] => (current.reverse :: finished).reverse
    | '\n' :: rest => go (current.reverse :: finished) [] rest
    | c :: rest => go finished (c :: current) rest

/-- Drops the carriage returns at the end of a line. -/
def trimReturns (line : List Char) : List Char :=
  (line.reverse.dropWhile (· == '\r')).reverse

structure SourceLines where
  lines : Array (List Char)

namespace SourceLines

def ofText (text : List Char) : SourceLines :=
  ⟨((splitLines text).map trimReturns).toArray⟩

/-- Lines are numbered from one. -/
def line? (s : SourceLines) (number : Nat) : Option (List Char) :=
  if number = 0 then none else s.lines[number - 1]?

/-- How many carets stand under a line of the given length. A span that goes on
to a later line is underlined to the end of its first line. -/
def caretCount (span : Span) (lineLength : Nat) : Except Fault Nat :=
  if span.start.line = span.stop.line then .ok (max 1 (span.stop.column - span.start.column))
  else if span.start.column = 0 then .error .subtractionOverflow
  else .ok (max 1 (lineLength - (span.start.column - 1)))

/-- The message, the place, and, if the text has such a line, the line with its carets. -/
def excerpt (s : SourceLines) (span : Span) (message : String) : Except Fault String := do
  let heading := s!"Error: {message}\n  --> {span.start.render}\n"
  match s.line? span.start.line with
  | none => return heading
  | some line =>
    let number := toString span.start.line
    let gutter := String.ofList (List.replicate number.length ' ')
    let carets ← caretCount span line.length
    let indent := String.ofList (List.replicate (span.start.column - 1) ' ')
    let underline := String.ofList (List.replicate carets '^')
    let shown := String.ofList line
    return s!"{heading}{gutter} |\n{number} | {shown}\n{gutter} | {indent}{underline}\n"

end SourceLines

end Lookahead
