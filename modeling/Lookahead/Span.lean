import Lookahead.Fault
import Lookahead.Width

/-!
Places in a text. A position counts characters, never bytes: its offset is the
number of characters before it, its line is one more than the number of
newlines before it and its column is one more than the number of characters
since the last newline. A span is the stretch between two positions.

`advance` is the unbounded step that the character sources use. `advance?` is
the same step on counts of fixed width, and refuses to leave them.
-/
namespace Lookahead

structure Position where
  offset : Nat
  line : Nat
  column : Nat
deriving DecidableEq, Repr, Inhabited

namespace Position

def start : Position := ⟨0, 1, 1⟩

def advance (p : Position) (c : Char) : Position :=
  if c = '\n' then ⟨p.offset + 1, p.line + 1, 1⟩ else ⟨p.offset + 1, p.line, p.column + 1⟩

/-- The position after a whole text. -/
def advanceAll (p : Position) (text : List Char) : Position :=
  text.foldl advance p

/-- Offsets fit 64 bits, lines and columns 32. -/
def Fits (p : Position) : Prop :=
  p.offset < wordLimit ∧ p.line < halfWordLimit ∧ p.column < halfWordLimit

instance (p : Position) : Decidable p.Fits :=
  inferInstanceAs (Decidable (_ ∧ _ ∧ _))

def advance? (p : Position) (c : Char) : Except Fault Position :=
  if (p.advance c).Fits then .ok (p.advance c) else .error .additionOverflow

def advanceAll? (p : Position) (text : List Char) : Except Fault Position :=
  text.foldlM advance? p

/-- Offset first, then line, then column. -/
def compare (p q : Position) : Ordering :=
  (Ord.compare p.offset q.offset).then
    ((Ord.compare p.line q.line).then (Ord.compare p.column q.column))

def render (p : Position) : String :=
  s!"{p.line}:{p.column}"

end Position

structure Span where
  start : Position
  stop : Position
deriving DecidableEq, Repr, Inhabited

namespace Span

/-- The empty span at the start of a text, for tokens that come from no text. -/
def origin : Span := ⟨.start, .start⟩

def between? (start stop : Position) : Except Fault Span :=
  if start.offset ≤ stop.offset then .ok ⟨start, stop⟩ else .error .reversedSpan

def length? (s : Span) : Except Fault Nat :=
  if s.start.offset ≤ s.stop.offset then .ok (s.stop.offset - s.start.offset)
  else .error .subtractionOverflow

def isEmpty (s : Span) : Bool :=
  s.start.offset == s.stop.offset

/-- A span on one line names the line once. -/
def render (s : Span) : String :=
  if s.start.line = s.stop.line then s!"{s.start.line}:{s.start.column}-{s.stop.column}"
  else s!"{s.start.render}-{s.stop.render}"

end Span

end Lookahead
