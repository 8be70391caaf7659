/-!
Faults of position arithmetic. Offsets are 64-bit counts and lines and columns
are 32-bit counts, so stepping past the last representable value is refused,
and so is a span or a length taken backwards. A fault is not a diagnostic about
the text being read: it says that a caller broke the conditions of an operation.
-/
namespace Lookahead

inductive Fault where
  | additionOverflow
  | subtractionOverflow
  | reversedSpan
deriving DecidableEq, Repr

def Fault.message : Fault → String
  | .additionOverflow => "attempt to add with overflow"
  | .subtractionOverflow => "attempt to subtract with overflow"
  | .reversedSpan => "Span start must not be after end"

end Lookahead
