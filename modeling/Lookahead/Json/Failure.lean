import Lookahead.Text.Digits

/-!
Failures that are reported about a JSON text. A failure may be about a place in the
text, which then ends its message. Lines are numbered from one, so line zero stands
for no place at all.
-/
namespace Lookahead.Json

structure Failure where
  message : String
  line : Nat
  column : Nat
deriving DecidableEq, Repr

namespace Failure

def lineMark : List Char := " at line ".toList

def columnMark : List Char := " column ".toList

/-- Splits a text at the first occurrence of a mark; what stands before it is kept
newest first. -/
def splitFirst? (mark : List Char) (before : List Char) :
    List Char → Option (List Char × List Char)
  | [] => none
  | c :: rest =>
      if mark.isPrefixOf (c :: rest) then some (before, (c :: rest).drop mark.length)
      else splitFirst? mark (c :: before) rest

/-- What stands before and after the last occurrence of a mark, which is the first one
from the end. -/
def splitLast? (mark text : List Char) : Option (List Char × List Char) :=
  (splitFirst? mark.reverse [] text.reverse).map fun (after, before) => (before.reverse, after)

/-- The line and the column that a message ends with, after their first mark. -/
def place? (text : List Char) : Option (Nat × Nat) := do
  let rest := text.dropWhile Digits.isDecimal
  if columnMark.isPrefixOf rest then
    let line ← Digits.count? (text.takeWhile Digits.isDecimal)
    let column ← Digits.count? (rest.drop columnMark.length)
    return (line, column)
  else none

/-- Takes a place off the end of a message. -/
def ofText (text : String) : Failure :=
  match splitLast? lineMark text.toList with
  | none => ⟨text, 0, 0⟩
  | some (before, after) =>
      match place? after with
      | none => ⟨text, 0, 0⟩
      | some (line, column) => ⟨String.ofList before, line, column⟩

def render (f : Failure) : String :=
  if f.line = 0 then f.message else s!"{f.message} at line {f.line} column {f.column}"

end Failure

end Lookahead.Json
