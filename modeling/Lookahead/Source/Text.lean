import Lookahead.Source.Basic

/-!
The source over a text in memory. It never fails to read, and its mark reaches
back over any distance.
-/
namespace Lookahead

structure TextSource where
  /-- The characters still to be read. -/
  rest : List Char
  position : Position
  /-- What was left to read, and where, when the mark was set. -/
  marked : Option (List Char × Position)
deriving DecidableEq, Repr

namespace TextSource

def ofText (text : List Char) : TextSource := ⟨text, .start, none⟩

def isExhausted (s : TextSource) : Bool := s.rest.isEmpty

def read (s : TextSource) : Except InputError (Option Char) × TextSource :=
  match s.rest with
  | [] => (.ok none, s)
  | c :: rest => (.ok (some c), { s with rest := rest, position := s.position.advance c })

def mark (s : TextSource) : TextSource := { s with marked := some (s.rest, s.position) }

def rewind (s : TextSource) : Except InputError Unit × TextSource :=
  match s.marked with
  | none => (.error .noActiveMark, s)
  | some (rest, position) => (.ok (), { s with rest := rest, position := position })

def release (s : TextSource) : TextSource := { s with marked := none }

def reach (s : TextSource) : Nat :=
  match s.marked with
  | none => 0
  | some (rest, _) => rest.length

theorem reach_read (s : TextSource) : s.read.2.reach = s.reach := by
  unfold read
  split <;> rfl

instance : CharSource TextSource where
  read := read
  mark := mark
  rewind := rewind
  release := release
  position := position
  remaining s := s.rest.length
  reach := reach
  remaining_read := by
    intro s c h
    unfold read at h ⊢
    split at h
    · cases h
    · simp_all
  remaining_mark _ := rfl
  remaining_release _ := rfl
  reach_mark _ := Nat.le_refl _
  reach_read s := Nat.le_of_eq (reach_read s)
  remaining_rewind := by
    intro s h
    unfold rewind at h ⊢
    unfold reach
    split at h
    · cases h
    · simp_all

end TextSource

end Lookahead
