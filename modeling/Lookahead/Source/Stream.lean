import Lookahead.SizedList
import Lookahead.Source.Feed

/-!
The source over a byte feed. Characters are decoded as they are asked for, so
the characters read since the mark are recorded in order to be read again after
a rewind. The recording is bounded by the window: when it would grow beyond the
window the mark is overrun, and a rewind fails until a new mark is set.
-/
namespace Lookahead

inductive Mark where
  | absent
  /-- Where the mark is, and the characters read since, newest first. -/
  | held (position : Position) (recording : SizedList Char)
  | overrun

namespace Mark

/-- Takes note of a character that was read. -/
def record (window : Nat) (c : Char) : Mark → Mark
  | .held position recording =>
      if recording.size < window then .held position (recording.cons c) else .overrun
  | mark => mark

def size : Mark → Nat
  | .held _ recording => recording.size
  | _ => 0

theorem size_record (window : Nat) (c : Char) (m : Mark) :
    (m.record window c).size ≤ m.size + 1 := by
  cases m with
  | held position recording =>
      simp only [record]
      split <;> simp [size, SizedList.cons]
  | absent | overrun => simp [record, size]

end Mark

structure StreamSource where
  feed : Feed
  window : Nat
  /-- Characters to be read again before the feed goes on. -/
  replay : List Char
  marked : Mark
  position : Position

namespace StreamSource

/-- The window of a source for which none is chosen. -/
def defaultWindow : Nat := 256

def ofFeed (feed : Feed) (window : Nat) : StreamSource := ⟨feed, window, [], .absent, .start⟩

/-- The source after a character was taken from its replay or its feed. -/
def pass (s : StreamSource) (c : Char) : StreamSource :=
  { s with marked := s.marked.record s.window c, position := s.position.advance c }

def read (s : StreamSource) : Except InputError (Option Char) × StreamSource :=
  match s.replay with
  | c :: replay => (.ok (some c), { s with replay := replay }.pass c)
  | [] =>
      match s.feed.nextChar s.position.offset with
      | (.error e, feed) => (.error e, { s with feed := feed })
      | (.ok none, feed) => (.ok none, { s with feed := feed })
      | (.ok (some c), feed) => (.ok (some c), { s with feed := feed }.pass c)

def mark (s : StreamSource) : StreamSource := { s with marked := .held s.position .nil }

def rewind (s : StreamSource) : Except InputError Unit × StreamSource :=
  match s.marked with
  | .held position recording =>
      (.ok (), { s with
        replay := recording.toList.reverse ++ s.replay
        marked := .held position .nil
        position := position })
  | .overrun => (.error (.rewindWindowExceeded s.window), s)
  | .absent => (.error .noActiveMark, s)

def release (s : StreamSource) : StreamSource := { s with marked := .absent }

def remaining (s : StreamSource) : Nat := s.replay.length + s.feed.supplies.length

def reach (s : StreamSource) : Nat := s.remaining + s.marked.size

theorem remaining_read {s : StreamSource} {c : Char} (h : s.read.1 = .ok (some c)) :
    s.read.2.remaining < s.remaining := by
  unfold read at h ⊢
  split at h
  · simp_all [remaining, pass]
  · rename_i hreplay
    have hlt := @Feed.nextChar_length_lt s.feed s.position.offset c
    split at h <;> simp_all [remaining, pass]

theorem reach_read (s : StreamSource) : s.read.2.reach ≤ s.reach := by
  unfold read
  split
  · rename_i c replay hreplay
    have hmark := s.marked.size_record s.window c
    simp only [reach, remaining, pass, hreplay, List.length_cons]
    omega
  · rename_i hreplay
    have hle := Feed.nextChar_length s.feed s.position.offset
    split
    · simp_all [reach, remaining]
    · simp_all [reach, remaining]
    · rename_i c feed hnext
      have hmark := s.marked.size_record s.window c
      have hlt := @Feed.nextChar_length_lt s.feed s.position.offset c
      simp_all only [reach, remaining, pass, List.length_nil, forall_const]
      omega

theorem remaining_rewind {s : StreamSource} (h : s.rewind.1 = .ok ()) :
    s.rewind.2.remaining ≤ s.reach := by
  unfold rewind at h ⊢
  split at h
  · rename_i position recording hmark
    simp only [remaining, reach, hmark, Mark.size, List.length_append,
      List.length_reverse, recording.size_eq]
    omega
  · cases h
  · cases h

instance : CharSource StreamSource where
  read := read
  mark := mark
  rewind := rewind
  release := release
  position := position
  remaining := remaining
  reach := reach
  remaining_read := remaining_read
  remaining_mark _ := rfl
  remaining_release _ := rfl
  reach_mark _ := Nat.le_refl _
  reach_read := reach_read
  remaining_rewind := remaining_rewind

end StreamSource

end Lookahead
