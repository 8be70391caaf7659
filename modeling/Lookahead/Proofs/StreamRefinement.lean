import Lookahead.Proofs.Encoding
import Lookahead.Proofs.Positions
import Lookahead.Source.Stream
import Lookahead.Source.Text

/-!
The source over a byte feed does what the source over the text in memory does, as
long as it is not asked to go back further than its window. Both are taken through
the same operations. The characters read since the mark was set, or last returned
to, are counted on the side: they are what the stream records, and it lets go of
the mark when they become more than the window.

What the stream has to replay and what its feed has yet to serve are together the
rest of the text, and what it has recorded leads from the mark to where it stands.
-/
namespace Lookahead

inductive SourceOp where
  | read
  | mark
  | rewind
  | release
deriving DecidableEq

namespace CharSource

/-- The answer to an operation and the source after it. Only reading answers with a
character. -/
def perform {σ : Type} [CharSource σ] (s : σ) : SourceOp → Except InputError (Option Char) × σ
  | .read => read s
  | .mark => (.ok none, mark s)
  | .rewind =>
      match rewind s with
      | (.ok (), s') => (.ok none, s')
      | (.error e, s') => (.error e, s')
  | .release => (.ok none, release s)

end CharSource

open CharSource (perform)

namespace SourceOp

/-- The number of characters read since the mark was set or last returned to, after
one more operation; none if no mark is held. -/
def since (answer : Except InputError (Option Char)) (count : Option Nat) :
    SourceOp → Option Nat
  | .read =>
      match answer with
      | .ok (some _) => count.map (· + 1)
      | _ => count
  | .mark => some 0
  | .rewind => count.map fun _ => 0
  | .release => none

def Overreaches (window : Nat) (count : Option Nat) (op : SourceOp) : Prop :=
  op = .rewind ∧ ∃ n, count = some n ∧ window < n

end SourceOp

namespace StreamSource

/-- The two sources are in step through a list of operations: they give the same
answers and come to the same positions, up to the first operation that goes back
further than the window. That one succeeds in memory; the stream refuses it and
stays where it is. -/
def InStep (text : List Char) (window : Nat) (t : TextSource) (s : StreamSource)
    (count : Option Nat) : List SourceOp → Prop
  | [] => True
  | op :: ops =>
      (op.Overreaches window count →
        (perform t op).1 = .ok none ∧
        (perform s op).1 = .error (.rewindWindowExceeded window) ∧
        (perform s op).2.position = s.position) ∧
      (¬ op.Overreaches window count →
        (perform s op).1 = (perform t op).1 ∧
        (perform s op).2.position = (perform t op).2.position ∧
        (∃ consumed, text = consumed ++ (perform t op).2.rest ∧
          (perform t op).2.position = .after consumed) ∧
        (text.length + 1 < halfWordLimit → (perform t op).2.position.Fits) ∧
        InStep text window (perform t op).2 (perform s op).2 (op.since (perform t op).1 count) ops)

/-- The marks of the two sources, which stand in front of `rest`, and the count of
the characters read since. -/
inductive Marks (text : List Char) (window : Nat) (rest : List Char) :
    Option Nat → Option (List Char × Position) → Mark → Prop where
  | absent : Marks text window rest none none .absent
  | held {consumed recorded : List Char} {recording : SizedList Char}
      (htext : text = consumed ++ (recorded ++ rest)) (hwindow : recorded.length ≤ window)
      (hrecording : recording.toList = recorded.reverse) :
      Marks text window rest (some recorded.length)
        (some (recorded ++ rest, .after consumed)) (.held (.after consumed) recording)
  | overrun {consumed recorded : List Char}
      (htext : text = consumed ++ (recorded ++ rest)) (hwindow : window < recorded.length) :
      Marks text window rest (some recorded.length)
        (some (recorded ++ rest, .after consumed)) .overrun

/-- Both sources stand at the same place of the text, with the same mark. -/
structure Matches (text : List Char) (window : Nat) (count : Option Nat) (t : TextSource)
    (s : StreamSource) : Prop where
  window_eq : s.window = window
  position_eq : s.position = t.position
  consumed : ∃ consumed, text = consumed ++ t.rest ∧ t.position = .after consumed
  upcoming : ∃ ahead, t.rest = s.replay ++ ahead ∧ s.feed.Serves (Utf8.encode ahead)
  marks : Marks text window t.rest count t.marked s.marked

variable {text : List Char} {window : Nat} {count : Option Nat} {t : TextSource}
  {s : StreamSource}

theorem Marks.fresh {consumed rest : List Char} (htext : text = consumed ++ rest) :
    Marks text window rest (some 0) (some (rest, .after consumed)) (.held (.after consumed) .nil) :=
  @Marks.held text window rest consumed [] .nil htext (Nat.zero_le window) rfl

theorem Marks.record {c : Char} {rest : List Char} {marked : Option (List Char × Position)}
    {mark : Mark} (h : Marks text window (c :: rest) count marked mark) :
    Marks text window rest (count.map (· + 1)) marked (mark.record window c) := by
  cases h with
  | absent => exact .absent
  | @held consumed recorded recording htext hwindow hrecording =>
      have hsize : recording.size = recorded.length := by
        rw [recording.size_eq, hrecording, List.length_reverse]
      have hlength : recorded.length + 1 = (recorded ++ [c]).length := by simp
      have hrest : recorded ++ c :: rest = (recorded ++ [c]) ++ rest := by simp
      simp only [Option.map_some, Mark.record, hsize, hrest, hlength]
      rw [hrest] at htext
      -- the recording has room for one more character, or is given up for good
      split
      · refine .held htext (by simp; omega) ?_
        simp [SizedList.cons, hrecording]
      · exact .overrun htext (by simp; omega)
  | @overrun consumed recorded htext hwindow =>
      have hlength : recorded.length + 1 = (recorded ++ [c]).length := by simp
      have hrest : recorded ++ c :: rest = (recorded ++ [c]) ++ rest := by simp
      simp only [Option.map_some, Mark.record, hrest, hlength]
      rw [hrest] at htext
      exact .overrun htext (by simp; omega)

theorem Matches.pass {c : Char} {rest replay ahead : List Char} {feed : Feed}
    (h : Matches text window count t s) (hrest : t.rest = c :: rest)
    (hahead : rest = replay ++ ahead) (hfeed : feed.Serves (Utf8.encode ahead)) :
    Matches text window (count.map (· + 1))
      { t with rest := rest, position := t.position.advance c }
      ({ s with feed := feed, replay := replay }.pass c) := by
  obtain ⟨consumed, htext, hposition⟩ := h.consumed
  have hmarks := h.marks
  rw [hrest] at htext hmarks
  constructor
  · exact h.window_eq
  · simp only [StreamSource.pass, h.position_eq]
  · exact ⟨consumed ++ [c], by simpa using htext, by rw [Position.after_snoc, ← hposition]⟩
  · exact ⟨ahead, hahead, hfeed⟩
  · rw [← h.window_eq] at hmarks ⊢
    exact hmarks.record

theorem Matches.read (h : Matches text window count t s) :
    (perform s .read).1 = (perform t .read).1 ∧
      Matches text window (SourceOp.read.since (perform t .read).1 count)
        (perform t .read).2 (perform s .read).2 := by
  obtain ⟨ahead, hahead, hfeed⟩ := h.upcoming
  cases hrest : t.rest with
  | nil =>
      obtain ⟨hreplay, rfl⟩ := List.append_eq_nil_iff.mp (hahead.symm.trans hrest)
      obtain ⟨feed, hnext, hfeed'⟩ := Feed.nextChar_of_serves_nil s.position.offset hfeed
      have ht : perform t .read = (.ok none, t) := by
        simp only [perform, CharSource.read, TextSource.read, hrest]
      have hs : perform s .read = (.ok none, { s with feed := feed }) := by
        simp only [perform, CharSource.read, StreamSource.read, hreplay, hnext]
      rw [ht, hs]
      exact ⟨rfl, h.window_eq, h.position_eq, h.consumed, ⟨[], hahead, hfeed'⟩, h.marks⟩
  | cons c rest =>
      have ht : perform t .read =
          (.ok (some c), { t with rest := rest, position := t.position.advance c }) := by
        simp only [perform, CharSource.read, TextSource.read, hrest]
      rw [ht]
      cases hreplay : s.replay with
      | nil =>
          obtain rfl : ahead = c :: rest := by rw [← hrest, hahead, hreplay, List.nil_append]
          obtain ⟨feed, hnext, hfeed'⟩ := Feed.nextChar_of_serves_cons s.position.offset hfeed
          have hs : perform s .read =
              (.ok (some c), { s with feed := feed, replay := [] }.pass c) := by
            simp only [perform, CharSource.read, StreamSource.read, hreplay, hnext]
          rw [hs]
          exact ⟨rfl, h.pass hrest rfl hfeed'⟩
      | cons d replay =>
          rw [hrest, hreplay] at hahead
          obtain ⟨rfl, hrest'⟩ := List.cons.inj hahead
          have hs : perform s .read =
              (.ok (some c), { s with replay := replay }.pass c) := by
            simp only [perform, CharSource.read, StreamSource.read, hreplay]
          rw [hs]
          exact ⟨rfl, h.pass hrest hrest' hfeed⟩

theorem Matches.mark (h : Matches text window count t s) :
    Matches text window (some 0) (CharSource.mark t) (CharSource.mark s) := by
  obtain ⟨consumed, htext, hposition⟩ := h.consumed
  refine ⟨h.window_eq, h.position_eq, h.consumed, h.upcoming, ?_⟩
  simp only [CharSource.mark, TextSource.mark, StreamSource.mark, h.position_eq, hposition]
  exact .fresh htext

theorem Matches.release (h : Matches text window count t s) :
    Matches text window none (CharSource.release t) (CharSource.release s) :=
  ⟨h.window_eq, h.position_eq, h.consumed, h.upcoming, .absent⟩

theorem Matches.rewind (h : Matches text window count t s)
    (hwithin : ∀ n, count = some n → n ≤ window) :
    (perform s .rewind).1 = (perform t .rewind).1 ∧
      Matches text window (count.map fun _ => 0) (perform t .rewind).2 (perform s .rewind).2 := by
  obtain ⟨ahead, hahead, hfeed⟩ := h.upcoming
  have hmarks := h.marks
  generalize hmemory : t.marked = memory at hmarks
  generalize hmark : s.marked = mark at hmarks
  cases hmarks with
  | absent =>
      have ht : perform t .rewind = (.error .noActiveMark, t) := by
        simp only [perform, CharSource.rewind, TextSource.rewind, hmemory]
      have hs : perform s .rewind = (.error .noActiveMark, s) := by
        simp only [perform, CharSource.rewind, StreamSource.rewind, hmark]
      rw [ht, hs]
      exact ⟨rfl, h⟩
  | @held consumed recorded recording htext hwindow hrecording =>
      have ht : perform t .rewind =
          (.ok none, { t with rest := recorded ++ t.rest, position := .after consumed }) := by
        simp only [perform, CharSource.rewind, TextSource.rewind, hmemory]
      have hs : perform s .rewind = (.ok none, { s with
          replay := recorded ++ s.replay
          marked := .held (.after consumed) .nil
          position := .after consumed }) := by
        simp only [perform, CharSource.rewind, StreamSource.rewind, hmark, hrecording,
          List.reverse_reverse]
      rw [ht, hs]
      -- what was recorded goes in front of what was still to be replayed
      refine ⟨rfl, h.window_eq, rfl, ⟨consumed, htext, rfl⟩, ⟨ahead, ?_, hfeed⟩, ?_⟩
      · simp [hahead]
      · simp only [hmemory]
        exact .fresh htext
  | overrun _ hwindow =>
      exact absurd (hwithin _ rfl) (Nat.not_le.mpr hwindow)

theorem Matches.rewind_overreaching {n : Nat} (h : Matches text window (some n) t s)
    (hbeyond : window < n) :
    (perform t .rewind).1 = .ok none ∧
      perform s .rewind = (.error (.rewindWindowExceeded window), s) := by
  have hmarks := h.marks
  generalize hmemory : t.marked = memory at hmarks
  generalize hmark : s.marked = mark at hmarks
  cases hmarks with
  | held _ hwindow => exact absurd hwindow (Nat.not_le.mpr hbeyond)
  | overrun =>
      constructor
      · simp only [perform, CharSource.rewind, TextSource.rewind, hmemory]
      · simp only [perform, CharSource.rewind, StreamSource.rewind, hmark, h.window_eq]

theorem Matches.perform (h : Matches text window count t s) {op : SourceOp}
    (hop : ¬ op.Overreaches window count) :
    (CharSource.perform s op).1 = (CharSource.perform t op).1 ∧
      Matches text window (op.since (CharSource.perform t op).1 count)
        (CharSource.perform t op).2 (CharSource.perform s op).2 := by
  cases op with
  | read => exact h.read
  | mark => exact ⟨rfl, h.mark⟩
  | rewind =>
      refine h.rewind fun n hn => Nat.not_lt.mp fun hbeyond => ?_
      exact hop ⟨rfl, n, hn, hbeyond⟩
  | release => exact ⟨rfl, h.release⟩

theorem Matches.fits (h : Matches text window count t s)
    (hlength : text.length + 1 < halfWordLimit) : t.position.Fits := by
  obtain ⟨consumed, htext, hposition⟩ := h.consumed
  have hle : consumed.length ≤ text.length := by simp [htext]
  rw [hposition]
  exact Position.after_fits (by omega)

theorem Matches.inStep (h : Matches text window count t s) (ops : List SourceOp) :
    InStep text window t s count ops := by
  induction ops generalizing count t s with
  | nil => trivial
  | cons op ops ih =>
      constructor
      · rintro ⟨rfl, n, rfl, hbeyond⟩
        obtain ⟨ht, hs⟩ := h.rewind_overreaching hbeyond
        exact ⟨ht, by rw [hs], by rw [hs]⟩
      · intro hop
        obtain ⟨hanswer, hmatches⟩ := h.perform hop
        exact ⟨hanswer, hmatches.position_eq, hmatches.consumed, hmatches.fits, ih hmatches⟩

theorem matches_start {feed : Feed} (hfeed : feed.Serves (Utf8.encode text)) :
    Matches text window none (.ofText text) (ofFeed feed window) :=
  ⟨rfl, rfl, ⟨[], rfl, rfl⟩, ⟨text, rfl, hfeed⟩, .absent⟩

/-- The source over the encoding of a text refines the source over the text, for
every window and every order of the operations. -/
theorem inStep_text (text : List Char) (window : Nat) (ops : List SourceOp) :
    InStep text window (.ofText text) (ofFeed (.ofBytes (Utf8.encode text)) window) none ops :=
  (matches_start (Feed.serves_ofBytes _)).inStep ops

end StreamSource

end Lookahead
