import Lookahead.Proofs.StreamRefinement
import Lookahead.Proofs.TextScan

/-!
What every character source keeps to. Behind a source stands a text, which may be known
only from the characters that a device yields in spite of its failures. Wherever the
operations have led, the source has handed out a beginning of the text, its position is
the one right after it, and its mark, if it holds one, stands after a beginning as well.
A read that fails hands out nothing, and a rewind without a mark is the only operation
that reports the lack of one.

The laws are stated for a relation between a source and the two beginnings, so that a
proof about sources in general needs to know nothing else of them.
-/
namespace Lookahead

namespace CharSource

variable {σ : Type} [CharSource σ]

/-- The source after operations one after another, whatever they answer. -/
def afterOps (s : σ) (ops : List SourceOp) : σ := ops.foldl (fun s op => (perform s op).2) s

/-- The laws of a source in front of a text. The relation tells what the source has
handed out, and what of it comes before the mark. -/
structure Lawful (text : List Char) (Stands : List Char → Option (List Char) → σ → Prop) :
    Prop where
  initial : ∀ {consumed marked s}, Stands consumed marked s → consumed <+: text
  position : ∀ {consumed marked s}, Stands consumed marked s →
    CharSource.position s = .after consumed
  read_char : ∀ {consumed marked s s' c}, Stands consumed marked s →
    CharSource.read s = (.ok (some c), s') → Stands (consumed ++ [c]) marked s'
  read_end : ∀ {consumed marked s s'}, Stands consumed marked s →
    CharSource.read s = (.ok none, s') → Stands consumed marked s'
  read_failure : ∀ {consumed marked s s' e}, Stands consumed marked s →
    CharSource.read s = (.error e, s') → e ≠ .noActiveMark ∧ Stands consumed marked s'
  mark : ∀ {consumed marked s}, Stands consumed marked s →
    Stands consumed (some consumed) (CharSource.mark s)
  rewind : ∀ {consumed front s}, Stands consumed (some front) s →
    (∃ s', CharSource.rewind s = (.ok (), s') ∧ Stands front (some front) s') ∨
      ∃ e, CharSource.rewind s = (.error e, s) ∧ e ≠ .noActiveMark
  unmarked : ∀ {consumed s}, Stands consumed none s →
    CharSource.rewind s = (.error .noActiveMark, s)
  release : ∀ {consumed marked s}, Stands consumed marked s →
    Stands consumed none (CharSource.release s)

namespace Lawful

variable {text : List Char} {Stands : List Char → Option (List Char) → σ → Prop}

theorem perform (h : Lawful text Stands) {consumed : List Char} {marked : Option (List Char)}
    {s : σ} (hs : Stands consumed marked s) (op : SourceOp) :
    ∃ consumed marked, Stands consumed marked (CharSource.perform s op).2 := by
  cases op with
  | read =>
      simp only [CharSource.perform]
      cases hread : CharSource.read s with
      | mk answer s' =>
          cases answer with
          | error e => exact ⟨_, _, (h.read_failure hs hread).2⟩
          | ok next =>
              cases next with
              | none => exact ⟨_, _, h.read_end hs hread⟩
              | some c => exact ⟨_, _, h.read_char hs hread⟩
  | mark => exact ⟨_, _, h.mark hs⟩
  | rewind =>
      cases marked with
      | none =>
          simp only [CharSource.perform, h.unmarked hs]
          exact ⟨_, _, hs⟩
      | some front =>
          obtain ⟨s', hrewind, hs'⟩ | ⟨e, hrewind, -⟩ := h.rewind hs
          · simp only [CharSource.perform, hrewind]
            exact ⟨_, _, hs'⟩
          · simp only [CharSource.perform, hrewind]
            exact ⟨_, _, hs⟩
  | release => exact ⟨_, _, h.release hs⟩

theorem afterOps (h : Lawful text Stands) {consumed : List Char} {marked : Option (List Char)}
    {s : σ} (hs : Stands consumed marked s) (ops : List SourceOp) :
    ∃ consumed marked, Stands consumed marked (CharSource.afterOps s ops) := by
  induction ops generalizing consumed marked s with
  | nil => exact ⟨consumed, marked, hs⟩
  | cons op ops ih =>
      obtain ⟨consumed', marked', hs'⟩ := h.perform hs op
      exact ih hs'

end Lawful

end CharSource

namespace TextSource

/-- The marks that a source over a text can hold. -/
inductive MarkedAt (text : List Char) :
    Option (List Char) → Option (List Char × Position) → Prop where
  | absent : MarkedAt text none none
  | held {front rest : List Char} (htext : text = front ++ rest) :
      MarkedAt text (some front) (some (rest, .after front))

structure Stands (text consumed : List Char) (marked : Option (List Char)) (s : TextSource) :
    Prop where
  text_eq : text = consumed ++ s.rest
  position_eq : s.position = .after consumed
  mark : MarkedAt text marked s.marked

variable {text consumed : List Char} {marked : Option (List Char)} {s s' : TextSource}

theorem stands_ofText (text : List Char) : Stands text [] none (ofText text) :=
  ⟨rfl, rfl, .absent⟩

theorem Stands.read_char {c : Char} (h : Stands text consumed marked s)
    (hread : CharSource.read s = (.ok (some c), s')) :
    Stands text (consumed ++ [c]) marked s' := by
  obtain ⟨hsource, hposition⟩ := read_eq_some hread
  have htext := h.text_eq
  have hmark := h.mark
  rw [hsource] at htext hmark
  refine ⟨by simpa using htext, ?_, hmark⟩
  rw [hposition, h.position_eq, Position.after_snoc]

theorem Stands.mark_here (h : Stands text consumed marked s) :
    Stands text consumed (some consumed) (CharSource.mark s) := by
  refine ⟨h.text_eq, h.position_eq, ?_⟩
  simp only [CharSource.mark, TextSource.mark, h.position_eq]
  exact .held h.text_eq

theorem Stands.rewind {front : List Char} (h : Stands text consumed (some front) s) :
    ∃ s', CharSource.rewind s = (.ok (), s') ∧ Stands text front (some front) s' := by
  have hmark := h.mark
  generalize hmarked : s.marked = mark at hmark
  cases hmark with
  | @held _ rest htext =>
      refine ⟨⟨rest, .after front, some (rest, .after front)⟩, ?_, htext, rfl, .held htext⟩
      simp only [CharSource.rewind, TextSource.rewind, hmarked]

theorem Stands.unmarked (h : Stands text consumed none s) :
    CharSource.rewind s = (.error .noActiveMark, s) := by
  have hmark := h.mark
  generalize hmarked : s.marked = mark at hmark
  cases hmark with
  | absent => simp only [CharSource.rewind, TextSource.rewind, hmarked]

theorem lawful (text : List Char) : CharSource.Lawful text (Stands text) where
  initial h := ⟨_, h.text_eq.symm⟩
  position h := h.position_eq
  read_char h hread := h.read_char hread
  read_end h hread := by
    obtain ⟨-, rfl⟩ := read_eq_none hread
    exact h
  read_failure h hread := absurd hread read_ne_error
  mark h := h.mark_here
  rewind h := Or.inl h.rewind
  unmarked h := h.unmarked
  release h := ⟨h.text_eq, h.position_eq, .absent⟩

end TextSource

namespace Feed

theorem next_length_lt_of_ne {f : Feed} (h : f.supplies ≠ []) :
    f.next.2.supplies.length < f.supplies.length := by
  unfold next
  split
  · exact attempt_length (by assumption)
  · exact attempt_length (by assumption)
  · split <;> exact List.length_pos_iff.mpr h

/-- Whatever comes of it, reading a character takes something off the feed. -/
theorem nextChar_length_lt_of_ne {f : Feed} (h : f.supplies ≠ []) (offset : Nat) :
    (f.nextChar offset).2.supplies.length < f.supplies.length := by
  have hnext := next_length_lt_of_ne h
  unfold nextChar
  split
  · simp_all
  · simp_all
  · rename_i first f' hfirst
    rw [hfirst] at hnext
    split
    · exact hnext
    · rename_i width _
      have hrest := take_length (width - 1) f'
      split
      · simp_all; omega
      · simp_all; omega
      · split <;> simp_all <;> omega

/-- The character of an answer, if it has one. -/
def decoded : Except InputError (Option Char) → List Char
  | .ok next => next.toList
  | .error _ => []

/-- All the characters of a feed that is read on after every failure. -/
def chars (f : Feed) : List Char :=
  if f.supplies = [] then []
  else decoded (f.nextChar 0).1 ++ (f.nextChar 0).2.chars
termination_by f.supplies.length
decreasing_by exact nextChar_length_lt_of_ne (by assumption) 0

/-- The offset has a part in the error only. -/
theorem nextChar_offset (f : Feed) (offset other : Nat) :
    decoded (f.nextChar offset).1 = decoded (f.nextChar other).1 ∧
      (f.nextChar offset).2 = (f.nextChar other).2 := by
  unfold nextChar
  split
  · exact ⟨rfl, rfl⟩
  · exact ⟨rfl, rfl⟩
  · split
    · exact ⟨rfl, rfl⟩
    · split
      · exact ⟨rfl, rfl⟩
      · exact ⟨rfl, rfl⟩
      · split <;> exact ⟨rfl, rfl⟩

theorem chars_of_empty {f : Feed} (h : f.supplies = []) : f.chars = [] := by
  rw [chars, if_pos h]

theorem nextChar_of_empty {f : Feed} (h : f.supplies = []) (offset : Nat) :
    decoded (f.nextChar offset).1 = [] ∧ (f.nextChar offset).2.supplies = [] := by
  cases hending : f.ending <;> simp [nextChar, next, attempt, h, hending, decoded]

theorem chars_eq (f : Feed) (offset : Nat) :
    f.chars = decoded (f.nextChar offset).1 ++ (f.nextChar offset).2.chars := by
  by_cases hempty : f.supplies = []
  · obtain ⟨hdecoded, hrest⟩ := nextChar_of_empty hempty offset
    rw [chars_of_empty hempty, hdecoded, chars_of_empty hrest, List.append_nil]
  · obtain ⟨hdecoded, hrest⟩ := nextChar_offset f offset 0
    rw [chars, if_neg hempty, hdecoded, hrest]

theorem chars_of_nextChar {f feed : Feed} {offset : Nat}
    {answer : Except InputError (Option Char)} (h : f.nextChar offset = (answer, feed)) :
    f.chars = decoded answer ++ feed.chars := by
  have hchars := f.chars_eq offset
  rwa [h] at hchars

theorem attempt_error {supplies rest : List Supply} {e : InputError}
    (h : attempt supplies = some (.error e, rest)) : ∃ message, e = .io message := by
  induction supplies with
  | nil => cases h
  | cons supply supplies ih =>
      cases supply with
      | byte b => cases h
      | interruption => exact ih h
      | failure message =>
          cases h
          exact ⟨message, rfl⟩

theorem next_error {f f' : Feed} {e : InputError} (h : f.next = (.error e, f')) :
    ∃ message, e = .io message := by
  unfold next at h
  split at h
  · cases h
  · rename_i hattempt
    cases h
    exact attempt_error hattempt
  · split at h
    · cases h
    · cases h
      exact ⟨_, rfl⟩

theorem take_error {n : Nat} {f f' : Feed} {e : InputError} (h : f.take n = (.error e, f')) :
    ∃ message, e = .io message := by
  induction n generalizing f f' with
  | zero => cases h
  | succ n ih =>
      unfold take at h
      split at h
      · rename_i hnext
        cases h
        exact next_error hnext
      · cases h
      · split at h
        · rename_i htake
          cases h
          exact ih htake
        · cases h
        · cases h

/-- A character cannot be read because of the device or of the encoding. -/
theorem nextChar_error {f f' : Feed} {offset : Nat} {e : InputError}
    (h : f.nextChar offset = (.error e, f')) :
    (∃ message, e = .io message) ∨ e = .invalidEncoding offset := by
  unfold nextChar at h
  split at h
  · rename_i hnext
    cases h
    exact Or.inl (next_error hnext)
  · cases h
  · split at h
    · cases h
      exact Or.inr rfl
    · split at h
      · rename_i htake
        cases h
        exact Or.inl (take_error htake)
      · cases h
        exact Or.inr rfl
      · split at h <;> cases h
        exact Or.inr rfl

end Feed

namespace StreamSource

/-- The marks that a source over a feed can hold after it has handed out some characters. -/
inductive MarkedAt (consumed : List Char) : Option (List Char) → Mark → Prop where
  | absent : MarkedAt consumed none .absent
  | held {front recorded : List Char} {recording : SizedList Char}
      (hconsumed : consumed = front ++ recorded)
      (hrecording : recording.toList = recorded.reverse) :
      MarkedAt consumed (some front) (.held (.after front) recording)
  | overrun {front : List Char} : MarkedAt consumed (some front) .overrun

structure Stands (text consumed : List Char) (marked : Option (List Char)) (s : StreamSource) :
    Prop where
  text_eq : text = consumed ++ (s.replay ++ s.feed.chars)
  position_eq : s.position = .after consumed
  mark : MarkedAt consumed marked s.marked

variable {text consumed : List Char} {marked : Option (List Char)} {s s' : StreamSource}

theorem stands_ofFeed (feed : Feed) (window : Nat) :
    Stands feed.chars [] none (ofFeed feed window) :=
  ⟨rfl, rfl, .absent⟩

theorem MarkedAt.record {mark : Mark} (h : MarkedAt consumed marked mark) (window : Nat)
    (c : Char) : MarkedAt (consumed ++ [c]) marked (mark.record window c) := by
  cases h with
  | absent => exact .absent
  | @held front recorded recording hconsumed hrecording =>
      simp only [Mark.record]
      split
      · have hlonger : consumed ++ [c] = front ++ (recorded ++ [c]) := by
          rw [hconsumed, List.append_assoc]
        exact .held hlonger (by simp [SizedList.cons, hrecording])
      · exact .overrun
  | overrun => exact .overrun

/-- What a read can do: it replays a character, or asks the feed for one. -/
theorem read_cases {answer : Except InputError (Option Char)}
    (h : CharSource.read s = (answer, s')) :
    (∃ c replay, s.replay = c :: replay ∧ answer = .ok (some c) ∧
      s' = { s with replay := replay }.pass c) ∨
    (s.replay = [] ∧ ∃ feed, s.feed.nextChar s.position.offset = (answer, feed) ∧
      s' = (Feed.decoded answer).foldl pass { s with feed := feed }) := by
  simp only [CharSource.read, StreamSource.read] at h
  split at h
  · rename_i c replay hreplay
    cases h
    exact Or.inl ⟨c, replay, hreplay, rfl, rfl⟩
  · rename_i hreplay
    refine Or.inr ⟨hreplay, ?_⟩
    split at h <;> rename_i hnext <;> cases h <;> exact ⟨_, hnext, rfl⟩

/-- The source after a character that came from its replay or its feed. -/
theorem Stands.pass {c : Char} {replay : List Char} {feed : Feed}
    (h : Stands text consumed marked s)
    (hahead : s.replay ++ s.feed.chars = c :: (replay ++ feed.chars)) :
    Stands text (consumed ++ [c]) marked
      ({ s with feed := feed, replay := replay }.pass c) := by
  refine ⟨?_, ?_, h.mark.record s.window c⟩
  · rw [h.text_eq, hahead]
    simp [StreamSource.pass]
  · simp only [StreamSource.pass, h.position_eq, Position.after_snoc]

theorem Stands.read_char {c : Char} (h : Stands text consumed marked s)
    (hread : CharSource.read s = (.ok (some c), s')) :
    Stands text (consumed ++ [c]) marked s' := by
  obtain ⟨d, replay, hreplay, hanswer, rfl⟩ | ⟨hreplay, feed, hnext, rfl⟩ := read_cases hread
  · cases hanswer
    exact h.pass (by rw [hreplay, List.cons_append])
  · have hchars := Feed.chars_of_nextChar hnext
    have hahead : s.replay ++ s.feed.chars = c :: (s.replay ++ feed.chars) := by
      rw [hreplay, hchars]
      rfl
    exact h.pass hahead

/-- A read without a character leaves all the characters to come. -/
theorem Stands.read_nothing {answer : Except InputError (Option Char)}
    (h : Stands text consumed marked s) (hread : CharSource.read s = (answer, s'))
    (hanswer : Feed.decoded answer = []) : Stands text consumed marked s' := by
  obtain ⟨d, replay, -, rfl, -⟩ | ⟨hreplay, feed, hnext, rfl⟩ := read_cases hread
  · cases hanswer
  · have hchars := Feed.chars_of_nextChar hnext
    rw [hanswer, List.nil_append] at hchars
    have htext := h.text_eq
    rw [hchars] at htext
    rw [hanswer]
    exact ⟨htext, h.position_eq, h.mark⟩

theorem Stands.read_failure {e : InputError} (h : Stands text consumed marked s)
    (hread : CharSource.read s = (.error e, s')) :
    e ≠ .noActiveMark ∧ Stands text consumed marked s' := by
  refine ⟨?_, h.read_nothing hread rfl⟩
  obtain ⟨d, replay, -, hanswer, -⟩ | ⟨-, feed, hnext, -⟩ := read_cases hread
  · cases hanswer
  · obtain ⟨message, rfl⟩ | rfl := Feed.nextChar_error hnext
    · simp
    · simp

theorem Stands.mark_here (h : Stands text consumed marked s) :
    Stands text consumed (some consumed) (CharSource.mark s) := by
  refine ⟨h.text_eq, h.position_eq, ?_⟩
  simp only [CharSource.mark, StreamSource.mark, h.position_eq]
  exact .held (List.append_nil consumed).symm rfl

theorem Stands.rewind {front : List Char} (h : Stands text consumed (some front) s) :
    (∃ s', CharSource.rewind s = (.ok (), s') ∧ Stands text front (some front) s') ∨
      ∃ e, CharSource.rewind s = (.error e, s) ∧ e ≠ .noActiveMark := by
  have hmark := h.mark
  generalize hmarked : s.marked = mark at hmark
  cases hmark with
  | @held _ recorded recording hconsumed hrecording =>
      refine Or.inl ⟨_, by simp only [CharSource.rewind, StreamSource.rewind, hmarked]; rfl,
        ?_, rfl, .held (List.append_nil front).symm rfl⟩
      simp [h.text_eq, hconsumed, hrecording]
  | overrun =>
      refine Or.inr ⟨.rewindWindowExceeded s.window, ?_, by simp⟩
      simp only [CharSource.rewind, StreamSource.rewind, hmarked]

theorem Stands.unmarked (h : Stands text consumed none s) :
    CharSource.rewind s = (.error .noActiveMark, s) := by
  have hmark := h.mark
  generalize hmarked : s.marked = mark at hmark
  cases hmark with
  | absent => simp only [CharSource.rewind, StreamSource.rewind, hmarked]

theorem lawful (text : List Char) : CharSource.Lawful text (Stands text) where
  initial h := ⟨_, h.text_eq.symm⟩
  position h := h.position_eq
  read_char h hread := h.read_char hread
  read_end h hread := h.read_nothing hread rfl
  read_failure h hread := h.read_failure hread
  mark h := h.mark_here
  rewind h := h.rewind
  unmarked h := h.unmarked
  release h := ⟨h.text_eq, h.position_eq, .absent⟩

end StreamSource

end Lookahead
