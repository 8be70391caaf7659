import Lookahead.Proofs.SourceLaws

/-!
Failed operations on a source over a feed. A read fails only when there is nothing to
replay, and takes away from the feed only; a rewind that fails takes away nothing. So a
failure cannot be noticed before the feed is asked again: what is recorded since the mark
is still there, and a rewind brings it back with the positions that it had.

A source that holds a mark stands where its recording leads to from the mark, and the
recording fits the window. Hence to go back and to read the recording again is to come to
the same state, and this can be repeated.
-/
namespace Lookahead

namespace SizedList

theorem eq_of_toList {α : Type} {l l' : SizedList α} (h : l.toList = l'.toList) : l = l' := by
  cases l with
  | mk toList size size_eq =>
      cases l' with
      | mk toList' size' size_eq' =>
          cases h
          cases size_eq
          cases size_eq'
          rfl

end SizedList

namespace CharSource

variable {σ : Type} [CharSource σ]

/-- What operations answer one after another, with the positions that they lead to. -/
def transcript (s : σ) : List SourceOp → List (Except InputError (Option Char) × Position)
  | [] => []
  | op :: ops =>
      ((perform s op).1, position (perform s op).2) :: transcript (perform s op).2 ops

theorem afterOps_append (s : σ) (ops more : List SourceOp) :
    afterOps s (ops ++ more) = afterOps (afterOps s ops) more :=
  List.foldl_append

/-- An operation that fails and leaves the source as it is, is as good as none. -/
theorem afterOps_failed {s : σ} {op : SourceOp} {e : InputError}
    (h : perform s op = (.error e, s)) (more : List SourceOp) :
    afterOps s (op :: more) = afterOps s more ∧
      transcript s (op :: more) = (.error e, position s) :: transcript s more := by
  constructor
  · simp only [afterOps, List.foldl_cons, h]
  · simp only [transcript, h]

end CharSource

namespace StreamSource

open CharSource (perform afterOps transcript)

variable {s s' : StreamSource}

/-- The source in the same state over another feed. -/
def withFeed (s : StreamSource) (feed : Feed) : StreamSource := { s with feed := feed }

/-- No read among the operations has to ask the feed. -/
def Replays (s : StreamSource) : List SourceOp → Prop
  | [] => True
  | op :: ops => (op = .read → s.replay ≠ []) ∧ Replays (perform s op).2 ops

theorem rewind_withFeed (s : StreamSource) (feed : Feed) :
    CharSource.rewind (s.withFeed feed) =
      ((CharSource.rewind s).1, (CharSource.rewind s).2.withFeed feed) := by
  cases s with
  | mk _ window replay marked position => cases marked <;> rfl

theorem perform_withFeed (feed : Feed) {op : SourceOp} (h : op = .read → s.replay ≠ []) :
    perform (s.withFeed feed) op = ((perform s op).1, (perform s op).2.withFeed feed) := by
  cases op with
  | read =>
      obtain ⟨c, replay, hreplay⟩ := List.exists_cons_of_ne_nil (h rfl)
      simp only [perform, CharSource.read, StreamSource.read, withFeed, hreplay]
      rfl
  | rewind =>
      simp only [perform, rewind_withFeed]
      cases CharSource.rewind s with
      | mk answer s' => cases answer <;> rfl
  | mark | release => rfl

/-- The feed has no part in operations that are served from the replay. -/
theorem transcript_withFeed (feed : Feed) {ops : List SourceOp} (h : s.Replays ops) :
    transcript (s.withFeed feed) ops = transcript s ops := by
  induction ops generalizing s with
  | nil => rfl
  | cons op ops ih =>
      simp only [transcript, perform_withFeed feed h.1]
      rw [ih h.2]
      rfl

theorem read_failed {e : InputError} (h : CharSource.read s = (.error e, s')) :
    s.replay = [] ∧ s' = s.withFeed s'.feed := by
  obtain ⟨c, replay, -, hanswer, -⟩ | ⟨hreplay, feed, -, rfl⟩ := read_cases h
  · cases hanswer
  · exact ⟨hreplay, rfl⟩

/-- A rewind fails for want of a mark that is held, and changes nothing. -/
theorem rewind_failed {e : InputError} (h : CharSource.rewind s = (.error e, s')) :
    s' = s ∧ ∀ position recording, s.marked ≠ .held position recording := by
  simp only [CharSource.rewind, StreamSource.rewind] at h
  cases hmarked : s.marked with
  | held position recording =>
      rw [hmarked] at h
      cases h
  | absent | overrun =>
      rw [hmarked] at h
      cases h
      exact ⟨rfl, by simp⟩

/-- A mark that is held has a recording that fits the window and leads from the mark to
where the source stands. -/
def Recorded (s : StreamSource) : Prop :=
  ∀ position recording, s.marked = .held position recording →
    recording.size ≤ s.window ∧ s.position = position.advanceAll recording.toList.reverse

theorem recorded_mark (s : StreamSource) : (CharSource.mark s).Recorded := by
  intro position recording hheld
  cases hheld
  exact ⟨Nat.zero_le _, rfl⟩

theorem Recorded.pass (h : s.Recorded) (c : Char) : (s.pass c).Recorded := by
  intro position recording hheld
  simp only [StreamSource.pass] at hheld ⊢
  cases hmarked : s.marked with
  | absent | overrun =>
      rw [hmarked] at hheld
      cases hheld
  | held position' recording' =>
      obtain ⟨-, hposition⟩ := h position' recording' hmarked
      rw [hmarked, Mark.record] at hheld
      split at hheld
      · rename_i hroom
        cases hheld
        refine ⟨hroom, ?_⟩
        simp only [SizedList.cons, List.reverse_cons, Position.advanceAll_append, ← hposition]
        rfl
      · cases hheld

theorem Recorded.performed (h : s.Recorded) (op : SourceOp) : (perform s op).2.Recorded := by
  cases op with
  | read =>
      simp only [CharSource.perform]
      cases hread : CharSource.read s with
      | mk answer s' =>
          obtain ⟨c, replay, -, -, rfl⟩ | ⟨-, feed, -, rfl⟩ := read_cases hread
          · exact Recorded.pass h c
          · cases answer with
            | error e => exact h
            | ok next =>
                cases next with
                | none => exact h
                | some c => exact Recorded.pass h c
  | mark => exact recorded_mark s
  | rewind =>
      simp only [CharSource.perform, CharSource.rewind, StreamSource.rewind]
      cases hmarked : s.marked with
      | absent | overrun => exact h
      | held position recording =>
          intro position' recording' hheld
          cases hheld
          exact ⟨Nat.zero_le _, rfl⟩
  | release =>
      intro position recording hheld
      cases hheld

theorem recorded_afterOps (feed : Feed) (window : Nat) (ops : List SourceOp) :
    (afterOps (ofFeed feed window) ops).Recorded := by
  have hstart : (ofFeed feed window).Recorded := by
    intro position recording hheld
    cases hheld
  generalize ofFeed feed window = s at hstart
  induction ops generalizing s with
  | nil => exact hstart
  | cons op ops ih => exact ih _ (hstart.performed op)

/-- The answers of reading a text from some position on. -/
def handedOut : Position → List Char → List (Except InputError (Option Char) × Position)
  | _, [] => []
  | p, c :: text => (.ok (some c), p.advance c) :: handedOut (p.advance c) text

/-- Reading what is to be replayed while it fits the window puts it into the recording. -/
theorem replay_all {feed : Feed} {window : Nat} {front rest : List Char} {mark p : Position}
    {recording : SizedList Char} (hroom : recording.size + front.length ≤ window) :
    let s : StreamSource := ⟨feed, window, front ++ rest, .held mark recording, p⟩
    s.Replays (.replicate front.length .read) ∧
      transcript s (.replicate front.length .read) = handedOut p front ∧
      afterOps s (.replicate front.length .read) =
        ⟨feed, window, rest, .held mark (recording.prepend front.reverse), p.advanceAll front⟩ := by
  induction front generalizing recording p with
  | nil =>
      refine ⟨trivial, rfl, ?_⟩
      simp [afterOps, Position.advanceAll, SizedList.prepend]
  | cons c front ih =>
      rw [List.length_cons] at hroom
      have hrecord : Mark.record window c (.held mark recording) =
          .held mark (recording.cons c) := by
        simp only [Mark.record, if_pos (show recording.size < window by omega)]
      have hperform : perform (⟨feed, window, c :: front ++ rest, .held mark recording, p⟩ :
          StreamSource) .read = (.ok (some c),
            ⟨feed, window, front ++ rest, .held mark (recording.cons c), p.advance c⟩) := by
        simp only [perform, CharSource.read, StreamSource.read, List.cons_append, pass, hrecord]
      have hsize : (recording.cons c).size + front.length ≤ window := by
        simp only [SizedList.cons]
        omega
      have hrecording : (recording.cons c).prepend front.reverse =
          recording.prepend (c :: front).reverse :=
        SizedList.eq_of_toList (by simp [SizedList.prepend, SizedList.cons])
      obtain ⟨hreplays, htranscript, hafter⟩ := @ih (p.advance c) (recording.cons c) hsize
      refine ⟨⟨by simp, ?_⟩, ?_, ?_⟩
      · rw [hperform]
        exact hreplays
      · simp only [List.length_cons, List.replicate_succ, transcript, hperform, htranscript]
        rfl
      · simp only [List.length_cons, List.replicate_succ, afterOps, List.foldl_cons, hperform]
        rw [← hrecording]
        exact hafter

/-- To go back to the mark and to read the recording again leads to where the source was. -/
theorem Recorded.rewind_replay (h : s.Recorded) (hreplay : s.replay = []) {position : Position}
    {recording : SizedList Char} (hheld : s.marked = .held position recording) :
    let ops := SourceOp.rewind :: .replicate recording.size .read
    s.Replays ops ∧
      transcript s ops = (.ok none, position) :: handedOut position recording.toList.reverse ∧
      afterOps s ops = s := by
  obtain ⟨hwindow, hposition⟩ := h position recording hheld
  have hsize : recording.toList.reverse.length = recording.size := by
    rw [List.length_reverse, recording.size_eq]
  have hperform : perform s .rewind = (.ok none,
      ⟨s.feed, s.window, recording.toList.reverse ++ [], .held position .nil, position⟩) := by
    simp only [perform, CharSource.rewind, StreamSource.rewind, hheld, hreplay]
  have hroom : (.nil : SizedList Char).size + recording.toList.reverse.length ≤ s.window := by
    simpa [SizedList.nil, hsize] using hwindow
  obtain ⟨hreplays, htranscript, hafter⟩ :=
    @replay_all s.feed s.window recording.toList.reverse [] position position .nil hroom
  rw [hsize] at hreplays htranscript hafter
  have hrecording : (.nil : SizedList Char).prepend recording.toList.reverse.reverse = recording :=
    SizedList.eq_of_toList (by simp [SizedList.prepend, SizedList.nil])
  refine ⟨⟨by simp, ?_⟩, ?_, ?_⟩
  · rw [hperform]
    exact hreplays
  · simp only [transcript, hperform, htranscript]
    rfl
  · simp only [afterOps, List.foldl_cons, hperform] at hafter ⊢
    rw [hafter, hrecording, ← hposition, ← hheld, ← hreplay]

/-- What a failed read leaves of a source. -/
structure Intact (s s' : StreamSource) : Prop where
  /-- It failed because of the feed, and only the feed has changed. -/
  exhausted : s.replay = []
  unchanged : s' = s.withFeed s'.feed
  /-- A rewind has the same result as before. -/
  rewind : CharSource.rewind s' =
    ((CharSource.rewind s).1, (CharSource.rewind s).2.withFeed s'.feed)
  /-- Operations that do not ask the feed again go on as if nothing had happened. -/
  unnoticed : ∀ ops, s.Replays ops → transcript s' ops = transcript s ops
  /-- After a rewind the recording is handed out again, from the mark on, as it would have
  been before, and leads back to the source as the failed read left it. -/
  replayed : ∀ position recording, s.marked = .held position recording →
    let ops := SourceOp.rewind :: .replicate recording.size .read
    s.Replays ops ∧
      transcript s' ops = (.ok none, position) :: handedOut position recording.toList.reverse ∧
      afterOps s' ops = s'

/-- Operations that fail leave the source intact, in every state that operations can lead
to and with any failures of the feed. -/
theorem afterOps_intact (feed : Feed) (window : Nat) (ops : List SourceOp) :
    let s := afterOps (ofFeed feed window) ops
    (∀ e s', CharSource.read s = (.error e, s') → s.Intact s') ∧
    (∀ e s', CharSource.rewind s = (.error e, s') →
      s' = s ∧ (∀ position recording, s.marked ≠ .held position recording) ∧
      ∀ more,
        afterOps (ofFeed feed window) (ops ++ .rewind :: more) =
          afterOps (ofFeed feed window) (ops ++ more) ∧
        transcript s (.rewind :: more) = (.error e, s.position) :: transcript s more) := by
  intro s
  have hrecorded : s.Recorded := recorded_afterOps feed window ops
  constructor
  · intro e s' hread
    obtain ⟨hreplay, hs'⟩ := read_failed hread
    have hrecorded' : s'.Recorded := by
      have hperformed := hrecorded.performed .read
      rwa [show perform s .read = (.error e, s') from hread] at hperformed
    have hreplay' : s'.replay = [] := by
      rw [hs']
      exact hreplay
    constructor
    · exact hreplay
    · exact hs'
    · rw [← rewind_withFeed, ← hs']
    · intro later hreplays
      rw [hs']
      exact transcript_withFeed s'.feed hreplays
    · intro position recording hheld
      have hheld' : s'.marked = .held position recording := by
        rw [hs']
        exact hheld
      obtain ⟨hreplays, -, -⟩ := hrecorded.rewind_replay hreplay hheld
      obtain ⟨-, htranscript, hafter⟩ := hrecorded'.rewind_replay hreplay' hheld'
      exact ⟨hreplays, htranscript, hafter⟩
  · intro e s' hrewind
    obtain ⟨rfl, hmarked⟩ := rewind_failed hrewind
    have hperform : perform s .rewind = (.error e, s) := by
      simp only [perform, hrewind]
    refine ⟨rfl, hmarked, ?_⟩
    intro more
    obtain ⟨hafter, htranscript⟩ := CharSource.afterOps_failed hperform more
    refine ⟨?_, htranscript⟩
    rw [CharSource.afterOps_append, CharSource.afterOps_append]
    exact hafter

-- the device fails within the second character, and goes on with a third one
example : transcript (ofFeed ⟨[.byte 0x61, .byte 0xCE, .failure "reset", .byte 0x62], .finished⟩ 1)
    [.mark, .read, .read, .rewind, .read, .read] =
      [(.ok none, ⟨0, 1, 1⟩), (.ok (some 'a'), ⟨1, 1, 2⟩), (.error (.io "reset"), ⟨1, 1, 2⟩),
        (.ok none, ⟨0, 1, 1⟩), (.ok (some 'a'), ⟨1, 1, 2⟩), (.ok (some 'b'), ⟨2, 1, 3⟩)] := rfl

end StreamSource

end Lookahead
