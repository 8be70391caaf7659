import Lookahead.Lexer.Scan
import Lookahead.Proofs.Positions
import Lookahead.Source.Text

/-!
A scan over a text in memory, as a recursion over the text. The loop of a scan
reads from a source, moves its mark and returns to it; over a text all of that
comes down to one pass over the characters, which is `reading`, and a verdict on
what the pass has found. No contract of the acceptors is used here.
-/
namespace Lookahead

namespace TextSource

def StandsAfter (s origin : TextSource) (text : List Char) : Prop :=
  origin.rest = text ++ s.rest ∧ s.position = origin.position.advanceAll text

theorem read_eq_none {s s' : TextSource} (h : CharSource.read s = (.ok none, s')) :
    s.rest = [] ∧ s' = s := by
  cases s with
  | mk rest position marked =>
      cases rest with
      | nil => cases h; exact ⟨rfl, rfl⟩
      | cons c rest => cases h

theorem read_eq_some {s s' : TextSource} {c : Char}
    (h : CharSource.read s = (.ok (some c), s')) :
    s = ⟨c :: s'.rest, s.position, s'.marked⟩ ∧ s'.position = s.position.advance c := by
  cases s with
  | mk rest position marked =>
      cases rest with
      | nil => cases h
      | cons d rest => cases h; exact ⟨rfl, rfl⟩

theorem read_ne_error {s s' : TextSource} {e : InputError} :
    CharSource.read s ≠ (.error e, s') := by
  cases s with
  | mk rest position marked => cases rest <;> intro h <;> cases h

end TextSource

namespace Scan

/-- Why a scan stops reading; it is sated at the end of the text, or if no automaton is live. -/
inductive Stop where
  | sated
  | tooLong (max : Nat)
  | refused (cause : LexerError)

structure Reading where
  stop : Stop
  /-- The scan after the last character that reached its automata. -/
  scan : Scan
  taken : List Char
  rest : List Char

def reading (max : Option Nat) (s : Scan) : List Char → Reading
  | [] => ⟨.sated, s, [], []⟩
  | c :: rest =>
      match exceeds max (s.length + 1) with
      | some max => ⟨.tooLong max, s, [c], rest⟩
      | none =>
          match s.push c with
          | .error e => ⟨.refused e, s, [c], rest⟩
          | .ok s' =>
              if s'.isLive then
                let later := s'.reading max rest
                { later with taken := c :: later.taken }
              else ⟨.sated, s', [c], rest⟩

/-- What a reading amounts to, for a scan that started at one position and has
come to another. -/
def Reading.verdict (r : Reading) (start here : Position) :
    Except LexerError (Option Token) × TextSource :=
  match r.stop with
  | .tooLong max => (.error (.tokenTooLong max ⟨start, here⟩), ⟨r.rest, here, none⟩)
  | .refused e => (.error e, ⟨r.rest, here, none⟩)
  | .sated =>
      match r.scan.winner with
      | some lexClass =>
          let stop := start.advanceAll r.scan.definite.reverse
          (.ok (some ⟨String.ofList r.scan.definite.reverse, lexClass, ⟨start, stop⟩⟩),
            ⟨r.scan.tentative.reverse ++ r.rest, stop, none⟩)
      | none =>
          if r.scan.tentative.isEmpty then (.ok none, ⟨r.rest, here, none⟩)
          else
            (.error (.unrecognizedInput (String.ofList r.scan.tentative.reverse) ⟨start, here⟩),
              ⟨r.rest, here, none⟩)

theorem Reading.verdict_eq_token {r : Reading} {origin here : Position} {t : Token}
    (h : (r.verdict origin here).1 = .ok (some t)) :
    r.stop = .sated ∧ r.scan.winner = some t.lexClass ∧
      t.value = String.ofList r.scan.definite.reverse := by
  cases hstop : r.stop with
  | tooLong max | refused e =>
      simp only [verdict, hstop] at h
      cases h
  | sated =>
      cases hwinner : r.scan.winner with
      | some lexClass =>
          simp only [verdict, hstop, hwinner] at h
          cases h
          exact ⟨rfl, rfl, rfl⟩
      | none =>
          simp only [verdict, hstop, hwinner] at h
          split at h <;> cases h

/-- The mark of the source stands at the end of the definite text. -/
def MarkedAt (s : Scan) (start : Position) (source : TextSource) : Prop :=
  s.winner.isSome →
    source.marked =
      some (s.tentative.reverse ++ source.rest, start.advanceAll s.definite.reverse)

/-- Every character read is in the definite or in the tentative text. -/
def Covers (s : Scan) (start : Position) (source : TextSource) : Prop :=
  source.position = start.advanceAll (s.definite.reverse ++ s.tentative.reverse)

theorem push_cases {s s' : Scan} {c : Char} (h : s.push c = .ok s') :
    ∃ automata, stepAll c s.automata = .ok automata ∧
      ((∃ m, automata.find? (·.isAccepting) = some m ∧
          s' = ⟨automata, s.length + 1, c :: s.tentative ++ s.definite, [],
            some m.acceptor.lexClass⟩) ∨
        (automata.find? (·.isAccepting) = none ∧
          s' = ⟨automata, s.length + 1, s.definite, c :: s.tentative, s.winner⟩)) := by
  simp only [push] at h
  split at h
  · cases h
  · rename_i automata hstep
    refine ⟨automata, hstep, ?_⟩
    split at h
    · rename_i m hfind
      cases h
      exact Or.inl ⟨m, hfind, rfl⟩
    · rename_i hfind
      cases h
      exact Or.inr ⟨hfind, rfl⟩

theorem pushed_text {s s' : Scan} {start : Position} {source source' : TextSource} {c : Char}
    (hread : CharSource.read source = (.ok (some c), source')) (hpush : s.push c = .ok s')
    (hcovers : s.Covers start source) (hmarked : s.MarkedAt start source) :
    let source'' := if s'.isSettled then CharSource.mark source' else source'
    (s'.Covers start source'' ∧ s'.MarkedAt start source'') ∧
      source''.rest = source'.rest ∧ source''.position = source'.position := by
  obtain ⟨hsource, hposition⟩ := TextSource.read_eq_some hread
  have hhere : source'.position =
      start.advanceAll (s.definite.reverse ++ s.tentative.reverse ++ [c]) := by
    rw [Position.advanceAll_append, ← hcovers, hposition]
    rfl
  obtain ⟨automata, -, ⟨m, -, rfl⟩ | ⟨-, rfl⟩⟩ := push_cases hpush
  · refine ⟨⟨?_, ?_⟩, rfl, rfl⟩
    · simpa [Covers, CharSource.mark, TextSource.mark, isSettled] using hhere
    · intro _
      simpa [CharSource.mark, TextSource.mark, isSettled] using hhere
  · refine ⟨⟨?_, ?_⟩, rfl, rfl⟩
    · simpa [Covers, isSettled] using hhere
    · intro hwinner
      have hmark := hmarked hwinner
      rw [hsource] at hmark
      simpa [isSettled] using hmark

theorem finish_text {s : Scan} {start : Position} {source : TextSource}
    (hmarked : s.MarkedAt start source) (taken : List Char) :
    ((s.finish start source).1, CharSource.release (s.finish start source).2) =
      Reading.verdict ⟨.sated, s, taken, source.rest⟩ start source.position := by
  cases hwinner : s.winner with
  | some lexClass =>
      have hrewind : CharSource.rewind source =
          (.ok (), { source with
            rest := s.tentative.reverse ++ source.rest
            position := start.advanceAll s.definite.reverse }) := by
        simp [CharSource.rewind, TextSource.rewind, hmarked (by simp [hwinner])]
      simp only [finish, Reading.verdict, hwinner, hrewind]
      rfl
  | none =>
      simp only [finish, Reading.verdict, hwinner]
      split <;> rfl

theorem run_text (max : Option Nat) (start : Position) (s : Scan) (source : TextSource)
    (hcovers : s.Covers start source) (hmarked : s.MarkedAt start source) :
    ((s.run max start source).1, CharSource.release (s.run max start source).2) =
      (s.reading max source.rest).verdict start
        (source.position.advanceAll (s.reading max source.rest).taken) := by
  fun_induction run max start s source with
  | case1 s source e source' hread => exact absurd hread TextSource.read_ne_error
  | case2 s source source' hread =>
      obtain ⟨hrest, rfl⟩ := TextSource.read_eq_none hread
      have hfinish := finish_text hmarked []
      rw [hrest] at hfinish ⊢
      exact hfinish
  | case3 s source c source' hread limit hexceeds =>
      obtain ⟨hsource, hposition⟩ := TextSource.read_eq_some hread
      rw [hsource]
      simp only [reading, hexceeds, Reading.verdict, Position.advanceAll_cons, ← hposition]
      rfl
  | case4 s source c source' hread hexceeds e hpush =>
      obtain ⟨hsource, hposition⟩ := TextSource.read_eq_some hread
      rw [hsource]
      simp only [reading, hexceeds, hpush, Reading.verdict, Position.advanceAll_cons, ← hposition]
      rfl
  | case5 s source c source' hread hexceeds s' hpush source'' hlive ih =>
      obtain ⟨hsource, hposition⟩ := TextSource.read_eq_some hread
      have hpushed : (s'.Covers start source'' ∧ s'.MarkedAt start source'') ∧
          source''.rest = source'.rest ∧ source''.position = source'.position :=
        pushed_text hread hpush hcovers hmarked
      obtain ⟨⟨hcovers', hmarked'⟩, hrest', hposition'⟩ := hpushed
      rw [hsource]
      simp only [reading, hexceeds, hpush, hlive, if_true, Position.advanceAll_cons, ← hposition]
      rw [ih hcovers' hmarked', hrest', hposition']
      rfl
  | case6 s source c source' hread hexceeds s' hpush source'' hlive =>
      obtain ⟨hsource, hposition⟩ := TextSource.read_eq_some hread
      have hpushed : (s'.Covers start source'' ∧ s'.MarkedAt start source'') ∧
          source''.rest = source'.rest ∧ source''.position = source'.position :=
        pushed_text hread hpush hcovers hmarked
      obtain ⟨⟨-, hmarked'⟩, hrest', hposition'⟩ := hpushed
      rw [hsource]
      simp only [reading, hexceeds, hpush, hlive, Bool.false_eq_true, if_false,
        Position.advanceAll_cons, ← hposition]
      rw [finish_text hmarked' [c], hrest', hposition']
      rfl

theorem token_text (acceptors : List Acceptor) (max : Option Nat) (source : TextSource) :
    token acceptors max source =
      ((start acceptors).reading max source.rest).verdict source.position
        (source.position.advanceAll ((start acceptors).reading max source.rest).taken) :=
  run_text max source.position (start acceptors) source rfl (by simp [MarkedAt, start])

end Scan

end Lookahead
