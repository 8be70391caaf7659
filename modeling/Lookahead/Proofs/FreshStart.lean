import Lookahead.Bundled.Demo
import Lookahead.Proofs.Tiling

/-!
A tokenizer keeps no memory of its calls but the place it has come to. Whatever the
calls have answered, those that follow answer as if the tokenizer had just been set up
over what is left of the text, with the positions told from there. Neither the states in
which a scan left its automata nor a mark that it held have a part in the next scan.

Positions are moved by a change of origin. Offsets and lines move all alike, but a column
only as long as no newline has come between: the text before the new origin has its last
line in common with the first line after it, and with no other.
-/
namespace Lookahead

namespace Position

/-- A position seen from the origin, where `p` counts from a start of its own. -/
def shift (origin p : Position) : Position where
  offset := origin.offset + p.offset
  line := origin.line - 1 + p.line
  column := if p.line = 1 then origin.column - 1 + p.column else p.column

theorem shift_advance (origin : Position) {p : Position} (h : 1 ≤ p.line) (c : Char) :
    shift origin (p.advance c) = (shift origin p).advance c := by
  by_cases hnewline : c = '\n'
  · have hlater : p.line + 1 ≠ 1 := by omega
    simp only [shift, advance, hnewline, if_true, if_neg hlater, Nat.add_assoc]
  · by_cases hfirst : p.line = 1
    · simp only [shift, advance, hnewline, hfirst, if_true, if_false, Nat.add_assoc]
    · simp only [shift, advance, hnewline, hfirst, if_false, Nat.add_assoc]

theorem line_advance {p : Position} (h : 1 ≤ p.line) (c : Char) : 1 ≤ (p.advance c).line := by
  unfold advance
  split
  · exact Nat.le_add_left 1 p.line
  · exact h

theorem line_advanceAll {p : Position} (h : 1 ≤ p.line) (text : List Char) :
    1 ≤ (p.advanceAll text).line := by
  induction text generalizing p with
  | nil => exact h
  | cons c text ih => exact ih (line_advance h c)

theorem shift_advanceAll (origin : Position) {p : Position} (h : 1 ≤ p.line)
    (text : List Char) : shift origin (p.advanceAll text) = (shift origin p).advanceAll text := by
  induction text generalizing p with
  | nil => rfl
  | cons c text ih =>
      rw [advanceAll_cons, advanceAll_cons, ih (line_advance h c), shift_advance origin h]

theorem shift_start (text : List Char) : shift (after text) start = after text := by
  simp [shift, start, after, Nat.add_comm]

end Position

def Span.shift (origin : Position) (s : Span) : Span := ⟨origin.shift s.start, origin.shift s.stop⟩

def Token.shift (origin : Position) (t : Token) : Token := { t with span := t.span.shift origin }

def LexerError.shift (origin : Position) : LexerError → LexerError
  | .unrecognizedInput text span => .unrecognizedInput text (span.shift origin)
  | .tokenTooLong max span => .tokenTooLong max (span.shift origin)
  | .illegalState state lexClass => .illegalState state lexClass
  | .input cause => .input cause

/-- The answer of a call, with all its positions seen from the origin. -/
def shiftAnswer (origin : Position) :
    Except LexerError (Option Token) → Except LexerError (Option Token)
  | .ok found => .ok (found.map (Token.shift origin))
  | .error e => .error (e.shift origin)

namespace TextSource

/-- Two sources with the same text to come, one of them seen from the origin of the
other. Their marks may be anything. -/
structure Shifted (origin : Position) (s fresh : TextSource) : Prop where
  rest_eq : s.rest = fresh.rest
  position_eq : s.position = origin.shift fresh.position
  line_pos : 1 ≤ fresh.position.line

theorem StandsAfter.place_eq {s : TextSource} {text consumed : List Char}
    (h : s.StandsAfter (.ofText text) consumed) :
    s.rest = text.drop s.position.offset ∧ s.position = .after (text.take s.position.offset) := by
  have htext : text = consumed ++ s.rest := h.1
  have hoffset : s.position.offset = consumed.length := by
    rw [h.position_eq]
    rfl
  rw [hoffset, htext, List.drop_left, List.take_left]
  exact ⟨rfl, h.position_eq⟩

end TextSource

namespace Scan

/-- One scan from the two sources. The reading is the same, since positions have no part
in it, and every position of the verdict comes from the start by a piece of the text. -/
theorem token_shifted {origin : Position} {s fresh : TextSource} (h : s.Shifted origin fresh)
    (acceptors : List Acceptor) (max : Option Nat) :
    (token acceptors max s).1 = shiftAnswer origin (token acceptors max fresh).1 ∧
      (token acceptors max s).2.Shifted origin (token acceptors max fresh).2 := by
  have haccounts := reading_accounts max (spells_start acceptors) fresh.rest
  have hshift (text : List Char) := Position.shift_advanceAll origin h.line_pos text
  have hline (text : List Char) := Position.line_advanceAll h.line_pos text
  simp only [token_text, h.rest_eq, h.position_eq]
  generalize (start acceptors).reading max fresh.rest = r at haccounts
  cases hstop : r.stop with
  | tooLong max =>
      simp only [Reading.verdict, hstop, ← hshift]
      exact ⟨rfl, rfl, rfl, hline _⟩
  | refused e =>
      obtain ⟨state, lexClass, rfl⟩ := haccounts.refused e hstop
      simp only [Reading.verdict, hstop, ← hshift]
      exact ⟨rfl, rfl, rfl, hline _⟩
  | sated =>
      cases hwinner : r.scan.winner with
      | some lexClass =>
          simp only [Reading.verdict, hstop, hwinner, ← hshift]
          exact ⟨rfl, rfl, rfl, hline _⟩
      | none =>
          simp only [Reading.verdict, hstop, hwinner, ← hshift]
          split
          · exact ⟨rfl, rfl, rfl, hline _⟩
          · exact ⟨rfl, rfl, rfl, hline _⟩

/-- A scan with automata that an earlier scan has used, set back to their start. -/
def resume (automata : List Automaton) (max : Option Nat) (source : TextSource) :
    Except LexerError (Option Token) × TextSource :=
  let s : Scan := ⟨automata.map Automaton.reset, 0, [], [], none⟩
  let (result, source) := s.run max source.position source
  (result, source.release)

theorem resume_eq_token (automata : List Automaton) (max : Option Nat) (source : TextSource) :
    resume automata max source = token (automata.map (·.acceptor)) max source := by
  have hreset : automata.map Automaton.reset =
      (automata.map (·.acceptor)).map Automaton.start := by
    rw [List.map_map]
    rfl
  simp only [resume, hreset]
  rfl

theorem token_marked (acceptors : List Acceptor) (max : Option Nat) (source : TextSource)
    (mark : Option (List Char × Position)) :
    token acceptors max { source with marked := mark } = token acceptors max source := by
  rw [token_text, token_text]

end Scan

namespace Tokenizer

/-- Two tokenizers that are alike but for the origin of their positions and their counts. -/
structure Shifted (origin : Position) (t fresh : Tokenizer TextSource) : Prop where
  acceptors_eq : t.acceptors = fresh.acceptors
  preferences_eq : t.preferences = fresh.preferences
  source : t.source.Shifted origin fresh.source

variable {origin : Position} {t fresh : Tokenizer TextSource}

theorem Shifted.next (h : t.Shifted origin fresh) :
    t.next.result = shiftAnswer origin fresh.next.result ∧
      t.next.rest.Shifted origin fresh.next.rest := by
  obtain ⟨hanswer, hsource⟩ :=
    Scan.token_shifted h.source fresh.acceptors fresh.preferences.maxTokenLength
  simp only [Tokenizer.next, h.acceptors_eq, h.preferences_eq]
  exact ⟨hanswer, rfl, rfl, hsource⟩

theorem Shifted.answer (h : t.Shifted origin fresh) (m : Nat) :
    t.answer m = shiftAnswer origin (fresh.answer m) := by
  induction m generalizing t fresh with
  | zero => exact h.next.1
  | succ m ih =>
      rw [answer_succ, answer_succ]
      exact ih h.next.2

/-- Nothing is left in the tokenizer of what it did before it came to where it stands. -/
structure Forgets (t : Tokenizer TextSource) (text : List Char) (acceptors : List Acceptor)
    (preferences : LexicalPreferences) : Prop where
  /-- It stands after a beginning of the text, without a mark. -/
  place : t.source = ⟨text.drop t.source.position.offset,
    .after (text.take t.source.position.offset), none⟩
  /-- Its calls answer like those of a fresh tokenizer over the rest of the text, with the
  positions seen from where it stands. -/
  answers : ∀ m, t.answer m = shiftAnswer t.source.position
    ((ofText (text.drop t.source.position.offset) acceptors preferences).answer m)
  /-- The next call is the same with automata that are left in any states, and over any
  mark. -/
  resumes : ∀ (automata : List Automaton) (mark : Option (List Char × Position)),
    automata.map (·.acceptor) = acceptors →
    Scan.resume automata preferences.maxTokenLength { t.source with marked := mark } =
      (t.next.result, t.next.rest.source)

section OfText

variable (text : List Char) (acceptors : List Acceptor) (preferences : LexicalPreferences)

theorem marked_afterCalls (n : Nat) :
    ((ofText text acceptors preferences).afterCalls n).source.marked = none := by
  cases n with
  | zero => rfl
  | succ n => rfl

/-- A tokenizer has forgotten its calls, whatever tokens or errors they answered. -/
theorem afterCalls_forgets (n : Nat) :
    ((ofText text acceptors preferences).afterCalls n).Forgets text acceptors preferences := by
  have hmarked := marked_afterCalls text acceptors preferences n
  have hacceptors : ((ofText text acceptors preferences).afterCalls n).acceptors = acceptors :=
    acceptors_afterCalls _ n
  have hpreferences :
      ((ofText text acceptors preferences).afterCalls n).preferences = preferences :=
    preferences_afterCalls _ n
  obtain ⟨consumed, hstands⟩ := afterCalls_stands text acceptors preferences n
  obtain ⟨hrest, hposition⟩ := hstands.place_eq
  generalize (ofText text acceptors preferences).afterCalls n = t at *
  constructor
  · rw [← hrest, ← hposition, ← hmarked]
  · have hshifted : t.Shifted t.source.position
        (ofText (text.drop t.source.position.offset) acceptors preferences) := by
      refine ⟨hacceptors, hpreferences, hrest, ?_, Nat.le_refl 1⟩
      rw [hposition]
      exact (Position.shift_start _).symm
    exact hshifted.answer
  · intro automata mark hautomata
    rw [Scan.resume_eq_token, Scan.token_marked, hautomata, ← hacceptors, ← hpreferences]
    rfl

end OfText

/-- The first call fails on a letter that stands alone, and the tokens after it lie on two
lines. -/
theorem afterCalls_forgets_demo :
    (Demo.acceptors.map fun a => Automaton.mk a 1).map (·.acceptor) = Demo.acceptors ∧
    (∀ m, ((ofText "a &&\nab".toList Demo.acceptors {}).afterCalls 1).answer m =
      shiftAnswer ⟨2, 1, 3⟩ ((ofText "&&\nab".toList Demo.acceptors {}).answer m)) ∧
    (Scan.resume (Demo.acceptors.map fun a => Automaton.mk a 1) none
      ⟨"&&\nab".toList, ⟨2, 1, 3⟩, some ([], .start)⟩).1 =
      (ofText "a &&\nab".toList Demo.acceptors {}).answer 1 := by
  have hautomata : (Demo.acceptors.map fun a => Automaton.mk a 1).map (·.acceptor) =
      Demo.acceptors := rfl
  have hplace : ((ofText "a &&\nab".toList Demo.acceptors {}).afterCalls 1).source =
      ⟨"&&\nab".toList, ⟨2, 1, 3⟩, none⟩ := by decide +kernel
  have hforgets := afterCalls_forgets "a &&\nab".toList Demo.acceptors {} 1
  have hanswers := hforgets.answers
  have hresumes := hforgets.resumes _ (some ([], .start)) hautomata
  rw [hplace] at hanswers hresumes
  exact ⟨hautomata, hanswers, congrArg Prod.fst hresumes⟩

end Tokenizer

end Lookahead
