import Lookahead.Acceptor.Basic
import Lookahead.Token

/-!
One longest-match scan. All automata are fed the same characters until they are
all dead or the input ends. Whenever one of them accepts, everything read so far
becomes the definite text of the token, the first accepting automaton is the
winner, and the source is marked; at the end the source goes back to the mark.
The empty text is never a token.

A scan that fails leaves the source after the last character it read. On every
exit the source is left without a mark.
-/
namespace Lookahead

/-- The state of a scan apart from its source. -/
structure Scan where
  automata : List Automaton
  /-- The number of characters read. -/
  length : Nat
  /-- The text up to the last acceptance, newest character first. -/
  definite : List Char
  /-- The text read since then, newest character first. -/
  tentative : List Char
  /-- The class of the automaton that won the definite text. -/
  winner : Option String

namespace Scan

def start (acceptors : List Acceptor) : Scan :=
  ⟨acceptors.map Automaton.start, 0, [], [], none⟩

/-- Feeds a character to every automaton; the first refusal counts. -/
def stepAll (c : Char) : List Automaton → Except LexerError (List Automaton)
  | [] => .ok []
  | m :: rest =>
      match m.step c with
      | .error e => .error e
      | .ok m =>
          match stepAll c rest with
          | .error e => .error e
          | .ok rest => .ok (m :: rest)

/-- Some automaton may still accept more. -/
def isLive (s : Scan) : Bool := s.automata.any fun m => !m.isDead

/-- The character ended an accepted text. -/
def isSettled (s : Scan) : Bool := s.tentative.isEmpty

def push (s : Scan) (c : Char) : Except LexerError Scan :=
  match stepAll c s.automata with
  | .error e => .error e
  | .ok automata =>
      match automata.find? (·.isAccepting) with
      | some m =>
          .ok ⟨automata, s.length + 1, c :: s.tentative ++ s.definite, [],
            some m.acceptor.lexClass⟩
      | none => .ok ⟨automata, s.length + 1, s.definite, c :: s.tentative, s.winner⟩

def exceeds (max : Option Nat) (length : Nat) : Option Nat :=
  max.filter (· < length)

variable {σ : Type} [CharSource σ]

/-- What a scan that has read all it wanted amounts to. -/
def finish (s : Scan) (start : Position) (source : σ) :
    Except LexerError (Option Token) × σ :=
  match s.winner with
  | some lexClass =>
      match CharSource.rewind source with
      | (.error e, source) => (.error (.input e), source)
      | (.ok (), source) =>
          let span := ⟨start, CharSource.position source⟩
          (.ok (some ⟨String.ofList s.definite.reverse, lexClass, span⟩), source)
  | none =>
      if s.tentative.isEmpty then (.ok none, source)
      else
        (.error (.unrecognizedInput (String.ofList s.tentative.reverse)
          ⟨start, CharSource.position source⟩), source)

/-- Reads on until no automaton is live. -/
def run (max : Option Nat) (start : Position) (s : Scan) (source : σ) :
    Except LexerError (Option Token) × σ :=
  match _h : CharSource.read source with
  | (.error e, source) => (.error (.input e), source)
  | (.ok none, source) => s.finish start source
  | (.ok (some c), source') =>
      match exceeds max (s.length + 1) with
      | some max => (.error (.tokenTooLong max ⟨start, CharSource.position source'⟩), source')
      | none =>
          match s.push c with
          | .error e => (.error e, source')
          | .ok s =>
              let source'' := if s.isSettled then CharSource.mark source' else source'
              if s.isLive then s.run max start source'' else s.finish start source''
termination_by CharSource.remaining source
decreasing_by
  have hread : (CharSource.read source).1 = .ok (some c) := by rw [_h]
  have hlt := CharSource.remaining_read hread
  rw [_h] at hlt
  split
  · rwa [CharSource.remaining_mark]
  · exact hlt

/-- One token from a source. -/
def token (acceptors : List Acceptor) (max : Option Nat) (source : σ) :
    Except LexerError (Option Token) × σ :=
  let (result, source) := (start acceptors).run max (CharSource.position source) source
  (result, CharSource.release source)

theorem remaining_finish {s : Scan} {start : Position} {source : σ} {t : Token}
    (h : (s.finish start source).1 = .ok (some t)) :
    s.winner.isSome ∧
      CharSource.remaining (s.finish start source).2 ≤ CharSource.reach source := by
  unfold finish at h ⊢
  split
  · rename_i lexClass hwinner
    rw [hwinner] at h ⊢
    have hle := @CharSource.remaining_rewind σ _ source
    cases hrewind : CharSource.rewind source with
    | mk answer source' =>
        rw [hrewind] at h hle
        cases answer with
        | error e => cases h
        | ok _ => exact ⟨rfl, hle rfl⟩
  · rename_i hwinner
    rw [hwinner] at h
    simp only at h
    split at h <;> cases h

/-- A push that does not settle keeps the winner. -/
theorem winner_push {s s' : Scan} {c : Char} (h : s.push c = .ok s') :
    s'.isSettled = true ∨ s'.winner = s.winner := by
  unfold push at h
  split at h
  · cases h
  · split at h <;> cases h
    · exact Or.inl rfl
    · exact Or.inr rfl

/-- The source after a character that was pushed: marked if the push settled. -/
theorem remaining_pushed {s s' : Scan} {source source' : σ} {c : Char} {bound : Nat}
    (hread : CharSource.read source = (.ok (some c), source')) (hpush : s.push c = .ok s')
    (hle : CharSource.remaining source ≤ bound)
    (hreach : s.winner.isSome → CharSource.reach source < bound) :
    let source'' := if s'.isSettled then CharSource.mark source' else source'
    CharSource.remaining source'' < bound ∧
      (s'.winner.isSome → CharSource.reach source'' < bound) := by
  have hlt := @CharSource.remaining_read σ _ source c (by rw [hread])
  have hmono := CharSource.reach_read source
  rw [hread] at hlt hmono
  have hlt : CharSource.remaining source' < bound := Nat.lt_of_lt_of_le hlt hle
  cases hsettled : s'.isSettled with
  | true =>
      simp only [if_true]
      exact ⟨by rwa [CharSource.remaining_mark],
        fun _ => Nat.lt_of_le_of_lt (CharSource.reach_mark source') hlt⟩
  | false =>
      have hwinner : s'.winner = s.winner := by
        cases winner_push hpush with
        | inl h => rw [hsettled] at h; cases h
        | inr h => exact h
      simp only [Bool.false_eq_true, if_false]
      exact ⟨hlt, fun h => Nat.lt_of_le_of_lt hmono (hreach (hwinner ▸ h))⟩

/-- A scan that yields a token leaves less to read than there was when it started. -/
theorem remaining_run (max : Option Nat) (start : Position) (bound : Nat) (s : Scan) (source : σ)
    {t : Token} (hle : CharSource.remaining source ≤ bound)
    (hreach : s.winner.isSome → CharSource.reach source < bound)
    (h : (s.run max start source).1 = .ok (some t)) :
    CharSource.remaining (s.run max start source).2 < bound := by
  fun_induction run max start s source with
  | case1 s source e source' hread => cases h
  | case2 s source source' hread =>
      have hmono := CharSource.reach_read source
      rw [hread] at hmono
      have hfinish := remaining_finish h
      exact Nat.lt_of_le_of_lt hfinish.2 (Nat.lt_of_le_of_lt hmono (hreach hfinish.1))
  | case3 s source c source' hread _ _ => cases h
  | case4 s source c source' hread _ e _ => cases h
  | case5 s source c source' hread _ s' hpush source'' hlive ih =>
      have hpushed := remaining_pushed hread hpush hle hreach
      exact ih (Nat.le_of_lt hpushed.1) hpushed.2 h
  | case6 s source c source' hread _ s' hpush source'' hlive =>
      have hpushed := remaining_pushed hread hpush hle hreach
      have hfinish := remaining_finish h
      exact Nat.lt_of_le_of_lt hfinish.2 (hpushed.2 hfinish.1)

theorem remaining_token {acceptors : List Acceptor} {max : Option Nat} {source : σ} {t : Token}
    (h : (token acceptors max source).1 = .ok (some t)) :
    CharSource.remaining (token acceptors max source).2 < CharSource.remaining source := by
  simp only [token, CharSource.remaining_release]
  exact remaining_run max _ _ (start acceptors) source (Nat.le_refl _) (by simp [start]) h

end Scan

end Lookahead
