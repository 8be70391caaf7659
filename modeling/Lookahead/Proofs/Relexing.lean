import Lookahead.Proofs.EntryPoints
import Lookahead.Proofs.Tiling

/-!
What a scan reports is a lexeme by itself. The text of a token ends where some automaton
accepted for the last time, and what the scan read after it was given back; the text of an
input that nothing accepts is all that the scan read. If the input ends right there, the
scan meets the same characters in the same states, and comes to the same answer.

The two scans may stop for different reasons. One that stops at the end of the input would
have gone on if an automaton was live, and one that stops since none is live has not come
to see the end. Nothing is assumed of the acceptors.
-/
namespace Lookahead

namespace Scan

variable {max : Option Nat} {s s' last : Scan} {c : Char} {text rest : List Char}

/-- A reading that took all it wanted did not meet the limit, and went on after a character
only if an automaton was live. -/
theorem sated_cons_cases (h : (s.reading max (c :: rest)).stop = .sated) :
    ∃ s', exceeds max (s.length + 1) = none ∧ s.push c = .ok s' ∧
      ((s'.isLive = true ∧ (s'.reading max rest).stop = .sated ∧
          s.reading max (c :: rest) = { s'.reading max rest with
            taken := c :: (s'.reading max rest).taken }) ∨
        s.reading max (c :: rest) = ⟨.sated, s', [c], rest⟩) := by
  cases hexceeds : exceeds max (s.length + 1) with
  | some limit =>
      simp only [reading, hexceeds] at h
      cases h
  | none =>
      cases hpush : s.push c with
      | error e =>
          simp only [reading, hexceeds, hpush] at h
          cases h
      | ok s' =>
          refine ⟨s', rfl, rfl, ?_⟩
          cases hlive : s'.isLive with
          | true =>
              have hreading : s.reading max (c :: rest) = { s'.reading max rest with
                  taken := c :: (s'.reading max rest).taken } := by
                simp only [reading, hexceeds, hpush, hlive, if_true]
              rw [hreading] at h
              exact Or.inl ⟨rfl, h, hreading⟩
          | false =>
              refine Or.inr ?_
              simp only [reading, hexceeds, hpush, hlive, Bool.false_eq_true, if_false]

/-- The text by itself is read to its end, and leaves the scan in the given state. -/
def ReadsTo (max : Option Nat) (s : Scan) (text : List Char) (s' : Scan) : Prop :=
  s.reading max text = ⟨.sated, s', text, []⟩

/-- One character is read to its end whether or not an automaton is live after it. -/
theorem readsTo_single (hexceeds : exceeds max (s.length + 1) = none)
    (hpush : s.push c = .ok s') : s.ReadsTo max [c] s' := by
  cases hlive : s'.isLive with
  | true => simp only [ReadsTo, reading, hexceeds, hpush, hlive, if_true]
  | false => simp only [ReadsTo, reading, hexceeds, hpush, hlive, Bool.false_eq_true, if_false]

theorem ReadsTo.cons (hexceeds : exceeds max (s.length + 1) = none) (hpush : s.push c = .ok s')
    (hlive : s'.isLive = true) (h : s'.ReadsTo max text last) :
    s.ReadsTo max (c :: text) last := by
  have hlater : s'.reading max text = ⟨.sated, last, text, []⟩ := h
  simp only [ReadsTo, reading, hexceeds, hpush, hlive, if_true, hlater]

/-- What is left of a text has no part in a reading that took all it wanted. -/
theorem readsTo_taken (h : (s.reading max rest).stop = .sated) :
    s.ReadsTo max (s.reading max rest).taken (s.reading max rest).scan := by
  induction rest generalizing s with
  | nil => rfl
  | cons c rest ih =>
      obtain ⟨s', hexceeds, hpush, ⟨hlive, hlater, hreading⟩ | hreading⟩ := sated_cons_cases h
      · rw [hreading]
        exact (ih hlater).cons hexceeds hpush hlive
      · rw [hreading]
        exact readsTo_single hexceeds hpush

/-- What the scan settled on is what it settles on at the end of some text by itself. -/
def SettlesAlone (max : Option Nat) (s : Scan) (definite : List Char)
    (winner : Option String) : Prop :=
  ∃ text settled, s.ReadsTo max text settled ∧ settled.tentative = [] ∧
    settled.definite = definite ∧ settled.winner = winner

theorem settlesAlone_push (hexceeds : exceeds max (s.length + 1) = none)
    (hpush : s.push c = .ok s') :
    s.SettlesAlone max s'.definite s'.winner ∨
      (s'.definite = s.definite ∧ s'.winner = s.winner) := by
  have hsingle := readsTo_single hexceeds hpush
  obtain ⟨automata, -, ⟨m, -, rfl⟩ | ⟨-, rfl⟩⟩ := push_cases hpush
  · exact Or.inl ⟨[c], _, hsingle, rfl, rfl, rfl⟩
  · exact Or.inr ⟨rfl, rfl⟩

/-- A scan has settled for the last time at some character, or not since it was in the
state `s`. -/
theorem settlesAlone_reading (h : (s.reading max rest).stop = .sated) :
    s.SettlesAlone max (s.reading max rest).scan.definite (s.reading max rest).scan.winner ∨
      ((s.reading max rest).scan.definite = s.definite ∧
        (s.reading max rest).scan.winner = s.winner) := by
  induction rest generalizing s with
  | nil => exact Or.inr ⟨rfl, rfl⟩
  | cons c rest ih =>
      obtain ⟨s', hexceeds, hpush, ⟨hlive, hlater, hreading⟩ | hreading⟩ := sated_cons_cases h
      · rw [hreading]
        obtain ⟨text, settled, hreads, hsettled⟩ | ⟨hdefinite, hwinner⟩ := ih hlater
        · exact Or.inl ⟨c :: text, settled, hreads.cons hexceeds hpush hlive, hsettled⟩
        · simp only [hdefinite, hwinner]
          exact settlesAlone_push hexceeds hpush
      · rw [hreading]
        exact settlesAlone_push hexceeds hpush

theorem Reading.verdict_eq_unrecognized {r : Reading} {origin here : Position}
    {offence : String} {span : Span}
    (h : (r.verdict origin here).1 = .error (.unrecognizedInput offence span))
    (haccounts : r.Accounts text rest) :
    r.stop = .sated ∧ r.scan.winner = none ∧ r.scan.tentative ≠ [] ∧
      offence = String.ofList r.scan.tentative.reverse := by
  cases hstop : r.stop with
  | tooLong limit =>
      simp only [verdict, hstop] at h
      cases h
  | refused e =>
      obtain ⟨state, lexClass, rfl⟩ := haccounts.refused e hstop
      simp only [verdict, hstop] at h
      cases h
  | sated =>
      cases hwinner : r.scan.winner with
      | some lexClass =>
          simp only [verdict, hstop, hwinner] at h
          cases h
      | none =>
          simp only [verdict, hstop, hwinner] at h
          split at h
          · cases h
          · rename_i hempty
            cases h
            exact ⟨rfl, rfl, by simpa using hempty, rfl⟩

/-- A text that is read to its end decides the answer of a scan over it alone. -/
theorem token_alone {acceptors : List Acceptor} (h : (start acceptors).ReadsTo max text last) :
    token acceptors max (.ofText text) =
      Reading.verdict ⟨.sated, last, text, []⟩ .start (.after text) := by
  have hreading : (start acceptors).reading max text = ⟨.sated, last, text, []⟩ := h
  rw [token_text]
  simp only [TextSource.ofText, hreading, Position.start_advanceAll]

/-- The text that a scan has settled on is all that it reads if nothing comes after it. -/
theorem ReadsTo.definite_eq {acceptors : List Acceptor}
    (h : (start acceptors).ReadsTo max text last) (hsettled : last.tentative = []) :
    last.definite.reverse = text := by
  have hreading : (start acceptors).reading max text = ⟨.sated, last, text, []⟩ := h
  have haccounts := reading_accounts max (spells_start acceptors) text
  rw [hreading] at haccounts
  have htext := (haccounts.spells rfl).text_eq
  simpa [hsettled] using htext

/-- A scan over the text of a token alone finds the token and nothing else. -/
theorem token_of_value {acceptors : List Acceptor} {source : TextSource} {t : Token}
    (h : (token acceptors max source).1 = .ok (some t)) :
    token acceptors max (TextSource.ofText t.value.toList) =
      (.ok (some { t with span := ⟨.start, .after t.value.toList⟩ }),
        ⟨[], .after t.value.toList, none⟩) := by
  rw [token_text] at h
  obtain ⟨hstop, hwinner, hvalue⟩ := Reading.verdict_eq_token h
  obtain ⟨value, settled, hreads, hsettled, hdefinite, hsame⟩ | ⟨-, hnone⟩ :=
    settlesAlone_reading hstop
  · have hall : settled.definite.reverse = value := hreads.definite_eq hsettled
    rw [hwinner] at hsame
    rw [← hdefinite, hall] at hvalue
    rw [hvalue, String.toList_ofList, token_alone hreads]
    simp only [Reading.verdict, hsame, hall, hsettled, Position.start_advanceAll,
      List.reverse_nil, List.append_nil]
  · rw [hwinner] at hnone
    cases hnone

/-- A scan over a text that it did not recognize fails on that text alone as well. -/
theorem token_of_offence {acceptors : List Acceptor} {source : TextSource} {offence : String}
    {span : Span}
    (h : (token acceptors max source).1 = .error (.unrecognizedInput offence span)) :
    token acceptors max (TextSource.ofText offence.toList) =
      (.error (.unrecognizedInput offence ⟨.start, .after offence.toList⟩),
        ⟨[], .after offence.toList, none⟩) := by
  have haccounts := reading_accounts max (spells_start acceptors) source.rest
  rw [token_text] at h
  obtain ⟨hstop, hwinner, htentative, hoffence⟩ := Reading.verdict_eq_unrecognized h haccounts
  have hspells := haccounts.spells hstop
  have hdefinite := hspells.undecided.mp hwinner
  have htaken := hspells.text_eq
  rw [hdefinite, List.reverse_nil, List.nil_append, List.nil_append] at htaken
  have hempty : ¬ ((start acceptors).reading max source.rest).scan.tentative.isEmpty = true := by
    simpa using htentative
  rw [hoffence, String.toList_ofList, htaken, token_alone (readsTo_taken hstop)]
  simp only [Reading.verdict, hwinner, if_neg hempty, htaken]

end Scan

namespace Tokenizer

/-- A first call that takes the whole text leaves nothing to the later ones. -/
theorem ofText_single {text : List Char} {acceptors : List Acceptor}
    {preferences : LexicalPreferences} {result : Except LexerError (Option Token)}
    {here : Position}
    (h : Scan.token acceptors preferences.maxTokenLength (TextSource.ofText text) =
      (result, ⟨[], here, none⟩)) :
    (ofText text acceptors preferences).answer 0 = result ∧
      ∀ n, (ofText text acceptors preferences).answer (n + 1) = .ok none := by
  have hsource : (ofText text acceptors preferences).next.rest.source = ⟨[], here, none⟩ :=
    congrArg Prod.snd h
  refine ⟨congrArg Prod.fst h, ?_⟩
  intro n
  rw [answer_succ]
  exact answer_of_exhausted (by rw [hsource]) n

/-- What a call reports is lexed in the same way by itself: the text of a token gives that
token, a text that was not recognized is not recognized, and nothing is left after either. -/
theorem next_alone (t : Tokenizer TextSource) :
    (∀ token, t.next.result = .ok (some token) →
      let found := { token with span := ⟨.start, .after token.value.toList⟩ }
      (ofText token.value.toList t.acceptors t.preferences).answer 0 = .ok (some found) ∧
      (∀ n, (ofText token.value.toList t.acceptors t.preferences).answer (n + 1) = .ok none) ∧
      (tokenizeWithMetrics token.value.toList t.acceptors t.preferences).result =
        .ok ([found], .ofTokens t.preferences [found])) ∧
    (∀ text span, t.next.result = .error (.unrecognizedInput text span) →
      let failure := LexerError.unrecognizedInput text ⟨.start, .after text.toList⟩
      (ofText text.toList t.acceptors t.preferences).answer 0 = .error failure ∧
      (∀ n, (ofText text.toList t.acceptors t.preferences).answer (n + 1) = .ok none) ∧
      (tokenizeWithMetrics text.toList t.acceptors t.preferences).result = .error failure) := by
  constructor
  · intro token htoken found
    obtain ⟨hfirst, hlater⟩ := ofText_single (Scan.token_of_value htoken)
    have hyields : (ofText token.value.toList t.acceptors t.preferences).Yields [found] none :=
      .cons hfirst (yields_nil (hlater 0))
    exact ⟨hfirst, hlater, tokenizeWithMetrics_result hyields⟩
  · intro text span herror failure
    obtain ⟨hfirst, hlater⟩ := ofText_single (Scan.token_of_offence herror)
    have hyields : (ofText text.toList t.acceptors t.preferences).Yields [] (some failure) :=
      yields_nil hfirst
    exact ⟨hfirst, hlater, tokenizeWithMetrics_result hyields⟩

end Tokenizer

end Lookahead
