import Lookahead.Proofs.StreamLexing
import Lookahead.Proofs.Tiling

/-!
The limit on the length of a scan. It counts every character that a scan reads, those
after the last acceptance included, and is checked before a character reaches the
automata. So a limited scan does what the unlimited one does if that one reads no more
characters than the limit, and stops right after one more than the limit otherwise.

A token that is no longer than the limit can be lost in this way: the scan that finds it
reads on in the hope of a longer one. One that is longer is always lost, since a scan reads
at least the token that it finds.
-/
namespace Lookahead

theorem Metered.mark_count {σ : Type} [CharSource σ] (m : Metered σ) (settled : Bool) :
    (if settled then CharSource.mark m else m).count = m.count := by
  cases settled <;> rfl

theorem TextSource.mark_rest (m : Metered TextSource) (settled : Bool) :
    (if settled then CharSource.mark m else m).source.rest = m.source.rest := by
  cases settled <;> rfl

namespace Scan

theorem exceeds_eq_some {max length : Nat} (h : max < length) :
    exceeds (some max) length = some max := by
  simp [exceeds, h]

theorem exceeds_eq_none {max length : Nat} (h : length ≤ max) :
    exceeds (some max) length = none := by
  simpa [exceeds] using h

theorem length_push {s s' : Scan} {c : Char} (h : s.push c = .ok s') :
    s'.length = s.length + 1 := by
  obtain ⟨automata, -, ⟨m, -, rfl⟩ | ⟨-, rfl⟩⟩ := push_cases h
  · rfl
  · rfl

/-- A limit that is not exceeded has no part in the reading. -/
theorem reading_within {max : Nat} {s : Scan} {rest : List Char}
    (h : s.length + (s.reading none rest).taken.length ≤ max) :
    s.reading (some max) rest = s.reading none rest := by
  induction rest generalizing s with
  | nil => rfl
  | cons c rest ih =>
      have hunlimited : exceeds none (s.length + 1) = none := rfl
      cases hpush : s.push c with
      | error e =>
          simp only [reading, hunlimited, hpush, List.length_cons, List.length_nil] at h ⊢
          rw [exceeds_eq_none h]
      | ok s' =>
          cases hlive : s'.isLive with
          | false =>
              simp only [reading, hunlimited, hpush, hlive, Bool.false_eq_true, if_false,
                List.length_cons, List.length_nil] at h ⊢
              rw [exceeds_eq_none h]
          | true =>
              simp only [reading, hunlimited, hpush, hlive, if_true, List.length_cons] at h ⊢
              have hlength := length_push hpush
              rw [exceeds_eq_none (by omega), ih (by omega)]

/-- A reading that would exceed the limit stops at the first character beyond it. -/
theorem reading_beyond {max : Nat} {s : Scan} {rest : List Char} (hroom : s.length ≤ max)
    (h : max < s.length + (s.reading none rest).taken.length) :
    ∃ scan piece left, s.reading (some max) rest = ⟨.tooLong max, scan, piece, left⟩ ∧
      s.length + piece.length = max + 1 := by
  induction rest generalizing s with
  | nil => exact absurd hroom (Nat.not_le.mpr h)
  | cons c rest ih =>
      by_cases hfull : s.length = max
      · refine ⟨s, [c], rest, ?_, by simp [hfull]⟩
        simp only [reading, exceeds_eq_some (show max < s.length + 1 by omega)]
      · have hunlimited : exceeds none (s.length + 1) = none := rfl
        have hlimited : exceeds (some max) (s.length + 1) = none := exceeds_eq_none (by omega)
        cases hpush : s.push c with
        | error e =>
            simp only [reading, hunlimited, hpush, List.length_cons, List.length_nil] at h
            omega
        | ok s' =>
            have hlength := length_push hpush
            cases hlive : s'.isLive with
            | false =>
                simp only [reading, hunlimited, hpush, hlive, Bool.false_eq_true, if_false,
                  List.length_cons, List.length_nil] at h
                omega
            | true =>
                simp only [reading, hunlimited, hpush, hlive, if_true, List.length_cons] at h
                obtain ⟨scan, piece, left, hreading, hpiece⟩ := @ih s' (by omega) (by omega)
                refine ⟨scan, c :: piece, left, ?_, by rw [List.length_cons]; omega⟩
                simp only [reading, hlimited, hpush, hlive, if_true, hreading]

theorem count_of_finish_eq {σ : Type} [CharSource σ] (s : Scan) (start : Position)
    (m : Metered σ) : (s.finish start m).2.count = m.count := by
  simp only [finish]
  split
  · cases hrewind : CharSource.rewind m.source with
    | mk answer source =>
        rw [Metered.rewind_eq hrewind]
        cases answer <;> rfl
  · split <;> rfl

/-- Over a text, the characters that a scan reads are those that its reading takes. -/
theorem count_of_run_text (max : Option Nat) (start : Position) (s : Scan)
    (m : Metered TextSource) :
    (s.run max start m).2.count = m.count + (s.reading max m.source.rest).taken.length := by
  fun_induction run max start s m with
  | case1 s m e m' hread => exact absurd (Metered.read_source hread) TextSource.read_ne_error
  | case2 s m m' hread =>
      obtain ⟨hrest, -⟩ := TextSource.read_eq_none (Metered.read_source hread)
      rw [count_of_finish_eq, Metered.read_count hread, hrest]
      rfl
  | case3 s m c m' hread limit hexceeds =>
      obtain ⟨hsource, -⟩ := TextSource.read_eq_some (Metered.read_source hread)
      rw [Metered.read_count hread, hsource]
      simp only [reading, hexceeds]
      rfl
  | case4 s m c m' hread hexceeds e hpush =>
      obtain ⟨hsource, -⟩ := TextSource.read_eq_some (Metered.read_source hread)
      rw [Metered.read_count hread, hsource]
      simp only [reading, hexceeds, hpush]
      rfl
  | case5 s m c m' hread hexceeds s' hpush m'' hlive ih =>
      obtain ⟨hsource, -⟩ := TextSource.read_eq_some (Metered.read_source hread)
      have hcount : m''.count = m.count + 1 :=
        (m'.mark_count s'.isSettled).trans (Metered.read_count hread)
      have hrest : m''.source.rest = m'.source.rest := TextSource.mark_rest m' s'.isSettled
      rw [ih, hcount, hrest, hsource]
      simp only [reading, hexceeds, hpush, hlive, if_true, List.length_cons]
      omega
  | case6 s m c m' hread hexceeds s' hpush m'' hlive =>
      obtain ⟨hsource, -⟩ := TextSource.read_eq_some (Metered.read_source hread)
      have hcount : m''.count = m.count + 1 :=
        (m'.mark_count s'.isSettled).trans (Metered.read_count hread)
      rw [count_of_finish_eq, hcount, hsource]
      simp only [reading, hexceeds, hpush, hlive, Bool.false_eq_true, if_false]
      rfl

/-- The reading of a scan from its start, which reads no more than the limit or meets it. -/
theorem token_limited (acceptors : List Acceptor) (max : Nat) (source : TextSource) :
    let taken := ((start acceptors).reading none source.rest).taken
    (taken.length ≤ max →
      token acceptors (some max) source = token acceptors none source) ∧
    (max < taken.length → ∃ piece, piece.length = max + 1 ∧
      (token acceptors (some max) source).1 = .error (.tokenTooLong max
        ⟨source.position, source.position.advanceAll piece⟩) ∧
      (token acceptors (some max) source).2.StandsAfter source piece) := by
  have hstart : (start acceptors).length = 0 := rfl
  constructor
  · intro hwithin
    have hreading := @reading_within max (start acceptors) source.rest (by omega)
    rw [token_text, token_text, hreading]
  · intro hbeyond
    obtain ⟨scan, piece, left, hreading, hpiece⟩ :=
      @reading_beyond max (start acceptors) source.rest (by omega) (by omega)
    have hsplit := (reading_accounts (some max) (spells_start acceptors) source.rest).split
    rw [hreading] at hsplit
    rw [token_text, hreading]
    exact ⟨piece, by omega, rfl, hsplit, rfl⟩

/-- A token is part of what the scan takes to find it. -/
theorem length_le_taken {acceptors : List Acceptor} {max : Option Nat} {source : TextSource}
    {t : Token} (h : (token acceptors max source).1 = .ok (some t)) :
    t.value.length ≤ ((start acceptors).reading max source.rest).taken.length := by
  have haccounts := reading_accounts max (spells_start acceptors) source.rest
  rw [token_text] at h
  obtain ⟨hstop, -, hvalue⟩ := Reading.verdict_eq_token h
  have htaken := congrArg List.length (haccounts.spells hstop).text_eq
  rw [hvalue, String.length_ofList]
  simp only [List.length_append, List.length_nil, List.length_reverse] at htaken ⊢
  omega

end Scan

namespace Tokenizer

/-- The same tokenizer under another limit on the length. -/
def limited {σ : Type} (t : Tokenizer σ) (max : Option Nat) : Tokenizer σ :=
  { t with preferences := { t.preferences with maxTokenLength := max } }

variable (t : Tokenizer TextSource)

theorem charsRead_eq :
    t.charsRead = ((Scan.start t.acceptors).reading t.preferences.maxTokenLength
      t.source.rest).taken.length := by
  have hcount := Scan.count_of_run_text t.preferences.maxTokenLength
    (CharSource.position t.source) (Scan.start t.acceptors) ⟨t.source, 0⟩
  rw [Nat.zero_add] at hcount
  exact hcount

/-- A limit leaves a token alone exactly if it covers all that the scan reads to find
the token, and not the token only; otherwise the scan stops one character beyond it. -/
theorem limited_next_iff (max : Nat) {token : Token}
    (htoken : (t.limited none).next.result = .ok (some token)) :
    ((t.limited (some max)).next.result = .ok (some token) ↔ (t.limited none).charsRead ≤ max) ∧
    ((t.limited none).charsRead ≤ max →
      (t.limited (some max)).next.rest.source = (t.limited none).next.rest.source) ∧
    (max < (t.limited none).charsRead → ∃ piece, piece.length = max + 1 ∧
      (t.limited (some max)).next.result = .error (.tokenTooLong max
        ⟨t.source.position, t.source.position.advanceAll piece⟩) ∧
      (t.limited (some max)).next.rest.source.StandsAfter t.source piece) := by
  obtain ⟨hwithin, hbeyond⟩ := Scan.token_limited t.acceptors max t.source
  have hread : (t.limited none).charsRead =
      ((Scan.start t.acceptors).reading none t.source.rest).taken.length :=
    charsRead_eq (t.limited none)
  rw [← hread] at hwithin hbeyond
  refine ⟨⟨?_, ?_⟩, fun hle => congrArg Prod.snd (hwithin hle), hbeyond⟩
  · intro hsame
    refine Nat.le_of_not_lt fun hlt => ?_
    obtain ⟨piece, -, herror, -⟩ := hbeyond hlt
    rw [show (t.limited (some max)).next.result = _ from herror] at hsame
    cases hsame
  · intro hle
    exact (congrArg Prod.fst (hwithin hle)).trans htoken

theorem limited_eq_self {t : Tokenizer TextSource} {max : Option Nat}
    (h : t.preferences.maxTokenLength = max) : t.limited max = t := by
  subst h
  rfl

/-- A call under a limit does what it does without one, or stops one character beyond it. -/
theorem limited_next_cases (max : Nat) :
    ((t.limited none).charsRead ≤ max ∧
      (t.limited (some max)).next.result = (t.limited none).next.result ∧
      (t.limited (some max)).next.rest.source = (t.limited none).next.rest.source) ∨
    ∃ piece, piece.length = max + 1 ∧
      (t.limited (some max)).next.result = .error (.tokenTooLong max
        ⟨t.source.position, t.source.position.advanceAll piece⟩) ∧
      (t.limited (some max)).next.rest.source.StandsAfter t.source piece := by
  obtain ⟨hwithin, hbeyond⟩ := Scan.token_limited t.acceptors max t.source
  have hread : (t.limited none).charsRead =
      ((Scan.start t.acceptors).reading none t.source.rest).taken.length :=
    charsRead_eq (t.limited none)
  rw [← hread] at hwithin hbeyond
  obtain hlt | hle := Nat.lt_or_ge max (t.limited none).charsRead
  · exact Or.inr (hbeyond hlt)
  · have hsame := hwithin hle
    exact Or.inl ⟨hle, congrArg Prod.fst hsame, congrArg Prod.snd hsame⟩

theorem length_le_charsRead {token : Token} (h : t.next.result = .ok (some token)) :
    token.value.length ≤ t.charsRead := by
  rw [charsRead_eq]
  exact Scan.length_le_taken h

theorem length_le_of_limited {max : Nat} {token : Token}
    (h : (t.limited (some max)).next.result = .ok (some token)) : token.value.length ≤ max := by
  obtain ⟨hread, hsame, -⟩ | ⟨piece, -, herror, -⟩ := t.limited_next_cases max
  · rw [hsame] at h
    exact Nat.le_trans (length_le_charsRead (t.limited none) h) hread
  · rw [herror] at h
    cases h

/-- A limit only ever cuts. A call under it gives the same answer as without it and leaves
the source at the same place, or gives up one character beyond the limit and leaves the
source there. It gives up on every token that is longer than the limit, so no call ever
answers with one. -/
theorem limited_only_cuts (max : Nat) :
    (((t.limited (some max)).next.result = (t.limited none).next.result ∧
        (t.limited (some max)).next.rest.source = (t.limited none).next.rest.source) ∨
      ∃ piece, piece.length = max + 1 ∧
        (t.limited (some max)).next.result = .error (.tokenTooLong max
          ⟨t.source.position, t.source.position.advanceAll piece⟩) ∧
        (t.limited (some max)).next.rest.source.StandsAfter t.source piece) ∧
    (∀ token, (t.limited none).next.result = .ok (some token) → max < token.value.length →
      ∃ span, (t.limited (some max)).next.result = .error (.tokenTooLong max span)) ∧
    (∀ n token, (t.limited (some max)).answer n = .ok (some token) →
      token.value.length ≤ max) := by
  have hcases := t.limited_next_cases max
  refine ⟨?_, ?_, ?_⟩
  · obtain ⟨-, hsame⟩ | hcut := hcases
    · exact Or.inl hsame
    · exact Or.inr hcut
  · intro token htoken hlong
    obtain ⟨-, hsame, -⟩ | ⟨piece, -, herror, -⟩ := hcases
    · rw [← hsame] at htoken
      exact absurd hlong (Nat.not_lt.mpr (t.length_le_of_limited htoken))
    · exact ⟨_, herror⟩
  · intro n token htoken
    have hlimit : ((t.limited (some max)).afterCalls n).preferences.maxTokenLength = some max :=
      congrArg LexicalPreferences.maxTokenLength (preferences_afterCalls (t.limited (some max)) n)
    have hself := limited_eq_self hlimit
    apply length_le_of_limited ((t.limited (some max)).afterCalls n)
    rw [hself]
    exact htoken

theorem unlimited_word : ((ofText "ab ".toList Demo.acceptors {}).limited none).next.result =
    .ok (some ⟨"ab", Demo.evenClass, ⟨.start, ⟨2, 1, 3⟩⟩⟩) := by
  have htoken := Scan.token_text Demo.acceptors none (.ofText "ab ".toList)
  exact (congrArg Prod.fst htoken).trans rfl

theorem limited_next_iff_demo :
    ((ofText "ab ".toList Demo.acceptors {}).limited none).next.result =
        .ok (some ⟨"ab", Demo.evenClass, ⟨.start, ⟨2, 1, 3⟩⟩⟩) ∧
      ((ofText "ab ".toList Demo.acceptors {}).limited (some 3)).next.result =
        .ok (some ⟨"ab", Demo.evenClass, ⟨.start, ⟨2, 1, 3⟩⟩⟩) := by
  have hread : ((ofText "ab ".toList Demo.acceptors {}).limited none).charsRead ≤ 3 := by
    decide +kernel
  have hiff := limited_next_iff (ofText "ab ".toList Demo.acceptors {}) 3 unlimited_word
  exact ⟨unlimited_word, hiff.1.mpr hread⟩

/-- A word of two letters fits a limit of two, and is lost to the blank that is read after it. -/
theorem limited_rejects_fitting_token :
    ¬ ∀ (text : List Char) (acceptors : List Acceptor) (max : Nat) (token : Token),
      text.length + 1 < halfWordLimit → 1 ≤ max →
      ((ofText text acceptors {}).limited none).next.result = .ok (some token) →
      token.value.length ≤ max →
      ((ofText text acceptors {}).limited (some max)).next.result = .ok (some token) := by
  intro hkept
  have hread : 2 < ((Scan.start Demo.acceptors).reading none "ab ".toList).taken.length := by
    decide +kernel
  obtain ⟨piece, -, hlost, -⟩ :=
    (Scan.token_limited Demo.acceptors 2 (.ofText "ab ".toList)).2 hread
  have hfits : "ab".length ≤ 2 := by decide
  have hfound := hkept "ab ".toList Demo.acceptors 2 _ (by decide) (by decide) unlimited_word hfits
  cases hlost.symm.trans hfound

end Tokenizer

end Lookahead
