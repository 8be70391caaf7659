import Lookahead.Proofs.Calls
import Lookahead.Proofs.TextScan

/-!
Nothing of a text gets lost in tokenizing it. A call takes a piece off the front of
what is left, and the piece is empty only if nothing is left. Unless an acceptor
broke its contract, the answer tells the span of the piece, so the spans of the
answers lie side by side from the start of the text to where the source stands.
Nothing is assumed of the acceptors.
-/
namespace Lookahead

namespace Scan

theorem stepAll_error {c : Char} {automata : List Automaton} {e : LexerError}
    (h : stepAll c automata = .error e) : ∃ state lexClass, e = .illegalState state lexClass := by
  induction automata with
  | nil => cases h
  | cons m rest ih =>
      simp only [stepAll] at h
      split at h
      · rename_i hstep
        cases h
        simp only [Automaton.step, Acceptor.step] at hstep
        split at hstep
        · cases hstep
        · rename_i hrefused
          split at hrefused <;> cases hrefused
          cases hstep
          exact ⟨_, _, rfl⟩
      · split at h
        · rename_i hrest
          cases h
          exact ih hrest
        · cases h

theorem push_error {s : Scan} {c : Char} {e : LexerError} (h : s.push c = .error e) :
    ∃ state lexClass, e = .illegalState state lexClass := by
  simp only [push] at h
  split at h
  · rename_i hstep
    cases h
    exact stepAll_error hstep
  · split at h <;> cases h

structure Spells (s : Scan) (text : List Char) : Prop where
  text_eq : s.definite.reverse ++ s.tentative.reverse = text
  undecided : s.winner = none ↔ s.definite = []

theorem spells_start (acceptors : List Acceptor) : (start acceptors).Spells [] :=
  ⟨rfl, by simp [start]⟩

theorem Spells.push {s s' : Scan} {text : List Char} {c : Char} (h : s.Spells text)
    (hpush : s.push c = .ok s') : s'.Spells (text ++ [c]) := by
  have htext : s.definite.reverse ++ (s.tentative.reverse ++ [c]) = text ++ [c] := by
    rw [← h.text_eq, List.append_assoc]
  obtain ⟨automata, -, ⟨m, -, rfl⟩ | ⟨-, rfl⟩⟩ := push_cases hpush
  · exact ⟨by simpa using htext, by simp⟩
  · exact ⟨by simpa using htext, h.undecided⟩

/-- What a reading of `rest` has done after the scan had taken `text`. -/
structure Reading.Accounts (text rest : List Char) (r : Reading) : Prop where
  split : rest = r.taken ++ r.rest
  starts : r.taken = [] → rest = [] ∧ r.stop = .sated
  spells : r.stop = .sated → r.scan.Spells (text ++ r.taken)
  refused : ∀ e, r.stop = .refused e → ∃ state lexClass, e = .illegalState state lexClass

theorem reading_accounts (max : Option Nat) {s : Scan} {text : List Char} (h : s.Spells text)
    (rest : List Char) : (s.reading max rest).Accounts text rest := by
  induction rest generalizing s text with
  | nil =>
      refine ⟨rfl, fun _ => ⟨rfl, rfl⟩, fun _ => ?_, by simp [reading]⟩
      simpa [reading] using h
  | cons c rest ih =>
      simp only [reading]
      split
      · exact ⟨rfl, by simp, by simp, by simp⟩
      · split
        · rename_i e hpush
          refine ⟨rfl, by simp, by simp, ?_⟩
          intro e' he
          cases he
          exact push_error hpush
        · rename_i s' hpush
          have hs' := h.push hpush
          split
          · have hlater := ih hs'
            refine ⟨?_, by simp, fun hstop => ?_, hlater.refused⟩
            · rw [List.cons_append, ← hlater.split]
            · simpa using hlater.spells hstop
          · exact ⟨rfl, by simp, fun _ => hs', by simp⟩

end Scan

namespace TextSource

/-- The answers that a scan from some place can give, each with the piece of the
text that it takes off. -/
inductive Answers (s : TextSource) : Except LexerError (Option Token) → List Char → Prop where
  | finished (hrest : s.rest = []) : Answers s (.ok none) []
  | token {piece : List Char} {lexClass : String} (hpiece : piece ≠ []) :
      Answers s
        (.ok (some ⟨String.ofList piece, lexClass, ⟨s.position, s.position.advanceAll piece⟩⟩))
        piece
  | unrecognized {piece : List Char} (hpiece : piece ≠ []) :
      Answers s (.error (.unrecognizedInput (String.ofList piece)
        ⟨s.position, s.position.advanceAll piece⟩)) piece
  | tooLong {piece : List Char} {max : Nat} (hpiece : piece ≠ []) :
      Answers s (.error (.tokenTooLong max ⟨s.position, s.position.advanceAll piece⟩)) piece
  | refused {piece : List Char} {state : Int} {lexClass : String} (hpiece : piece ≠ []) :
      Answers s (.error (.illegalState state lexClass)) piece

theorem StandsAfter.trans {s middle origin : TextSource} {front back : List Char}
    (h : s.StandsAfter middle back) (hmiddle : middle.StandsAfter origin front) :
    s.StandsAfter origin (front ++ back) := by
  constructor
  · rw [hmiddle.1, h.1, List.append_assoc]
  · rw [h.2, hmiddle.2, Position.advanceAll_append]

theorem StandsAfter.position_eq {s : TextSource} {text consumed : List Char}
    (h : s.StandsAfter (.ofText text) consumed) : s.position = .after consumed := by
  rw [h.2]
  exact Position.start_advanceAll consumed

end TextSource

namespace Scan

theorem token_answers (acceptors : List Acceptor) (max : Option Nat) (source : TextSource) :
    ∃ piece, source.Answers (token acceptors max source).1 piece ∧
      (token acceptors max source).2.StandsAfter source piece := by
  have h := reading_accounts max (spells_start acceptors) source.rest
  rw [token_text]
  generalize (start acceptors).reading max source.rest = r at h
  have hstarts : r.stop ≠ .sated → r.taken ≠ [] := fun hstop htaken => hstop (h.starts htaken).2
  cases hstop : r.stop with
  | tooLong max =>
      simp only [Reading.verdict, hstop]
      exact ⟨r.taken, .tooLong (hstarts (by simp [hstop])), h.split, rfl⟩
  | refused e =>
      obtain ⟨state, lexClass, rfl⟩ := h.refused e hstop
      simp only [Reading.verdict, hstop]
      exact ⟨r.taken, .refused (hstarts (by simp [hstop])), h.split, rfl⟩
  | sated =>
      have hspells := h.spells hstop
      have htaken : r.scan.definite.reverse ++ r.scan.tentative.reverse = r.taken :=
        hspells.text_eq
      cases hwinner : r.scan.winner with
      | some lexClass =>
          have hdefinite : r.scan.definite ≠ [] := by
            intro hnil
            rw [hspells.undecided.mpr hnil] at hwinner
            cases hwinner
          simp only [Reading.verdict, hstop, hwinner]
          refine ⟨r.scan.definite.reverse, .token (by simpa using hdefinite), ?_, rfl⟩
          rw [h.split, ← htaken, List.append_assoc]
      | none =>
          -- without a winner all that was read is tentative
          have htentative : r.scan.tentative.reverse = r.taken := by
            rw [← htaken, hspells.undecided.mp hwinner, List.reverse_nil, List.nil_append]
          by_cases hempty : r.scan.tentative = []
          · have hnil : r.taken = [] := by rw [← htentative, hempty, List.reverse_nil]
            simp only [Reading.verdict, hstop, hwinner, hempty, List.isEmpty_nil, if_true, hnil]
            refine ⟨[], .finished (h.starts hnil).1, ?_, rfl⟩
            rw [h.split, hnil]
          · have hisEmpty : ¬ r.scan.tentative.isEmpty = true := by simpa using hempty
            have hpiece : r.taken ≠ [] := by
              rw [← htentative]
              simpa using hempty
            simp only [Reading.verdict, hstop, hwinner, if_neg hisEmpty, htentative]
            exact ⟨r.taken, .unrecognized hpiece, h.split, rfl⟩

end Scan

/-- A piece of a text as an answer reports it. -/
structure Stretch where
  span : Span
  /-- The characters, which an answer about an excessive length does not tell. -/
  content : Option String

namespace Stretch

def ofAnswer? : Except LexerError (Option Token) → Option Stretch
  | .ok (some t) => some ⟨t.span, some t.value⟩
  | .error (.unrecognizedInput text span) => some ⟨span, some text⟩
  | .error (.tokenTooLong _ span) => some ⟨span, none⟩
  | _ => none

theorem tooLong_of_content {result : Except LexerError (Option Token)} {s : Stretch}
    (h : ofAnswer? result = some s) (hcontent : s.content = none) :
    ∃ max span, result = .error (.tokenTooLong max span) := by
  simp only [ofAnswer?] at h
  split at h
  · cases h
    cases hcontent
  · cases h
    cases hcontent
  · exact ⟨_, _, rfl⟩
  · cases h

/-- The stretch is not empty, its ends are positions of the text, and its content is
what stands between them. -/
structure LiesIn (s : Stretch) (text : List Char) : Prop where
  nonempty : s.span.start.offset < s.span.stop.offset
  start_eq : s.span.start = .after (text.take s.span.start.offset)
  stop_eq : s.span.stop = .after (text.take s.span.stop.offset)
  content_eq : ∀ value, s.content = some value →
    value.toList = text.extract s.span.start.offset s.span.stop.offset

/-- Stretches of a text side by side, from one position to another. -/
def Tile (text : List Char) : Position → List Stretch → Position → Prop
  | start, [], stop => start = stop
  | start, s :: rest, stop => s.span.start = start ∧ s.LiesIn text ∧ Tile text s.span.stop rest stop

theorem Tile.snoc {text : List Char} {start : Position} {front : List Stretch} {s : Stretch}
    (h : Tile text start front s.span.start) (hs : s.LiesIn text) :
    Tile text start (front ++ [s]) s.span.stop := by
  induction front generalizing start with
  | nil => exact ⟨h.symm, hs, rfl⟩
  | cons r front ih => exact ⟨h.1, h.2.1, ih h.2.2⟩

theorem Tile.offset_le {text : List Char} {start stop : Position} {stretches : List Stretch}
    (h : Tile text start stretches stop) : start.offset ≤ stop.offset := by
  induction stretches generalizing start with
  | nil => exact Nat.le_of_eq (congrArg Position.offset h)
  | cons s rest ih =>
      have hrest := ih h.2.2
      have hnonempty := h.2.1.nonempty
      rw [h.1] at hnonempty
      omega

/-- The characters that the stretches report. -/
def spelled (stretches : List Stretch) : List Char :=
  stretches.flatMap fun s => (s.content.getD "").toList

theorem Tile.spelled_eq {text : List Char} {start stop : Position} {stretches : List Stretch}
    (h : Tile text start stretches stop) (htold : ∀ s ∈ stretches, s.content ≠ none) :
    spelled stretches = text.extract start.offset stop.offset := by
  induction stretches generalizing start with
  | nil =>
      obtain rfl : start = stop := h
      simp [spelled]
  | cons s rest ih =>
      obtain ⟨rfl, hs, hrest⟩ := h
      obtain ⟨value, hvalue⟩ := Option.ne_none_iff_exists'.mp (htold s List.mem_cons_self)
      have hfirst := hs.content_eq value hvalue
      have hlater := ih hrest fun r hr => htold r (List.mem_cons_of_mem s hr)
      have hle := hrest.offset_le
      have hlt := hs.nonempty
      simp only [spelled, List.flatMap_cons, hvalue, Option.getD_some] at hlater ⊢
      rw [hlater, hfirst]
      have hlength : stop.offset - s.span.start.offset =
          (s.span.stop.offset - s.span.start.offset) + (stop.offset - s.span.stop.offset) := by
        omega
      have hstop : s.span.start.offset + (s.span.stop.offset - s.span.start.offset) =
          s.span.stop.offset := by
        omega
      simp only [List.extract_eq_take_drop, hlength, List.take_add, List.drop_drop, hstop]

theorem liesIn_of_split {consumed piece rest : List Char} (hpiece : piece ≠ [])
    {content : Option String} (hcontent : ∀ value, content = some value → value.toList = piece) :
    LiesIn ⟨⟨.after consumed, .after (consumed ++ piece)⟩, content⟩
      (consumed ++ (piece ++ rest)) := by
  have hlength := List.length_pos_iff.mpr hpiece
  constructor
  · simpa [Position.after] using hlength
  · simp [Position.after]
  · simp [Position.after, ← List.append_assoc]
  · intro value hvalue
    rw [hcontent value hvalue]
    simp [Position.after, List.extract_eq_take_drop]

theorem LiesIn.fits {s : Stretch} {text : List Char} (h : s.LiesIn text)
    (hlength : text.length + 1 < halfWordLimit) : s.span.start.Fits ∧ s.span.stop.Fits := by
  have htake (k : Nat) : (Position.after (text.take k)).Fits := by
    have hle := List.length_take_le' k text
    exact Position.after_fits (by omega)
  rw [h.start_eq, h.stop_eq]
  exact ⟨htake _, htake _⟩

end Stretch

namespace Tokenizer

def stretches (t : Tokenizer TextSource) (n : Nat) : List Stretch :=
  (List.range n).filterMap fun i => Stretch.ofAnswer? (t.answer i)

theorem stretches_succ (t : Tokenizer TextSource) (n : Nat) :
    t.stretches (n + 1) = t.stretches n ++ (Stretch.ofAnswer? (t.answer n)).toList := by
  simp only [stretches, List.range_succ, List.filterMap_append]
  cases hstretch : Stretch.ofAnswer? (t.answer n) <;> simp [hstretch]

theorem next_answers (t : Tokenizer TextSource) :
    ∃ piece, t.source.Answers t.next.result piece ∧
      t.next.rest.source.StandsAfter t.source piece :=
  Scan.token_answers t.acceptors t.preferences.maxTokenLength t.source

theorem next_eq_none_iff (t : Tokenizer TextSource) :
    t.next.result = .ok none ↔ t.source.rest = [] := by
  obtain ⟨piece, hanswers, hstands⟩ := t.next_answers
  constructor
  · intro hnone
    rw [hnone] at hanswers
    cases hanswers with
    | finished hrest => exact hrest
  · intro hrest
    have hpiece : piece = [] := (List.append_eq_nil_iff.mp (hstands.1.symm.trans hrest)).1
    generalize t.next.result = result at hanswers
    cases hanswers with
    | finished => rfl
    | token h | unrecognized h | tooLong h | refused h => exact absurd hpiece h

/-- Where a text is read to, its answered stretch leads on from there. -/
theorem stretch_liesIn {t : Tokenizer TextSource} {text consumed : List Char} {s : Stretch}
    (hstands : t.source.StandsAfter (.ofText text) consumed)
    (hs : Stretch.ofAnswer? t.next.result = some s) :
    s.span.start = t.source.position ∧ s.span.stop = t.next.rest.source.position ∧
      s.LiesIn text := by
  obtain ⟨piece, hanswers, hnext⟩ := t.next_answers
  have htext : text = consumed ++ (piece ++ t.next.rest.source.rest) := by
    rw [← hnext.1]
    exact hstands.1
  have hstart := hstands.position_eq
  have hstop : t.source.position.advanceAll piece = .after (consumed ++ piece) := by
    rw [hstart, Position.after_append]
  rw [htext, hnext.2]
  generalize t.next.result = result at hanswers hs
  cases hanswers with
  | finished | refused => cases hs
  | token hpiece | unrecognized hpiece =>
      cases hs
      refine ⟨rfl, rfl, ?_⟩
      rw [hstop, hstart]
      apply Stretch.liesIn_of_split hpiece
      intro value hvalue
      cases hvalue
      exact String.toList_ofList
  | tooLong hpiece =>
      cases hs
      refine ⟨rfl, rfl, ?_⟩
      rw [hstop, hstart]
      exact Stretch.liesIn_of_split hpiece (by simp)

theorem next_progress {t : Tokenizer TextSource} (h : t.next.result ≠ .ok none) :
    ∃ piece, piece ≠ [] ∧ t.next.rest.source.StandsAfter t.source piece := by
  obtain ⟨piece, hanswers, hstands⟩ := t.next_answers
  refine ⟨piece, ?_, hstands⟩
  generalize t.next.result = result at h hanswers
  cases hanswers with
  | finished => exact absurd rfl h
  | token hpiece | unrecognized hpiece | tooLong hpiece | refused hpiece => exact hpiece

theorem answer_of_exhausted {t : Tokenizer TextSource} (h : t.source.rest = []) (m : Nat) :
    t.answer m = .ok none := by
  induction m generalizing t with
  | zero => exact t.next_eq_none_iff.mpr h
  | succ m ih =>
      obtain ⟨piece, -, hstands⟩ := t.next_answers
      rw [answer_succ]
      exact ih (List.append_eq_nil_iff.mp (hstands.1.symm.trans h)).2

/-- The end of the input comes after no more calls than there are characters left,
and it stays. -/
theorem answer_ending (t : Tokenizer TextSource) :
    ∃ n ≤ t.source.rest.length, ∀ m, t.answer m = .ok none ↔ n ≤ m := by
  generalize hlength : t.source.rest.length = length
  induction length using Nat.strongRecOn generalizing t with
  | ind length ih =>
      by_cases hrest : t.source.rest = []
      · refine ⟨0, Nat.zero_le length, ?_⟩
        intro m
        exact ⟨fun _ => Nat.zero_le m, fun _ => answer_of_exhausted hrest m⟩
      · have hfirst : t.next.result ≠ .ok none := mt t.next_eq_none_iff.mp hrest
        obtain ⟨piece, hpiece, hstands⟩ := next_progress hfirst
        have hshorter : t.next.rest.source.rest.length < length := by
          have hpos := List.length_pos_iff.mpr hpiece
          rw [← hlength, hstands.1, List.length_append]
          omega
        obtain ⟨n, hn, hend⟩ := ih _ hshorter t.next.rest rfl
        refine ⟨n + 1, by omega, ?_⟩
        intro m
        cases m with
        | zero => exact ⟨fun hend => absurd hend hfirst, by simp⟩
        | succ m => rw [answer_succ, hend m, Nat.add_le_add_iff_right]

/-- No acceptor has broken its contract in the given number of calls. -/
def Obeyed (t : Tokenizer TextSource) (n : Nat) : Prop :=
  ∀ i < n, ∀ state lexClass, t.answer i ≠ .error (.illegalState state lexClass)

theorem ofAnswer?_eq_none {t : Tokenizer TextSource} (h : Stretch.ofAnswer? t.next.result = none) :
    t.next.result = .ok none ∨
      ∃ state lexClass, t.next.result = .error (.illegalState state lexClass) := by
  obtain ⟨piece, hanswers, -⟩ := t.next_answers
  generalize t.next.result = result at h hanswers
  cases hanswers with
  | finished => exact Or.inl rfl
  | token | unrecognized | tooLong => cases h
  | refused => exact Or.inr ⟨_, _, rfl⟩

/-- A tokenizer that loses nothing of a text and always makes progress. -/
structure Lossless (t : Tokenizer TextSource) (text : List Char) : Prop where
  progress : ∀ n, t.answer n ≠ .ok none → ∃ piece, piece ≠ [] ∧
    (t.afterCalls (n + 1)).source.StandsAfter (t.afterCalls n).source piece
  ending : ∃ n ≤ text.length, ∀ m, t.answer m = .ok none ↔ n ≤ m
  reported : ∀ n, Stretch.ofAnswer? (t.answer n) = none →
    t.answer n = .ok none ∨ ∃ state lexClass, t.answer n = .error (.illegalState state lexClass)
  tiling : ∀ n, t.Obeyed n → ∃ stop, Stretch.Tile text .start (t.stretches n) stop ∧
    (t.answer n = .ok none → stop.offset = text.length)
  spelling : ∀ n, t.Obeyed n → (∀ i < n, ∀ max span, t.answer i ≠ .error (.tokenTooLong max span)) →
    t.answer n = .ok none → Stretch.spelled (t.stretches n) = text
  fitting : text.length + 1 < halfWordLimit → ∀ n, ∀ s ∈ t.stretches n,
    s.span.start.Fits ∧ s.span.stop.Fits

section OfText

variable (text : List Char) (acceptors : List Acceptor) (preferences : LexicalPreferences)

theorem afterCalls_stands (n : Nat) :
    ∃ consumed, ((ofText text acceptors preferences).afterCalls n).source.StandsAfter
      (.ofText text) consumed := by
  induction n with
  | zero => exact ⟨[], rfl, rfl⟩
  | succ n ih =>
      obtain ⟨consumed, hstands⟩ := ih
      obtain ⟨piece, -, hnext⟩ := ((ofText text acceptors preferences).afterCalls n).next_answers
      exact ⟨consumed ++ piece, hnext.trans hstands⟩

theorem stretches_tile {n : Nat} (h : (ofText text acceptors preferences).Obeyed n) :
    Stretch.Tile text .start ((ofText text acceptors preferences).stretches n)
      ((ofText text acceptors preferences).afterCalls n).source.position := by
  induction n with
  | zero => rfl
  | succ n ih =>
      have htile := ih fun i hi => h i (Nat.lt_succ_of_lt hi)
      obtain ⟨consumed, hstands⟩ := afterCalls_stands text acceptors preferences n
      rw [stretches_succ]
      cases hstretch : Stretch.ofAnswer? ((ofText text acceptors preferences).answer n) with
      | some s =>
          obtain ⟨hstart, hstop, hlies⟩ := stretch_liesIn hstands hstretch
          rw [← hstart] at htile
          have hnext := htile.snoc hlies
          rw [hstop] at hnext
          exact hnext
      | none =>
          -- the input has come to its end, and the source stays where it is
          obtain hend | ⟨state, lexClass, hillegal⟩ := ofAnswer?_eq_none hstretch
          · obtain ⟨piece, hanswers, hnext⟩ :=
              ((ofText text acceptors preferences).afterCalls n).next_answers
            rw [hend] at hanswers
            cases hanswers with
            | finished =>
                have hposition := hnext.2
                rw [Option.toList_none, List.append_nil]
                simp only [afterCalls]
                rwa [hposition]
          · exact absurd hillegal (h n (Nat.lt_succ_self n) state lexClass)

theorem offset_of_end {n : Nat} (h : (ofText text acceptors preferences).answer n = .ok none) :
    ((ofText text acceptors preferences).afterCalls n).source.position.offset = text.length := by
  obtain ⟨consumed, hstands⟩ := afterCalls_stands text acceptors preferences n
  have hrest := (next_eq_none_iff _).mp h
  have htext : text = consumed := by
    rw [← List.append_nil consumed, ← hrest]
    exact hstands.1
  rw [hstands.position_eq, htext]
  rfl

/-- Tokenizing a text is lossless and always makes progress, for all acceptors and
preferences. -/
theorem ofText_lossless : (ofText text acceptors preferences).Lossless text where
  progress n h := next_progress h
  ending := answer_ending (ofText text acceptors preferences)
  reported n h := ofAnswer?_eq_none h
  tiling n hobeyed := by
    refine ⟨_, stretches_tile text acceptors preferences hobeyed, ?_⟩
    intro hend
    exact offset_of_end text acceptors preferences hend
  spelling n hobeyed htold hend := by
    have htile := stretches_tile text acceptors preferences hobeyed
    rw [htile.spelled_eq, offset_of_end text acceptors preferences hend]
    · simp [Position.start, List.extract_eq_take_drop]
    · intro s hs hcontent
      obtain ⟨i, hi, hstretch⟩ := List.mem_filterMap.mp hs
      obtain ⟨max, span, htooLong⟩ := Stretch.tooLong_of_content hstretch hcontent
      exact htold i (List.mem_range.mp hi) max span htooLong
  fitting hlength n s hs := by
    obtain ⟨i, -, hstretch⟩ := List.mem_filterMap.mp hs
    obtain ⟨consumed, hstands⟩ := afterCalls_stands text acceptors preferences i
    exact (stretch_liesIn hstands hstretch).2.2.fits hlength

end OfText

end Tokenizer

end Lookahead
