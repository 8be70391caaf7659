import Lookahead.Bundled.Demo
import Lookahead.Lexer.Tokenizer
import Lookahead.Proofs.SourceMaps
import Lookahead.Proofs.StreamRefinement
import Lookahead.Proofs.TextScan

/-!
Lexing from a byte feed and lexing from memory. A scan goes back once, at its end,
and by exactly the characters it has read after its token. If these are more than
the window then the scan over the stream fails there; all other scans do the same
over both sources, whatever happened to their marks on the way.

How many characters a scan reads is not visible in its answer. A metered source
counts them, and does nothing else.
-/
namespace Lookahead

structure Metered (σ : Type) where
  source : σ
  /-- The characters that were read, those read again included. -/
  count : Nat

namespace Metered

variable {σ : Type} [CharSource σ]

def width : Except InputError (Option Char) → Nat
  | .ok (some _) => 1
  | _ => 0

instance : CharSource (Metered σ) where
  read m :=
    let (answer, source) := CharSource.read m.source
    (answer, ⟨source, m.count + width answer⟩)
  mark m := ⟨CharSource.mark m.source, m.count⟩
  rewind m :=
    let (answer, source) := CharSource.rewind m.source
    (answer, ⟨source, m.count⟩)
  release m := ⟨CharSource.release m.source, m.count⟩
  position m := CharSource.position m.source
  remaining m := CharSource.remaining m.source
  reach m := CharSource.reach m.source
  remaining_read h := CharSource.remaining_read h
  remaining_mark m := CharSource.remaining_mark m.source
  remaining_release m := CharSource.remaining_release m.source
  reach_mark m := CharSource.reach_mark m.source
  reach_read m := CharSource.reach_read m.source
  remaining_rewind h := CharSource.remaining_rewind h

/-- A result over a metered source, without the count. -/
def erase {α : Type} (r : α × Metered σ) : α × σ := (r.1, r.2.source)

theorem read_source {m m' : Metered σ} {answer : Except InputError (Option Char)}
    (h : CharSource.read m = (answer, m')) : CharSource.read m.source = (answer, m'.source) := by
  have herase : erase (CharSource.read m) = CharSource.read m.source := rfl
  rw [← herase, h]
  rfl

theorem read_count {m m' : Metered σ} {answer : Except InputError (Option Char)}
    (h : CharSource.read m = (answer, m')) : m'.count = m.count + width answer := by
  have hcount : (CharSource.read m).2.count = m.count + width (CharSource.read m).1 := rfl
  rw [h] at hcount
  exact hcount

theorem rewind_eq {m : Metered σ} {answer : Except InputError Unit} {source : σ}
    (h : CharSource.rewind m.source = (answer, source)) :
    CharSource.rewind m = (answer, ⟨source, m.count⟩) := by
  have hmetered : CharSource.rewind m =
      ((CharSource.rewind m.source).1, ⟨(CharSource.rewind m.source).2, m.count⟩) := rfl
  rw [hmetered, h]

theorem maps : CharSource.Maps (source : Metered σ → σ) where
  read _ := rfl
  mark _ := rfl
  rewind _ := rfl
  release _ := rfl
  position _ := rfl

end Metered

namespace Scan

section Metered

variable {σ : Type} [CharSource σ]

theorem token_erase (acceptors : List Acceptor) (max : Option Nat) (m : Metered σ) :
    Metered.erase (token acceptors max m) = token acceptors max m.source :=
  (token_map Metered.maps acceptors max m).symm

end Metered

end Scan

namespace StreamSource

variable {text : List Char} {window : Nat} {t : TextSource} {s : StreamSource}

theorem Matches.read_end {count : Option Nat} {t' : TextSource}
    (h : Matches text window count t s) (ht : CharSource.read t = (.ok none, t')) :
    ∃ s', CharSource.read s = (.ok none, s') ∧ Matches text window count t' s' := by
  obtain ⟨hanswer, hmatches⟩ := h.read
  simp only [CharSource.perform, ht] at hanswer hmatches
  exact ⟨(CharSource.read s).2, Prod.ext hanswer rfl, hmatches⟩

theorem Matches.read_char {count : Option Nat} {t' : TextSource} {c : Char}
    (h : Matches text window count t s) (ht : CharSource.read t = (.ok (some c), t')) :
    ∃ s', CharSource.read s = (.ok (some c), s') ∧
      Matches text window (count.map (· + 1)) t' s' := by
  obtain ⟨hanswer, hmatches⟩ := h.read
  simp only [CharSource.perform, ht] at hanswer hmatches
  exact ⟨(CharSource.read s).2, Prod.ext hanswer rfl, hmatches⟩

theorem Matches.rewind_text {n : Nat} (h : Matches text window (some n) t s) :
    ∃ t', CharSource.rewind t = (.ok (), t') := by
  have hmarks := h.marks
  generalize hmemory : t.marked = memory at hmarks
  generalize s.marked = mark at hmarks
  simp only [CharSource.rewind, TextSource.rewind, hmemory]
  cases hmarks with
  | held | overrun => exact ⟨_, rfl⟩

theorem Matches.rewind_beyond {n : Nat} (h : Matches text window (some n) t s)
    (hbeyond : window < n) :
    CharSource.rewind s = (.error (.rewindWindowExceeded window), s) := by
  have hs := (h.rewind_overreaching hbeyond).2
  cases hrewind : CharSource.rewind s with
  | mk answer s' =>
      cases answer with
      | ok _ => simp [CharSource.perform, hrewind] at hs
      | error e => simpa [CharSource.perform, hrewind] using hs

theorem Matches.rewind_within {n : Nat} (h : Matches text window (some n) t s)
    (hwithin : n ≤ window) :
    ∃ t' s', CharSource.rewind t = (.ok (), t') ∧ CharSource.rewind s = (.ok (), s') ∧
      Matches text window (some 0) t' s' := by
  obtain ⟨hanswer, hmatches⟩ := h.rewind fun k hk => by cases hk; exact hwithin
  obtain ⟨t', ht⟩ := h.rewind_text
  cases hs : CharSource.rewind s with
  | mk answer s' =>
      cases answer with
      | error e => simp [CharSource.perform, ht, hs] at hanswer
      | ok _ =>
          simp only [CharSource.perform, ht, hs] at hmatches
          exact ⟨t', s', ht, rfl, hmatches⟩

end StreamSource

namespace Scan

variable {text : List Char} {window : Nat}

/-- More than a window of characters was read after the token. -/
def Overreads (window : Nat) (answer : Except LexerError (Option Token)) (count : Nat) : Prop :=
  ∃ token, answer = .ok (some token) ∧ token.value.length + window < count

/-- What a scan gives over the text and over the stream. -/
structure Concur (text : List Char) (window : Nat)
    (r : Except LexerError (Option Token) × Metered TextSource)
    (r' : Except LexerError (Option Token) × StreamSource) : Prop where
  beyond : Overreads window r.1 r.2.count →
    r'.1 = .error (.input (.rewindWindowExceeded window))
  within : ¬ Overreads window r.1 r.2.count →
    r'.1 = r.1 ∧ ∃ count, StreamSource.Matches text window count r.2.source r'.2

theorem concur_of_no_token {count : Option Nat} {answer : Except LexerError (Option Token)}
    {m : Metered TextSource} {b : StreamSource} (hanswer : ∀ token, answer ≠ .ok (some token))
    (h : StreamSource.Matches text window count m.source b) :
    Concur text window (answer, m) (answer, b) := by
  constructor
  · rintro ⟨token, htoken, -⟩
    exact absurd htoken (hanswer token)
  · intro _
    exact ⟨rfl, count, h⟩

/-- Both sources are where the scan is, and hold a mark at the end of its definite text. -/
structure Tracks (text : List Char) (window : Nat) (s : Scan) (m : Metered TextSource)
    (b : StreamSource) : Prop where
  count_eq : m.count = s.definite.length + s.tentative.length
  sources : StreamSource.Matches text window (s.winner.map fun _ => s.tentative.length)
    m.source b

theorem Tracks.finish {s : Scan} {m : Metered TextSource} {b : StreamSource}
    (h : s.Tracks text window m b) (start : Position) :
    Concur text window (s.finish start m) (s.finish start b) := by
  have hsources := h.sources
  cases hwinner : s.winner with
  | none =>
      have hposition : CharSource.position b = CharSource.position m := hsources.position_eq
      simp only [Scan.finish, hwinner, hposition]
      split
      · exact concur_of_no_token (by simp) hsources
      · exact concur_of_no_token (by simp) hsources
  | some lexClass =>
      rw [hwinner] at hsources
      by_cases hbeyond : window < s.tentative.length
      · obtain ⟨t', ht⟩ := hsources.rewind_text
        have hb := hsources.rewind_beyond hbeyond
        simp only [Scan.finish, hwinner, Metered.rewind_eq ht, hb]
        refine ⟨fun _ => rfl, fun hwithin => absurd ⟨_, rfl, ?_⟩ hwithin⟩
        simp [h.count_eq, hbeyond]
      · obtain ⟨t', b', ht, hb, hmatches⟩ := hsources.rewind_within (Nat.not_lt.mp hbeyond)
        have hposition : CharSource.position (⟨t', m.count⟩ : Metered TextSource) =
            CharSource.position b' := hmatches.position_eq.symm
        simp only [Scan.finish, hwinner, Metered.rewind_eq ht, hb, hposition]
        refine ⟨?_, fun _ => ⟨rfl, _, hmatches⟩⟩
        rintro ⟨token, htoken, hlt⟩
        cases htoken
        simp [h.count_eq] at hlt
        exact absurd hlt hbeyond

/-- The scan and its sources after a character was read and pushed. -/
theorem Tracks.push {s s' : Scan} {m m' : Metered TextSource} {b b' : StreamSource} {c : Char}
    (h : s.Tracks text window m b) (hread : CharSource.read m = (.ok (some c), m'))
    (hmatches : StreamSource.Matches text window
      ((s.winner.map fun _ => s.tentative.length).map (· + 1)) m'.source b')
    (hpush : s.push c = .ok s') :
    s'.Tracks text window (if s'.isSettled then CharSource.mark m' else m')
      (if s'.isSettled then CharSource.mark b' else b') := by
  have hcount : m'.count = m.count + 1 := Metered.read_count hread
  rw [h.count_eq] at hcount
  obtain ⟨automata, -, ⟨accepting, -, rfl⟩ | ⟨-, rfl⟩⟩ := push_cases hpush
  · refine ⟨?_, hmatches.mark⟩
    simp only [isSettled, List.isEmpty_nil, if_true, List.length_append, List.length_cons,
      List.length_nil]
    show m'.count = _
    omega
  · refine ⟨?_, ?_⟩
    · simp only [isSettled, List.isEmpty_cons, Bool.false_eq_true, if_false, List.length_cons]
      omega
    · simpa [isSettled, Function.comp_def] using hmatches

theorem run_concur (max : Option Nat) (start : Position) (s : Scan) (m : Metered TextSource) :
    ∀ b : StreamSource, s.Tracks text window m b →
      Concur text window (s.run max start m) (s.run max start b) := by
  fun_induction run max start s m with
  | case1 s m e m' hread => exact absurd (Metered.read_source hread) TextSource.read_ne_error
  | case2 s m m' hread =>
      intro b h
      obtain ⟨b', hread', hmatches⟩ := h.sources.read_end (Metered.read_source hread)
      rw [run_of_end hread']
      exact Tracks.finish ⟨(Metered.read_count hread).trans h.count_eq, hmatches⟩ start
  | case3 s m c m' hread limit hexceeds =>
      intro b h
      obtain ⟨b', hread', hmatches⟩ := h.sources.read_char (Metered.read_source hread)
      have hposition : CharSource.position b' = CharSource.position m' := hmatches.position_eq
      rw [run_of_char hread', proceed, hexceeds, hposition]
      exact concur_of_no_token (by simp) hmatches
  | case4 s m c m' hread hexceeds e hpush =>
      intro b h
      obtain ⟨b', hread', hmatches⟩ := h.sources.read_char (Metered.read_source hread)
      rw [run_of_char hread', proceed, hexceeds, hpush]
      exact concur_of_no_token (by simp) hmatches
  | case5 s m c m' hread hexceeds s' hpush m'' hlive ih =>
      intro b h
      obtain ⟨b', hread', hmatches⟩ := h.sources.read_char (Metered.read_source hread)
      have hpushed := h.push hread hmatches hpush
      rw [run_of_char hread', proceed, hexceeds, hpush]
      simp only [hlive, if_true]
      exact ih _ hpushed
  | case6 s m c m' hread hexceeds s' hpush m'' hlive =>
      intro b h
      obtain ⟨b', hread', hmatches⟩ := h.sources.read_char (Metered.read_source hread)
      have hpushed := h.push hread hmatches hpush
      rw [run_of_char hread', proceed, hexceeds, hpush]
      simp only [hlive, Bool.false_eq_true, if_false]
      exact hpushed.finish start

theorem token_concur (acceptors : List Acceptor) (max : Option Nat) {t : TextSource}
    {b : StreamSource} (h : StreamSource.Matches text window none t b) :
    let scanned := token acceptors max (⟨t, 0⟩ : Metered TextSource)
    (Overreads window scanned.1 scanned.2.count →
      (token acceptors max b).1 = .error (.input (.rewindWindowExceeded window))) ∧
    (¬ Overreads window scanned.1 scanned.2.count →
      (token acceptors max b).1 = scanned.1 ∧
        StreamSource.Matches text window none scanned.2.source (token acceptors max b).2) := by
  have hrun := run_concur max (CharSource.position t) (start acceptors) ⟨t, 0⟩ b ⟨rfl, h⟩
  have hposition : CharSource.position b = CharSource.position t := h.position_eq
  simp only [token, hposition]
  refine ⟨hrun.beyond, ?_⟩
  intro hwithin
  obtain ⟨hanswer, count, hmatches⟩ := hrun.within hwithin
  exact ⟨hanswer, hmatches.release⟩

end Scan

namespace Tokenizer

section Reading

variable {σ : Type} [CharSource σ]

/-- The characters that the next call reads, given back or not. -/
def charsRead (t : Tokenizer σ) : Nat :=
  (Scan.token t.acceptors t.preferences.maxTokenLength (⟨t.source, 0⟩ : Metered σ)).2.count

/-- The next call finds a token after reading more than a window beyond its end. -/
def Overreaches (t : Tokenizer σ) (window : Nat) : Prop :=
  ∃ token, t.next.result = .ok (some token) ∧ token.value.length + window < t.charsRead

end Reading

/-- Both tokenizers stand at the same place of the text, and have counted the same. -/
structure Matches (text : List Char) (window : Nat) (t : Tokenizer TextSource)
    (s : Tokenizer StreamSource) : Prop where
  acceptors_eq : s.acceptors = t.acceptors
  preferences_eq : s.preferences = t.preferences
  metrics_eq : s.metrics = t.metrics
  sources : StreamSource.Matches text window none t.source s.source

variable {text : List Char} {window : Nat} {t : Tokenizer TextSource} {s : Tokenizer StreamSource}

theorem Matches.next (h : Matches text window t s) :
    (t.Overreaches window →
      s.next.result = .error (.input (.rewindWindowExceeded window))) ∧
    (¬ t.Overreaches window →
      s.next.result = t.next.result ∧ s.next.events = t.next.events ∧
        Matches text window t.next.rest s.next.rest) := by
  have htoken := Scan.token_concur t.acceptors t.preferences.maxTokenLength h.sources
  have herase := Scan.token_erase t.acceptors t.preferences.maxTokenLength ⟨t.source, 0⟩
  obtain ⟨hanswer, hsource⟩ := Prod.ext_iff.mp herase
  simp only [Metered.erase] at hanswer hsource
  simp only [hanswer, hsource] at htoken
  have hnext : s.next = ⟨(Scan.token t.acceptors t.preferences.maxTokenLength s.source).1,
      { s with
        source := (Scan.token t.acceptors t.preferences.maxTokenLength s.source).2
        metrics := t.metrics.record t.preferences
          (Scan.token t.acceptors t.preferences.maxTokenLength s.source).1 },
      t.preferences.report (Scan.token t.acceptors t.preferences.maxTokenLength s.source).1⟩ := by
    simp only [Tokenizer.next, h.acceptors_eq, h.preferences_eq, h.metrics_eq]
  rw [hnext]
  refine ⟨htoken.1, ?_⟩
  intro hwithin
  obtain ⟨hresult, hmatches⟩ := htoken.2 hwithin
  simp only [hresult]
  exact ⟨rfl, rfl, h.acceptors_eq, h.preferences_eq, rfl, hmatches⟩

/-- Two tokenizers are in step through a number of calls: they give the same
answers, events and counts, up to the first call that overreaches. That one finds
its token in memory, and fails over the stream. -/
def InStep (window : Nat) (t : Tokenizer TextSource) (s : Tokenizer StreamSource) : Nat → Prop
  | 0 => True
  | n + 1 =>
      (t.Overreaches window →
        s.next.result = .error (.input (.rewindWindowExceeded window))) ∧
      (¬ t.Overreaches window →
        s.next.result = t.next.result ∧ s.next.events = t.next.events ∧
        s.next.rest.metrics = t.next.rest.metrics ∧
        InStep window t.next.rest s.next.rest n)

theorem Matches.inStep (h : Matches text window t s) (n : Nat) : InStep window t s n := by
  induction n generalizing t s with
  | zero => trivial
  | succ n ih =>
      refine ⟨h.next.1, ?_⟩
      intro hwithin
      obtain ⟨hresult, hevents, hmatches⟩ := h.next.2 hwithin
      exact ⟨hresult, hevents, hmatches.metrics_eq, ih hmatches⟩

def ofBytes (bytes : List UInt8) (window : Nat) (acceptors : List Acceptor)
    (preferences : LexicalPreferences) : Tokenizer StreamSource :=
  { source := .ofFeed (.ofBytes bytes) window, acceptors := acceptors, preferences := preferences }

/-- Lexing the encoding of a text from a stream is lexing the text in memory, for
all acceptors, preferences and windows, up to the first token that is read beyond
by more than the window. -/
theorem ofBytes_inStep (text : List Char) (window : Nat) (acceptors : List Acceptor)
    (preferences : LexicalPreferences) (n : Nat) :
    InStep window (ofText text acceptors preferences)
      (ofBytes (Utf8.encode text) window acceptors preferences) n := by
  apply Matches.inStep
  exact ⟨rfl, rfl, rfl, StreamSource.matches_start (Feed.serves_ofBytes (Utf8.encode text))⟩

-- the third letter is read in the hope of a fourth, and is given back
example : (ofText "abc".toList Demo.acceptors {}).Overreaches 0 := by
  refine ⟨⟨"ab", Demo.evenClass, ⟨.start, ⟨2, 1, 3⟩⟩⟩, ?_, ?_⟩
  · cbv
  · decide +kernel

end Tokenizer

end Lookahead
