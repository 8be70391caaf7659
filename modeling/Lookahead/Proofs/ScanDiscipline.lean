import Lookahead.Bundled.Demo
import Lookahead.Proofs.SourceLaws
import Lookahead.Proofs.SourceMaps
import Lookahead.Proofs.Tiling

/-!
A scan never misuses its source. It goes back at its end only, and only if it has set a
mark on the way, so it never asks a source without a mark to go back; a mark that was
there before has no part in it. The mark and every place where the scan stops lie at or
after its start, so no span is taken backwards. Whatever the exit, the mark is gone
afterwards.

Positions are unbounded here. A guarded source steps them in fixed widths at the same
time, and remembers if a step leaves these; over a text that is not too long none does.
-/
namespace Lookahead

namespace Scan

variable {σ : Type} [CharSource σ] {text origin : List Char}
  {Stands : List Char → Option (List Char) → σ → Prop} {s s' : Scan} {source source' : σ}

/-- The source of a scan stands at or after the start of the scan, and so does its mark
from the first acceptance on. -/
def Holds (Stands : List Char → Option (List Char) → σ → Prop) (origin : List Char) (s : Scan)
    (source : σ) : Prop :=
  ∃ consumed marked, Stands consumed marked source ∧ origin <+: consumed ∧
    (s.winner.isSome → ∃ front, marked = some front ∧ origin <+: front)

theorem Holds.read_end (hlawful : CharSource.Lawful text Stands)
    (h : s.Holds Stands origin source) (hread : CharSource.read source = (.ok none, source')) :
    s.Holds Stands origin source' := by
  obtain ⟨consumed, marked, hstands, horigin, hmark⟩ := h
  exact ⟨consumed, marked, hlawful.read_end hstands hread, horigin, hmark⟩

theorem Holds.read_char (hlawful : CharSource.Lawful text Stands) {c : Char}
    (h : s.Holds Stands origin source)
    (hread : CharSource.read source = (.ok (some c), source')) : s.Holds Stands origin source' := by
  obtain ⟨consumed, marked, hstands, horigin, hmark⟩ := h
  refine ⟨consumed ++ [c], marked, hlawful.read_char hstands hread, ?_, hmark⟩
  exact horigin.trans (List.prefix_append consumed [c])

/-- A push that settles is followed by a mark; any other keeps the winner. -/
theorem Holds.push (hlawful : CharSource.Lawful text Stands) {c : Char}
    (h : s.Holds Stands origin source) (hpush : s.push c = .ok s') :
    s'.Holds Stands origin (if s'.isSettled then CharSource.mark source else source) := by
  obtain ⟨consumed, marked, hstands, horigin, hmark⟩ := h
  obtain ⟨automata, -, ⟨m, -, rfl⟩ | ⟨-, rfl⟩⟩ := push_cases hpush
  · refine ⟨consumed, some consumed, hlawful.mark hstands, horigin, ?_⟩
    intro _
    exact ⟨consumed, rfl, horigin⟩
  · exact ⟨consumed, marked, hstands, horigin, hmark⟩

/-- What a scan from some place on leaves behind. -/
structure Clean (Stands : List Char → Option (List Char) → σ → Prop)
    (r : Except LexerError (Option Token) × σ) : Prop where
  marked : r.1 ≠ .error (.input .noActiveMark)
  forward : ∀ stretch, Stretch.ofAnswer? r.1 = some stretch →
    stretch.span.start.offset ≤ stretch.span.stop.offset
  stands : ∃ consumed marked, Stands consumed marked r.2

theorem offset_le_of_prefix {front whole : List Char} (h : front <+: whole) :
    (Position.after front).offset ≤ (Position.after whole).offset :=
  h.length_le

theorem Holds.offset_le (hlawful : CharSource.Lawful text Stands)
    (h : s.Holds Stands origin source) :
    (Position.after origin).offset ≤ (CharSource.position source).offset := by
  obtain ⟨consumed, marked, hstands, horigin, -⟩ := h
  rw [hlawful.position hstands]
  exact offset_le_of_prefix horigin

theorem Holds.finish (hlawful : CharSource.Lawful text Stands)
    (h : s.Holds Stands origin source) : Clean Stands (s.finish (.after origin) source) := by
  have hle := h.offset_le hlawful
  obtain ⟨consumed, marked, hstands, horigin, hmark⟩ := h
  cases hwinner : s.winner with
  | none =>
      simp only [Scan.finish, hwinner]
      split
      · exact ⟨by simp, by simp [Stretch.ofAnswer?], consumed, marked, hstands⟩
      · refine ⟨by simp, ?_, consumed, marked, hstands⟩
        intro stretch hstretch
        cases hstretch
        exact hle
  | some lexClass =>
      obtain ⟨front, rfl, hfront⟩ := hmark (by simp [hwinner])
      obtain ⟨source', hrewind, hstands'⟩ | ⟨e, hrewind, he⟩ := hlawful.rewind hstands
      · simp only [Scan.finish, hwinner, hrewind]
        refine ⟨by simp, ?_, front, some front, hstands'⟩
        intro stretch hstretch
        cases hstretch
        simp only [hlawful.position hstands']
        exact offset_le_of_prefix hfront
      · simp only [Scan.finish, hwinner, hrewind]
        exact ⟨by simpa using he, by simp [Stretch.ofAnswer?], consumed, some front, hstands⟩

theorem run_clean (hlawful : CharSource.Lawful text Stands) (max : Option Nat) (s : Scan)
    (source : σ) (h : s.Holds Stands origin source) :
    Clean Stands (s.run max (.after origin) source) := by
  fun_induction run max (.after origin) s source with
  | case1 s source e source' hread =>
      obtain ⟨consumed, marked, hstands, -, -⟩ := h
      obtain ⟨he, hstands'⟩ := hlawful.read_failure hstands hread
      exact ⟨by simpa using he, by simp [Stretch.ofAnswer?], consumed, marked, hstands'⟩
  | case2 s source source' hread =>
      exact (h.read_end hlawful hread).finish hlawful
  | case3 s source c source' hread limit hexceeds =>
      have hread' := h.read_char hlawful hread
      have hle := hread'.offset_le hlawful
      obtain ⟨consumed, marked, hstands, -, -⟩ := hread'
      refine ⟨by simp, ?_, consumed, marked, hstands⟩
      intro stretch hstretch
      cases hstretch
      exact hle
  | case4 s source c source' hread hexceeds e hpush =>
      obtain ⟨consumed, marked, hstands, -, -⟩ := h.read_char hlawful hread
      obtain ⟨state, lexClass, rfl⟩ := push_error hpush
      exact ⟨by simp, by simp [Stretch.ofAnswer?], consumed, marked, hstands⟩
  | case5 s source c source' hread hexceeds s' hpush source'' hlive ih =>
      exact ih ((h.read_char hlawful hread).push hlawful hpush)
  | case6 s source c source' hread hexceeds s' hpush source'' hlive =>
      exact ((h.read_char hlawful hread).push hlawful hpush).finish hlawful

/-- A scan from any place, with any mark held before. -/
theorem token_clean (hlawful : CharSource.Lawful text Stands) {consumed : List Char}
    {marked : Option (List Char)} (h : Stands consumed marked source)
    (acceptors : List Acceptor) (max : Option Nat) :
    Clean Stands (token acceptors max source) ∧
      CharSource.rewind (token acceptors max source).2 =
        (.error .noActiveMark, (token acceptors max source).2) := by
  have hholds : (start acceptors).Holds Stands consumed source :=
    ⟨consumed, marked, h, List.prefix_rfl, by simp [start]⟩
  have hrun := run_clean hlawful max (start acceptors) source hholds
  simp only [token, hlawful.position h]
  obtain ⟨consumed', marked', hstands⟩ := hrun.stands
  have hreleased := hlawful.release hstands
  exact ⟨⟨hrun.marked, hrun.forward, consumed', none, hreleased⟩, hlawful.unmarked hreleased⟩

end Scan

/-- A source that takes note if the step of a position does not fit. -/
structure Guarded (σ : Type) where
  source : σ
  fault : Option Fault

namespace Guarded

theorem eq_of_source {σ : Type} {g : Guarded σ} {source : σ} (hsource : g.source = source)
    (hfault : g.fault = none) : g = ⟨source, none⟩ := by
  cases g
  cases hsource
  cases hfault
  rfl

/-- The fault of a step in fixed widths over what was read. -/
def faultOf (p : Position) : Except InputError (Option Char) → Option Fault
  | .ok (some c) =>
      match p.advance? c with
      | .ok _ => none
      | .error fault => some fault
  | _ => none

variable {σ : Type} [CharSource σ]

instance : CharSource (Guarded σ) where
  read g :=
    let (answer, source) := CharSource.read g.source
    (answer, ⟨source, g.fault <|> faultOf (CharSource.position g.source) answer⟩)
  mark g := ⟨CharSource.mark g.source, g.fault⟩
  rewind g :=
    let (answer, source) := CharSource.rewind g.source
    (answer, ⟨source, g.fault⟩)
  release g := ⟨CharSource.release g.source, g.fault⟩
  position g := CharSource.position g.source
  remaining g := CharSource.remaining g.source
  reach g := CharSource.reach g.source
  remaining_read h := CharSource.remaining_read h
  remaining_mark g := CharSource.remaining_mark g.source
  remaining_release g := CharSource.remaining_release g.source
  reach_mark g := CharSource.reach_mark g.source
  reach_read g := CharSource.reach_read g.source
  remaining_rewind h := CharSource.remaining_rewind h

theorem rewind_eq {g : Guarded σ} {answer : Except InputError Unit} {source : σ}
    (h : CharSource.rewind g.source = (answer, source)) :
    CharSource.rewind g = (answer, ⟨source, g.fault⟩) := by
  have hguarded : CharSource.rewind g =
      ((CharSource.rewind g.source).1, ⟨(CharSource.rewind g.source).2, g.fault⟩) := rfl
  rw [hguarded, h]

theorem maps : CharSource.Maps (source : Guarded σ → σ) where
  read _ := rfl
  mark _ := rfl
  rewind _ := rfl
  release _ := rfl
  position _ := rfl

variable {text : List Char} {Stands : List Char → Option (List Char) → σ → Prop}

/-- A source that follows its laws and has met no fault. -/
def Sound (Stands : List Char → Option (List Char) → σ → Prop) (consumed : List Char)
    (marked : Option (List Char)) (g : Guarded σ) : Prop :=
  Stands consumed marked g.source ∧ g.fault = none

theorem read_eq {g g' : Guarded σ} {answer : Except InputError (Option Char)}
    (h : CharSource.read g = (answer, g')) :
    CharSource.read g.source = (answer, g'.source) ∧
      g'.fault = (g.fault <|> faultOf (CharSource.position g.source) answer) := by
  cases h
  exact ⟨rfl, rfl⟩

theorem Sound.read_char (hlawful : CharSource.Lawful text Stands)
    (hlength : text.length + 1 < halfWordLimit) {consumed : List Char}
    {marked : Option (List Char)} {g g' : Guarded σ} {c : Char} (h : Sound Stands consumed marked g)
    (hread : CharSource.read g = (.ok (some c), g')) :
    Sound Stands (consumed ++ [c]) marked g' := by
  obtain ⟨hsource, hfault⟩ := read_eq hread
  have hstands := hlawful.read_char h.1 hsource
  refine ⟨hstands, ?_⟩
  have hfits : (Position.after (consumed ++ [c])).Fits := by
    have hle := (hlawful.initial hstands).length_le
    exact Position.after_fits (by omega)
  rw [Position.after_snoc, ← hlawful.position h.1] at hfits
  rw [hfault, h.2]
  simp [faultOf, Position.advance?, hfits]

theorem lawful (hlawful : CharSource.Lawful text Stands)
    (hlength : text.length + 1 < halfWordLimit) : CharSource.Lawful text (Sound Stands) where
  initial h := hlawful.initial h.1
  position h := hlawful.position h.1
  read_char h hread := h.read_char hlawful hlength hread
  read_end h hread := by
    obtain ⟨hsource, hfault⟩ := read_eq hread
    exact ⟨hlawful.read_end h.1 hsource, by rw [hfault, h.2]; rfl⟩
  read_failure h hread := by
    obtain ⟨hsource, hfault⟩ := read_eq hread
    obtain ⟨he, hstands⟩ := hlawful.read_failure h.1 hsource
    exact ⟨he, hstands, by rw [hfault, h.2]; rfl⟩
  mark h := ⟨hlawful.mark h.1, h.2⟩
  rewind {consumed front g} h := by
    obtain ⟨source, hrewind, hstands⟩ | ⟨e, hrewind, he⟩ := hlawful.rewind h.1
    · exact Or.inl ⟨⟨source, g.fault⟩, rewind_eq hrewind, hstands, h.2⟩
    · exact Or.inr ⟨e, rewind_eq hrewind, he⟩
  unmarked h := rewind_eq (hlawful.unmarked h.1)
  release h := ⟨hlawful.release h.1, h.2⟩

end Guarded

namespace Tokenizer

section Discipline

variable {σ : Type} [CharSource σ]

/-- The tokenizer over its source with a guard. -/
def guarded (t : Tokenizer σ) : Tokenizer (Guarded σ) :=
  ⟨⟨t.source, none⟩, t.acceptors, t.preferences, t.metrics⟩

/-- What a call owes to its source. -/
structure Disciplined (t : Tokenizer σ) : Prop where
  /-- It never goes back without a mark. -/
  marked : t.next.result ≠ .error (.input .noActiveMark)
  /-- The span that it reports can be built. -/
  forward : ∀ stretch, Stretch.ofAnswer? t.next.result = some stretch →
    Span.between? stretch.span.start stretch.span.stop = .ok stretch.span
  /-- With every step of a position checked it does the same, and no check fails. -/
  fits : t.guarded.next.result = t.next.result ∧
    t.guarded.next.rest.source = ⟨t.next.rest.source, none⟩
  /-- It leaves no mark behind. -/
  released : CharSource.rewind t.next.rest.source = (.error .noActiveMark, t.next.rest.source)

theorem disciplined_of_lawful {t : Tokenizer σ} {text consumed : List Char}
    {marked : Option (List Char)} {Stands : List Char → Option (List Char) → σ → Prop}
    (hlawful : CharSource.Lawful text Stands) (hlength : text.length + 1 < halfWordLimit)
    (h : Stands consumed marked t.source) : t.Disciplined := by
  obtain ⟨hclean, hreleased⟩ :=
    Scan.token_clean hlawful h t.acceptors t.preferences.maxTokenLength
  have hsound : Guarded.Sound Stands consumed marked t.guarded.source := ⟨h, rfl⟩
  obtain ⟨hguarded, -⟩ := Scan.token_clean (Guarded.lawful hlawful hlength) hsound t.acceptors
    t.preferences.maxTokenLength
  have hmap := Scan.token_map Guarded.maps t.acceptors t.preferences.maxTokenLength
    t.guarded.source
  obtain ⟨hresult, hsource⟩ := Prod.ext_iff.mp hmap
  obtain ⟨consumed', marked', -, hfault⟩ := hguarded.stands
  constructor
  · exact hclean.marked
  · intro stretch hstretch
    simp only [Span.between?, hclean.forward stretch hstretch, if_true]
  · refine ⟨hresult.symm, ?_⟩
    exact Guarded.eq_of_source hsource.symm hfault
  · exact hreleased

end Discipline

/-- A call never misuses its source, over a text and over a feed with any window and any
failures, in whatever state operations on the source have left it before. -/
theorem next_disciplined (acceptors : List Acceptor) (preferences : LexicalPreferences)
    (metrics : LexicalMetrics) (ops : List SourceOp) :
    (∀ text : List Char, text.length + 1 < halfWordLimit →
      Disciplined (⟨CharSource.afterOps (TextSource.ofText text) ops, acceptors, preferences,
        metrics⟩ : Tokenizer TextSource)) ∧
    (∀ (feed : Feed) (window : Nat), feed.chars.length + 1 < halfWordLimit →
      Disciplined (⟨CharSource.afterOps (StreamSource.ofFeed feed window) ops, acceptors,
        preferences, metrics⟩ : Tokenizer StreamSource)) := by
  constructor
  · intro text hlength
    obtain ⟨consumed, marked, hstands⟩ :=
      (TextSource.lawful text).afterOps (TextSource.stands_ofText text) ops
    exact disciplined_of_lawful (TextSource.lawful text) hlength hstands
  · intro feed window hlength
    obtain ⟨consumed, marked, hstands⟩ :=
      (StreamSource.lawful feed.chars).afterOps (StreamSource.stands_ofFeed feed window) ops
    exact disciplined_of_lawful (StreamSource.lawful feed.chars) hlength hstands

/-- A device that fails once between two letters and ends with a byte that begins no
character. -/
def flaky : Feed := ⟨[.byte 97, .failure "reset", .byte 98, .byte 32, .byte 255], .finished⟩

/-- In the second run the mark is already overrun when the call begins. -/
theorem next_disciplined_flaky :
    "ab ".toList.length + 1 < halfWordLimit ∧ flaky.chars.length + 1 < halfWordLimit ∧
    Disciplined (⟨CharSource.afterOps (TextSource.ofText "ab ".toList) [.read, .mark],
      Demo.acceptors, {}, {}⟩ : Tokenizer TextSource) ∧
    Disciplined (⟨CharSource.afterOps (StreamSource.ofFeed flaky 0) [.mark, .read],
      Demo.acceptors, {}, {}⟩ : Tokenizer StreamSource) := by
  have htext : "ab ".toList.length + 1 < halfWordLimit := by decide
  have hfeed : flaky.chars.length + 1 < halfWordLimit := by decide +kernel
  have hmarked := next_disciplined Demo.acceptors {} {} [.read, .mark]
  have hoverrun := next_disciplined Demo.acceptors {} {} [.mark, .read]
  exact ⟨htext, hfeed, hmarked.1 "ab ".toList htext, hoverrun.2 flaky 0 hfeed⟩

end Tokenizer

end Lookahead
