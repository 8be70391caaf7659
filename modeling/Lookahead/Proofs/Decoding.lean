import Lookahead.Proofs.Encoding
import Lookahead.Proofs.SourceLaws

/-!
Decoding bytes that need not be valid. The bytes that are decoded to a character are just
its encoding, and the encodings of two characters never begin the same bytes. So the
characters that a source hands out before it first answers without one are those of the
longest text whose encoding begins the bytes of its feed; what stops it is the end of the
input if the encoding is all of the bytes, and an error of the encoding if it is not.

The first byte announces a length that may turn out to be wrong in every way: by the bytes
that follow, by a value that needs fewer bytes or is none, or by the end of the input.
-/
namespace Lookahead

namespace Utf8

theorem toNat_char_ofNat {n : Nat} (h : n.isValidChar) : (Char.ofNat n).toNat = n := by
  rw [Char.ofNat, dif_pos h]
  rfl

theorem of_range {low high a : UInt8} {α : Type} {found : Option α} {x : α}
    (h : (if low ≤ a && a ≤ high then found else none) = some x) :
    low.toNat ≤ a.toNat ∧ a.toNat ≤ high.toNat ∧ found = some x := by
  simp only [Bool.and_eq_true, decide_eq_true_eq, UInt8.le_iff_toNat_le,
    Option.ite_none_right_eq_some] at h
  exact ⟨h.1.1, h.1.2, h.2⟩

theorem tail?_eq_some {b : UInt8} {y : Nat} (h : tail? b = some y) :
    y < 0x40 ∧ b.toNat = y + 0x80 := by
  obtain ⟨hlow, hhigh, hy⟩ := of_range h
  have hlow : 0x80 ≤ b.toNat := hlow
  have hhigh : b.toNat ≤ 0xBF := hhigh
  have hbits : b.toNat - 0x80 = y := Option.some.inj hy
  exact ⟨by omega, by omega⟩

theorem assemble?_eq_some {least value : Nat} {c : Char} (h : assemble? least value = some c) :
    least ≤ value ∧ c.toNat = value := by
  simp only [assemble?, Option.ite_none_right_eq_some, Option.some.injEq] at h
  obtain ⟨⟨hleast, hvalid⟩, rfl⟩ := h
  exact ⟨hleast, toNat_char_ofNat hvalid⟩

/-- Bytes that are decoded to a character are its encoding. -/
theorem eq_utf8EncodeChar_of_scalar? {bytes : List UInt8} {c : Char}
    (h : scalar? bytes = some c) : bytes = String.utf8EncodeChar c := by
  have hval : c.val.toNat = c.toNat := rfl
  have hlt := toNat_lt c
  fun_cases scalar? bytes with
  | case1 a ha =>
      simp only [scalar?, ha, if_true, Option.some.injEq] at h
      have ha : a.toNat ≤ 0x7F := UInt8.le_iff_toNat_le.mp ha
      have hc : c.toNat = a.toNat := by
        rw [← h]
        exact toNat_char_ofNat (Or.inl (by omega))
      simp only [String.utf8EncodeChar, hval, hc, if_pos ha, UInt8.ofNat_toNat]
  | case2 a ha => simp [scalar?, ha] at h
  | case3 a b =>
      simp only [scalar?, Option.bind_eq_bind, Option.bind_eq_some_iff] at h
      obtain ⟨y, hb, h⟩ := h
      obtain ⟨hy, hb⟩ := tail?_eq_some hb
      obtain ⟨hlow, hhigh, h⟩ := of_range h
      obtain ⟨hleast, hc⟩ := assemble?_eq_some h
      have hlow : 0xC0 ≤ a.toNat := hlow
      have hhigh : a.toNat ≤ 0xDF := hhigh
      have hfirst : c.toNat / 64 % 32 + 192 = a.toNat := by omega
      have hsecond : c.toNat % 64 + 128 = b.toNat := by omega
      simp only [String.utf8EncodeChar, hval]
      rw [if_neg (by omega), if_pos (by omega), hfirst, hsecond]
      simp only [UInt8.ofNat_toNat]
  | case4 a b d =>
      simp only [scalar?, Option.bind_eq_bind, Option.bind_eq_some_iff] at h
      obtain ⟨y, hb, z, hd, h⟩ := h
      obtain ⟨hy, hb⟩ := tail?_eq_some hb
      obtain ⟨hz, hd⟩ := tail?_eq_some hd
      obtain ⟨hlow, hhigh, h⟩ := of_range h
      obtain ⟨hleast, hc⟩ := assemble?_eq_some h
      have hlow : 0xE0 ≤ a.toNat := hlow
      have hhigh : a.toNat ≤ 0xEF := hhigh
      have hfirst : c.toNat / 4096 % 16 + 224 = a.toNat := by omega
      have hsecond : c.toNat / 64 % 64 + 128 = b.toNat := by omega
      have hthird : c.toNat % 64 + 128 = d.toNat := by omega
      simp only [String.utf8EncodeChar, hval]
      rw [if_neg (by omega), if_neg (by omega), if_pos (by omega), hfirst, hsecond, hthird]
      simp only [UInt8.ofNat_toNat]
  | case5 a b d e =>
      simp only [scalar?, Option.bind_eq_bind, Option.bind_eq_some_iff] at h
      obtain ⟨y, hb, z, hd, w, he, h⟩ := h
      obtain ⟨hy, hb⟩ := tail?_eq_some hb
      obtain ⟨hz, hd⟩ := tail?_eq_some hd
      obtain ⟨hw, he⟩ := tail?_eq_some he
      obtain ⟨hlow, hhigh, h⟩ := of_range h
      obtain ⟨hleast, hc⟩ := assemble?_eq_some h
      have hlow : 0xF0 ≤ a.toNat := hlow
      have hhigh : a.toNat ≤ 0xF7 := hhigh
      have hfirst : c.toNat / 262144 % 8 + 240 = a.toNat := by omega
      have hsecond : c.toNat / 4096 % 64 + 128 = b.toNat := by omega
      have hthird : c.toNat / 64 % 64 + 128 = d.toNat := by omega
      have hfourth : c.toNat % 64 + 128 = e.toNat := by omega
      simp only [String.utf8EncodeChar, hval]
      rw [if_neg (by omega), if_neg (by omega), if_neg (by omega), hfirst, hsecond, hthird,
        hfourth]
      simp only [UInt8.ofNat_toNat]
  | case6 bytes => simp_all [scalar?]

/-- At most one character is encoded at the beginning of some bytes. -/
theorem char_unique {c d : Char} {bytes : List UInt8}
    (hc : String.utf8EncodeChar c <+: bytes) (hd : String.utf8EncodeChar d <+: bytes) : c = d := by
  obtain ⟨first, others, hencoded, hwidth, hscalar⟩ := utf8EncodeChar_cases c
  obtain ⟨first', others', hencoded', hwidth', hscalar'⟩ := utf8EncodeChar_cases d
  obtain ⟨rest, rfl⟩ := hc
  obtain ⟨rest', hbytes⟩ := hd
  rw [hencoded, hencoded', List.cons_append, List.cons_append] at hbytes
  obtain ⟨rfl, hothers⟩ := List.cons.inj hbytes
  -- the same first byte announces the same length
  have hlength : others'.length = others.length := by
    rw [hwidth] at hwidth'
    have hsame : others.length + 1 = others'.length + 1 := Option.some.inj hwidth'
    omega
  obtain ⟨rfl, -⟩ := List.append_inj hothers hlength
  rw [hscalar] at hscalar'
  exact Option.some.inj hscalar'

/-- The longest text whose encoding begins the bytes. -/
structure LongestValid (bytes : List UInt8) (text : List Char) : Prop where
  valid : encode text <+: bytes
  longest : ∀ other, encode other <+: bytes → (encode other).length ≤ (encode text).length

theorem LongestValid.cons {c : Char} {bytes : List UInt8} {text : List Char}
    (h : LongestValid bytes text) :
    LongestValid (String.utf8EncodeChar c ++ bytes) (c :: text) := by
  constructor
  · rw [encode_cons]
    exact (List.prefix_append_right_inj _).mpr h.valid
  · intro other hother
    cases other with
    | nil => exact Nat.zero_le _
    | cons d other =>
        rw [encode_cons] at hother
        have hd : String.utf8EncodeChar d <+: String.utf8EncodeChar c ++ bytes :=
          (List.prefix_append _ _).trans hother
        obtain rfl := char_unique (List.prefix_append _ _) hd
        have hlater := h.longest other ((List.prefix_append_right_inj _).mp hother)
        simp only [encode_cons, List.length_append]
        omega

/-- Bytes that begin with no character have no valid beginning but the empty one. -/
theorem longestValid_nil {bytes : List UInt8}
    (h : ∀ c, ¬ String.utf8EncodeChar c <+: bytes) : LongestValid bytes [] := by
  constructor
  · exact List.nil_prefix
  · intro other hother
    cases other with
    | nil => exact Nat.le_refl _
    | cons d other =>
        rw [encode_cons] at hother
        exact absurd ((List.prefix_append _ _).trans hother) (h d)

theorem length_le_encode (text : List Char) : text.length ≤ (encode text).length := by
  induction text with
  | nil => exact Nat.le_refl _
  | cons c text ih =>
      obtain ⟨first, others, hencoded, -⟩ := utf8EncodeChar_cases c
      simp only [encode_cons, hencoded, List.length_append, List.length_cons]
      omega

end Utf8

namespace Feed

theorem take_of_serves_short {f : Feed} {bytes : List UInt8} {n : Nat} (h : f.Serves bytes)
    (hshort : bytes.length < n) : ∃ f', f.take n = (.ok none, f') := by
  induction bytes generalizing f n with
  | nil =>
      obtain ⟨n, rfl⟩ := Nat.exists_eq_succ_of_ne_zero (Nat.ne_zero_of_lt hshort)
      obtain ⟨f', hnext, -⟩ := next_of_serves_nil h
      exact ⟨f', by simp only [take, hnext]⟩
  | cons b bytes ih =>
      obtain ⟨n, rfl⟩ := Nat.exists_eq_succ_of_ne_zero (Nat.ne_zero_of_lt hshort)
      obtain ⟨f', hnext, hf'⟩ := next_of_serves_cons h
      obtain ⟨f'', htake⟩ := ih hf' (Nat.lt_of_succ_lt_succ hshort)
      exact ⟨f'', by simp only [take, hnext, htake]⟩

/-- Bytes that begin with no character are refused. -/
theorem nextChar_of_serves_invalid {f : Feed} {bytes : List UInt8} (offset : Nat)
    (hne : bytes ≠ []) (hinvalid : ∀ c, ¬ String.utf8EncodeChar c <+: bytes)
    (h : f.Serves bytes) : ∃ f', f.nextChar offset = (.error (.invalidEncoding offset), f') := by
  obtain ⟨first, rest, rfl⟩ := List.exists_cons_of_ne_nil hne
  obtain ⟨f', hnext, hf'⟩ := next_of_serves_cons h
  cases hwidth : Utf8.width? first with
  | none => exact ⟨f', by simp only [nextChar, hnext, hwidth]⟩
  | some width =>
      by_cases hshort : rest.length < width - 1
      · obtain ⟨f'', htake⟩ := take_of_serves_short hf' hshort
        exact ⟨f'', by simp only [nextChar, hnext, hwidth, htake]⟩
      · have hlength : (rest.take (width - 1)).length = width - 1 := by
          rw [List.length_take]
          omega
        rw [← List.take_append_drop (width - 1) rest] at hf'
        obtain ⟨f'', htake, -⟩ := take_of_serves hf'
        rw [hlength] at htake
        cases hscalar : Utf8.scalar? (first :: rest.take (width - 1)) with
        | none => exact ⟨f'', by simp only [nextChar, hnext, hwidth, htake, hscalar]⟩
        | some c =>
            have hencoded := Utf8.eq_utf8EncodeChar_of_scalar? hscalar
            refine absurd ?_ (hinvalid c)
            rw [← hencoded]
            exact ⟨rest.drop (width - 1), by rw [List.cons_append, List.take_append_drop]⟩

end Feed

namespace CharSource

variable {σ : Type} [CharSource σ]

def afterReads (s : σ) (n : Nat) : σ := afterOps s (List.replicate n .read)

/-- The answer of the read that comes after the given number of reads. -/
def answer (s : σ) (n : Nat) : Except InputError (Option Char) := (read (afterReads s n)).1

theorem afterReads_succ (s : σ) (n : Nat) : afterReads s (n + 1) = afterReads (read s).2 n := rfl

theorem answer_succ (s : σ) (n : Nat) : answer s (n + 1) = answer (read s).2 n := rfl

end CharSource

namespace StreamSource

open CharSource (answer afterReads)

/-- Reading hands out the text one character after the other. Then it comes to the end of
the input and stays there, if the text accounts for all the bytes, and is refused because
of the encoding otherwise. -/
structure Decodes (s : StreamSource) (bytes : List UInt8) (text : List Char) : Prop where
  characters : ∀ n c, text[n]? = some c → answer s n = .ok (some c)
  finished : Utf8.encode text = bytes → ∀ n, text.length ≤ n → answer s n = .ok none
  invalid : Utf8.encode text ≠ bytes →
    answer s text.length = .error (.invalidEncoding (s.position.offset + text.length))
  position : ∀ n ≤ text.length, (afterReads s n).position = s.position.advanceAll (text.take n)

variable {s s' : StreamSource} {bytes : List UInt8} {text : List Char}

theorem Decodes.cons {c : Char} (hread : CharSource.read s = (.ok (some c), s'))
    (hposition : s'.position = s.position.advance c) (h : s'.Decodes bytes text) :
    s.Decodes (String.utf8EncodeChar c ++ bytes) (c :: text) := by
  have hanswer (n : Nat) : answer s (n + 1) = answer s' n := by
    rw [CharSource.answer_succ, hread]
  have hafter (n : Nat) : afterReads s (n + 1) = afterReads s' n := by
    rw [CharSource.afterReads_succ, hread]
  have hencode : Utf8.encode (c :: text) = String.utf8EncodeChar c ++ bytes ↔
      Utf8.encode text = bytes := by
    rw [Utf8.encode_cons, List.append_cancel_left_eq]
  have hoffset : s'.position.offset = s.position.offset + 1 := by
    rw [hposition, Position.advance]
    split <;> rfl
  constructor
  · intro n d hd
    cases n with
    | zero =>
        cases hd
        exact congrArg Prod.fst hread
    | succ n =>
        rw [hanswer]
        exact h.characters n d hd
  · intro hall n hn
    cases n with
    | zero => exact absurd hn (Nat.not_succ_le_zero _)
    | succ n =>
        rw [hanswer]
        exact h.finished (hencode.mp hall) n (Nat.le_of_succ_le_succ hn)
  · intro hleft
    rw [List.length_cons, hanswer, h.invalid (mt hencode.mpr hleft), hoffset]
    simp only [Nat.add_assoc, Nat.add_comm 1]
  · intro n hn
    cases n with
    | zero => rfl
    | succ n =>
        rw [hafter, h.position n (Nat.le_of_succ_le_succ hn), hposition]
        rfl

/-- The source has nothing to replay, and its feed serves the bytes. -/
def Fresh (s : StreamSource) (bytes : List UInt8) : Prop := s.replay = [] ∧ s.feed.Serves bytes

theorem Fresh.read_nil (h : s.Fresh []) :
    ∃ s', CharSource.read s = (.ok none, s') ∧ s'.Fresh [] := by
  obtain ⟨hreplay, hfeed⟩ := h
  obtain ⟨feed, hnext, hfeed'⟩ := Feed.nextChar_of_serves_nil s.position.offset hfeed
  refine ⟨{ s with feed := feed }, ?_, hreplay, hfeed'⟩
  simp only [CharSource.read, StreamSource.read, hreplay, hnext]

theorem Fresh.read_char {c : Char} (h : s.Fresh (String.utf8EncodeChar c ++ bytes)) :
    ∃ s', CharSource.read s = (.ok (some c), s') ∧ s'.position = s.position.advance c ∧
      s'.Fresh bytes := by
  obtain ⟨hreplay, hfeed⟩ := h
  obtain ⟨feed, hnext, hfeed'⟩ := Feed.nextChar_of_serves_char s.position.offset hfeed
  refine ⟨{ s with feed := feed }.pass c, ?_, rfl, hreplay, hfeed'⟩
  simp only [CharSource.read, StreamSource.read, hreplay, hnext]

theorem Fresh.read_invalid (h : s.Fresh bytes) (hne : bytes ≠ [])
    (hinvalid : ∀ c, ¬ String.utf8EncodeChar c <+: bytes) :
    answer s 0 = .error (.invalidEncoding s.position.offset) := by
  obtain ⟨hreplay, hfeed⟩ := h
  obtain ⟨feed, hnext⟩ :=
    Feed.nextChar_of_serves_invalid s.position.offset hne hinvalid hfeed
  have hread : CharSource.read s =
      (.error (.invalidEncoding s.position.offset), { s with feed := feed }) := by
    simp only [CharSource.read, StreamSource.read, hreplay, hnext]
  exact congrArg Prod.fst hread

/-- The end of the input is there to stay. -/
theorem Fresh.answer_nil (h : s.Fresh []) (n : Nat) : answer s n = .ok none := by
  induction n generalizing s with
  | zero =>
      obtain ⟨s', hread, -⟩ := h.read_nil
      exact congrArg Prod.fst hread
  | succ n ih =>
      obtain ⟨s', hread, hs'⟩ := h.read_nil
      rw [CharSource.answer_succ, hread]
      exact ih hs'

theorem Fresh.decodes_nil (h : s.Fresh bytes)
    (hinvalid : ∀ c, ¬ String.utf8EncodeChar c <+: bytes) : s.Decodes bytes [] := by
  constructor
  · intro n c hc
    cases hc
  · rintro rfl n -
    exact h.answer_nil n
  · intro hne
    exact h.read_invalid hne.symm hinvalid
  · intro n hn
    obtain rfl : n = 0 := Nat.le_zero.mp hn
    rfl

theorem Fresh.decodes (h : s.Fresh bytes) :
    ∃ text, Utf8.LongestValid bytes text ∧ s.Decodes bytes text := by
  generalize hlength : bytes.length = length
  induction length using Nat.strongRecOn generalizing s bytes with
  | ind length ih =>
      by_cases hchar : ∃ c, String.utf8EncodeChar c <+: bytes
      · obtain ⟨c, rest, rfl⟩ := hchar
        obtain ⟨s', hread, hposition, hs'⟩ := h.read_char
        have hshorter : rest.length < length := by
          obtain ⟨first, others, hencoded, -⟩ := Utf8.utf8EncodeChar_cases c
          rw [← hlength, hencoded, List.length_append, List.length_cons]
          omega
        obtain ⟨text, hlongest, hdecodes⟩ := ih rest.length hshorter hs' rfl
        exact ⟨c :: text, hlongest.cons, hdecodes.cons hread hposition⟩
      · have hinvalid := not_exists.mp hchar
        exact ⟨[], Utf8.longestValid_nil hinvalid, h.decodes_nil hinvalid⟩

/-- Reading a new source over some bytes, however they are interrupted, hands out the
longest text whose encoding begins them. It then reports the end of the input for good if
the encoding is all of the bytes, and otherwise an invalid encoding at the offset that
counts the characters before it; no position on the way leaves its fixed width. -/
theorem ofFeed_decodes {feed : Feed} {bytes : List UInt8} (window : Nat)
    (h : feed.Serves bytes) :
    ∃ text, Utf8.LongestValid bytes text ∧
      (∀ n c, text[n]? = some c → answer (ofFeed feed window) n = .ok (some c)) ∧
      (Utf8.encode text = bytes →
        ∀ n, text.length ≤ n → answer (ofFeed feed window) n = .ok none) ∧
      (Utf8.encode text ≠ bytes →
        answer (ofFeed feed window) text.length = .error (.invalidEncoding text.length)) ∧
      (bytes.length + 1 < halfWordLimit →
        ∀ n ≤ text.length, (afterReads (ofFeed feed window) n).position.Fits) := by
  have hfresh : (ofFeed feed window).Fresh bytes := ⟨rfl, h⟩
  obtain ⟨text, hlongest, hdecodes⟩ := hfresh.decodes
  refine ⟨text, hlongest, hdecodes.characters, hdecodes.finished, ?_, ?_⟩
  · intro hleft
    have hinvalid := hdecodes.invalid hleft
    rwa [show (ofFeed feed window).position.offset = 0 from rfl, Nat.zero_add] at hinvalid
  · intro hshort n hn
    have hposition : (afterReads (ofFeed feed window) n).position = .after (text.take n) := by
      rw [hdecodes.position n hn]
      exact Position.start_advanceAll (text.take n)
    have htext := Utf8.length_le_encode text
    have hencode := hlongest.valid.length_le
    have htake := List.length_take_le' n text
    rw [hposition]
    exact Position.after_fits (by omega)

/-- Two characters and the first two bytes of a third one, with interruptions before, in
and after the second. -/
def truncated : Feed :=
  ⟨[.byte 0x61, .interruption, .byte 0xCE, .interruption, .byte 0xBB, .interruption, .byte 0xE2,
    .byte 0x82], .finished⟩

theorem ofFeed_decodes_truncated :
    truncated.Serves [0x61, 0xCE, 0xBB, 0xE2, 0x82] ∧
    ∃ text, Utf8.LongestValid [0x61, 0xCE, 0xBB, 0xE2, 0x82] text ∧
      answer (ofFeed truncated 0) text.length = .error (.invalidEncoding text.length) := by
  have hserves : truncated.Serves [0x61, 0xCE, 0xBB, 0xE2, 0x82] := ⟨by decide, rfl⟩
  obtain ⟨text, hlongest, hcharacters, hfinished, hinvalid, -⟩ := ofFeed_decodes 0 hserves
  have hthird : answer (ofFeed truncated 0) 2 = .error (.invalidEncoding 2) := rfl
  refine ⟨hserves, text, hlongest, hinvalid ?_⟩
  intro hall
  obtain hlt | hge := Nat.lt_or_ge 2 text.length
  · have hsome := hcharacters 2 _ (List.getElem?_eq_getElem hlt)
    rw [hthird] at hsome
    cases hsome
  · have hnone := hfinished hall 2 hge
    rw [hthird] at hnone
    cases hnone

end StreamSource

end Lookahead
