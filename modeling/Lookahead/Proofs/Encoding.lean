import Lookahead.Source.Feed

/-!
Reading back what was encoded. The first byte of the encoding of a character
announces as many bytes as the encoding has, and these bytes are decoded to that
character. So a feed that serves the encoding of a text hands out its characters
one by one; how its bytes are interrupted makes no difference.
-/
namespace Lookahead

namespace Utf8

theorem width?_ofNat {n : Nat} (h : n < 256) :
    width? (UInt8.ofNat n) =
      if n ≤ 0x7F then some 1
      else if 0xC0 ≤ n ∧ n ≤ 0xDF then some 2
      else if 0xE0 ≤ n ∧ n ≤ 0xEF then some 3
      else if 0xF0 ≤ n ∧ n ≤ 0xF7 then some 4
      else none := by
  simp [width?, UInt8.le_iff_toNat_le, Nat.mod_eq_of_lt h]

theorem tail?_ofNat {n : Nat} (h : n < 0x40) : tail? (UInt8.ofNat (n + 0x80)) = some n := by
  have hbyte : (n + 0x80) % 256 = n + 0x80 := Nat.mod_eq_of_lt (by omega)
  simp [tail?, UInt8.le_iff_toNat_le, hbyte]
  omega

theorem assemble?_toNat {c : Char} {least : Nat} (h : least ≤ c.toNat) :
    assemble? least c.toNat = some c := by
  have hvalid : c.toNat.isValidChar := c.valid
  simp [assemble?, h, hvalid]

theorem toNat_ofNat {n : Nat} (h : n < 256) : (UInt8.ofNat n).toNat = n := by
  rw [UInt8.toNat_ofNat', Nat.mod_eq_of_lt h]

theorem scalar?_one {a : UInt8} (ha : a.toNat ≤ 0x7F) :
    scalar? [a] = some (Char.ofNat a.toNat) := by
  simp [scalar?, UInt8.le_iff_toNat_le, ha]

theorem scalar?_two {a : UInt8} {x y : Nat} (ha : a.toNat = x + 0xC0) (hx : x < 0x20)
    (hy : y < 0x40) : scalar? [a, UInt8.ofNat (y + 0x80)] = assemble? 0x80 (x * 0x40 + y) := by
  have hrange : (0xC0 ≤ a && a ≤ 0xDF) = true := by
    simp [UInt8.le_iff_toNat_le, ha]
    omega
  have hbits : a.toNat - 0xC0 = x := by omega
  simp only [scalar?, tail?_ofNat hy, Option.bind_eq_bind, Option.bind_some]
  rw [if_pos hrange, hbits]

theorem scalar?_three {a : UInt8} {x y z : Nat} (ha : a.toNat = x + 0xE0) (hx : x < 0x10)
    (hy : y < 0x40) (hz : z < 0x40) :
    scalar? [a, UInt8.ofNat (y + 0x80), UInt8.ofNat (z + 0x80)] =
      assemble? 0x800 (x * 0x1000 + y * 0x40 + z) := by
  have hrange : (0xE0 ≤ a && a ≤ 0xEF) = true := by
    simp [UInt8.le_iff_toNat_le, ha]
    omega
  have hbits : a.toNat - 0xE0 = x := by omega
  simp only [scalar?, tail?_ofNat hy, tail?_ofNat hz, Option.bind_eq_bind, Option.bind_some]
  rw [if_pos hrange, hbits]

theorem scalar?_four {a : UInt8} {x y z w : Nat} (ha : a.toNat = x + 0xF0) (hx : x < 8)
    (hy : y < 0x40) (hz : z < 0x40) (hw : w < 0x40) :
    scalar? [a, UInt8.ofNat (y + 0x80), UInt8.ofNat (z + 0x80), UInt8.ofNat (w + 0x80)] =
      assemble? 0x10000 (x * 0x40000 + y * 0x1000 + z * 0x40 + w) := by
  have hrange : (0xF0 ≤ a && a ≤ 0xF7) = true := by
    simp [UInt8.le_iff_toNat_le, ha]
    omega
  have hbits : a.toNat - 0xF0 = x := by omega
  simp only [scalar?, tail?_ofNat hy, tail?_ofNat hz, tail?_ofNat hw, Option.bind_eq_bind,
    Option.bind_some]
  rw [if_pos hrange, hbits]

theorem toNat_lt (c : Char) : c.toNat < 0x110000 := by
  have hvalid : c.toNat.isValidChar := c.valid
  simp only [Nat.isValidChar] at hvalid
  omega

/-- The encoding of a character announces its length and is decoded to that character. -/
theorem utf8EncodeChar_cases (c : Char) :
    ∃ first others, String.utf8EncodeChar c = first :: others ∧
      width? first = some (others.length + 1) ∧ scalar? (first :: others) = some c := by
  have hlt := toNat_lt c
  have hval : c.val.toNat = c.toNat := rfl
  fun_cases String.utf8EncodeChar c with
  | case1 v h =>
      refine ⟨_, _, rfl, ?_, ?_⟩
      · rw [width?_ofNat (by omega), if_pos h]
        rfl
      · have hbyte : (UInt8.ofNat v).toNat = c.toNat := toNat_ofNat (by omega)
        rw [scalar?_one (by omega), hbyte, Char.ofNat_toNat]
  | case2 v h1 h2 =>
      have hvalue : v / 64 % 0x20 * 0x40 + v % 0x40 = c.toNat := by omega
      refine ⟨_, _, rfl, ?_, ?_⟩
      · rw [width?_ofNat (by omega), if_neg (by omega), if_pos (by omega)]
        rfl
      · rw [scalar?_two (toNat_ofNat (by omega)) (by omega) (by omega), hvalue]
        exact assemble?_toNat (by omega)
  | case3 v h1 h2 h3 =>
      have hvalue : v / 4096 % 0x10 * 0x1000 + v / 64 % 0x40 * 0x40 + v % 0x40 = c.toNat := by
        omega
      refine ⟨_, _, rfl, ?_, ?_⟩
      · rw [width?_ofNat (by omega), if_neg (by omega), if_neg (by omega), if_pos (by omega)]
        rfl
      · rw [scalar?_three (toNat_ofNat (by omega)) (by omega) (by omega) (by omega), hvalue]
        exact assemble?_toNat (by omega)
  | case4 v h1 h2 h3 =>
      have hvalue : v / 262144 % 8 * 0x40000 + v / 4096 % 0x40 * 0x1000 + v / 64 % 0x40 * 0x40 +
          v % 0x40 = c.toNat := by
        omega
      refine ⟨_, _, rfl, ?_, ?_⟩
      · rw [width?_ofNat (by omega), if_neg (by omega), if_neg (by omega), if_neg (by omega),
          if_pos (by omega)]
        rfl
      · rw [scalar?_four (toNat_ofNat (by omega)) (by omega) (by omega) (by omega) (by omega),
          hvalue]
        exact assemble?_toNat (by omega)

theorem encode_cons (c : Char) (text : List Char) :
    encode (c :: text) = String.utf8EncodeChar c ++ encode text :=
  List.flatMap_cons

end Utf8

namespace Feed

/-- Interruptions aside, the feed hands out the given bytes and ends without a failure. -/
def Serves (f : Feed) (bytes : List UInt8) : Prop :=
  f.supplies.filter (· ≠ .interruption) = bytes.map .byte ∧ f.ending = .finished

theorem serves_ofBytes (bytes : List UInt8) : (ofBytes bytes).Serves bytes := by
  refine ⟨?_, rfl⟩
  simp [ofBytes]

theorem attempt_of_bytes {supplies : List Supply} {b : UInt8} {bytes : List UInt8}
    (h : supplies.filter (· ≠ .interruption) = (b :: bytes).map .byte) :
    ∃ rest, attempt supplies = some (.ok b, rest) ∧
      rest.filter (· ≠ .interruption) = bytes.map .byte := by
  induction supplies with
  | nil => cases h
  | cons supply supplies ih =>
      cases supply with
      | byte a =>
          obtain ⟨hfirst, hrest⟩ := List.cons.inj h
          cases hfirst
          exact ⟨supplies, rfl, hrest⟩
      | interruption => exact ih h
      | failure message => cases (List.cons.inj h).1

theorem attempt_of_no_bytes {supplies : List Supply}
    (h : supplies.filter (· ≠ .interruption) = []) : attempt supplies = none := by
  induction supplies with
  | nil => rfl
  | cons supply supplies ih =>
      cases supply with
      | byte a | failure message => cases h
      | interruption => exact ih h

theorem next_of_serves_cons {f : Feed} {b : UInt8} {bytes : List UInt8}
    (h : f.Serves (b :: bytes)) : ∃ f', f.next = (.ok (some b), f') ∧ f'.Serves bytes := by
  obtain ⟨hbytes, hending⟩ := h
  obtain ⟨rest, hfirst, hrest⟩ := attempt_of_bytes hbytes
  exact ⟨⟨rest, f.ending⟩, by simp only [next, hfirst], hrest, hending⟩

theorem next_of_serves_nil {f : Feed} (h : f.Serves []) :
    ∃ f', f.next = (.ok none, f') ∧ f'.Serves [] := by
  obtain ⟨hbytes, hending⟩ := h
  exact ⟨⟨[], f.ending⟩, by simp only [next, attempt_of_no_bytes hbytes, hending], rfl, hending⟩

theorem take_of_serves {f : Feed} {front back : List UInt8} (h : f.Serves (front ++ back)) :
    ∃ f', f.take front.length = (.ok (some front), f') ∧ f'.Serves back := by
  induction front generalizing f with
  | nil => exact ⟨f, rfl, h⟩
  | cons b front ih =>
      obtain ⟨f', hnext, hf'⟩ := next_of_serves_cons h
      obtain ⟨f'', htake, hf''⟩ := ih hf'
      exact ⟨f'', by simp only [List.length_cons, take, hnext, htake], hf''⟩

theorem nextChar_of_serves_nil {f : Feed} (offset : Nat) (h : f.Serves (Utf8.encode [])) :
    ∃ f', f.nextChar offset = (.ok none, f') ∧ f'.Serves (Utf8.encode []) := by
  obtain ⟨f', hnext, hf'⟩ := next_of_serves_nil h
  exact ⟨f', by simp only [nextChar, hnext], hf'⟩

theorem nextChar_of_serves_char {f : Feed} {c : Char} {bytes : List UInt8} (offset : Nat)
    (h : f.Serves (String.utf8EncodeChar c ++ bytes)) :
    ∃ f', f.nextChar offset = (.ok (some c), f') ∧ f'.Serves bytes := by
  obtain ⟨first, others, hencoded, hwidth, hscalar⟩ := Utf8.utf8EncodeChar_cases c
  rw [hencoded] at h
  obtain ⟨f', hnext, hf'⟩ := next_of_serves_cons h
  obtain ⟨f'', htake, hf''⟩ := take_of_serves hf'
  refine ⟨f'', ?_, hf''⟩
  simp only [nextChar, hnext, hwidth, Nat.add_sub_cancel, htake, hscalar]

theorem nextChar_of_serves_cons {f : Feed} {c : Char} {text : List Char} (offset : Nat)
    (h : f.Serves (Utf8.encode (c :: text))) :
    ∃ f', f.nextChar offset = (.ok (some c), f') ∧ f'.Serves (Utf8.encode text) := by
  rw [Utf8.encode_cons] at h
  exact nextChar_of_serves_char offset h

end Feed

end Lookahead
