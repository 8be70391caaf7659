/-!
UTF-8 without leniency. Every scalar value has one encoding, the shortest one;
overlong forms, surrogates, values above U+10FFFF, stray continuation bytes and
truncated sequences are all refused.
-/
namespace Lookahead.Utf8

/-- The number of bytes that a first byte announces. The bytes C0, C1 and F5 to
F7 announce a length although no sequence that starts with them is valid. -/
def width? (first : UInt8) : Option Nat :=
  if first ≤ 0x7F then some 1
  else if 0xC0 ≤ first && first ≤ 0xDF then some 2
  else if 0xE0 ≤ first && first ≤ 0xEF then some 3
  else if 0xF0 ≤ first && first ≤ 0xF7 then some 4
  else none

/-- The six bits that a continuation byte carries. -/
def tail? (b : UInt8) : Option Nat :=
  if 0x80 ≤ b && b ≤ 0xBF then some (b.toNat - 0x80) else none

/-- A scalar value that needs the length it was written with. -/
def assemble? (least value : Nat) : Option Char :=
  if least ≤ value ∧ value.isValidChar then some (Char.ofNat value) else none

/-- The character whose encoding is exactly the given bytes. -/
def scalar? : List UInt8 → Option Char
  | [a] => if a ≤ 0x7F then some (Char.ofNat a.toNat) else none
  | [a, b] => do
    let y ← tail? b
    if 0xC0 ≤ a && a ≤ 0xDF then assemble? 0x80 ((a.toNat - 0xC0) * 0x40 + y) else none
  | [a, b, c] => do
    let y ← tail? b
    let z ← tail? c
    if 0xE0 ≤ a && a ≤ 0xEF then
      assemble? 0x800 ((a.toNat - 0xE0) * 0x1000 + y * 0x40 + z)
    else none
  | [a, b, c, d] => do
    let y ← tail? b
    let z ← tail? c
    let w ← tail? d
    if 0xF0 ≤ a && a ≤ 0xF7 then
      assemble? 0x10000 ((a.toNat - 0xF0) * 0x40000 + y * 0x1000 + z * 0x40 + w)
    else none
  | _ => none

def encode (text : List Char) : List UInt8 :=
  text.flatMap String.utf8EncodeChar

/-- The text whose encoding is exactly the given bytes. -/
def decode? (bytes : List UInt8) : Option (List Char) :=
  go [] bytes
where
  go (read : List Char) : List UInt8 → Option (List Char)
    | [] => some read.reverse
    | a :: rest =>
      match width? a with
      | none => none
      | some n =>
        match scalar? (a :: rest.take (n - 1)) with
        | none => none
        | some c => go (c :: read) (rest.drop (n - 1))
  termination_by bytes => bytes.length
  decreasing_by
    simp only [List.length_drop, List.length_cons]
    omega

end Lookahead.Utf8
