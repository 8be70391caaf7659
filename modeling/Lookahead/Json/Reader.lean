import Lookahead.Binary64

/-!
Reading JSON from left to right. A reader is told what shape to expect and takes
that shape off the front of the text; what it reports is the first flaw it meets.
There are three kinds of flaw: the text is not JSON, the text ends too early, or
it is JSON so far and not of the expected shape. A number, word or string of the
wrong shape is still read to its end first, so that a flaw inside it counts.
-/
namespace Lookahead.Json

inductive Flaw where
  | malformed
  | mismatched
  | truncated
deriving DecidableEq, Repr

namespace Flaw

def description : Flaw → String
  | .malformed => "not a JSON text"
  | .mismatched => "not of the expected shape"
  | .truncated => "the text ends too early"

end Flaw

def isBlank (c : Char) : Bool := c == ' ' || c == '\n' || c == '\t' || c == '\r'

def skipBlanks (text : List Char) : List Char := text.dropWhile isBlank

/-- The rest of a word whose first letter has been read. -/
def word : List Char → List Char → Except Flaw (List Char)
  | [], rest => .ok rest
  | _ :: _, [] => .error .truncated
  | w :: letters, c :: rest => if c = w then word letters rest else .error .malformed

/-- The number of bytes that a text takes up in UTF-8. -/
def byteSize (text : List Char) : Nat := text.foldl (fun n c => n + c.utf8Size) 0

/-- Four hexadecimal digits. The text has ended too early if less than four bytes
are left, whatever they are. -/
def hexQuad : List Char → Except Flaw (Nat × List Char)
  | a :: b :: c :: d :: rest =>
      match Digits.hexValue? a, Digits.hexValue? b, Digits.hexValue? c, Digits.hexValue? d with
      | some a, some b, some c, some d => .ok (a * 4096 + b * 256 + c * 16 + d, rest)
      | _, _, _, _ => .error .malformed
  | text => if byteSize text < 4 then .error .truncated else .error .malformed

/-- The trailing half of a surrogate pair. -/
def trailingSurrogate (leading : Nat) : List Char → Except Flaw (Char × List Char)
  | [] => .error .truncated
  | ['\\'] => .error .truncated
  | '\\' :: 'u' :: rest =>
      match hexQuad rest with
      | .error e => .error e
      | .ok (trailing, rest) =>
          if 0xDC00 ≤ trailing ∧ trailing ≤ 0xDFFF then
            .ok (Char.ofNat (0x10000 + (leading - 0xD800) * 0x400 + (trailing - 0xDC00)), rest)
          else .error .malformed
  | _ => .error .malformed

/-- The characters that are escaped by a single letter or by themselves. -/
def escapedBy? (c : Char) : Option Char :=
  if c = '\x22' ∨ c = '\\' ∨ c = '/' then some c
  else if c = 'b' then some '\x08'
  else if c = 'f' then some '\x0c'
  else if c = 'n' then some '\n'
  else if c = 'r' then some '\r'
  else if c = 't' then some '\t'
  else none

/-- The code point after the letter `u`. Surrogates have to be paired. -/
def unescapeUnicode (text : List Char) : Except Flaw (Char × List Char) :=
  match hexQuad text with
  | .error e => .error e
  | .ok (n, rest) =>
      if 0xDC00 ≤ n ∧ n ≤ 0xDFFF then .error .malformed
      else if 0xD800 ≤ n ∧ n ≤ 0xDBFF then trailingSurrogate n rest
      else .ok (Char.ofNat n, rest)

/-- What follows a backslash, read as a character. -/
def unescape : List Char → Except Flaw (Char × List Char)
  | [] => .error .truncated
  | c :: rest =>
      if c = 'u' then unescapeUnicode rest
      else
        match escapedBy? c with
        | some c => .ok (c, rest)
        | none => .error .malformed

theorem hexQuad_length {text rest : List Char} {n : Nat} (h : hexQuad text = .ok (n, rest)) :
    rest.length < text.length := by
  unfold hexQuad at h
  split at h
  · split at h
    · cases h; simp only [List.length_cons]; omega
    · cases h
  · split at h <;> cases h

theorem trailingSurrogate_length {text rest : List Char} {n : Nat} {c : Char}
    (h : trailingSurrogate n text = .ok (c, rest)) : rest.length < text.length := by
  unfold trailingSurrogate at h
  split at h
  · cases h
  · cases h
  · rename_i tail
    split at h
    · cases h
    · rename_i hquad
      have := hexQuad_length hquad
      split at h
      · simp only [Except.ok.injEq, Prod.mk.injEq] at h
        simp only [← h.2, List.length_cons]
        omega
      · cases h
  · cases h

theorem unescapeUnicode_length {text rest : List Char} {c : Char}
    (h : unescapeUnicode text = .ok (c, rest)) : rest.length < text.length := by
  unfold unescapeUnicode at h
  split at h
  · cases h
  · rename_i hquad
    have := hexQuad_length hquad
    split at h
    · cases h
    · split at h
      · exact Nat.lt_trans (trailingSurrogate_length h) this
      · cases h; exact this

theorem unescape_length {text rest : List Char} {c : Char}
    (h : unescape text = .ok (c, rest)) : rest.length < text.length := by
  unfold unescape at h
  split at h
  · cases h
  · split at h
    · exact Nat.lt_succ_of_lt (unescapeUnicode_length h)
    · split at h <;> cases h
      simp

/-- The rest of a string whose opening quote has been read; the characters read so
far are kept newest first. -/
def stringBody (read : List Char) (text : List Char) : Except Flaw (String × List Char) :=
  match text with
  | [] => .error .truncated
  | c :: rest =>
      if c = '\x22' then .ok (String.ofList read.reverse, rest)
      else if c = '\\' then
        match _h : unescape rest with
        | .error e => .error e
        | .ok (c, rest) => stringBody (c :: read) rest
      else if c.toNat < 0x20 then .error .malformed
      else stringBody (c :: read) rest
termination_by text.length
decreasing_by
  · have := unescape_length _h
    simp only [List.length_cons]
    omega
  · simp

/-- The rest of a string that nobody asked for; surrogates may stand alone. -/
def skipString (text : List Char) : Except Flaw (List Char) :=
  match text with
  | [] => .error .truncated
  | c :: rest =>
      if c = '\x22' then .ok rest
      else if c = '\\' then
        match rest with
        | [] => .error .truncated
        | c :: rest =>
            if c = 'u' then
              match _h : hexQuad rest with
              | .error e => .error e
              | .ok (_, rest) => skipString rest
            else if (escapedBy? c).isSome then skipString rest
            else .error .malformed
      else if c.toNat < 0x20 then .error .malformed
      else skipString rest
termination_by text.length
decreasing_by
  · have := hexQuad_length _h
    simp only [List.length_cons]
    omega
  · simp only [List.length_cons]; omega
  · simp

/-- The parts of a number that has been read, without its sign. -/
structure NumberParts where
  whole : List Char
  fraction : List Char
  exponent : Int

namespace NumberParts

/-- The digits in front of the point as a 64-bit count, and the number of digits that
were dropped because they did not fit. After the first such digit all are dropped. -/
def keepWhole (digits : List Char) : Nat × Nat :=
  digits.foldl (fun (value, dropped) c =>
    let next := value * 10 + Digits.valueOf c
    if dropped = 0 ∧ next < wordLimit then (next, 0) else (value, dropped + 1)) (0, 0)

/-- Goes on with the digits after the point as long as they fit, and counts them. -/
def keepFraction (value places : Nat) : List Char → Nat × Nat
  | [] => (value, places)
  | c :: rest =>
      let next := value * 10 + Digits.valueOf c
      if next < wordLimit then keepFraction next (places + 1) rest else (value, places)

/-- The greatest power of ten that is a finite floating-point number. -/
def maxPower : Nat := 308

/-- Whether the number is too large for a 64-bit floating-point value, when it is taken
as the product of the digits that fit a count and of a power of ten. -/
def isTooLarge (n : NumberParts) : Bool :=
  let (value, dropped) := keepWhole n.whole
  let (value, places) := keepFraction value 0 n.fraction
  let scale := n.exponent + dropped - places
  if value = 0 ∨ scale < 0 then false
  else if maxPower < scale then true
  else Binary64.productOverflows value (Nat.pow 10 scale.toNat)

end NumberParts

/-- Exponents that are not below this are all alike. -/
def exponentLimit : Nat := 0x80000000

/-- The exponent of a number, if there is one. `ended` is the flaw to report if
the text ends where a digit has to come. -/
def exponentPart (ended : Flaw) : List Char → Except Flaw (Int × List Char)
  | c :: rest =>
      if c = 'e' ∨ c = 'E' then
        let (negative, rest) := match rest with
          | '+' :: rest => (false, rest)
          | '-' :: rest => (true, rest)
          | rest => (false, rest)
        match rest with
        | [] => .error ended
        | d :: _ =>
            if Digits.isDecimal d then
              let digits := rest.takeWhile Digits.isDecimal
              let value : Int := Digits.boundedValue 10 exponentLimit digits
              .ok (if negative then -value else value, rest.dropWhile Digits.isDecimal)
            else .error .malformed
      else .ok (0, c :: rest)
  | [] => .ok (0, [])

/-- A number without its sign. -/
def number (ended : Flaw) (text : List Char) : Except Flaw (NumberParts × List Char) := do
  let (whole, rest) ← match text with
    | [] => .error ended
    | c :: rest =>
        if c = '0' then
          match rest with
          | d :: _ => if Digits.isDecimal d then .error .malformed else .ok ([c], rest)
          | [] => .ok ([c], rest)
        else if Digits.isDecimal c then
          .ok (c :: rest.takeWhile Digits.isDecimal, rest.dropWhile Digits.isDecimal)
        else .error .malformed
  let (fraction, rest) ← match rest with
    | '.' :: rest =>
        match rest with
        | [] => .error ended
        | d :: _ =>
            if Digits.isDecimal d then
              .ok (rest.takeWhile Digits.isDecimal, rest.dropWhile Digits.isDecimal)
            else .error .malformed
    | rest => .ok ([], rest)
  let (exponent, rest) ← exponentPart ended rest
  return (⟨whole, fraction, exponent⟩, rest)

/-- The flaw of a text that does not start with the expected shape. -/
def mismatch : List Char → Flaw
  | [] => .truncated
  | c :: rest =>
      let after {α : Type} (read : Except Flaw α) : Flaw := match read with
        | .error e => e
        | .ok _ => .mismatched
      let afterNumber (read : Except Flaw (NumberParts × List Char)) : Flaw := match read with
        | .error e => e
        | .ok (n, _) => if n.isTooLarge then .malformed else .mismatched
      if c = 'n' then after (word ['u', 'l', 'l'] rest)
      else if c = 't' then after (word ['r', 'u', 'e'] rest)
      else if c = 'f' then after (word ['a', 'l', 's', 'e'] rest)
      else if c = '-' then afterNumber (number .truncated rest)
      else if Digits.isDecimal c then afterNumber (number .truncated (c :: rest))
      else if c = '\x22' then after (stringBody [] rest)
      else if c = '[' || c = '\x7b' then .mismatched
      else .malformed

def readString (text : List Char) : Except Flaw (String × List Char) :=
  match skipBlanks text with
  | '\x22' :: rest => stringBody [] rest
  | text => .error (mismatch text)

def readNullable (text : List Char) : Except Flaw (Option String × List Char) :=
  match skipBlanks text with
  | 'n' :: rest =>
      match word ['u', 'l', 'l'] rest with
      | .error e => .error e
      | .ok rest => .ok (none, rest)
  | text =>
      match readString text with
      | .error e => .error e
      | .ok (value, rest) => .ok (some value, rest)

/-- Where a list or an object stands between two of its parts. -/
inductive Next (α : Type) where
  /-- It is closed; the rest follows the closing bracket. -/
  | closed (rest : List Char)
  | more (part : α) (rest : List Char)

/-- Goes on to the next element of a list, which is not read yet. -/
def nextItem (first : Bool) (text : List Char) : Except Flaw (Next Unit) :=
  match skipBlanks text with
  | [] => .error .truncated
  | ']' :: rest => .ok (.closed rest)
  | c :: rest =>
      if first then .ok (.more () (c :: rest))
      else if c = ',' then
        match skipBlanks rest with
        | [] => .error .truncated
        | ']' :: _ => .error .malformed
        | rest => .ok (.more () rest)
      else .error .malformed

/-- The end of a list from which no more elements are wanted. -/
def endItems (text : List Char) : Except Flaw (List Char) :=
  match skipBlanks text with
  | [] => .error .truncated
  | ']' :: rest => .ok rest
  | _ => .error .malformed

/-- Goes on to the next field of an object and reads its name. -/
def nextField (first : Bool) (text : List Char) : Except Flaw (Next String) :=
  let name (rest : List Char) : Except Flaw (Next String) :=
    match stringBody [] rest with
    | .error e => .error e
    | .ok (name, rest) => .ok (.more name rest)
  match skipBlanks text with
  | [] => .error .truncated
  | '\x7d' :: rest => .ok (.closed rest)
  | c :: rest =>
      if first then
        if c = '\x22' then name rest else .error .malformed
      else if c = ',' then
        match skipBlanks rest with
        | [] => .error .truncated
        | '\x22' :: rest => name rest
        | _ => .error .malformed
      else .error .malformed

/-- The colon between a name and its value. -/
def colon (text : List Char) : Except Flaw (List Char) :=
  match skipBlanks text with
  | [] => .error .truncated
  | ':' :: rest => .ok rest
  | _ => .error .malformed

section

variable {α : Type} (item : List Char → Except Flaw (α × List Char))

/-- The elements of a list; those read so far are kept newest first. Every element
takes up at least one character, so a text that is no shorter than what is read
is fuel enough: where it ends, so has the text. -/
def items : List Char → Bool → List α → List Char → Except Flaw (List α × List Char)
  | [], _, _, _ => .error .truncated
  | _ :: fuel, first, read, text =>
      match nextItem first text with
      | .error e => .error e
      | .ok (.closed rest) => .ok (read.reverse, rest)
      | .ok (.more _ rest) =>
          match item rest with
          | .error e => .error e
          | .ok (value, rest) => items fuel false (value :: read) rest

def readList (text : List Char) : Except Flaw (List α × List Char) :=
  match skipBlanks text with
  | '[' :: rest => items item rest true [] rest
  | text => .error (mismatch text)

end

/-- A bracket that is still open around the place of reading. -/
inductive Bracket where
  | square
  | curly
deriving DecidableEq, Repr

/-- A place inside a value that nobody asked for. -/
inductive Place where
  | beforeValue
  | afterValue
deriving DecidableEq, Repr

/-- The name of a field and the colon after it. -/
def skipName (text : List Char) : Except Flaw (List Char) :=
  match skipBlanks text with
  | [] => .error .truncated
  | '\x22' :: rest =>
      match skipString rest with
      | .error e => .error e
      | .ok rest => colon rest
  | _ => .error .malformed

/-- A value without brackets, of which the first character decides the kind. -/
def skipScalar (c : Char) (rest : List Char) : Except Flaw (List Char) :=
  if c = 'n' then word ['u', 'l', 'l'] rest
  else if c = 't' then word ['r', 'u', 'e'] rest
  else if c = 'f' then word ['a', 'l', 's', 'e'] rest
  else if c = '-' then (number .malformed rest).map (·.2)
  else if Digits.isDecimal c then (number .malformed (c :: rest)).map (·.2)
  else if c = '\x22' then skipString rest
  else .error .malformed

/-- Reads past a scalar, or past an opening bracket to the first value behind it. -/
def skipStart (open_ : List Bracket) (text : List Char) :
    Except Flaw (Place × List Bracket × List Char) :=
  match skipBlanks text with
  | [] => .error .truncated
  | '[' :: rest =>
      match skipBlanks rest with
      | ']' :: rest => .ok (.afterValue, open_, rest)
      | rest => .ok (.beforeValue, .square :: open_, rest)
  | '\x7b' :: rest =>
      match skipBlanks rest with
      | '\x7d' :: rest => .ok (.afterValue, open_, rest)
      | rest =>
          match skipName rest with
          | .error e => .error e
          | .ok rest => .ok (.beforeValue, .curly :: open_, rest)
  | c :: rest =>
      match skipScalar c rest with
      | .error e => .error e
      | .ok rest => .ok (.afterValue, open_, rest)

/-- Goes on after a value inside brackets: to the next value, or past the innermost
bracket. -/
def skipSeparator (innermost : Bracket) (open_ : List Bracket) (text : List Char) :
    Except Flaw (Place × List Bracket × List Char) :=
  match innermost, skipBlanks text with
  | _, [] => .error .truncated
  | .square, ',' :: rest => .ok (.beforeValue, .square :: open_, rest)
  | .square, ']' :: rest => .ok (.afterValue, open_, rest)
  | .curly, ',' :: rest =>
      match skipName rest with
      | .error e => .error e
      | .ok rest => .ok (.beforeValue, .curly :: open_, rest)
  | .curly, '\x7d' :: rest => .ok (.afterValue, open_, rest)
  | _, _ => .error .malformed

/-- Reads past a value of any shape and depth. Every step takes at least one
character, so that the fuel does not end before the text. -/
def skipNested : List Char → Place → List Bracket → List Char → Except Flaw (List Char)
  | _, .afterValue, [], text => .ok text
  | [], _, _, _ => .error .truncated
  | _ :: fuel, .afterValue, innermost :: open_, text =>
      match skipSeparator innermost open_ text with
      | .error e => .error e
      | .ok (place, open_, rest) => skipNested fuel place open_ rest
  | _ :: fuel, .beforeValue, open_, text =>
      match skipStart open_ text with
      | .error e => .error e
      | .ok (place, open_, rest) => skipNested fuel place open_ rest

/-- Reads past one value. -/
def skipValue (text : List Char) : Except Flaw (List Char) :=
  skipNested text .beforeValue [] text

/-- A field that is known by its name, and how its value goes into a draft. -/
structure KnownField (δ : Type) where
  name : String
  read : δ → List Char → Except Flaw (δ × List Char)

section

variable {α δ : Type}

/-- A field that may be there only once. -/
def KnownField.once (name : String) (get : δ → Option α) (set : δ → α → δ)
    (item : List Char → Except Flaw (α × List Char)) : KnownField δ where
  name := name
  read d text :=
    if (get d).isSome then .error .mismatched
    else do
      let (value, rest) ← item (← colon text)
      return (set d value, rest)

/-- Reads one field; a field that is not known is passed over. -/
def readField (known : List (KnownField δ)) (d : δ) (name : String) (text : List Char) :
    Except Flaw (δ × List Char) :=
  match known.find? fun field => field.name = name with
  | some field => field.read d text
  | none => do
      return (d, ← skipValue (← colon text))

/-- The fields of an object whose opening brace has been read. Every field takes up at
least one character, so a text that is no shorter than what is read is fuel enough. -/
def readFields (known : List (KnownField δ)) (finish : δ → Except Flaw α) :
    List Char → Bool → δ → List Char → Except Flaw (α × List Char)
  | [], _, _, _ => .error .truncated
  | _ :: fuel, first, d, text =>
      match nextField first text with
      | .error e => .error e
      | .ok (.closed rest) =>
          match finish d with
          | .error e => .error e
          | .ok value => .ok (value, rest)
      | .ok (.more name rest) =>
          match readField known d name rest with
          | .error e => .error e
          | .ok (d, rest) => readFields known finish fuel false d rest

end

/-- Nothing but blanks may follow a document. -/
def endOfText (text : List Char) : Except Flaw Unit :=
  match skipBlanks text with
  | [] => .ok ()
  | _ => .error .malformed

end Lookahead.Json
