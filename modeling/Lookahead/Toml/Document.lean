import Lookahead.Toml.Scalar

/-!
TOML documents: keys, values in brackets, headers and lines. The reader goes
through a document once and puts every value into the table that is current.
-/
namespace Lookahead.Toml

def isBareKeyChar (c : Char) : Bool :=
  ('a' ≤ c && c ≤ 'z') || ('A' ≤ c && c ≤ 'Z') || Digits.isDecimal c || c == '_' || c == '-'

/-- Keys have fewer parts than this, and values are nested less deeply. -/
def depthLimit : Nat := 80

/-- A key without dots: bare, or a string on one line. -/
def simpleKey? (text : List Char) : Option (String × List Char) :=
  match text with
  | '\x22' :: '\x22' :: '\x22' :: _ => none
  | '\x27' :: '\x27' :: '\x27' :: _ => none
  | '\x22' :: rest => basicString rest
  | '\x27' :: rest => literalString [] rest
  | text =>
      match text.takeWhile isBareKeyChar with
      | [] => none
      | key => some (String.ofList key, text.dropWhile isBareKeyChar)

/-- A key with its dots: the keys before the last one, and the last one. Every part
takes up at least one character, so a text that is no shorter is fuel enough. -/
def key? : List Char → List String → List Char → Option ((List String × String) × List Char)
  | [], _, _ => none
  | _ :: fuel, read, text => do
      let (key, rest) ← simpleKey? (skipSpaces text)
      match skipSpaces rest with
      | '.' :: rest => key? fuel (key :: read) rest
      | rest => return ((read.reverse, key), rest)

def dottedKey? (text : List Char) : Option ((List String × String) × List Char) :=
  (key? text [] text).filter fun ((path, _), _) => path.length + 1 < depthLimit

/-- A comment up to the end of its line, if there is one. -/
def skipComment? : List Char → Option (List Char)
  | '#' :: rest =>
      let rest := rest.dropWhile isPlain
      match rest with
      | [] => some []
      | text => (newline? text).map fun _ => text
  | text => some text

/-- Blanks, comments and line breaks. The fuel is a text that is no shorter. -/
def skipFiller : List Char → List Char → Option (List Char)
  | [], text => some text
  | _ :: fuel, text => do
      let text ← skipComment? (skipSpaces text)
      match newline? text with
      | some rest => skipFiller fuel rest
      | none => return text

/-- What may stand between the elements of an array. -/
def filler? (text : List Char) : Option (List Char) := skipFiller text text

/-- What a value reader is about to read. -/
inductive Place where
  | value
  /-- The next element of an array, or its end; the elements so far, newest first. -/
  | element (read : List Toml)
  /-- The next entry in braces. `first` allows the closing brace instead. -/
  | entry (first : Bool) (read : Entries)

/-- A value of any kind, inside `depth` brackets. Every other step takes at least one
character. -/
def read? : Nat → Nat → Place → List Char → Option (Toml × List Char)
  | 0, _, _, _ => none
  | fuel + 1, depth, .value, text =>
      match text with
      | '[' :: rest =>
          if depth + 1 < depthLimit then read? fuel (depth + 1) (.element []) rest else none
      | '\x7b' :: rest =>
          if depth + 1 < depthLimit then read? fuel (depth + 1) (.entry true []) rest else none
      | c :: _ =>
          if c = '\x22' ∨ c = '\x27' then (string? text).map fun (s, rest) => (.string s, rest)
          else plain? text
      | [] => none
  | fuel + 1, depth, .element read, text => do
      match ← filler? text with
      | ']' :: rest => return (.array read.reverse, rest)
      | text =>
          let (item, rest) ← read? fuel depth .value text
          match ← filler? rest with
          | ',' :: rest => read? fuel depth (.element (item :: read)) rest
          | ']' :: rest => return (.array (item :: read).reverse, rest)
          | _ => none
  | fuel + 1, depth, .entry first entries, text =>
      match skipSpaces text with
      | '\x7d' :: rest => if first then some (.table .inline [], rest) else none
      | text => do
          let ((path, last), rest) ← dottedKey? text
          let rest ← skipChar? (· == '=') (skipSpaces rest)
          let (value, rest) ← read? fuel depth .value (skipSpaces rest)
          let entries ← addInline value last path entries
          match skipSpaces rest with
          | ',' :: rest => read? fuel depth (.entry false entries) rest
          | '\x7d' :: rest => return (.table .inline entries, rest)
          | _ => none

/-- The end of a line: blanks, a comment, and a line break or the end of the text. -/
def endOfLine? (text : List Char) : Option (List Char) := do
  match ← skipComment? (skipSpaces text) with
  | [] => return []
  | text => newline? text

/-- The document read so far, and the header under which its next line stands. -/
structure Document where
  entries : Entries := []
  current : List String := []

/-- A header with its closing brackets. -/
def header? (closing : List Char) (text : List Char) :
    Option ((List String × String) × List Char) := do
  let (key, rest) ← dottedKey? text
  if closing.isPrefixOf rest then some (key, rest.drop closing.length) else none

/-- One line of a document, with fuel for its value. -/
def Document.readLine (fuel : Nat) (d : Document) (text : List Char) :
    Option (Document × List Char) :=
  match skipSpaces text with
  | [] => some (d, [])
  | '[' :: '[' :: rest => do
      let ((path, last), rest) ← header? [']', ']'] rest
      let entries ← atPath (appendTable last) path d.entries
      return (⟨entries, path ++ [last]⟩, ← endOfLine? rest)
  | '[' :: rest => do
      let ((path, last), rest) ← header? [']'] rest
      let entries ← atPath (openTable last) path d.entries
      return (⟨entries, path ++ [last]⟩, ← endOfLine? rest)
  | c :: rest =>
      if c = '#' ∨ (newline? (c :: rest)).isSome then do
        return (d, ← endOfLine? (c :: rest))
      else do
        let ((path, last), rest) ← dottedKey? (c :: rest)
        let rest ← skipChar? (· == '=') (skipSpaces rest)
        let (value, rest) ← read? fuel 0 .value (skipSpaces rest)
        let entries ← atPath (addDotted value last path) d.current d.entries
        return ({ d with entries := entries }, ← endOfLine? rest)

/-- The lines of a document. The fuel counts two steps for every character and one
more, which is enough for the lines and for the values in them. -/
def Document.readLines : Nat → Document → List Char → Option Entries
  | 0, _, _ => none
  | _ + 1, d, [] => some d.entries
  | fuel + 1, d, text => do
      let (d, rest) ← d.readLine fuel text
      readLines fuel d rest

/-- The entries of a document. A byte order mark may stand in front of it. -/
def parse? (text : List Char) : Option Entries :=
  let text := match text with
    | '\ufeff' :: rest => rest
    | text => text
  Document.readLines (2 * text.length + 1) {} text

end Lookahead.Toml
