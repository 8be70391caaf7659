/-!
JSON documents as the library writes them: numbers are counts, and the fields of
an object keep the order they are listed in. Text is written compactly, or with
every element and field on a line of its own. Strings escape what JSON requires
and nothing else.
-/
namespace Lookahead

inductive Json where
  | null
  | bool (value : Bool)
  | num (value : Nat)
  | str (value : String)
  | arr (items : List Json)
  | obj (fields : List (String × Json))

namespace Json

def hexDigit (n : Nat) : Char := Nat.digitChar n

/-- One character inside a JSON string. -/
def escape (c : Char) : List Char :=
  if c = '\x22' then ['\\', '\x22']
  else if c = '\\' then ['\\', '\\']
  else if c = '\x08' then ['\\', 'b']
  else if c = '\t' then ['\\', 't']
  else if c = '\n' then ['\\', 'n']
  else if c = '\x0c' then ['\\', 'f']
  else if c = '\r' then ['\\', 'r']
  else if c.toNat < 0x20 then
    ['\\', 'u', '0', '0', hexDigit (c.toNat / 16), hexDigit (c.toNat % 16)]
  else [c]

def quote (s : String) : String :=
  String.ofList ('\x22' :: s.toList.flatMap escape) ++ "\""

inductive Layout where
  | compact
  | indented
deriving DecidableEq, Repr

namespace Layout

/-- What stands before an element or a closing bracket at the given depth. -/
def lineBreak : Layout → Nat → String
  | .compact, _ => ""
  | .indented, depth => String.ofList ('\n' :: List.replicate (2 * depth) ' ')

def colon : Layout → String
  | .compact => ":"
  | .indented => ": "

end Layout

mutual

/-- Appends a document to the text written so far. -/
def write (l : Layout) (depth : Nat) (out : String) : Json → String
  | .null => out ++ "null"
  | .bool true => out ++ "true"
  | .bool false => out ++ "false"
  | .num n => out ++ toString n
  | .str s => out ++ quote s
  | .arr [] => out ++ "[]"
  | .arr (item :: items) =>
      writeItems l depth (write l (depth + 1) (out ++ "[" ++ l.lineBreak (depth + 1)) item) items
        ++ l.lineBreak depth ++ "]"
  | .obj [] => out ++ "\x7b\x7d"
  | .obj ((name, value) :: fields) =>
      writeFields l depth
          (write l (depth + 1)
            (out ++ "\x7b" ++ l.lineBreak (depth + 1) ++ quote name ++ l.colon) value)
          fields
        ++ l.lineBreak depth ++ "\x7d"

def writeItems (l : Layout) (depth : Nat) (out : String) : List Json → String
  | [] => out
  | item :: items =>
      writeItems l depth (write l (depth + 1) (out ++ "," ++ l.lineBreak (depth + 1)) item) items

def writeFields (l : Layout) (depth : Nat) (out : String) : List (String × Json) → String
  | [] => out
  | (name, value) :: fields =>
      writeFields l depth
        (write l (depth + 1)
          (out ++ "," ++ l.lineBreak (depth + 1) ++ quote name ++ l.colon) value)
        fields

end

def compact (j : Json) : String := write .compact 0 "" j

def pretty (j : Json) : String := write .indented 0 "" j

end Json

end Lookahead
