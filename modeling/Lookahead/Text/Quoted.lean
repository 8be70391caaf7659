import Lookahead.Text.Invisible

/-!
Quotation of characters and texts for diagnostics. A backslash introduces the
short escapes and the code point of a character that would not be visible; the
delimiter is escaped, and the other kind of quote is not.
-/
namespace Lookahead.Quoted

def hex (n : Nat) : String := String.ofList (Nat.toDigits 16 n)

/-- One character inside a quotation that ends at `delimiter`. -/
def escape (delimiter c : Char) : String :=
  if c = '\x00' then "\\0"
  else if c = '\t' then "\\t"
  else if c = '\r' then "\\r"
  else if c = '\n' then "\\n"
  else if c = '\\' || c = delimiter then String.ofList ['\\', c]
  else if isInvisible c then "\\u\x7b" ++ hex c.toNat ++ "\x7d"
  else String.singleton c

def char (c : Char) : String := "'" ++ escape '\x27' c ++ "'"

def text (s : String) : String :=
  "\"" ++ s.foldl (fun out c => out ++ escape '\x22' c) "" ++ "\""

end Lookahead.Quoted
