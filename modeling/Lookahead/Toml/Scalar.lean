import Lookahead.Binary64
import Lookahead.Toml.Basic

/-!
The scalar values of TOML: strings in their four notations, integers of 64 bits,
floats, and dates and times. Every reader takes a value off the front of the text
and returns the rest of it.
-/
namespace Lookahead.Toml

/-- Characters that may stand for themselves in a comment or a literal string. -/
def isPlain (c : Char) : Bool := c == '\t' || (0x20 ≤ c.toNat && c.toNat ≠ 0x7F)

def isSpace (c : Char) : Bool := c == ' ' || c == '\t'

def skipSpaces (text : List Char) : List Char := text.dropWhile isSpace

/-- A line break, if the text starts with one. -/
def newline? : List Char → Option (List Char)
  | '\n' :: rest => some rest
  | '\r' :: '\n' :: rest => some rest
  | _ => none

/-- The blanks and line breaks after a backslash at the end of a line. -/
def skipLines : List Char → List Char
  | '\r' :: '\n' :: rest => skipLines rest
  | c :: rest => if isSpace c || c == '\n' then skipLines rest else c :: rest
  | [] => []

/-- The value of some hexadecimal digits. -/
def hexValue? (digits : List Char) : Option Nat :=
  digits.foldl (fun value c => do return (← value) * 16 + (← Digits.hexValue? c)) (some 0)

/-- A code point of exactly the given number of digits. -/
def codePoint? (width : Nat) (text : List Char) : Option (Char × List Char) := do
  let digits := text.take width
  if digits.length ≠ width then none
  else
    let value ← hexValue? digits
    if value.isValidChar then some (Char.ofNat value, text.drop width) else none

/-- What follows a backslash in a string. -/
def unescape? : List Char → Option (Char × List Char)
  | 'b' :: rest => some ('\x08', rest)
  | 't' :: rest => some ('\t', rest)
  | 'n' :: rest => some ('\n', rest)
  | 'f' :: rest => some ('\x0c', rest)
  | 'r' :: rest => some ('\r', rest)
  | '\x22' :: rest => some ('\x22', rest)
  | '\\' :: rest => some ('\\', rest)
  | 'u' :: rest => codePoint? 4 rest
  | 'U' :: rest => codePoint? 8 rest
  | _ => none

/-- The rest of a string on one line between double quotes. The fuel is a text that is
no shorter than the rest, so that it does not end before it. -/
def basicBody : List Char → List Char → List Char → Option (String × List Char)
  | [], _, _ => none
  | _ :: fuel, read, text =>
      match text with
      | [] => none
      | '\x22' :: rest => some (String.ofList read.reverse, rest)
      | '\\' :: rest => do
          let (c, rest) ← unescape? rest
          basicBody fuel (c :: read) rest
      | c :: rest => if isPlain c then basicBody fuel (c :: read) rest else none

/-- A string on one line between double quotes, the opening one of which is read. -/
def basicString (text : List Char) : Option (String × List Char) := basicBody text [] text

/-- A string on one line between single quotes. -/
def literalString : List Char → List Char → Option (String × List Char)
  | _, [] => none
  | read, c :: rest =>
      if c = '\x27' then some (String.ofList read.reverse, rest)
      else if isPlain c then literalString (c :: read) rest
      else none

/-- The closing quotes of a string of several lines. Up to two quotes right before
them belong to the string. -/
def closingQuotes? (quote : Char) (text : List Char) : Option (List Char × List Char) :=
  let run := (text.takeWhile (· == quote)).length
  if run < 3 then none
  else
    let inside := min (run - 3) 2
    some (List.replicate inside quote, text.drop (inside + 3))

/-- The body of a string of several lines. Either kind of line break counts as a
newline. The fuel is a text that is no shorter than the body. -/
def multilineBody (quote : Char) (escapes : Bool) :
    List Char → List Char → List Char → Option (String × List Char)
  | [], _, _ => none
  | _ :: fuel, read, text =>
      match closingQuotes? quote text with
      | some (inside, rest) => some (String.ofList (inside ++ read).reverse, rest)
      | none =>
          match text with
          | [] => none
          | '\r' :: '\n' :: rest => multilineBody quote escapes fuel ('\n' :: read) rest
          | '\n' :: rest => multilineBody quote escapes fuel ('\n' :: read) rest
          | c :: rest =>
              if escapes && c == '\\' then
                match newline? (skipSpaces rest) with
                | some rest => multilineBody quote escapes fuel read (skipLines rest)
                | none => do
                    let (c, rest) ← unescape? rest
                    multilineBody quote escapes fuel (c :: read) rest
              else if isPlain c then multilineBody quote escapes fuel (c :: read) rest
              else none

/-- The first line break of a string of several lines is not part of it. -/
def multilineString (quote : Char) (escapes : Bool) (text : List Char) :
    Option (String × List Char) :=
  multilineBody quote escapes text [] ((newline? text).getD text)

/-- A string in any of the four notations. -/
def string? : List Char → Option (String × List Char)
  | '\x22' :: '\x22' :: '\x22' :: rest => multilineString '\x22' true rest
  | '\x22' :: rest => basicString rest
  | '\x27' :: '\x27' :: '\x27' :: rest => multilineString '\x27' false rest
  | '\x27' :: rest => literalString [] rest
  | _ => none

/-- Digits of which every underscore stands between two of them. Those found so far
are kept newest first. -/
def digitsFrom? (isDigit : Char → Bool) (found : List Char) : List Char → Option (List Char)
  | [] => some found.reverse
  | ['_'] => none
  | '_' :: c :: rest => if isDigit c then digitsFrom? isDigit found (c :: rest) else none
  | c :: rest => if isDigit c then digitsFrom? isDigit (c :: found) rest else none

def digits? (isDigit : Char → Bool) (text : List Char) : Option (List Char) :=
  match text with
  | [] => none
  | '_' :: _ => none
  | text => digitsFrom? isDigit [] text

/-- The value of the digits of an integer, as far as it can matter. -/
def valueIn (base : Nat) (digits : List Char) : Nat := Digits.boundedValue base wordLimit digits

/-- Integers have 64 bits. -/
def ofInteger? (value : Int) : Option Toml :=
  if -0x8000000000000000 ≤ value ∧ value < 0x8000000000000000 then some (.integer value) else none

/-- Digits without a superfluous zero in front. -/
def wholeDigits? (text : List Char) : Option (List Char) := do
  let digits ← digits? Digits.isDecimal text
  match digits with
  | '0' :: _ :: _ => none
  | digits => some digits

/-- The part of a number after its point or its exponent mark, and what is left. -/
def splitAtMark (isMark : Char → Bool) (text : List Char) : List Char × Option (List Char) :=
  match text.dropWhile (!isMark ·) with
  | [] => (text, none)
  | _ :: rest => (text.takeWhile (!isMark ·), some rest)

def dropSign : List Char → Bool × List Char
  | '+' :: rest => (false, rest)
  | '-' :: rest => (true, rest)
  | rest => (false, rest)

/-- An exponent takes no more digits once it is not below this. -/
def exponentLimit : Nat := 0x10000

/-- The value of an exponent; there may be none. -/
def exponent? : Option (List Char) → Option Int
  | none => some 0
  | some text =>
      let (negative, digits) := dropSign text
      (digits? Digits.isDecimal digits).map fun digits =>
        let value : Int := Digits.boundedValue 10 exponentLimit digits
        if negative then -value else value

/-- The digits of a fraction; there may be none. -/
def fraction? : Option (List Char) → Option (List Char)
  | none => some []
  | some text => digits? Digits.isDecimal text

/-- A float without its sign: digits, and a fraction or an exponent or both. Of the
floats that are too large only the positive ones are refused, because the negative
ones count as minus infinity. -/
def float? (negative : Bool) (text : List Char) : Option Toml := do
  let (mantissa, exponent) := splitAtMark (fun c => c == 'e' || c == 'E') text
  let (whole, fraction) := splitAtMark (· == '.') mantissa
  let whole ← wholeDigits? whole
  let fraction ← fraction? fraction
  let exponent ← exponent? exponent
  if Binary64.overflows (whole ++ fraction) (exponent - fraction.length) && !negative then none
  else some .float

/-- A number from its characters. Only decimal integers and floats have a sign. -/
def number? (text : List Char) : Option Toml :=
  match text with
  | '0' :: 'x' :: digits => do
      ofInteger? (valueIn 16 (← digits? (fun c => (Digits.hexValue? c).isSome) digits))
  | '0' :: 'o' :: digits => do
      ofInteger? (valueIn 8 (← digits? (fun c => '0' ≤ c && c ≤ '7') digits))
  | '0' :: 'b' :: digits => do
      ofInteger? (valueIn 2 (← digits? (fun c => c == '0' || c == '1') digits))
  | text =>
      let (negative, unsigned) := dropSign text
      if unsigned = ['i', 'n', 'f'] ∨ unsigned = ['n', 'a', 'n'] then some .float
      else
        match wholeDigits? unsigned with
        | some digits =>
            let value : Int := valueIn 10 digits
            ofInteger? (if negative then -value else value)
        | none => float? negative unsigned

/-- Exactly `width` digits with a value in the given range. -/
def field? (width low high : Nat) (text : List Char) : Option (Nat × List Char) :=
  let digits := text.take width
  if digits.length = width && digits.all Digits.isDecimal then
    let value := valueIn 10 digits
    if low ≤ value && value ≤ high then some (value, text.drop width) else none
  else none

def skipChar? (isWanted : Char → Bool) : List Char → Option (List Char)
  | [] => none
  | c :: rest => if isWanted c then some rest else none

def isLeapYear (year : Nat) : Bool :=
  year % 4 == 0 && (year % 100 != 0 || year % 400 == 0)

def daysInMonth (year month : Nat) : Nat :=
  if month = 2 then if isLeapYear year then 29 else 28
  else if [4, 6, 9, 11].contains month then 30
  else 31

def date? (text : List Char) : Option (List Char) := do
  let (year, text) ← field? 4 0 9999 text
  let (month, text) ← field? 2 1 12 (← skipChar? (· == '-') text)
  let (_, text) ← field? 2 1 (daysInMonth year month) (← skipChar? (· == '-') text)
  return text

/-- The fraction of a second, which has at least one digit. -/
def secondFraction? : List Char → Option (List Char)
  | '.' :: rest =>
      match rest.takeWhile Digits.isDecimal with
      | [] => none
      | _ => some (rest.dropWhile Digits.isDecimal)
  | text => some text

def time? (text : List Char) : Option (List Char) := do
  let (_, text) ← field? 2 0 23 text
  let (_, text) ← field? 2 0 59 (← skipChar? (· == ':') text)
  let (_, text) ← field? 2 0 60 (← skipChar? (· == ':') text)
  secondFraction? text

/-- The distance from universal time, if one is given. -/
def zone? : List Char → Option (List Char)
  | c :: rest =>
      if c = 'Z' ∨ c = 'z' then some rest
      else if c = '+' ∨ c = '-' then do
        let (_, rest) ← field? 2 0 23 rest
        let (_, rest) ← field? 2 0 59 (← skipChar? (· == ':') rest)
        return rest
      else some (c :: rest)
  | [] => some []

/-- Whether a text starts like a time of day. -/
def startsTime : List Char → Bool
  | a :: b :: ':' :: _ => Digits.isDecimal a && Digits.isDecimal b
  | _ => false

/-- Whether a text starts like a date. -/
def startsDate (text : List Char) : Bool :=
  (text.take 4).length == 4 && (text.take 4).all Digits.isDecimal && text[4]? == some '-'

/-- A date, a time of day, or both. After a blank the time is optional. -/
def dateTime? (text : List Char) : Option (Toml × List Char) :=
  if startsTime text then (time? text).map (.dateTime, ·)
  else do
    let text ← date? text
    match text with
    | c :: rest =>
        if c = 'T' ∨ c = 't' then return (.dateTime, ← zone? (← time? rest))
        else if c = ' ' ∧ startsTime rest then return (.dateTime, ← zone? (← time? rest))
        else return (.dateTime, text)
    | [] => return (.dateTime, text)

/-- Characters of a number or a word. -/
def isNumberChar (c : Char) : Bool :=
  Digits.isDecimal c || ('a' ≤ c && c ≤ 'z') || ('A' ≤ c && c ≤ 'Z') || c == '_' || c == '+' ||
    c == '-' || c == '.'

/-- A value that is neither a string nor in brackets. -/
def plain? (text : List Char) : Option (Toml × List Char) :=
  if startsDate text || startsTime text then dateTime? text
  else
    let word := text.takeWhile isNumberChar
    let rest := text.dropWhile isNumberChar
    if word = ['t', 'r', 'u', 'e'] then some (.boolean true, rest)
    else if word = ['f', 'a', 'l', 's', 'e'] then some (.boolean false, rest)
    else (number? word).map (·, rest)

end Lookahead.Toml
