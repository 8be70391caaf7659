import Lookahead.Bundled.MicroHaskell
import Lookahead.Excerpt
import Lookahead.Files
import Lookahead.Grammar.Basic
import Lookahead.Stream.Basic

/-!
The interactive lexer. Every line of the input is lexed by itself, and its tokens
are listed without the trivia; an error ends the listing of its line and has no
effect on the lines after it.
-/
namespace Lookahead.CommandLine

def prompt : String := "Lexer> "

def selectAcceptors (microHaskell : Bool) : List Acceptor :=
  if microHaskell then MicroHaskell.acceptors else Demo.acceptors

/-- Drops the line ends at the end of a line. -/
def trimLineEnd (line : List Char) : List Char :=
  (line.reverse.dropWhile fun c => c == '\n' || c == '\r').reverse

/-- What is printed for one line. -/
def listLine (acceptors : List Acceptor) (preferences : LexicalPreferences) (line : List Char) :
    String :=
  let stream : LookaheadStream TextSource :=
    ⟨.ofText (trimLineEnd line) acceptors preferences, .empty⟩
  let batch := TokenStream.allProper stream
  let tokens := batch.tokens.foldl (fun out t => out ++ t.render ++ "\n") ""
  match batch.failure with
  | none => tokens
  | some e => tokens ++ "Error: " ++ e.message ++ "\n"

/-- The lines of an input, each with the byte that ends it. -/
def inputLines (bytes : List UInt8) : List (List UInt8) :=
  go [] [] bytes
where
  go (finished : List (List UInt8)) (current : List UInt8) : List UInt8 → List (List UInt8)
    | [] =>
        if current.isEmpty then finished.reverse else (current.reverse :: finished).reverse
    | b :: rest =>
        if b = 0x0A then go ((b :: current).reverse :: finished) [] rest
        else go finished (b :: current) rest

/-- Lists line after line; stops at a line that is not text. -/
def listLines (acceptors : List Acceptor) (preferences : LexicalPreferences) (out : String) :
    List (List UInt8) → String × Option FileError
  | [] => (out ++ prompt ++ "\n", none)
  | line :: rest =>
      match Utf8.decode? line with
      | none => (out ++ prompt, some .invalidUtf8)
      | some text =>
          listLines acceptors preferences (out ++ prompt ++ listLine acceptors preferences text)
            rest

/-- The whole output for an input, and the error that ended it early, if one did. -/
def repl (acceptors : List Acceptor) (preferences : LexicalPreferences) (input : List UInt8) :
    String × Option FileError :=
  listLines acceptors preferences "" (inputLines input)

end Lookahead.CommandLine
