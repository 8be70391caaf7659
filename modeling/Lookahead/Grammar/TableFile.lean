import Lookahead.Grammar.Table
import Lookahead.Json.Reader

/-!
Parse tables in JSON. A table is an object with a start symbol and a list of
rules, and a rule is an object with a nonterminal, a lookahead and a right-hand
side; unknown fields are passed over. The rules may be missing, and so may the
lookahead of a rule, which then is the end of the input. An object may also be
given as the list of its fields in order; then only the rules may be missing.
-/
namespace Lookahead

open Json

namespace TableRule

/-- The fields of a rule that have been read so far. -/
structure Draft where
  nonterminal : Option String := none
  lookahead : Option (Option String) := none
  rhs : Option (List String) := none

def Draft.finish (d : Draft) : Except Flaw TableRule :=
  match d.nonterminal, d.rhs with
  | some nonterminal, some rhs => .ok ⟨nonterminal, d.lookahead.getD none, rhs⟩
  | _, _ => .error .mismatched

def knownFields : List (KnownField Draft) :=
  [ .once "nonterminal" (·.nonterminal) (fun d value => { d with nonterminal := some value })
      readString,
    .once "lookahead" (·.lookahead) (fun d value => { d with lookahead := some value })
      readNullable,
    .once "rhs" (·.rhs) (fun d value => { d with rhs := some value }) (readList readString) ]

/-- One element of the list form; a list that ends too soon has the wrong shape. -/
def readItem {α : Type} (item : List Char → Except Flaw (α × List Char)) (first : Bool)
    (text : List Char) : Except Flaw (α × List Char) :=
  match nextItem first text with
  | .error e => .error e
  | .ok (.closed _) => .error .mismatched
  | .ok (.more _ rest) => item rest

def read (text : List Char) : Except Flaw (TableRule × List Char) :=
  match skipBlanks text with
  | '\x7b' :: rest => readFields knownFields Draft.finish rest true {} rest
  | '[' :: rest => do
      let (nonterminal, rest) ← readItem readString true rest
      let (lookahead, rest) ← readItem readNullable false rest
      let (rhs, rest) ← readItem (readList readString) false rest
      return (⟨nonterminal, lookahead, rhs⟩, ← endItems rest)
  | text => .error (mismatch text)

end TableRule

namespace ParseTable

structure Draft where
  startSymbol : Option String := none
  rules : Option (List TableRule) := none

def Draft.finish (d : Draft) : Except Flaw ParseTable :=
  match d.startSymbol with
  | some startSymbol => .ok (.ofRules startSymbol (d.rules.getD []))
  | none => .error .mismatched

def knownFields : List (KnownField Draft) :=
  [ .once "start_symbol" (·.startSymbol) (fun d value => { d with startSymbol := some value })
      readString,
    .once "rules" (·.rules) (fun d value => { d with rules := some value })
      (readList TableRule.read) ]

def readItems (text : List Char) : Except Flaw (ParseTable × List Char) := do
  let (startSymbol, text) ← TableRule.readItem readString true text
  match ← nextItem false text with
  | .closed rest => return (.ofRules startSymbol [], rest)
  | .more _ rest =>
      let (rules, rest) ← readList TableRule.read rest
      return (.ofRules startSymbol rules, ← endItems rest)

def read (text : List Char) : Except Flaw (ParseTable × List Char) :=
  match skipBlanks text with
  | '\x7b' :: rest => readFields knownFields Draft.finish rest true {} rest
  | '[' :: rest => readItems rest
  | text => .error (mismatch text)

def ofJson (text : List Char) : Except Flaw ParseTable := do
  let (table, rest) ← read text
  endOfText rest
  return table

end ParseTable

end Lookahead
