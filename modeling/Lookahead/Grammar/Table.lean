import Lookahead.Grammar.Basic
import Lookahead.Json.Basic
import Lookahead.SortedMap

/-!
Parse tables held as data. A table maps cells, a nonterminal with a lookahead, to
right-hand sides; filling a cell again replaces what was in it. Cells are ordered
by nonterminal and then by lookahead, the end of the input before every class, so
that the rules of a table and its JSON text depend on its contents only.
-/
namespace Lookahead

structure Cell where
  nonterminal : String
  /-- The class of the token ahead, or none at the end of the input. -/
  lookahead : Option String
deriving DecidableEq, Repr

namespace Cell

def compareLookahead : Option String → Option String → Ordering
  | none, none => .eq
  | none, some _ => .lt
  | some _, none => .gt
  | some a, some b => compare a b

instance : Ord Cell where
  compare a b :=
    (compare a.nonterminal b.nonterminal).then (compareLookahead a.lookahead b.lookahead)

end Cell

structure ParseTable where
  startSymbol : String
  cells : SortedMap Cell (List String) := {}

/-- A filled cell. -/
structure TableRule where
  nonterminal : String
  lookahead : Option String
  rhs : List String
deriving DecidableEq, Repr

namespace ParseTable

def insert (t : ParseTable) (rule : TableRule) : ParseTable :=
  { t with cells := t.cells.insert ⟨rule.nonterminal, rule.lookahead⟩ rule.rhs }

/-- Of several rules for one cell the last one counts. -/
def ofRules (startSymbol : String) (rules : List TableRule) : ParseTable :=
  rules.foldl insert { startSymbol := startSymbol }

def entry (t : ParseTable) (nonterminal : String) (lookahead : Option String) :
    Option (List String) :=
  t.cells.get? ⟨nonterminal, lookahead⟩

def size (t : ParseTable) : Nat := t.cells.size

/-- All filled cells, in order. -/
def rules (t : ParseTable) : List TableRule :=
  t.cells.entries.map fun entry => ⟨entry.1.nonterminal, entry.1.lookahead, entry.2⟩

def grammar (t : ParseTable) : Grammar where
  startSymbol := t.startSymbol
  entry := t.entry

end ParseTable

namespace TableRule

def toJson (r : TableRule) : Json :=
  .obj [
    ("nonterminal", .str r.nonterminal),
    ("lookahead", match r.lookahead with | none => .null | some lexClass => .str lexClass),
    ("rhs", .arr (r.rhs.map .str))]

end TableRule

namespace ParseTable

def toJson (t : ParseTable) : Json :=
  .obj [("start_symbol", .str t.startSymbol), ("rules", .arr (t.rules.map TableRule.toJson))]

end ParseTable

end Lookahead
