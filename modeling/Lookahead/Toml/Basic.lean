/-!
Values of a TOML document. Only what a configuration can use is kept: of floats
and of dates and times it is enough to know that they were well formed. A table
knows how it came about, because that decides whether it may be extended later.
-/
namespace Lookahead

namespace Toml

/-- How a table was introduced. -/
inductive Origin where
  /-- By a header of its own. -/
  | header
  /-- On the way to the table of a longer header. -/
  | implied
  /-- On the way to the value of a dotted key. -/
  | dotted
  /-- In braces. -/
  | inline
deriving DecidableEq, Repr

end Toml

inductive Toml where
  | string (value : String)
  | integer (value : Int)
  | float
  | boolean (value : Bool)
  | dateTime
  | array (items : List Toml)
  | table (origin : Toml.Origin) (entries : List (String × Toml))
  /-- Tables that share one header, the newest first. -/
  | tables (items : List (List (String × Toml)))

namespace Toml

abbrev Entries := List (String × Toml)

def Entries.find? (entries : Entries) (key : String) : Option Toml :=
  (List.find? (fun entry => entry.1 == key) entries).map (·.2)

/-- Gives a key a value, in place if the key is there. -/
def Entries.set (entries : Entries) (key : String) (value : Toml) : Entries :=
  if List.any entries (fun entry => entry.1 == key) then
    List.map (fun entry => if entry.1 == key then (key, value) else entry) entries
  else entries ++ [(key, value)]

/-- Adds a key that must be new. -/
def Entries.add? (entries : Entries) (key : String) (value : Toml) : Option Entries :=
  match entries.find? key with
  | some _ => none
  | none => some (entries.set key value)

/-- The path of a dotted key inside braces. -/
def addInline (value : Toml) (last : String) : List String → Entries → Option Entries
  | [], entries => entries.add? last value
  | key :: path, entries =>
      match entries.find? key with
      | none => do
          let inner ← addInline value last path []
          return entries.set key (.table .dotted inner)
      | some (.table .dotted inner) => do
          let inner ← addInline value last path inner
          return entries.set key (.table .dotted inner)
      | some _ => none

/-- The path of a dotted key in the body of a table. The way may lead through
tables that no header has introduced, but the value itself has to go into a table
that a dotted key introduced. -/
def addDotted (value : Toml) (last : String) : List String → Entries → Option Entries
  | [], entries => entries.add? last value
  | key :: path, entries =>
      match entries.find? key with
      | none => do
          let inner ← addDotted value last path []
          return entries.set key (.table .dotted inner)
      | some (.table .dotted inner) => do
          let inner ← addDotted value last path inner
          return entries.set key (.table .dotted inner)
      | some (.table .implied inner) =>
          if path.isEmpty then none
          else do
            let inner ← addDotted value last path inner
            return entries.set key (.table .implied inner)
      | some (.tables []) => none
      | some (.tables (newest :: older)) =>
          if path.isEmpty then none
          else do
            let inner ← addDotted value last path newest
            return entries.set key (.tables (inner :: older))
      | some _ => none

/-- Changes the entries at the end of a header's path, introducing the tables on
the way that are missing. -/
def atPath (change : Entries → Option Entries) : List String → Entries → Option Entries
  | [], entries => change entries
  | key :: path, entries =>
      match entries.find? key with
      | none => do
          let inner ← atPath change path []
          return entries.set key (.table .implied inner)
      | some (.table .inline _) => none
      | some (.table origin inner) => do
          let inner ← atPath change path inner
          return entries.set key (.table origin inner)
      | some (.tables []) => none
      | some (.tables (newest :: older)) => do
          let inner ← atPath change path newest
          return entries.set key (.tables (inner :: older))
      | some _ => none

/-- A header: a table may have one only, and not after dotted keys made it. -/
def openTable (last : String) (entries : Entries) : Option Entries :=
  match entries.find? last with
  | none => some (entries.set last (.table .header []))
  | some (.table .implied inner) => some (entries.set last (.table .header inner))
  | some _ => none

/-- A header in double brackets: one more table of that name. -/
def appendTable (last : String) (entries : Entries) : Option Entries :=
  match entries.find? last with
  | none => some (entries.set last (.tables [[]]))
  | some (.tables items) => some (entries.set last (.tables ([] :: items)))
  | some _ => none

end Toml

end Lookahead
