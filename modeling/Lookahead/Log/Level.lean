/-!
Levels of log events, from the most to the least urgent. A threshold lets
through every level that is at least as urgent as itself.
-/
namespace Lookahead.Log

inductive Level where
  | error
  | warning
  | info
  | debug
deriving DecidableEq, Repr

namespace Level

def rank : Level → Nat
  | .error => 0
  | .warning => 1
  | .info => 2
  | .debug => 3

/-- The tag that opens a line of the log. -/
def tag : Level → String
  | .error => "ERROR"
  | .warning => "WARN"
  | .info => "INFO"
  | .debug => "DEBUG"

/-- The name that a configuration uses. -/
def name : Level → String
  | .error => "error"
  | .warning => "warning"
  | .info => "info"
  | .debug => "debug"

def ofName? (name : String) : Option Level :=
  [Level.error, .warning, .info, .debug].find? (·.name == name)

/-- Reads a level from a setting: its name in any case, the short form of
`warning`, or its rank. No letter outside ASCII has a lower case that occurs in
a name. -/
def ofSetting? (setting : String) : Option Level :=
  match String.ofList (setting.toList.map Char.toLower) with
  | "error" | "0" => some .error
  | "warning" | "warn" | "1" => some .warning
  | "info" | "2" => some .info
  | "debug" | "3" => some .debug
  | _ => none

def passes (level threshold : Level) : Bool :=
  level.rank ≤ threshold.rank

end Level

end Lookahead.Log
