import Lookahead.Log.Session

/-!
The process-wide log. It is set up in two steps, each of which can be taken once:
preferences are installed, and the log is opened with the preferences then in
force. The log writes to the console the events that pass its threshold.
-/
namespace Lookahead.Log

structure Preferences where
  /-- Write JSON instead of plain lines. -/
  structured : Bool := false
  console : Bool := true
  threshold : Level := .info
deriving DecidableEq, Repr

namespace Preferences

def line (p : Preferences) (time : Timestamp) (e : Event) : String :=
  (if p.structured then (e.toJson time).compact else e.render) ++ "\n"

/-- What the console shows of some events. -/
def lines (p : Preferences) (time : Timestamp) (events : List Event) : String :=
  if p.console then
    (events.filter (·.level.passes p.threshold)).foldl (fun out e => out ++ p.line time e) ""
  else ""

/-- The limits that are built in and the preferences that were chosen. -/
def summary (p : Preferences) : String :=
  String.intercalate "\n" [
    "Logging Configuration:",
    "=== Compile-time ===",
    s!"- Log buffer size: {capacity}",
    s!"- Max message length: {messageLimit}",
    "=== Runtime ===",
    s!"- Min log level: {p.threshold.tag}",
    s!"- Structured logging: {p.structured}",
    s!"- Console logging: {p.console}"]

end Preferences

/-- Limits with which no log can be kept. -/
inductive LimitError where
  | noCapacity
  | shortMessages (limit : Nat)
deriving DecidableEq, Repr

def LimitError.message : LimitError → String
  | .noCapacity => "Log buffer size cannot be zero"
  | .shortMessages limit => s!"Max log message length too small: {limit}"

/-- The number of characters that a message may at least have. -/
def minMessageLimit : Nat := 16

def checkLimits (capacity messageLimit : Nat) : Except LimitError Unit :=
  if capacity = 0 then .error .noCapacity
  else if messageLimit < minMessageLimit then .error (.shortMessages messageLimit)
  else .ok ()

inductive SetupError where
  | preferencesInstalled
  | unusableLimits (cause : LimitError)
  | logOpened
deriving DecidableEq, Repr

def SetupError.message : SetupError → String
  | .preferencesInstalled => "Runtime preferences already initialized"
  | .unusableLimits cause => s!"Configuration validation failed: {cause.message}"
  | .logOpened => "Global logger already initialized"

/-- How far the process-wide log has been set up. -/
structure Setup where
  installed : Option Preferences := none
  /-- The threshold of the open log. -/
  threshold : Option Level := none

namespace Setup

def preferences (s : Setup) : Preferences := s.installed.getD {}

def install (s : Setup) (p : Preferences) : Except SetupError Setup :=
  if s.installed.isSome then .error .preferencesInstalled
  else .ok { s with installed := some p }

def openLog (s : Setup) : Except SetupError Setup :=
  match checkLimits capacity messageLimit with
  | .error cause => .error (.unusableLimits cause)
  | .ok _ =>
      if s.threshold.isSome then .error .logOpened
      else .ok { s with threshold := some s.preferences.threshold }

/-- The event with which an open log begins. -/
def opening : Event := .success .loggingInitialized "Global logging system initialized"

end Setup

end Lookahead.Log
