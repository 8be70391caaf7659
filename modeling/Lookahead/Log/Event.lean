import Lookahead.Json.Basic
import Lookahead.Log.Code
import Lookahead.Log.Level
import Lookahead.Log.Timestamp
import Lookahead.SortedMap
import Lookahead.Span

/-!
Log events. An event has a level, a code, a message of bounded length, the span
it is about, if any, and a context of named values in which a later value for a
name replaces an earlier one. Events are data: the operations of the library
return the events they give rise to, and a session delivers them.
-/
namespace Lookahead.Log

/-- The number of characters that a message keeps. -/
def messageLimit : Nat := 4096

/-- Cuts a message at the limit and marks the cut with three dots. -/
def limitMessage (message : String) : String :=
  if message.length ≤ messageLimit then message
  else String.ofList (message.toList.take messageLimit) ++ "..."

/-- How a message is told in a bounded number of characters: as it is, or by its
beginning with three dots after it. -/
inductive Abridged (message : String) : String → Prop where
  | whole (hlength : message.length ≤ 4096) : Abridged message message
  | cut {front rest : String} (hmessage : message = front ++ rest) (hfront : front.length = 4096)
      (hrest : rest ≠ "") : Abridged message (front ++ "...")

theorem limitMessage_of_le {message : String} (h : message.length ≤ 4096) :
    limitMessage message = message :=
  if_pos h

theorem limitMessage_append {front rest : String} (hfront : front.length = 4096)
    (hrest : rest ≠ "") : limitMessage (front ++ rest) = front ++ "..." := by
  have hpos : 0 < rest.length := by
    rw [Nat.pos_iff_ne_zero, Ne, String.length_eq_zero_iff]
    exact hrest
  have hlong : ¬ (front ++ rest).length ≤ messageLimit := by
    rw [String.length_append, hfront, messageLimit]
    omega
  have htake : (front ++ rest).toList.take messageLimit = front.toList := by
    rw [String.toList_append]
    exact List.take_left' hfront
  rw [limitMessage, if_neg hlong, htake, String.ofList_toList]

theorem exists_front_of_long {message : String} (h : 4096 < message.length) :
    ∃ front rest : String, message = front ++ rest ∧ front.length = 4096 ∧ rest ≠ "" := by
  refine ⟨.ofList (message.toList.take 4096), .ofList (message.toList.drop 4096), ?_, ?_, ?_⟩
  · rw [← String.ofList_append, List.take_append_drop, String.ofList_toList]
  · rw [String.length_ofList, List.length_take, String.length_toList]
    omega
  · rw [Ne, ← String.length_eq_zero_iff, String.length_ofList, List.length_drop,
      String.length_toList]
    omega

/-- Short messages are kept; of a longer one the first characters are, and are marked. -/
theorem limitMessage_eq_iff {message text : String} :
    limitMessage message = text ↔ Abridged message text := by
  constructor
  · rintro rfl
    by_cases hlength : message.length ≤ 4096
    · rw [limitMessage_of_le hlength]
      exact .whole hlength
    · obtain ⟨front, rest, rfl, hfront, hrest⟩ := exists_front_of_long (Nat.not_le.mp hlength)
      rw [limitMessage_append hfront hrest]
      exact .cut rfl hfront hrest
  · intro h
    cases h with
    | whole hlength => exact limitMessage_of_le hlength
    | cut hmessage hfront hrest =>
        rw [hmessage]
        exact limitMessage_append hfront hrest

structure Event where
  level : Level
  code : Code
  message : String
  span : Option Span := none
  context : SortedMap String String := {}

namespace Event

def error (code : Code) (message : String) : Event :=
  ⟨.error, code, limitMessage message, none, {}⟩

def warning (code : Code) (message : String) : Event :=
  ⟨.warning, code, limitMessage message, none, {}⟩

def info (message : String) : Event := ⟨.info, .plainInfo, limitMessage message, none, {}⟩

/-- A success is an informational event with a code of its own. -/
def success (code : Code) (message : String) : Event :=
  ⟨.info, code, limitMessage message, none, {}⟩

def debug (message : String) : Event := ⟨.debug, .plainDebug, limitMessage message, none, {}⟩

def withSpan (e : Event) (span : Option Span) : Event := { e with span := span }

def annotate (e : Event) (name value : String) : Event :=
  { e with context := e.context.insert name value }

def withAll (e : Event) (pairs : List (String × String)) : Event :=
  pairs.foldl (fun e pair => e.annotate pair.1 pair.2) e

/-- One line for people. -/
def render (e : Event) : String :=
  let place := match e.span with
    | some span => " at " ++ span.start.render
    | none => ""
  let pairs := e.context.entries.map fun entry => entry.1 ++ "=" ++ entry.2
  let context := if pairs.isEmpty then "" else " (" ++ String.intercalate ", " pairs ++ ")"
  s!"[{e.level.tag}] {e.code.text} - {e.message}{place}{context}"

/-- One line for programs: an object whose keys are in increasing order on every
level. Only an error carries what its code says about recovery. -/
def toJson (e : Event) (time : Timestamp) : Json :=
  let context :=
    if e.context.isEmpty then []
    else [("context", Json.obj (e.context.entries.map fun entry => (entry.1, .str entry.2)))]
  let recovery :=
    if e.level = .error then
      [("error_metadata", Json.obj [
        ("description", .str e.code.description),
        ("recommended_action", .str e.code.action),
        ("recoverable", .bool e.code.isRecoverable),
        ("requires_halt", .bool e.code.requiresHalt)])]
    else []
  let span := match e.span with
    | none => []
    | some span => [("span", Json.obj [
        ("end_column", .num span.stop.column),
        ("end_line", .num span.stop.line),
        ("start_column", .num span.start.column),
        ("start_line", .num span.start.line)])]
  .obj ([("category", .str e.code.category), ("code", .str e.code.text)] ++ context ++ recovery ++
    [("level", .str e.level.tag), ("message", .str e.message),
      ("severity", .str e.code.severity.name)] ++ span ++
    [("timestamp", .str time.render)])

end Event

end Lookahead.Log
