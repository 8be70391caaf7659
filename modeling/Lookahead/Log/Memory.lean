import Lookahead.Log.Event

/-!
A log kept in memory. It holds the most recent events, up to a fixed capacity:
when it is full, the oldest event makes room for the new one. The events are a
queue of two lists, so that both ends are at hand.
-/
namespace Lookahead.Log

/-- The number of events that a memory log keeps. -/
def capacity : Nat := 10000

structure Memory where
  /-- The older events, oldest first. -/
  front : List Event := []
  /-- The newer events, newest first. -/
  back : List Event := []
  size : Nat := 0

namespace Memory

def toList (m : Memory) : List Event := m.front ++ m.back.reverse

def dropOldest (m : Memory) : Memory :=
  match m.front with
  | _ :: front => { m with front := front, size := m.size - 1 }
  | [] => ⟨m.back.reverse.tail, [], m.size - 1⟩

def push (m : Memory) (e : Event) : Memory :=
  let m := if capacity ≤ m.size then m.dropOldest else m
  { m with back := e :: m.back, size := m.size + 1 }

def errors (m : Memory) : List Event := m.toList.filter (·.level == .error)

def warnings (m : Memory) : List Event := m.toList.filter (·.level == .warning)

def ofCategory (m : Memory) (category : String) : List Event :=
  m.toList.filter (·.code.category == category)

def hasError (m : Memory) (code : Code) : Bool :=
  m.toList.any fun e => e.level == .error && e.code == code

def hasSuccess (m : Memory) (code : Code) : Bool :=
  m.toList.any fun e => e.level == .info && e.code == code

end Memory

/-- A threshold in front of a group of memory logs that has a threshold of its own. -/
structure Service where
  threshold : Level
  groupThreshold : Level
  sinks : List Memory

namespace Service

def accepts (s : Service) (level : Level) : Bool := level.passes s.threshold

def push (s : Service) (e : Event) : Service :=
  if s.accepts e.level && e.level.passes s.groupThreshold then
    { s with sinks := s.sinks.map (·.push e) }
  else s

end Service

end Lookahead.Log
