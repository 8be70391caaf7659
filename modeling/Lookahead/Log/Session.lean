import Lookahead.Log.Memory

/-!
Sessions. A session names the input that is being processed and may have a
memory log, its sink, for the events of its body. A session opened inside
another one keeps the outer sink unless it brings its own, and when its body is
done the outer session is current again. Every event that is dispatched inside a
session is tagged with the session's name and goes to the session's sink; the
tagged event is also offered to the process-wide log.
-/
namespace Lookahead.Log

/-- What a run does to the log: single events, and sessions around more of the same. -/
inductive Activity where
  | emit (event : Event)
  /-- Notes the name of the current session. -/
  | note
  | session (name : String) (sink : Option String) (body : List Activity)
deriving Inhabited

structure Session where
  name : String
  sink : Option String
deriving DecidableEq, Repr

/-- The state of logging while activities are carried out. -/
structure Desk where
  session : Option Session := none
  sinks : SortedMap String Memory := {}
  /-- Everything dispatched so far, newest first, for the process-wide log. -/
  dispatched : List Event := []
  /-- The session names noted so far, newest first. -/
  notes : List (Option String) := []

namespace Desk

def tagged (session : Option Session) (e : Event) : Event :=
  match session with
  | none => e
  | some s => e.annotate "session" s.name

def sinkOf (session : Option Session) : Option String := session.bind (·.sink)

def deliver (sinks : SortedMap String Memory) (sink : Option String) (e : Event) :
    SortedMap String Memory :=
  match sink with
  | none => sinks
  | some name => sinks.insert name (((sinks.get? name).getD {}).push e)

def dispatch (d : Desk) (e : Event) : Desk :=
  let e := tagged d.session e
  { d with
    sinks := deliver d.sinks (sinkOf d.session) e
    dispatched := e :: d.dispatched }

/-- Makes a session current; a sink that is named for the first time starts empty. -/
def enter (d : Desk) (name : String) : Option String → Desk
  | none => { d with session := some ⟨name, sinkOf d.session⟩ }
  | some sink =>
      { d with
        session := some ⟨name, some sink⟩
        sinks := if (d.sinks.get? sink).isSome then d.sinks else d.sinks.insert sink {} }

mutual

def perform (d : Desk) : Activity → Desk
  | .emit e => d.dispatch e
  | .note => { d with notes := d.session.map (·.name) :: d.notes }
  | .session name sink body =>
      { performAll (d.enter name sink) body with session := d.session }

def performAll (d : Desk) : List Activity → Desk
  | [] => d
  | activity :: rest => performAll (perform d activity) rest

end

end Desk

end Lookahead.Log
