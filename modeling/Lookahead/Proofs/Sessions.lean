import Lookahead.Log.Session
import Lookahead.Proofs.SortedEntries

/-!
Sessions by the blocks around a log call. A call stands inside some blocks, the
innermost of which gives the event its session, and the innermost of those with a log
of their own receives it. The desk knows nothing of the blocks: it has one current
session, which a block replaces and puts back. What it does between two states is told
by the calls that were made in between, one after the other.
-/
namespace Lookahead.Log

namespace Memory

theorem toList_dropOldest (m : Memory) : m.dropOldest.toList = m.toList.tail := by
  obtain ⟨front, back, size⟩ := m
  cases front with
  | nil => simp [dropOldest, toList]
  | cons e front => rfl

theorem toList_push (m : Memory) (e : Event) :
    (m.push e).toList =
      (if capacity ≤ m.size then m.toList.tail else m.toList) ++ [e] := by
  rw [push]
  split
  · rw [← toList_dropOldest]
    simp [toList]
  · simp [toList]

theorem size_push (m : Memory) (e : Event) :
    (m.push e).size = (if capacity ≤ m.size then m.size - 1 else m.size) + 1 := by
  obtain ⟨front, back, size⟩ := m
  rw [push]
  split
  · cases front <;> rfl
  · rfl

/-- The memory holds the last of the events, as many as it has room for. -/
structure Keeps (m : Memory) (events : List Event) : Prop where
  recent : m.toList <:+ events
  length : m.toList.length = min events.length capacity
  size : m.size = m.toList.length

theorem keeps_nil : Keeps {} [] := ⟨List.suffix_rfl, rfl, rfl⟩

theorem Keeps.push {m : Memory} {events : List Event} (h : m.Keeps events) (e : Event) :
    (m.push e).Keeps (events ++ [e]) := by
  have hcapacity : 0 < capacity := by decide
  have hlength := h.length
  have hsize := h.size
  by_cases hfull : capacity ≤ m.size
  · have hlist : (m.push e).toList = m.toList.tail ++ [e] := by rw [toList_push, if_pos hfull]
    refine ⟨?_, ?_, ?_⟩
    · rw [hlist, List.suffix_append_self_iff]
      exact (List.tail_suffix _).trans h.recent
    · simp only [hlist, List.length_append, List.length_tail, List.length_singleton]
      omega
    · simp only [hlist, size_push, if_pos hfull, List.length_append, List.length_tail,
        List.length_singleton]
      omega
  · have hlist : (m.push e).toList = m.toList ++ [e] := by rw [toList_push, if_neg hfull]
    refine ⟨?_, ?_, ?_⟩
    · rw [hlist, List.suffix_append_self_iff]
      exact h.recent
    · simp only [hlist, List.length_append, List.length_singleton]
      omega
    · simp only [hlist, size_push, if_neg hfull, List.length_append, List.length_singleton]
      omega

theorem Keeps.foldl {m : Memory} {events : List Event} (h : m.Keeps events) (more : List Event) :
    (more.foldl Memory.push m).Keeps (events ++ more) := by
  induction more generalizing m events with
  | nil => rwa [List.append_nil]
  | cons e more ih =>
      rw [List.append_cons]
      exact ih (h.push e)

end Memory

/-- A session around a part of a program, with a log of its own if it brings one. -/
structure Block where
  name : String
  logger : Option String

/-- A log call with the blocks around it, the innermost first. -/
structure Call where
  scope : List Block
  event : Event

namespace Call

/-- The event with the name of the innermost block. -/
def sent (call : Call) : Event :=
  match call.scope with
  | [] => call.event
  | block :: _ => call.event.annotate "session" block.name

/-- The log of the innermost block that has one. -/
def logger (call : Call) : Option String := call.scope.findSome? Block.logger

/-- What a log receives from some calls. -/
def received (sink : String) (calls : List Call) : List Event :=
  (calls.filter (·.logger = some sink)).map sent

theorem received_append (sink : String) (calls more : List Call) :
    received sink (calls ++ more) = received sink calls ++ received sink more := by
  simp [received]

/-- Inside a block the event names the block, whatever session the call itself has named;
it is the call's event in all other respects. -/
theorem get?_sent {call : Call} {block : Block} {outer : List Block}
    (h : call.scope = block :: outer) (key : String) :
    call.sent.context.get? key =
      if key = "session" then some block.name else call.event.context.get? key := by
  rw [sent, h]
  by_cases hkey : key = "session"
  · rw [if_pos hkey, hkey]
    exact SortedMap.get?_insert_self _ _ _
  · rw [if_neg hkey]
    exact SortedMap.get?_insert_of_ne _ hkey _

end Call

namespace Activity

/-- Programs by their first activity, which may stand around a program. -/
@[elab_as_elim]
theorem programInduction {motive : List Activity → Prop} (nil : motive [])
    (emit : ∀ e rest, motive rest → motive (.emit e :: rest))
    (note : ∀ rest, motive rest → motive (.note :: rest))
    (session : ∀ name sink body rest, motive body → motive rest →
      motive (.session name sink body :: rest))
    (program : List Activity) : motive program :=
  @Activity.rec_1 (fun activity => ∀ rest, motive rest → motive (activity :: rest)) motive
    emit note (fun name sink body ihbody rest => session name sink body rest ihbody) nil
    (fun _ rest first after => first rest after) program

mutual

/-- The log calls of an activity in their order. -/
def calls (scope : List Block) : Activity → List Call
  | .emit e => [⟨scope, e⟩]
  | .note => []
  | .session name sink body => callsAll (⟨name, sink⟩ :: scope) body

def callsAll (scope : List Block) : List Activity → List Call
  | [] => []
  | activity :: rest => activity.calls scope ++ callsAll scope rest

end

end Activity

namespace Desk

/-- The session that is current inside some blocks. -/
def sessionIn : List Block → Option Session
  | [] => none
  | block :: outer => some ⟨block.name, (block :: outer).findSome? Block.logger⟩

/-- What a log holds; one that has not been used yet is empty. -/
def memory (d : Desk) (sink : String) : Memory := (d.sinks.get? sink).getD {}

/-- What lies between two states of the desk: some calls were made, each was dispatched,
and each log has received its own, in this order. -/
structure Delivers (calls : List Call) (d d' : Desk) : Prop where
  session : d'.session = d.session
  dispatched : d'.dispatched = (calls.map Call.sent).reverse ++ d.dispatched
  memory : ∀ sink, d'.memory sink = (Call.received sink calls).foldl Memory.push (d.memory sink)

theorem Delivers.refl (d : Desk) : Delivers [] d d := ⟨rfl, rfl, fun _ => rfl⟩

theorem Delivers.trans {calls more : List Call} {d d' d'' : Desk} (h : Delivers calls d d')
    (h' : Delivers more d' d'') : Delivers (calls ++ more) d d'' := by
  refine ⟨h'.session.trans h.session, ?_, ?_⟩
  · rw [h'.dispatched, h.dispatched]
    simp
  · intro sink
    rw [h'.memory, h.memory, Call.received_append, List.foldl_append]

theorem sinkOf_sessionIn (scope : List Block) :
    sinkOf (sessionIn scope) = scope.findSome? Block.logger := by
  cases scope <;> rfl

theorem tagged_sessionIn (scope : List Block) (e : Event) :
    tagged (sessionIn scope) e = Call.sent ⟨scope, e⟩ := by
  cases scope <;> rfl

theorem memory_insert (d : Desk) (session : Option Session) (dispatched : List Event)
    (notes : List (Option String)) (sink key : String) (m : Memory) :
    memory ⟨session, d.sinks.insert sink m, dispatched, notes⟩ key =
      if key = sink then m else d.memory key := by
  by_cases hkey : key = sink
  · subst hkey
    simp [memory, SortedMap.get?_insert_self]
  · simp [memory, hkey, SortedMap.get?_insert_of_ne]

theorem memory_dispatch (d : Desk) (e : Event) (key : String) :
    (d.dispatch e).memory key =
      if sinkOf d.session = some key then (d.memory key).push (tagged d.session e)
      else d.memory key := by
  rw [dispatch]
  cases hsink : sinkOf d.session with
  | none => rfl
  | some sink =>
      rw [deliver, memory_insert]
      by_cases hkey : key = sink
      · subst hkey
        simp [memory]
      · have hne : some sink ≠ some key := fun heq => hkey (Option.some.inj heq).symm
        rw [if_neg hkey, if_neg hne]

theorem delivers_dispatch {d : Desk} {scope : List Block} (h : d.session = sessionIn scope)
    (e : Event) : Delivers [⟨scope, e⟩] d (d.dispatch e) := by
  refine ⟨rfl, ?_, ?_⟩
  · simp [dispatch, h, tagged_sessionIn]
  · intro sink
    rw [memory_dispatch, h, sinkOf_sessionIn, tagged_sessionIn]
    by_cases hlogger : scope.findSome? Block.logger = some sink
    · simp [Call.received, Call.logger, hlogger]
    · simp [Call.received, Call.logger, hlogger]

/-- The desk inside a block. -/
theorem session_enter {d : Desk} {scope : List Block} (h : d.session = sessionIn scope)
    (name : String) (sink : Option String) :
    (d.enter name sink).session = sessionIn (⟨name, sink⟩ :: scope) := by
  cases sink with
  | none =>
      rw [enter, h, sinkOf_sessionIn]
      rfl
  | some sink => rfl

theorem dispatched_enter (d : Desk) (name : String) (sink : Option String) :
    (d.enter name sink).dispatched = d.dispatched := by
  cases sink <;> rfl

theorem memory_enter (d : Desk) (name : String) (sink : Option String) (key : String) :
    (d.enter name sink).memory key = d.memory key := by
  cases sink with
  | none => rfl
  | some sink =>
      rw [enter]
      split
      · rfl
      · rename_i hnew
        rw [memory_insert]
        by_cases hkey : key = sink
        · subst hkey
          have hnone : d.sinks.get? key = none := by simpa using hnew
          rw [if_pos rfl, memory, hnone]
          rfl
        · rw [if_neg hkey]

theorem Delivers.leave {calls : List Call} {d d' : Desk} {name : String} {sink : Option String}
    (h : Delivers calls (d.enter name sink) d') :
    Delivers calls d { d' with session := d.session } := by
  refine ⟨rfl, ?_, ?_⟩
  · rw [← dispatched_enter d name sink]
    exact h.dispatched
  · intro key
    rw [← memory_enter d name sink key]
    exact h.memory key

theorem delivers_performAll {d : Desk} {scope : List Block} (h : d.session = sessionIn scope)
    (program : List Activity) : Delivers (Activity.callsAll scope program) d
      (d.performAll program) := by
  induction program using Activity.programInduction generalizing d scope with
  | nil => exact .refl d
  | emit e rest ih =>
      have hfirst := delivers_dispatch h e
      exact hfirst.trans (ih (hfirst.session.trans h))
  | note rest ih =>
      have hfirst : Delivers [] d (d.perform .note) := ⟨rfl, rfl, fun _ => rfl⟩
      exact hfirst.trans (ih h)
  | session name sink body rest ihbody ih =>
      have hfirst := (ihbody (session_enter h name sink)).leave
      exact hfirst.trans (ih h)

theorem session_perform (d : Desk) (activity : Activity) :
    (d.perform activity).session = d.session := by
  cases activity <;> rfl

/-- A program that starts outside of all sessions ends there, and every block in it ends in
the session in which it starts. Each call inside a block is dispatched with the name of the
innermost one, and each log is sent the calls whose innermost logger it is, once and in
their order; it holds the last of all that it was ever sent. -/
theorem performAll_innermost {d : Desk} (h : d.session = none) (program : List Activity) :
    (d.performAll program).session = none ∧
    (∀ (desk : Desk) (activity : Activity), (desk.perform activity).session = desk.session) ∧
    (d.performAll program).dispatched =
      ((Activity.callsAll [] program).map Call.sent).reverse ++ d.dispatched ∧
    (∀ call ∈ Activity.callsAll [] program, ∀ block outer, call.scope = block :: outer →
      ∀ key, call.sent.context.get? key =
        if key = "session" then some block.name else call.event.context.get? key) ∧
    (∀ sink, (d.performAll program).memory sink =
      (Call.received sink (Activity.callsAll [] program)).foldl Memory.push (d.memory sink)) ∧
    ∀ sink earlier, d.memory sink = earlier.foldl Memory.push {} →
      ((d.performAll program).memory sink).toList <:+
        earlier ++ Call.received sink (Activity.callsAll [] program) ∧
      ((d.performAll program).memory sink).toList.length =
        min (earlier ++ Call.received sink (Activity.callsAll [] program)).length 10000 := by
  have hdelivers : Delivers (Activity.callsAll [] program) d (d.performAll program) :=
    delivers_performAll h program
  refine ⟨hdelivers.session.trans h, session_perform, hdelivers.dispatched, ?_,
    hdelivers.memory, ?_⟩
  · intro call _ block outer hscope key
    exact Call.get?_sent hscope key
  · intro sink earlier hearlier
    have hkeeps := (Memory.keeps_nil.foldl earlier).foldl
      (Call.received sink (Activity.callsAll [] program))
    rw [← hearlier, ← hdelivers.memory, List.nil_append] at hkeeps
    exact ⟨hkeeps.recent, hkeeps.length⟩

/-- A call that names a session itself, inside two blocks of which the outer one has a log. -/
theorem performAll_innermost_nested :
    ({} : Desk).session = none ∧
    (({} : Desk).performAll [.session "outer" (some "log") [.session "inner" none
      [.emit ((Event.info "hello").annotate "session" "own")]], .emit (.info "later")]).session =
        none ∧
    ((({} : Desk).performAll [.session "outer" (some "log") [.session "inner" none
      [.emit ((Event.info "hello").annotate "session" "own")]], .emit (.info "later")]).memory
        "log").toList.map (fun e => (e.message, e.context.get? "session")) =
      [("hello", some "inner")] := by
  obtain ⟨hsession, -, -, -, hmemory, -⟩ := @performAll_innermost {} rfl
    [.session "outer" (some "log") [.session "inner" none
      [.emit ((Event.info "hello").annotate "session" "own")]], .emit (.info "later")]
  refine ⟨rfl, hsession, ?_⟩
  rw [hmemory]
  decide +kernel

end Desk

end Lookahead.Log
