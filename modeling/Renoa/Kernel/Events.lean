import Renoa.Foundation.Fallible
import Renoa.Kernel.Model

/-!
# The semantic event journal

`appendEvents` writes the events of one commit behind the session's event cursor, and
`loadEventPage` reads the journal from a cursor with the check that the sequences are gapless up
to the session's high-water mark.
-/

namespace Renoa.Kernel

open Foundation List Table

variable {V : Type}

/-- No new event has an empty kind. -/
def validateNewEvents (events : List (NewEvent V)) : Except KernelError Unit :=
  ensure (events.all fun event => event.kind ≠ "")
    (.invalidDecision "semantic event kind cannot be empty")

/-- The rows of new events, numbered upwards from `sequence`; the `i`-th event takes the `i`-th
drawn identity. -/
def eventRows (sessionId : SessionId) (operationId : OperationId) (newId : Nat → EventId)
    (sequence : Nat) : List (NewEvent V) → List (EventRow V)
  | [] => []
  | event :: rest =>
    { eventId := newId 0
      sessionId
      operationId
      sequence
      kind := event.kind
      payload := event.payload } ::
      eventRows sessionId operationId (fun i => newId (i + 1)) (sequence + 1) rest

namespace Database

/-- Inserting one event row, under the constraints of the event table. -/
def insertEvent (db : Database V) (row : EventRow V) : Except KernelError (Database V) := do
  ensure (decide (row.kind ≠ "") && db.operations.rows.any fun operation =>
    decide (operation.operationId = row.operationId ∧ operation.sessionId = row.sessionId)) .store
  let semanticEvents ← require .store (db.semanticEvents.insert
    (fun event => event.sessionId = row.sessionId ∧ event.sequence = row.sequence) row)
  return { db with semanticEvents }

def insertEvents (db : Database V) : List (EventRow V) → Except KernelError (Database V)
  | [] => .ok db
  | row :: rest => do
    let db ← db.insertEvent row
    insertEvents db rest

/-- Appends the events of one commit to the journal of a session. -/
def appendEvents (db : Database V) (sessionId : SessionId) (operationId : OperationId)
    (newId : Nat → EventId) (events : List (NewEvent V)) :
    Except KernelError (Database V) := do
  let session ← require .store (db.sessions.find? sessionId)
  let firstSequence := session.nextEventSequence
  let db ← db.insertEvents (eventRows sessionId operationId newId firstSequence events)
  let sessions ← require (.corrupt "event cursor compare-and-set failed")
    (db.sessions.updateOne sessionId (fun session => session.nextEventSequence = firstSequence)
      fun session =>
        { session with nextEventSequence := session.nextEventSequence + events.length })
  return { db with sessions }

end Database

@[simp] theorem map_sequence_eventRows (sid : SessionId) (opId : OperationId)
    (newId : Nat → EventId) (sequence : Nat) (evs : List (NewEvent V)) :
    (eventRows sid opId newId sequence evs).map EventRow.sequence =
      List.range' sequence evs.length := by
  induction evs generalizing newId sequence with
  | nil => rfl
  | cons ev rest ih => simp only [eventRows, map_cons, ih, length_cons, range'_succ]

theorem eventRows_owner {sid : SessionId} {opId : OperationId}
    {newId : Nat → EventId} {sequence : Nat} {evs : List (NewEvent V)} {row : EventRow V}
    (h : row ∈ eventRows sid opId newId sequence evs) :
    row.sessionId = sid ∧ row.operationId = opId := by
  induction evs generalizing newId sequence with
  | nil => cases h
  | cons ev rest ih =>
    rcases mem_cons.mp h with rfl | hrest
    · exact ⟨rfl, rfl⟩
    · exact ih hrest

namespace Database

theorem insertEvent_ok {db db' : Database V} {row : EventRow V} (h : db.insertEvent row = .ok db') :
    (∃ o ∈ db.operations, o.operationId = row.operationId ∧ o.sessionId = row.sessionId) ∧
      db'.semanticEvents.rows = db.semanticEvents.rows ++ [row] ∧
      db' = { db with semanticEvents := db'.semanticEvents } := by
  obtain ⟨hcheck, h⟩ := ensure_bind_ok h
  obtain ⟨semanticEvents, hins, h⟩ := require_bind_ok h
  cases h
  simp only [Bool.and_eq_true, any_eq_true, decide_eq_true_eq] at hcheck
  exact ⟨hcheck.2, (insert_eq_some hins).2.2, rfl⟩

theorem insertEvents_ok {rows : List (EventRow V)} {db db' : Database V}
    (h : db.insertEvents rows = .ok db') :
    (∀ row ∈ rows, ∃ o ∈ db.operations,
      o.operationId = row.operationId ∧ o.sessionId = row.sessionId) ∧
      db'.semanticEvents.rows = db.semanticEvents.rows ++ rows ∧
      db' = { db with semanticEvents := db'.semanticEvents } := by
  induction rows generalizing db with
  | nil =>
    cases h
    exact ⟨fun row hrow => absurd hrow not_mem_nil, by simp, rfl⟩
  | cons row rest ih =>
    obtain ⟨mid, hfst, hrest⟩ := bind_ok h
    obtain ⟨hown, hrows, hmid⟩ := insertEvent_ok hfst
    obtain ⟨howners, hrows', hdb⟩ := ih hrest
    have hops : mid.operations = db.operations := by rw [hmid]
    refine ⟨?_, by rw [hrows', hrows, append_assoc, singleton_append], ?_⟩
    · intro r hr
      rcases mem_cons.mp hr with rfl | hr
      · exact hown
      · rw [← hops]
        exact howners r hr
    · rw [hdb, hmid]

/-- An append: the rows stand behind the old journal and the cursor moved past them. Nothing
else changed, and a nonempty append names an operation of the session. -/
theorem appendEvents_ok {db db' : Database V} {sid : SessionId}
    {opId : OperationId} {newId : Nat → EventId} {evs : List (NewEvent V)}
    (h : db.appendEvents sid opId newId evs = .ok db') :
    ∃ sess, db.sessions.find? sid = some sess ∧ (evs ≠ [] → ∃ o ∈ db.operations,
        o.operationId = opId ∧ o.sessionId = sid) ∧
      db'.semanticEvents.rows = db.semanticEvents.rows ++
        eventRows sid opId newId sess.nextEventSequence evs ∧
      db' = { db with
        sessions := db.sessions.put
          { sess with nextEventSequence := sess.nextEventSequence + evs.length }
        semanticEvents := db'.semanticEvents } := by
  obtain ⟨sess, hsess, h⟩ := require_bind_ok h
  obtain ⟨mid, hins, h⟩ := bind_ok h
  obtain ⟨sessions, hupd, h⟩ := require_bind_ok h
  cases h
  obtain ⟨howners, hrows, hmid⟩ := insertEvents_ok hins
  obtain ⟨session', hsession', _, rfl⟩ := updateOne_eq_some.mp hupd
  have hsessions : mid.sessions = db.sessions := by rw [hmid]
  obtain rfl : session' = sess := by
    rw [hsessions, hsess] at hsession'
    exact (Option.some.inj hsession').symm
  refine ⟨session', hsess, ?_, hrows, ?_⟩
  · intro hne
    cases evs with
    | nil => exact absurd rfl hne
    | cons ev rest => exact howners _ mem_cons_self
  · rw [hmid]

end Database

/-! ## Reading the journal -/

/-- One event as a reader receives it, with the command of its operation. -/
structure SemanticEvent (V : Type) where
  eventId : EventId
  operationId : OperationId
  commandId : CommandId
  sequence : Nat
  kind : String
  payload : V
  deriving DecidableEq, Repr

/-- A gapless page of events through the high-water mark `nextCursor`. -/
structure EventPage (V : Type) where
  events : List (SemanticEvent V)
  nextCursor : Nat
  deriving DecidableEq, Repr

namespace Database

/-- The operation an event joins with. -/
def eventOperation? (db : Database V) (row : EventRow V) : Option (OperationRow V) :=
  db.operations.rows.find? fun operation =>
    decide (operation.sessionId = row.sessionId ∧ operation.operationId = row.operationId)

/-- The events of a session from a sequence on; an event without its operation drops out of the
join. -/
def loadEvents (db : Database V) (sessionId : SessionId) (start : Nat) :
    List (SemanticEvent V) :=
  (orderBy EventRow.sequence
    ((db.eventsOf sessionId).filter fun row => start ≤ row.sequence)).filterMap fun row =>
      (db.eventOperation? row).map fun operation =>
        { row with commandId := operation.commandId }

end Database

/-- The sequences of the page count up from `start` to the high-water mark. -/
def validateGapless (start highWater : Nat) :
    List (SemanticEvent V) → Except KernelError Unit
  | [] => ensure (start = highWater)
      (.corrupt ("semantic event replay ended at " ++ toString start ++
        ", below high-water mark " ++ toString highWater))
  | event :: rest => do
    ensure (event.sequence = start)
      (.corrupt ("semantic event sequence " ++ toString event.sequence ++
        " was expected to be " ++ toString start))
    validateGapless (start + 1) highWater rest

namespace Database

def loadEventPage (db : Database V) (sessionId : SessionId) (cursor : Nat) :
    Except KernelError (EventPage V) := do
  let session ← require (.sessionNotFound sessionId) (db.sessions.find? sessionId)
  let highWater := session.nextEventSequence
  ensure (cursor ≤ highWater) (.cursorAhead cursor highWater)
  let events := db.loadEvents sessionId cursor
  validateGapless cursor highWater events
  return { events, nextCursor := highWater }

/-- Reads the journal at or after a next-unread cursor. -/
def eventsAfter (db : Database V) (sessionId : SessionId) (cursor : Nat) :
    Except KernelError (EventPage V) :=
  db.loadEventPage sessionId cursor

end Database

end Renoa.Kernel
