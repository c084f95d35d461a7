import Renoa.Control.AgentReplies

/-!
# Execution streams

A node reports the execution of a command in batches of events. A batch continues one execution
contiguously and may repeat what was accepted before; `appendExecutionEvents` journals its new
events, advances the stream's cursor and admits the answer to an agent's request, in one
transaction.
-/

namespace Renoa.Control

open Foundation Protocol

variable {V : Type}

/-! ## Validation of a batch -/

/-- The kind of an event fits its place: only the first event of an execution starts it, and only
the last of a batch ends it. -/
def validateEventKind (sequence : Nat) (finalEvent : Bool) :
    ExecutionEventKind V → Except ControlError Unit
  | .executionStarted => ensure (sequence = 0) (.invalid "execution_started must be sequence zero")
  | .executionTerminated _ => do
    ensure finalEvent (.invalid "execution_terminated must be the final event")
    ensure (sequence ≠ 0)
      (.invalid "execution event stream must start with execution_started")
  | _ =>
    ensure (sequence ≠ 0)
      (.invalid "execution event stream must start with execution_started")

/-- The events continue the execution from a sequence on. -/
def validateExecutionEvents (executionId : ExecutionId) :
    Nat → List (ExecutionEvent V) → Except ControlError Unit
  | _, [] => .ok ()
  | sequence, event :: rest => do
    ensure (event.executionId = executionId && event.sequence = sequence)
      (.invalid "execution event batch must continue one contiguous execution")
    validateEventKind sequence rest.isEmpty event.kind
    validateExecutionEvents executionId (sequence + 1) rest

def validateExecutionEventBatch (first : ExecutionEvent V) (events : List (ExecutionEvent V)) :
    Except ControlError Unit :=
  validateExecutionEvents first.executionId first.sequence events

/-! ## Appending a batch -/

/-- A batch that is being appended: the database, the stream's cursor and the new records. -/
structure StreamState (V : Type) where
  db : Database V
  nextSequence : Nat
  terminal : Bool
  appended : List (TaskEvent V)

/-- What a batch led to. -/
structure ExecutionEventAdmission (V : Type) where
  throughExecutionSequence : Nat
  events : List (TaskEvent V)
  reply : Option (AgentReply V)
  deriving DecidableEq, Repr

def ensureAdmittedCommand (db : Database V) (taskId : TaskId) (commandId : CommandId) :
    Except ControlError Unit :=
  ensure ((db.commands.find? commandId).any fun row => row.taskId = taskId)
    (.notFound s!"command {commandId} was not admitted for task {taskId}")

def initialExecutionEventCursor (stream : Option ExecutionEventStreamRow)
    (first : ExecutionEvent V) (commandId : CommandId) : Except ControlError Nat :=
  match stream with
  | some stream =>
    let bound := stream.executionId
    do
      ensure (stream.executionId = first.executionId)
        (.conflict s!"command {commandId} is already bound to execution {bound}")
      return stream.nextSequence
  | none => do
    ensure (first.sequence = 0) (.invalid "execution event stream must start at sequence zero")
    return 0

section

variable [JsonText V]

/-- A source that was used before was used with the same content. -/
def validateExistingSource (existing : Option (TaskEvent V)) (taskId : TaskId)
    (kind : TaskEventKind V) (sourceId : SourceId) : Except ControlError Unit :=
  ensure (existing.all fun event => event.taskId = taskId && event.kind = kind)
    (.conflict s!"event source {sourceId} was already used with different content")

/-- The record of an event is written unless its source has one. -/
def StreamState.journal (state : StreamState V) (newId : Nat → TaskEventId) (taskId : TaskId)
    (commandId : CommandId) (event : ExecutionEvent V) (existing : Option (TaskEvent V)) :
    Except ControlError (StreamState V) :=
  match existing with
  | some _ =>
    .ok { state with nextSequence := state.nextSequence + 1, terminal := event.isTerminal }
  | none => do
    let (record, db) ← state.db.appendEvent (newId state.appended.length) taskId
      (.execution event.eventId) (.executionEvent commandId event)
    return {
      db
      nextSequence := state.nextSequence + 1
      terminal := event.isTerminal
      appended := state.appended ++ [record] }

/-- Takes one event of a batch: an old one must be stored, a new one must be the next. -/
def StreamState.admitEvent (newId : Nat → TaskEventId) (taskId : TaskId) (commandId : CommandId)
    (state : StreamState V) (event : ExecutionEvent V) : Except ControlError (StreamState V) :=
  let sequence := event.sequence
  let executionId := event.executionId
  let next := state.nextSequence
  let existing := state.db.loadSourceEvent (.execution event.eventId)
  do
    validateExistingSource existing taskId (.executionEvent commandId event)
      (.execution event.eventId)
    if event.sequence < state.nextSequence then
      ensure existing.isSome
        (.conflict (s!"execution sequence {sequence} was already accepted with another event " ++
          "identity"))
      return state
    else
      ensure (event.sequence ≤ state.nextSequence)
        (.invalid s!"execution event sequence {sequence} leaves a gap after {next}")
      ensure (!state.terminal) (.invalid s!"execution {executionId} is already terminal")
      state.journal newId taskId commandId event existing

def appendContiguousExecutionEvents (newId : Nat → TaskEventId) (taskId : TaskId)
    (commandId : CommandId) (events : List (ExecutionEvent V)) (state : StreamState V) :
    Except ControlError (StreamState V) :=
  events.foldlM (StreamState.admitEvent newId taskId commandId) state

end

/-- Writes the cursor of a stream back, or opens the stream. -/
def Database.storeExecutionEventCursor (db : Database V) (stream : ExecutionEventStreamRow)
    (isStored : Bool) : Except ControlError (Database V) :=
  if isStored then
    .ok { db with executionEventStreams := db.executionEventStreams.put stream }
  else do
    let executionEventStreams ← require .sqlite (db.executionEventStreams.insert
      (fun q => q.executionId = stream.executionId) stream)
    return { db with executionEventStreams }

variable [JsonText V]

/-- Journals the new events of a batch and advances the stream's cursor. -/
def Database.admitExecutionEventBatch (db : Database V) (newId : Nat → TaskEventId)
    (taskId : TaskId) (commandId : CommandId) (events : List (ExecutionEvent V)) :
    Except ControlError (ExecutionEventAdmission V × Database V) := do
  ensureAdmittedCommand db taskId commandId
  let first ← require (.invalid "execution event batch is empty") events.head?
  let stream := db.executionEventStreams.find? commandId
  let start := first.sequence
  let next ← initialExecutionEventCursor stream first commandId
  validateExecutionEventBatch first events
  ensure (first.sequence ≤ next)
    (.invalid s!"execution event batch starts at sequence {start}; expected at most {next}")
  let state ← appendContiguousExecutionEvents newId taskId commandId events
    { db, nextSequence := next, terminal := stream.any ExecutionEventStreamRow.terminal
      appended := [] }
  let db ← state.db.storeExecutionEventCursor
    { commandId
      executionId := first.executionId
      nextSequence := state.nextSequence
      terminal := state.terminal } stream.isSome
  ensure (state.nextSequence ≠ 0) (.store "execution event cursor did not advance")
  return (
    { throughExecutionSequence := state.nextSequence - 1
      events := state.appended
      reply := none }, db)

/-- Appends a batch of execution events, with the answer its terminal event admits. `replier` is
the executing agent's name. -/
def Database.appendExecutionEvents (db : Database V) (ids : DerivedIds)
    (newId : Nat → TaskEventId) (replyEventId : TaskEventId) (taskId : TaskId)
    (commandId : CommandId) (events : List (ExecutionEvent V)) (replier : String) :
    Except ControlError (ExecutionEventAdmission V × Database V) := do
  let (admission, db) ← db.admitExecutionEventBatch newId taskId commandId events
  let (reply, db) ← db.admitReply ids replyEventId taskId commandId admission.events replier
  return ({ admission with reply }, db)

/-- A node publishes a batch for a command of a task it owns. -/
def Database.publishExecutionEvents (db : Database V) (ids : DerivedIds) (nodeId : NodeId)
    (newId : Nat → TaskEventId) (replyEventId : TaskEventId) (taskId : TaskId)
    (commandId : CommandId) (events : List (ExecutionEvent V)) (replier : String) :
    Except ControlError (ExecutionEventAdmission V × Database V) := do
  let task ← db.loadTask taskId
  ensure (task.nodeId = nodeId) (.invalid s!"node {nodeId} does not own task {taskId}")
  db.appendExecutionEvents ids newId replyEventId taskId commandId events replier

end Renoa.Control
