import Renoa.Foundation.Table
import Renoa.Foundation.Numbering
import Renoa.Foundation.Fallible
import Renoa.Protocol.Model

/-!
# Durable data of the coordinator

The rows of the coordinator's continuity tables: tasks, the commands admitted in them, the journal
of task events, the deliveries a node has not acknowledged, the cursor of each execution's event
stream, the recorded stops, the owners of nodes and the wakes owed to principals. JSON columns
hold the value they decode to.

The source of a journal record (`SourceId`) is the text the code writes there: `command:` or
`execution:` followed by the identity.
-/

namespace Renoa.Control

open Foundation Protocol

structure TaskId where
  uuid : Nat
  deriving DecidableEq, Repr

structure TaskEventId where
  uuid : Nat
  deriving DecidableEq, Repr

structure NodeId where
  uuid : Nat
  deriving DecidableEq, Repr

instance : ToString TaskId := ⟨fun id => toString id.uuid⟩

instance : ToString NodeId := ⟨fun id => toString id.uuid⟩

/-! ## Journal records -/

/-- What a journal record tells: a submission, or an event a node reported. -/
inductive TaskEventKind (V : Type) where
  | commandSubmitted (command : CommandEnvelope)
  | executionEvent (commandId : CommandId) (event : ExecutionEvent V)
  deriving DecidableEq, Repr

/-- What a stored record tells when it is read back. -/
def TaskEventKind.reparsed {V : Type} [JsonText V] : TaskEventKind V → TaskEventKind V
  | .executionEvent commandId event => .executionEvent commandId event.reparsed
  | kind => kind

/-- A journal record as surfaces see it. -/
structure TaskEvent (V : Type) where
  eventId : TaskEventId
  taskId : TaskId
  sequence : Nat
  kind : TaskEventKind V
  deriving DecidableEq, Repr

/-- What a journal record was made from. -/
inductive SourceId where
  | command (commandId : CommandId)
  | execution (eventId : ExecutionEventId)
  deriving DecidableEq, Repr

instance : ToString SourceId where
  toString
    | .command commandId => s!"command:{commandId}"
    | .execution eventId => s!"execution:{eventId}"

/-! ## Rows -/

/-- A task with its binding and the next sequence of its journal. -/
structure TaskRow where
  taskId : TaskId
  principalId : PrincipalId
  nodeId : NodeId
  target : TargetRef
  nextSequence : Nat
  deriving DecidableEq, Repr

structure CommandRow where
  commandId : CommandId
  taskId : TaskId
  command : CommandEnvelope
  deriving DecidableEq, Repr

/-- A journal record with its source, which no other record has. -/
structure TaskEventRow (V : Type) where
  eventId : TaskEventId
  taskId : TaskId
  sequence : Nat
  sourceId : SourceId
  kind : TaskEventKind V
  deriving DecidableEq, Repr

/-- The delivery of a command its node has not acknowledged. -/
structure PendingExecutionRow where
  commandId : CommandId
  taskSequence : Nat
  deriving DecidableEq, Repr

/-- How far the execution of a command was journalled. -/
structure ExecutionEventStreamRow where
  commandId : CommandId
  executionId : ExecutionId
  nextSequence : Nat
  terminal : Bool
  deriving DecidableEq, Repr

/-- A stop that was asked for, and whether its node has it. -/
structure StopRequestRow where
  commandId : CommandId
  delivered : Bool
  deriving DecidableEq, Repr

structure NodeOwnerRow where
  nodeId : NodeId
  principalId : PrincipalId
  deriving DecidableEq, Repr

/-- The wakes owed to a principal: one is owed while `settled` is below `generation`. -/
structure PushWakeRow where
  principalId : PrincipalId
  generation : Nat
  settled : Nat
  ringGeneration : Nat
  deriving DecidableEq, Repr

/-- The continuity tables of the coordinator. -/
structure Database (V : Type) where
  tasks : Table TaskRow.taskId
  commands : Table CommandRow.commandId
  taskEvents : Table (TaskEventRow.eventId (V := V))
  pendingExecutions : Table PendingExecutionRow.commandId
  executionEventStreams : Table ExecutionEventStreamRow.commandId
  stopRequests : Table StopRequestRow.commandId
  nodeOwners : Table NodeOwnerRow.nodeId
  pushWakes : Table PushWakeRow.principalId

variable {V : Type}

def Database.empty : Database V where
  tasks := .empty
  commands := .empty
  taskEvents := .empty
  pendingExecutions := .empty
  executionEventStreams := .empty
  stopRequests := .empty
  nodeOwners := .empty
  pushWakes := .empty

/-- The record without its source. -/
def TaskEventRow.event (row : TaskEventRow V) : TaskEvent V := { row with }

/-! ## Errors -/

inductive ControlErrorKind where
  | authentication
  | capacity
  | conflict
  | invalid
  | nodeOffline
  | notFound
  | role
  | store
  deriving DecidableEq, Repr

/-- A refusal: its class and the text the caller is shown. -/
structure ControlError where
  kind : ControlErrorKind
  message : String
  deriving DecidableEq, Repr

namespace ControlError

def conflict (message : String) : ControlError := ⟨.conflict, message⟩

def invalid (message : String) : ControlError := ⟨.invalid, message⟩

def nodeOfflineWith (message : String) : ControlError := ⟨.nodeOffline, message⟩

def nodeOffline : ControlError := nodeOfflineWith "the task's execution node is offline"

def notFound (message : String) : ControlError := ⟨.notFound, message⟩

def role (message : String) : ControlError := ⟨.role, message⟩

def store (message : String) : ControlError := ⟨.store, message⟩

/-- A statement the database refuses; its own text is not modelled. -/
def sqlite : ControlError := store "SQLite error"

end ControlError

def taskNotFound (taskId : TaskId) : ControlError := .notFound s!"task {taskId} was not found"

/-! ## Row queries -/

namespace Database

variable (db : Database V)

/-- The records a task's journal holds. -/
def eventsOf (taskId : TaskId) : List (TaskEventRow V) :=
  db.taskEvents.rows.filter fun row => row.taskId = taskId

/-- The execution events journalled for a command, in the order they were written. -/
def journalOf (commandId : CommandId) : List (ExecutionEvent V) :=
  db.taskEvents.rows.filterMap fun row =>
    match row.kind with
    | .executionEvent cause event => if cause = commandId then some event else none
    | .commandSubmitted _ => none

/-- The delivery of the command was not acknowledged yet. -/
def isPending (commandId : CommandId) : Bool := (db.pendingExecutions.find? commandId).isSome

/-- The command's execution stream reached a terminal record. -/
def settled (commandId : CommandId) : Bool :=
  match db.executionEventStreams.find? commandId with
  | some stream => stream.terminal
  | none => false

def nodeOwner (nodeId : NodeId) : Option PrincipalId :=
  (db.nodeOwners.find? nodeId).map NodeOwnerRow.principalId

end Database

end Renoa.Control
