import Renoa.Control.Model

/-!
# Deliveries, stops, status and deletion

The remaining operations on tasks and commands: a node takes its pending executions and
acknowledges them, a surface stops a command, lists what a task is doing, and deletes a task whose
commands have all settled.
-/

namespace Renoa.Control

open Foundation Protocol

variable {V : Type}

/-! ## Deliveries -/

structure PendingExecution where
  taskId : TaskId
  command : CommandEnvelope
  deriving DecidableEq, Repr

namespace Database

variable (db : Database V)

/-- The pending delivery with its command, when the command's task runs on the node. -/
def pendingExecution? (nodeId : NodeId) (pending : PendingExecutionRow) :
    Option (PendingExecution × Nat) := do
  let row ← db.commands.find? pending.commandId
  let task ← db.tasks.find? row.taskId
  if task.nodeId = nodeId then
    some ({ taskId := row.taskId, command := row.command }, pending.taskSequence)
  else none

/-- The deliveries a node has not acknowledged, task by task in journal order. -/
def loadPendingExecutions (nodeId : NodeId) : List PendingExecution :=
  let pending := orderBy Prod.snd
    (db.pendingExecutions.rows.filterMap (db.pendingExecution? nodeId))
  (orderBy (fun execution => execution.1.taskId.uuid) pending).map Prod.fst

def acknowledgeExecution (nodeId : NodeId) (taskId : TaskId) (commandId : CommandId) :
    Except ControlError (Database V) := do
  let row ← require (.notFound s!"command {commandId} was not admitted for task {taskId}")
    ((db.commands.find? commandId).filter fun row => row.taskId = taskId)
  let task ← require (.notFound s!"command {commandId} was not admitted for task {taskId}")
    (db.tasks.find? row.taskId)
  ensure (task.nodeId = nodeId) (.invalid s!"node {nodeId} does not own task {taskId}")
  return { db with
    pendingExecutions := db.pendingExecutions.deleteWhere fun row => row.commandId = commandId }

end Database

/-! ## Stops -/

inductive StopAdmission where
  | alreadyEnded
  | recorded (delivered : Bool)
  deriving DecidableEq, Repr

namespace Database

variable (db : Database V)

/-- Records a stop for a command that has not ended. -/
def recordStop (commandId : CommandId) : Except ControlError (StopAdmission × Database V) :=
  match db.stopRequests.find? commandId with
  | some stop => .ok (.recorded stop.delivered, db)
  | none =>
    if db.settled commandId then .ok (.alreadyEnded, db)
    else do
      let stopRequests ← require .sqlite
        (db.stopRequests.insert (fun _ => false) { commandId, delivered := false })
      return (.recorded false, { db with stopRequests })

def admitStop (taskId : TaskId) (commandId : CommandId) :
    Except ControlError (StopAdmission × Database V) := do
  ensure ((db.commands.find? commandId).any fun row => row.taskId = taskId)
    (.notFound s!"command {commandId} was not admitted for task {taskId}")
  db.recordStop commandId

/-- Marks the stop of a command of the task delivered. -/
def deliverStop (taskId : TaskId) (commandId : CommandId) : Database V :=
  match db.commands.find? commandId with
  | none => db
  | some row =>
    if row.taskId = taskId then
      { db with stopRequests := db.stopRequests.put { commandId, delivered := true } }
    else db

/-- Marks a stop delivered once its node recorded it. -/
def acknowledgeStop (nodeId : NodeId) (taskId : TaskId) (commandId : CommandId) :
    Except ControlError (Database V) :=
  match db.tasks.find? taskId with
  | none => .ok db
  | some task => do
    ensure (task.nodeId = nodeId) (.invalid s!"node {nodeId} does not own task {taskId}")
    return db.deliverStop taskId commandId

end Database

/-! ## Status -/

inductive TaskStatus where
  | working
  | idle
  | failed
  deriving DecidableEq, Repr

/-- The status once a command's execution has ended so. -/
def TaskStatus.after : ExecutionTerminal → TaskStatus
  | .completed | .cancelled _ => .idle
  | .failed _ => .failed

/-- The outcome a journal record reports for the execution of the command. -/
def TaskEventRow.terminalOf? (commandId : CommandId) (row : TaskEventRow V) :
    Option ExecutionTerminal :=
  match row.kind with
  | .executionEvent cause event => if cause = commandId then event.kind.terminal? else none
  | .commandSubmitted _ => none

namespace Database

/-- The terminal record of a settled command, read from the end of the journal. -/
def terminalOf (db : Database V) (taskId : TaskId) (commandId : CommandId) :
    Except ControlError ExecutionTerminal :=
  require (.store s!"settled command {commandId} has no terminal record")
    ((orderBy TaskEventRow.sequence (db.eventsOf taskId)).reverse.findSome?
      (TaskEventRow.terminalOf? commandId))

/-- The status of a task, from its latest command. -/
def deriveStatus (db : Database V) (taskId : TaskId) : Except ControlError TaskStatus :=
  match (db.commands.rows.filter fun row => row.taskId = taskId).getLast? with
  | none => .ok .idle
  | some row =>
    if db.settled row.commandId then do
      let terminal ← db.terminalOf taskId row.commandId
      return .after terminal
    else .ok .working

/-! ## Deletion -/

/-- The rows of a task are deleted; those that refer to its commands go with them. -/
def removeTask (db : Database V) (taskId : TaskId) : Database V :=
  let ofTask (commandId : CommandId) : Bool :=
    (db.commands.find? commandId).any fun row => row.taskId = taskId
  { db with
    executionEventStreams := db.executionEventStreams.deleteWhere fun row => ofTask row.commandId
    taskEvents := db.taskEvents.deleteWhere fun row => row.taskId = taskId
    commands := db.commands.deleteWhere fun row => row.taskId = taskId
    pendingExecutions := db.pendingExecutions.deleteWhere fun row => ofTask row.commandId
    stopRequests := db.stopRequests.deleteWhere fun row => ofTask row.commandId
    tasks := db.tasks.deleteWhere fun row => row.taskId = taskId }

/-- Deletes a task of a principal; a task that does not exist is deleted already. -/
def deleteTask (db : Database V) (principalId : PrincipalId) (taskId : TaskId) :
    Except ControlError (Database V) :=
  match db.tasks.find? taskId with
  | none => .ok db
  | some task => do
    ensure (task.principalId = principalId) (taskNotFound taskId)
    ensure (db.commands.rows.all fun row => row.taskId ≠ taskId || db.settled row.commandId)
      (.conflict s!"task {taskId} has an execution in flight; delete it once that finishes")
    return db.removeTask taskId

end Database

end Renoa.Control
