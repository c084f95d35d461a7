import Renoa.Control.Journal

/-!
# Tasks and commands

A task binds a principal to an agent of a node. `admitCommand` admits a surface's command in a
task: its row, its journal record and the delivery that stays pending until the node acknowledges
it. A command that is stored already is compared by its content and answered with its first
result.
-/

namespace Renoa.Control

open Foundation Protocol

variable {V : Type}

structure TaskSpec where
  taskId : TaskId
  principalId : PrincipalId
  nodeId : NodeId
  target : TargetRef
  deriving DecidableEq, Repr

/-- What the admission of a command found. -/
inductive CommandAdmission (V : Type) where
  | notAdmitted
  | admitted (command : CommandEnvelope) (event : TaskEvent V)
  | existing (command : CommandEnvelope) (pending : Bool)
  deriving DecidableEq, Repr

/-- Whether the requested target is executable when a task is opened. -/
inductive Availability where
  | advertised
  | nodeOffline
  | notAdvertised
  deriving DecidableEq, Repr

inductive Opening where
  | opened
  | existing
  deriving DecidableEq, Repr

namespace Database

/-! ## Tasks -/

variable (db : Database V)

def insertTask (task : TaskSpec) : Except ControlError (Database V) := do
  let tasks ← require .sqlite (db.tasks.insert (fun _ => false) { task with nextSequence := 0 })
  return { db with tasks }

def createTask (task : TaskSpec) : Except ControlError (Database V) := db.insertTask task

def loadTask (taskId : TaskId) : Except ControlError TaskRow :=
  require (taskNotFound taskId) (db.tasks.find? taskId)

def loadTaskForPrincipal (taskId : TaskId) (principalId : PrincipalId) :
    Except ControlError TaskRow := do
  let task ← db.loadTask taskId
  ensure (task.principalId = principalId) (taskNotFound taskId)
  return task

/-- The stored task has the binding the specification asks for. -/
def boundAs (row : TaskRow) (task : TaskSpec) : Bool :=
  row.principalId = task.principalId && row.nodeId = task.nodeId && row.target = task.target

def requireAvailable (task : TaskSpec) : Availability → Except ControlError Unit
  | .advertised => .ok ()
  | .nodeOffline => .error .nodeOffline
  | .notAdvertised =>
    let node := task.nodeId
    let target := task.target.value
    .error (.notFound s!"node {node} does not advertise target `{target}`")

/-- Opens a task on an advertised target, or converges on an exact retry. -/
def openTask (task : TaskSpec) (availability : Availability) :
    Except ControlError (Opening × Database V) :=
  let taskId := task.taskId
  let node := task.nodeId
  match db.tasks.find? task.taskId with
  | some row => do
    ensure (boundAs row task)
      (.conflict s!"task id {taskId} is already used by a different task")
    return (.existing, db)
  | none => do
    ensure (db.nodeOwner task.nodeId = some task.principalId)
      (.notFound s!"node {node} was not found")
    requireAvailable task availability
    let db ← db.insertTask task
    return (.opened, db)

/-- Records the owner of a node with its enrollment. -/
def createNodeEnrollment (nodeId : NodeId) (owner : PrincipalId) :
    Except ControlError (Database V) :=
  match db.nodeOwners.find? nodeId with
  | some existing => do
    ensure (existing.principalId = owner)
      (.conflict s!"node {nodeId} already belongs to another principal")
    return db
  | none => do
    let nodeOwners ← require .sqlite
      (db.nodeOwners.insert (fun _ => false) { nodeId, principalId := owner })
    return { db with nodeOwners }

/-! ## Commands -/

def insertCommandRow (taskId : TaskId) (command : CommandEnvelope) :
    Except ControlError (Database V) := do
  ensure (db.tasks.find? taskId).isSome .sqlite
  let commands ← require .sqlite (db.commands.insert (fun _ => false)
    { commandId := command.commandId, taskId, command })
  return { db with commands }

def insertPendingExecution (commandId : CommandId) (taskSequence : Nat) :
    Except ControlError (Database V) := do
  let pendingExecutions ← require .sqlite
    (db.pendingExecutions.insert (fun _ => false) { commandId, taskSequence })
  return { db with pendingExecutions }

/-- Admits a new command: its row, its journal record and its pending delivery. -/
def insertCommand (eventId : TaskEventId) (taskId : TaskId) (command : CommandEnvelope) :
    Except ControlError (TaskEvent V × Database V) := do
  let db ← db.insertCommandRow taskId command
  let (event, db) ← db.appendEvent eventId taskId (.command command.commandId)
    (.commandSubmitted command)
  let db ← db.insertPendingExecution command.commandId event.sequence
  return (event, db)

/-- The answer to a command that is stored already. -/
def admitExisting (stored : CommandRow) (command : CommandEnvelope) :
    Except ControlError (CommandAdmission V × Database V) :=
  let commandId := command.commandId
  do
    ensure (stored.command = command)
      (.conflict s!"command id {commandId} was already used with different content")
    return (.existing command (db.isPending commandId), db)

/-- Admits a surface's command. A stored admission outranks whether new ones are allowed now. -/
def admitCommand (eventId : TaskEventId) (taskId : TaskId) (principalId : PrincipalId)
    (surface : SurfaceRef) (commandId : CommandId) (input : CommandInput) (allowNew : Bool) :
    Except ControlError (CommandAdmission V × Database V) := do
  let task ← db.loadTaskForPrincipal taskId principalId
  let command : CommandEnvelope :=
    { commandId, principalId, surface, target := task.target, input, origin := none }
  match db.commands.find? commandId with
  | some stored => db.admitExisting stored command
  | none =>
    if allowNew then do
      let (event, db) ← db.insertCommand eventId taskId command
      return (.admitted command event, db)
    else return (.notAdmitted, db)

end Database

end Renoa.Control
