import Renoa.Kernel.OperationStore
import Renoa.Kernel.Projection

/-!
# Read-only views of a session

`inspect` reads a whole session, `commandStanding` answers where one command stands, and
`observeSession` projects the active and the latest operation without their payloads.
-/

namespace Renoa.Kernel

open Foundation

variable {V : Type}

/-- An operation with its command and all its batches. -/
structure OperationSnapshot (V : Type) where
  operationId : OperationId
  commandId : CommandId
  command : Command V
  position : Nat
  status : OperationStatus
  manifest : Option RuntimeManifest
  checkpoint : Option (Checkpoint V)
  outcome : Option OperationOutcome
  effectBatches : List (EffectBatchSnapshot V)
  deriving DecidableEq, Repr

structure SessionSnapshot (V : Type) where
  agentId : AgentId
  operations : List (OperationSnapshot V)
  deriving DecidableEq, Repr

/-- Whether a session has a command, and other commands that have not ended. -/
structure CommandStanding where
  admitted : Bool
  otherUnfinished : Bool
  deriving DecidableEq, Repr

/-- An operation without its payloads. -/
structure OperationObservation where
  operationId : OperationId
  commandId : CommandId
  position : Nat
  status : OperationStatus
  deriving DecidableEq, Repr

structure SessionObservation where
  agentId : AgentId
  eventCount : Nat
  queuedOperations : Nat
  activeOperation : Option OperationObservation
  latestOperation : Option OperationObservation
  deriving DecidableEq, Repr

namespace Database

variable (db : Database V)

/-- The snapshot of one operation row that joins with its command. -/
def snapshotOperation (row : OperationRow V) (command : CommandRow V) :
    Except KernelError (OperationSnapshot V) := do
  let stored ← row.decode command.content
  let effectBatches ← db.loadEffectBatchSnapshots row.operationId
  return { stored with
    operationId := row.operationId
    commandId := stored.command.commandId
    position := row.position
    status := stored.phase.status
    effectBatches }

/-- The operations of a session with their commands, by position. -/
def operationsWithCommands (sessionId : SessionId) : List (OperationRow V × CommandRow V) :=
  (orderBy OperationRow.position (db.operationsOf sessionId)).filterMap fun row =>
    ((db.commands.find? row.commandId).filter fun command =>
      command.sessionId = row.sessionId).map fun command => (row, command)

/-- Reads all operations of a session by position. -/
def inspect (sessionId : SessionId) : Except KernelError (SessionSnapshot V) := do
  let session ← require (.sessionNotFound sessionId) (db.sessions.find? sessionId)
  let operations ← (db.operationsWithCommands sessionId).mapM fun (row, command) =>
    db.snapshotOperation row command
  return { agentId := session.agentId, operations }

def commandStanding (sessionId : SessionId) (commandId : CommandId) :
    Except KernelError CommandStanding := do
  let _ ← require (.sessionNotFound sessionId) (db.sessions.find? sessionId)
  return { admitted := (db.operationsOf sessionId).any fun row => row.commandId = commandId
           otherUnfinished := (db.operationsOf sessionId).any fun row =>
             decide (row.commandId ≠ commandId) && row.outcome.isNone }

/-- The observation of one operation row. -/
def observeOperation (row : OperationRow V) : Except KernelError OperationObservation := do
  ensure (row.stateVersion = operationStateVersion)
    (.unsupportedStateVersion row.stateVersion operationStateVersion)
  return { row with status := row.phase.status }

/-- The operation the session points to. -/
def observeActive (session : SessionRow) : Except KernelError (Option OperationObservation) :=
  match session.activeOperationId with
  | none => .ok none
  | some operationId => do
    let row ← require (.corrupt "active operation does not belong to its session")
      ((db.operations.find? operationId).filter fun row => row.sessionId = session.sessionId)
    some <$> observeOperation row

def observeLatest (sessionId : SessionId) : Except KernelError (Option OperationObservation) :=
  match (orderBy OperationRow.position (db.operationsOf sessionId)).getLast? with
  | none => .ok none
  | some row => some <$> observeOperation row

/-- Counts what a session holds, with its active and its latest operation. -/
def observeSession (sessionId : SessionId) : Except KernelError SessionObservation := do
  let session ← require (.sessionNotFound sessionId) (db.sessions.find? sessionId)
  let activeOperation ← db.observeActive session
  let latestOperation ← db.observeLatest sessionId
  return { agentId := session.agentId
           eventCount := session.nextEventSequence
           queuedOperations :=
             ((db.operationsOf sessionId).filter fun row => row.phase = .queued).length
           activeOperation
           latestOperation }

end Database

end Renoa.Kernel
