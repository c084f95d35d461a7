import Renoa.Kernel.Events
import Renoa.Kernel.RequestRelease

/-!
# Operation rows: loading, activation and loop decisions

`loadOperation` decodes a stored operation with the checks the kernel makes on every read.
`activate` finds a session's active operation or activates the first queued one under the
supplied manifest, and `commitDecision` commits a loop decision other than an effect batch by
compare-and-set on the transition version.
-/

namespace Renoa.Kernel

open Foundation

variable {V : Type}

/-! ## Stored operations -/

/-- A decoded operation row. -/
structure StoredOperation (V : Type) where
  command : Command V
  phase : OperationPhase
  transitionVersion : Nat
  manifest : Option RuntimeManifest
  checkpoint : Option (Checkpoint V)
  currentEffectBatchId : Option EffectBatchId
  inputEffectBatchId : Option EffectBatchId
  outcome : Option OperationOutcome
  deriving DecidableEq, Repr

def requireStateVersion (version : Nat) : Except KernelError Unit :=
  if version = operationStateVersion then .ok ()
  else if operationStateVersion < version then
    .error (.unsupportedStateVersion version operationStateVersion)
  else .error (.corrupt ("invalid operation state version " ++ toString version))

/-- A checkpoint carries the schema version its manifest froze. -/
def requireCompatibleCheckpoint (manifest : RuntimeManifest) :
    Option (Checkpoint V) → Except KernelError Unit
  | none => .ok ()
  | some checkpoint =>
    ensure (checkpoint.schemaVersion = manifest.checkpointSchemaVersion)
      (.checkpointSchemaMismatch manifest.checkpointSchemaVersion checkpoint.schemaVersion)

section

variable (row : OperationRow V)

/-- The check on a stored checkpoint: it fits the manifest, and none is stored without one. -/
def requireStoredCheckpoint : Except KernelError Unit :=
  match row.manifest with
  | some manifest => requireCompatibleCheckpoint manifest row.checkpoint
  | none => ensure row.checkpoint.isNone (.corrupt "operation checkpoint has no runtime manifest")

/-- The operation of a row and its command. -/
def OperationRow.stored (command : Command V) : StoredOperation V := { row with command }

def OperationRow.decode (command : Command V) : Except KernelError (StoredOperation V) := do
  requireStateVersion row.stateVersion
  ensure (command.commandId = row.commandId)
    (.corrupt "operation command identity differs from stored content")
  requireStoredCheckpoint row
  return row.stored command

end

namespace Database

/-- The operation of a session joined with its command row. -/
def operationWithCommand? (db : Database V) (sessionId : SessionId)
    (operationId : OperationId) : Option (OperationRow V × CommandRow V) := do
  let row ← db.operations.find? operationId
  guard (row.sessionId = sessionId)
  let command ← db.commands.find? row.commandId
  guard (command.sessionId = row.sessionId)
  return (row, command)

def loadOperation (db : Database V) (sessionId : SessionId) (operationId : OperationId) :
    Except KernelError (Option (StoredOperation V)) :=
  match db.operationWithCommand? sessionId operationId with
  | none => .ok none
  | some (row, command) => do
    let stored ← row.decode command.content
    return some stored

end Database

/-! ## Activation -/

/-- What a driver holds in memory of the operation it drives. -/
structure ActiveOperation (V : Type) where
  agentId : AgentId
  operationId : OperationId
  command : Command V
  manifest : RuntimeManifest
  checkpoint : Option (Checkpoint V)
  transitionVersion : Nat
  phase : OperationPhase
  inputEffectBatchId : Option EffectBatchId
  deriving DecidableEq, Repr

namespace Database

variable (db : Database V)

def loadActiveQuery (agentId : AgentId) (sessionId : SessionId) (operationId : OperationId) :
    Except KernelError (ActiveOperation V) := do
  let stored ← require (.corrupt "active operation is missing")
    (← db.loadOperation sessionId operationId)
  let manifest ← require (.corrupt "active operation has no runtime manifest") stored.manifest
  return { stored with agentId, operationId, manifest }

/-- The first queued operation of a session, by position. -/
def firstQueued (sessionId : SessionId) : Option (OperationRow V) :=
  (orderBy OperationRow.position
    ((db.operationsOf sessionId).filter fun operation => operation.phase = .queued)).head?

/-- Moves a queued operation to its first decision and makes it the session's active one. -/
def activateQueued (sessionId : SessionId) (manifest : RuntimeManifest)
    (operationId : OperationId) : Except KernelError (Database V) := do
  let db ← require (.corrupt "operation activation compare-and-set failed")
    (db.updateOperation operationId
      (fun row => decide (row.phase = .queued) && row.manifest.isNone) fun row =>
      { row with
        phase := .needDecision
        manifest := some manifest
        transitionVersion := row.transitionVersion + 1 })
  let sessions ← require (.corrupt "session activation compare-and-set failed")
    (db.sessions.updateOne sessionId (fun session => session.activeOperationId.isNone)
      fun session => { session with activeOperationId := some operationId })
  return { db with sessions }

/-- The session's active operation, activating the first queued one when there is none. -/
def activate (sessionId : SessionId) (manifest : RuntimeManifest) :
    Except KernelError (Option (ActiveOperation V) × Database V) := do
  let session ← require (.sessionNotFound sessionId) (db.sessions.find? sessionId)
  match session.activeOperationId with
  | some operationId =>
    let active ← db.loadActiveQuery session.agentId sessionId operationId
    return (some active, db)
  | none =>
    match db.firstQueued sessionId with
    | none => return (none, db)
    | some queued =>
      let db ← db.activateQueued sessionId manifest queued.operationId
      let active ← db.loadActiveQuery session.agentId sessionId queued.operationId
      return (some active, db)

/-- Reloads the operation a driver holds. -/
def loadActive (sessionId : SessionId) (operationId : OperationId) :
    Except KernelError (ActiveOperation V) := do
  let session ← require (.corrupt "active operation pointer changed")
    ((db.sessions.find? sessionId).filter fun session =>
      session.activeOperationId = some operationId)
  db.loadActiveQuery session.agentId sessionId operationId

end Database

/-! ## Loop decisions -/

inductive CommittedDecision where
  | continued
  | finished (outcome : OperationOutcome)
  | cancellationPending
  deriving DecidableEq, Repr

/-- The row update a decision asks for: checkpoint, events, next phase and outcome. -/
structure DecisionWrite (V : Type) where
  checkpoint : Checkpoint V
  events : List (NewEvent V)
  phase : OperationPhase
  outcome : Option OperationOutcome

def LoopDecision.write : LoopDecision V → Except KernelError (DecisionWrite V)
  | .appendEventsAndContinue checkpoint events => do
    ensure (!events.isEmpty)
      (.invalidDecision "append-and-continue requires at least one event")
    return ⟨checkpoint, events, .needDecision, none⟩
  | .waitForInput checkpoint events => .ok ⟨checkpoint, events, .waiting, some .waitingForInput⟩
  | .complete checkpoint events => .ok ⟨checkpoint, events, .completed, some .completed⟩
  | .fail checkpoint events reason => .ok ⟨checkpoint, events, .failed, some (.failed reason)⟩
  | .invokeEffects _ _ =>
    .error (.invalidDecision "effect batches must be committed through the effect store")

/-- The row of an operation after a decision other than an effect batch. -/
def OperationRow.decided (row : OperationRow V) (write : DecisionWrite V) : OperationRow V :=
  { row with
    phase := write.phase
    checkpoint := some write.checkpoint
    outcome := write.outcome
    inputEffectBatchId := none
    transitionVersion := row.transitionVersion + 1 }

namespace Database

/-- Clears the session's active operation when it is `operationId`. -/
def releaseSession (db : Database V) (sessionId : SessionId) (operationId : OperationId) :
    Option (Database V) :=
  (db.sessions.updateOne sessionId
    (fun session => session.activeOperationId = some operationId)
    fun session => { session with activeOperationId := none }).map fun sessions =>
      { db with sessions }

/-- Commits a loop decision other than an effect batch. `newId` gives the identities drawn for
its events. -/
def commitDecision (db : Database V) (sessionId : SessionId) (operationId : OperationId)
    (expectedTransition : Nat) (newId : Nat → EventId) (decision : LoopDecision V) :
    Except KernelError (CommittedDecision × Database V) := do
  let write ← decision.write
  validateNewEvents write.events
  if db.cancellationRequested operationId then
    return (.cancellationPending, db)
  else
    let db ← db.appendEvents sessionId operationId newId write.events
    let db ← require (.corrupt "loop decision compare-and-set failed")
      (db.updateOperation operationId
        (fun row => decide (row.phase = .needDecision) &&
          decide (row.transitionVersion = expectedTransition)) fun row => row.decided write)
    match write.outcome with
    | none => return (.continued, db)
    | some outcome =>
      let db ← require (.corrupt "terminal operation did not own its session")
        (db.releaseSession sessionId operationId)
      return (.finished outcome, db)

end Database

end Renoa.Kernel
