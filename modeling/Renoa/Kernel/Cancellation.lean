import Renoa.Kernel.OperationStore
import Renoa.Kernel.Projection

/-!
# Cancellation

A cancellation is requested durably for one exact operation and closed later by the driver of
its session: `loadRequestedCancellation` closes the dispatched batch, if there is one, and reads
the loop's input; `commitCancellation` records the loop's closing events and the terminal
outcome. No transaction removes a request.
-/

namespace Renoa.Kernel

open Foundation

variable {V : Type}

/-- What a loop closes a cancelled operation from. -/
structure CancellationInput (V : Type) where
  agentId : AgentId
  sessionId : SessionId
  operationId : OperationId
  command : Command V
  events : List (SemanticEvent V)
  checkpoint : Option (Checkpoint V)
  effectBatch : Option (EffectBatchFacts V)
  deriving DecidableEq, Repr

/-- The checkpoint and events a loop closes a cancelled operation with. -/
structure CancellationTransition (V : Type) where
  checkpoint : Checkpoint V
  events : List (NewEvent V)
  deriving DecidableEq, Repr

structure PendingCancellation (V : Type) where
  input : CancellationInput V
  manifest : RuntimeManifest
  transitionVersion : Nat
  eventHighWater : Nat
  deriving DecidableEq, Repr

/-- The row of a cancelled operation. -/
def OperationRow.cancel (row : OperationRow V) (checkpoint : Checkpoint V) : OperationRow V :=
  { row with
    phase := .cancelled
    checkpoint := some checkpoint
    currentEffectBatchId := none
    inputEffectBatchId := none
    outcome := some .cancelled
    transitionVersion := row.transitionVersion + 1 }

namespace Database

variable (db : Database V)

/-- Records a cancellation request; repeating one is idempotent. -/
def requestCancellation (sessionId : SessionId) (operationId : OperationId)
    (cancellationId : CancellationId) : Except KernelError (Database V) :=
  match db.cancellationRequests.find? cancellationId with
  | some stored => do
    ensure (decide (stored.sessionId = sessionId) && decide (stored.operationId = operationId))
      (.cancellationConflict cancellationId stored.operationId)
    let _ ← require (.sessionNotFound sessionId) (db.sessions.find? sessionId)
    return db
  | none => do
    let operation ← require (.operationNotCancellable operationId)
      ((db.operations.find? operationId).filter fun row => row.sessionId = sessionId)
    let session ← require (.operationNotCancellable operationId)
      (db.sessions.find? sessionId)
    ensure (decide (operation.phase = .queued) ||
        (decide (session.activeOperationId = some operationId) && operation.phase.isCancellable))
      (.operationNotCancellable operationId)
    let cancellationRequests ← require .store (db.cancellationRequests.insert (fun _ => false)
      { cancellationId, sessionId, operationId })
    return { db with cancellationRequests }

/-- The batch a cancellation closes over, chosen by the phase. -/
def cancellationBatch (phase : OperationPhase)
    (currentBatchId inputBatchId : Option EffectBatchId) :
    Except KernelError (Option EffectBatchId) :=
  match phase with
  | .needDecision =>
    match inputBatchId with
    | none => do
      ensure currentBatchId.isNone
        (.corrupt "decision phase contains a current effect batch")
      return none
    | some batchId => do
      ensure currentBatchId.isNone
        (.corrupt "decision phase contains both current and input effect batches")
      return some batchId
  | .effectIntent | .outcomeUnknown => do
    ensure inputBatchId.isNone (.corrupt "active effect phase contains settled batch input")
    let batchId ← require (.corrupt "active effect batch identity is missing") currentBatchId
    return some batchId
  | _ => .error (.corrupt ("phase `" ++ phase.asStr ++ "` cannot be closed by cancellation"))

/-- The facts a cancellation from the phase may find. -/
def cancellationFactsValid (phase : OperationPhase) (facts : List (EffectFact V)) : Bool :=
  match phase with
  | .needDecision => facts.all EffectFact.isSettled
  | .effectIntent => facts.all EffectFact.isNotDispatched
  | .outcomeUnknown =>
    facts.any EffectFact.isOutcomeUnknown &&
      facts.all fun fact => fact.isSettled || fact.isOutcomeUnknown
  | _ => false

def loadCancellationEffectBatch (operationId : OperationId) (phase : OperationPhase)
    (currentBatchId inputBatchId : Option EffectBatchId) (manifest : RuntimeManifest) :
    Except KernelError (Option (EffectBatchFacts V)) := do
  match ← cancellationBatch phase currentBatchId inputBatchId with
  | none => return none
  | some batchId =>
    let facts ← db.loadEffectBatchFacts operationId batchId (some manifest)
    ensure (cancellationFactsValid phase facts.effects)
      (.corrupt "cancellation effect batch differs from durable operation state")
    return some facts

/-- Closes the dispatched batch of an operation to be cancelled. In any other phase the stored
operation is what it was. -/
def closeForCancellation (operationId : OperationId) (stored : StoredOperation V) :
    Except KernelError (StoredOperation V × Database V) :=
  if stored.phase = .effectDispatched then do
    let batchId ← require (.corrupt "dispatched operation has no current effect batch")
      stored.currentEffectBatchId
    let (phase, db) ← db.closeDispatchedBatchForCancellation operationId batchId
      stored.transitionVersion
    if phase = .needDecision then
      return ({ stored with
        phase
        transitionVersion := stored.transitionVersion + 1
        currentEffectBatchId := none
        inputEffectBatchId := some batchId }, db)
    else
      return ({ stored with
        phase
        transitionVersion := stored.transitionVersion + 1 }, db)
  else .ok (stored, db)

/-- Loads the closing input of a requested cancellation; the result is `none` without a
request. -/
def loadRequestedCancellation (sessionId : SessionId) (operationId : OperationId) :
    Except KernelError (Option (PendingCancellation V) × Database V) := do
  if db.cancellationRequested operationId then
    let session ← require (.sessionNotFound sessionId) (db.sessions.find? sessionId)
    ensure (session.activeOperationId = some operationId)
      (.corrupt "cancelled operation no longer owns its session")
    let stored ← require (.corrupt "cancelled operation is missing")
      (← db.loadOperation sessionId operationId)
    ensure (stored.phase.isCancellable && stored.outcome.isNone)
      (.corrupt "cancellation request targets a non-cancellable operation")
    let (stored, db) ← db.closeForCancellation operationId stored
    let manifest ← require (.corrupt "cancelled operation has no manifest") stored.manifest
    let effectBatch ← db.loadCancellationEffectBatch operationId stored.phase
      stored.currentEffectBatchId stored.inputEffectBatchId manifest
    let page ← db.loadEventPage sessionId 0
    let pending : PendingCancellation V :=
      { input :=
          { agentId := session.agentId
            sessionId
            operationId
            command := stored.command
            events := page.events
            checkpoint := stored.checkpoint
            effectBatch }
        manifest
        transitionVersion := stored.transitionVersion
        eventHighWater := page.nextCursor }
    return (some pending, db)
  else
    return (none, db)

/-- Ends a cancelled operation with the loop's closing events. -/
def commitCancellation (sessionId : SessionId) (operationId : OperationId)
    (expectedTransition expectedEventHighWater : Nat) (newId : Nat → EventId)
    (transition : CancellationTransition V) : Except KernelError (Database V) := do
  let session ← require (.corrupt "cancelled operation lost ownership")
    ((db.sessions.find? sessionId).filter fun session =>
      session.activeOperationId = some operationId)
  ensure (session.nextEventSequence = expectedEventHighWater)
    (.corrupt "semantic history changed during cancellation")
  ensure (db.cancellationRequested operationId)
    (.corrupt "cancellation request disappeared before settlement")
  let row ← require (.corrupt "cancelled operation changed")
    ((db.operations.find? operationId).filter fun row =>
      decide (row.sessionId = sessionId) &&
        decide (row.transitionVersion = expectedTransition) && row.outcome.isNone)
  ensure row.phase.isCancellable (.corrupt "cancelled operation reached a terminal phase")
  let db ← db.appendEvents sessionId operationId newId transition.events
  let phase := row.phase
  let db ← require (.corrupt "cancellation compare-and-set failed")
    (db.updateOperation operationId
      (fun row => decide (row.sessionId = sessionId) &&
        decide (row.transitionVersion = expectedTransition) && decide (row.phase = phase))
      fun row => row.cancel transition.checkpoint)
  require (.corrupt "cancelled operation did not own its session")
    (db.releaseSession sessionId operationId)

end Database

end Renoa.Kernel
