import Renoa.Kernel.OperationStore
import Renoa.Kernel.Projection

/-!
# Abandonment of unknown effects

An operation whose batch has an unknown child is closed explicitly. `loadUnknownEffectState`
reads the loop's input, or recognises an abandonment that is already committed, and
`commitUnknownEffectAbandonment` ends the operation as failed.
-/

namespace Renoa.Kernel

open Foundation

variable {V : Type}

/-- What a loop abandons an operation from. -/
structure UnknownEffectInput (V : Type) where
  agentId : AgentId
  sessionId : SessionId
  operationId : OperationId
  command : Command V
  events : List (SemanticEvent V)
  checkpoint : Checkpoint V
  effectBatch : EffectBatchFacts V
  deriving DecidableEq, Repr

/-- The checkpoint and events a loop abandons an operation with. -/
structure UnknownEffectAbandonment (V : Type) where
  checkpoint : Checkpoint V
  events : List (NewEvent V)
  deriving DecidableEq, Repr

structure PendingAbandonment (V : Type) where
  input : UnknownEffectInput V
  manifest : RuntimeManifest
  transitionVersion : Nat
  eventHighWater : Nat
  deriving DecidableEq, Repr

inductive UnknownEffectState (V : Type) where
  | pending (abandonment : PendingAbandonment V)
  | alreadyAbandoned (manifest : RuntimeManifest) (outcome : OperationOutcome)
  deriving DecidableEq, Repr

def abandonedReason : String := "effect outcome is unknown; operation was abandoned"

def abandonedOutcome : OperationOutcome := .failed abandonedReason

/-- The row of an abandoned operation. -/
def OperationRow.abandon (row : OperationRow V) (checkpoint : Checkpoint V) : OperationRow V :=
  { row with
    phase := .failed
    checkpoint := some checkpoint
    currentEffectBatchId := none
    inputEffectBatchId := none
    outcome := some abandonedOutcome
    transitionVersion := row.transitionVersion + 1 }

/-- The facts of a blocked batch: an unknown child, and no child still open. -/
def unknownFactsValid (facts : List (EffectFact V)) : Bool :=
  facts.any EffectFact.isOutcomeUnknown &&
    facts.all fun fact => fact.isSettled || fact.isOutcomeUnknown

namespace Database

variable (db : Database V)

def loadPendingAbandonment (session : SessionRow) (operationId : OperationId)
    (stored : StoredOperation V) : Except KernelError (UnknownEffectState V) := do
  ensure (session.activeOperationId = some operationId)
    (.corrupt "unknown-effect operation is not the session's active operation")
  ensure (stored.inputEffectBatchId.isNone && stored.outcome.isNone)
    (.corrupt "unknown-effect operation contains settled input or a terminal outcome")
  let manifest ← require (.corrupt "unknown-effect operation has no manifest") stored.manifest
  let checkpoint ← require (.corrupt "unknown-effect operation has no checkpoint")
    stored.checkpoint
  let batchId ← require (.corrupt "unknown-effect operation has no current effect batch")
    stored.currentEffectBatchId
  let effectBatch ← db.loadEffectBatchFacts operationId batchId (some manifest)
  ensure (unknownFactsValid effectBatch.effects)
    (.corrupt "unknown operation and effect batch states disagree")
  let page ← db.loadEventPage session.sessionId 0
  return .pending
    { input :=
        { agentId := session.agentId
          sessionId := session.sessionId
          operationId
          command := stored.command
          events := page.events
          checkpoint
          effectBatch }
      manifest
      transitionVersion := stored.transitionVersion
      eventHighWater := page.nextCursor }

/-- The batches of an operation with an unknown child, by position. -/
def unknownBatches (operationId : OperationId) : List EffectBatchRow :=
  (orderBy EffectBatchRow.position (db.batchesOf operationId)).filter fun batch =>
    (db.childrenOf batch.batchId).any fun effect => effect.status = .outcomeUnknown

def loadPriorAbandonment (session : SessionRow) (operationId : OperationId)
    (stored : StoredOperation V) : Except KernelError (UnknownEffectState V) := do
  let unknown := db.unknownBatches operationId
  let batch ← require (.noUnknownEffect operationId) unknown.head?
  ensure unknown.tail.isEmpty
    (.corrupt "abandoned operation has more than one unknown effect batch")
  ensure (decide (session.activeOperationId ≠ some operationId) &&
      stored.currentEffectBatchId.isNone && stored.inputEffectBatchId.isNone)
    (.corrupt "abandoned operation still owns active execution state")
  let manifest ← require (.corrupt "unknown-effect operation has no manifest") stored.manifest
  let facts ← db.loadEffectBatchFacts operationId batch.batchId (some manifest)
  ensure (unknownFactsValid facts.effects)
    (.corrupt "abandoned unknown effect batch has invalid child state")
  let _ ← require (.corrupt "unknown-effect operation has no checkpoint") stored.checkpoint
  let outcome ← require (.corrupt "abandoned operation has no outcome") stored.outcome
  ensure (decide (outcome.phase = .failed))
    (.corrupt "unknown effect was released without the abandonment outcome")
  let _ ← db.loadEventPage session.sessionId 0
  return .alreadyAbandoned manifest outcome

def loadUnknownEffectState (sessionId : SessionId) (operationId : OperationId) :
    Except KernelError (UnknownEffectState V) := do
  let session ← require (.sessionNotFound sessionId) (db.sessions.find? sessionId)
  let stored ← require (.noUnknownEffect operationId)
    (← db.loadOperation sessionId operationId)
  match stored.phase with
  | .outcomeUnknown => db.loadPendingAbandonment session operationId stored
  | .failed => db.loadPriorAbandonment session operationId stored
  | _ => .error (.noUnknownEffect operationId)

/-- The operation still blocks on the unknown batch it was loaded with. -/
def unknownBatchUnchanged (sessionId : SessionId) (operationId : OperationId)
    (expectedTransition : Nat) : Bool :=
  (db.operations.find? operationId).any fun row =>
    decide (row.sessionId = sessionId) && decide (row.phase = .outcomeUnknown) &&
      decide (row.transitionVersion = expectedTransition) &&
      row.inputEffectBatchId.isNone && row.outcome.isNone &&
      (db.batchesOf operationId).any fun batch =>
        decide (row.currentEffectBatchId = some batch.batchId) &&
          ((db.childrenOf batch.batchId).any fun effect =>
            decide (effect.status = .outcomeUnknown) && effect.outcome.isNone) &&
          (db.childrenOf batch.batchId).all fun effect =>
            decide (effect.status = .settled) || decide (effect.status = .outcomeUnknown)

/-- Ends an operation with an unknown effect as failed. -/
def commitUnknownEffectAbandonment (sessionId : SessionId) (operationId : OperationId)
    (expectedTransition expectedEventHighWater : Nat) (newId : Nat → EventId)
    (abandonment : UnknownEffectAbandonment V) :
    Except KernelError (OperationOutcome × Database V) := do
  ensure (!db.cancellationRequested operationId) (.cancellationPending operationId)
  let session ← require (.corrupt "unknown-effect operation no longer owns its session")
    ((db.sessions.find? sessionId).filter fun session =>
      session.activeOperationId = some operationId)
  ensure (session.nextEventSequence = expectedEventHighWater)
    (.corrupt "semantic history changed during unknown-effect abandonment")
  ensure (db.unknownBatchUnchanged sessionId operationId expectedTransition)
    (.corrupt "unknown effect batch changed before abandonment")
  let db ← db.appendEvents sessionId operationId newId abandonment.events
  let db ← require (.corrupt "unknown-effect abandonment compare-and-set failed")
    (db.updateOperation operationId
      (fun row => decide (row.sessionId = sessionId) && decide (row.phase = .outcomeUnknown) &&
        decide (row.transitionVersion = expectedTransition)) fun row =>
      row.abandon abandonment.checkpoint)
  let db ← require (.corrupt "abandoned operation did not own its session")
    (db.releaseSession sessionId operationId)
  return (abandonedOutcome, db)

end Database

end Renoa.Kernel
