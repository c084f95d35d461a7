import Renoa.Foundation.Table
import Renoa.Foundation.Numbering

/-!
# Durable data of the kernel

The rows of the kernel's tables and the values its transactions exchange with a loop plugin and
with effect adapters. A JSON value is a value of an arbitrary type `V`: the kernel stores such
values, hands them on and compares command contents, and looks into none of them.

Identities are UUIDs. A transaction that draws fresh ones takes the drawn values as arguments.
-/

namespace Renoa.Kernel

open Foundation Table

structure AgentId where
  uuid : Nat
  deriving DecidableEq, Repr

structure SessionId where
  uuid : Nat
  deriving DecidableEq, Repr

structure CommandId where
  uuid : Nat
  deriving DecidableEq, Repr

structure OperationId where
  uuid : Nat
  deriving DecidableEq, Repr

structure CancellationId where
  uuid : Nat
  deriving DecidableEq, Repr

structure EffectBatchId where
  uuid : Nat
  deriving DecidableEq, Repr

structure EffectId where
  uuid : Nat
  deriving DecidableEq, Repr

structure EventId where
  uuid : Nat
  deriving DecidableEq, Repr

/-! ## Phases, statuses and outcomes -/

/-- Durable phase of an operation. -/
inductive OperationPhase where
  | queued
  | needDecision
  | effectIntent
  | effectDispatched
  | outcomeUnknown
  | waiting
  | completed
  | failed
  | cancelled
  deriving DecidableEq, Repr

/-- The stored name of a phase. -/
def OperationPhase.asStr : OperationPhase → String
  | .queued => "queued"
  | .needDecision => "need_decision"
  | .effectIntent => "effect_intent"
  | .effectDispatched => "effect_dispatched"
  | .outcomeUnknown => "outcome_unknown"
  | .waiting => "waiting"
  | .completed => "completed"
  | .failed => "failed"
  | .cancelled => "cancelled"

/-- The phases of an active operation. -/
def OperationPhase.isCancellable : OperationPhase → Bool
  | .needDecision | .effectIntent | .effectDispatched | .outcomeUnknown => true
  | _ => false

/-- The phases of an operation that has ended. -/
def OperationPhase.isTerminal : OperationPhase → Bool
  | .waiting | .completed | .failed | .cancelled => true
  | _ => false

/-- The phases in which an operation owns a current effect batch. -/
def OperationPhase.isEffectPhase : OperationPhase → Bool
  | .effectIntent | .effectDispatched | .outcomeUnknown => true
  | _ => false

/-- Status of an operation in a snapshot. -/
inductive OperationStatus where
  | queued
  | running
  | outcomeUnknown
  | waiting
  | completed
  | failed
  | cancelled
  deriving DecidableEq, Repr

def OperationPhase.status : OperationPhase → OperationStatus
  | .queued => .queued
  | .needDecision | .effectIntent | .effectDispatched => .running
  | .outcomeUnknown => .outcomeUnknown
  | .waiting => .waiting
  | .completed => .completed
  | .failed => .failed
  | .cancelled => .cancelled

/-- How an operation ended. -/
inductive OperationOutcome where
  | waitingForInput
  | completed
  | failed (reason : String)
  | cancelled
  deriving DecidableEq, Repr

/-- The terminal phase recorded with an outcome. -/
def OperationOutcome.phase : OperationOutcome → OperationPhase
  | .waitingForInput => .waiting
  | .completed => .completed
  | .failed _ => .failed
  | .cancelled => .cancelled

inductive EffectStatus where
  | intentCommitted
  | dispatchStarted
  | settled
  | outcomeUnknown
  deriving DecidableEq, Repr

/-- Whether an effect may be dispatched again after process loss. -/
inductive EffectRecovery where
  | safeToReplay
  | neverReplay
  deriving DecidableEq, Repr

variable (V : Type)

inductive EffectOutcome where
  | success (value : V)
  | failure (message : String)
  deriving DecidableEq, Repr

/-- What an adapter reports for one invocation. -/
inductive EffectCompletion where
  | settled (outcome : EffectOutcome V)
  | outcomeUnknown
  deriving DecidableEq, Repr

/-! ## Values exchanged with a runtime -/

structure Command where
  commandId : CommandId
  content : V
  deriving DecidableEq, Repr

structure Checkpoint where
  schemaVersion : Nat
  state : V
  deriving DecidableEq, Repr

structure NewEvent where
  kind : String
  payload : V
  deriving DecidableEq, Repr

/-- Identity of a runtime, frozen into an operation when it is activated. `effectBindings` maps
binding names to revisions, in key order. -/
structure RuntimeManifest where
  loopBinding : String
  loopRevision : String
  checkpointSchemaVersion : Nat
  effectBindings : List (String × String)
  configDigest : String
  deriving DecidableEq, Repr

/-- The revision the manifest binds to an effect binding. -/
def RuntimeManifest.revision? (manifest : RuntimeManifest) (binding : String) : Option String :=
  manifest.effectBindings.lookup binding

structure EffectRequest where
  binding : String
  request : V
  recovery : EffectRecovery
  deriving DecidableEq, Repr

/-- What a loop plugin decides from its durable input. -/
inductive LoopDecision where
  | invokeEffects (checkpoint : Checkpoint V) (effects : List (EffectRequest V))
  | appendEventsAndContinue (checkpoint : Checkpoint V) (events : List (NewEvent V))
  | waitForInput (checkpoint : Checkpoint V) (events : List (NewEvent V))
  | complete (checkpoint : Checkpoint V) (events : List (NewEvent V))
  | fail (checkpoint : Checkpoint V) (events : List (NewEvent V)) (reason : String)
  deriving DecidableEq, Repr

variable {V} in
def LoopDecision.checkpoint : LoopDecision V → Checkpoint V
  | .invokeEffects checkpoint _ => checkpoint
  | .appendEventsAndContinue checkpoint _ => checkpoint
  | .waitForInput checkpoint _ => checkpoint
  | .complete checkpoint _ => checkpoint
  | .fail checkpoint _ _ => checkpoint

/-! ## Rows -/

structure SessionRow where
  sessionId : SessionId
  agentId : AgentId
  nextCommandPosition : Nat
  activeOperationId : Option OperationId
  nextEventSequence : Nat
  deriving DecidableEq, Repr

/-- An admitted command; the stored content repeats the command's identity. -/
structure CommandRow where
  commandId : CommandId
  sessionId : SessionId
  content : Command V
  deriving DecidableEq, Repr

structure OperationRow where
  operationId : OperationId
  sessionId : SessionId
  commandId : CommandId
  position : Nat
  phase : OperationPhase
  stateVersion : Nat
  transitionVersion : Nat
  manifest : Option RuntimeManifest
  checkpoint : Option (Checkpoint V)
  currentEffectBatchId : Option EffectBatchId
  inputEffectBatchId : Option EffectBatchId
  outcome : Option OperationOutcome
  nextEffectBatchPosition : Nat
  deriving DecidableEq, Repr

structure EventRow where
  eventId : EventId
  sessionId : SessionId
  operationId : OperationId
  sequence : Nat
  kind : String
  payload : V
  deriving DecidableEq, Repr

structure EffectBatchRow where
  batchId : EffectBatchId
  operationId : OperationId
  position : Nat
  deriving DecidableEq, Repr

/-- One child of an effect batch. The request is released once its operation has ended. -/
structure EffectRow where
  effectId : EffectId
  batchId : EffectBatchId
  position : Nat
  binding : String
  bindingRevision : String
  recovery : EffectRecovery
  request : Option V
  status : EffectStatus
  dispatchCount : Nat
  outcome : Option (EffectOutcome V)
  deriving DecidableEq, Repr

structure CancellationRow where
  cancellationId : CancellationId
  sessionId : SessionId
  operationId : OperationId
  deriving DecidableEq, Repr

/-- The kernel database. -/
structure Database where
  agents : Table (id : AgentId → AgentId)
  sessions : Table SessionRow.sessionId
  commands : Table (CommandRow.commandId (V := V))
  operations : Table (OperationRow.operationId (V := V))
  semanticEvents : Table (EventRow.eventId (V := V))
  effectBatches : Table EffectBatchRow.batchId
  effects : Table (EffectRow.effectId (V := V))
  cancellationRequests : Table CancellationRow.cancellationId

variable {V} {db : Database V} {opId : OperationId} {bid : EffectBatchId}
  {sid : SessionId}

/-- The database of a new kernel. -/
def Database.empty : Database V where
  agents := .empty
  sessions := .empty
  commands := .empty
  operations := .empty
  semanticEvents := .empty
  effectBatches := .empty
  effects := .empty
  cancellationRequests := .empty

/-! ## Errors -/

/-- The errors of the kernel's transactions and drivers. `store` stands for a failed SQLite
statement, such as an insert that breaks a constraint. -/
inductive KernelError where
  | agentNotFound (agentId : AgentId)
  | sessionNotFound (sessionId : SessionId)
  | sessionConflict (sessionId : SessionId) (agentId : AgentId)
  | commandConflict (commandId : CommandId) (operationId : OperationId)
  | unfinishedOperation (operationId : OperationId) (commandId : CommandId)
  | noUnknownEffect (operationId : OperationId)
  | cancellationConflict (cancellationId : CancellationId) (operationId : OperationId)
  | operationNotCancellable (operationId : OperationId)
  | cancellationPending (operationId : OperationId)
  | busy (sessionId : SessionId)
  | runtimeUnavailable
  | effectTask
  | runtimeMismatch
  | checkpointSchemaMismatch (expected found : Nat)
  | invalidDecision (message : String)
  | loop (message : String)
  | effectBindingUnavailable (binding : String)
  | cursorAhead (cursor highWater : Nat)
  | unsupportedSchema (found supported : Nat)
  | unsupportedStateVersion (found supported : Nat)
  | corrupt (message : String)
  | store
  deriving DecidableEq, Repr

/-- The error reports invalid kernel data. -/
def KernelError.IsCorrupt : KernelError → Prop
  | .corrupt _ => True
  | _ => False

/-- State version written into every operation. -/
def operationStateVersion : Nat := 1

/-! ## Row queries -/

namespace Database

section

variable (db : Database V)

/-- The children of a batch, in storage order. -/
def childrenOf (batchId : EffectBatchId) : List (EffectRow V) :=
  db.effects.rows.filter fun effect => effect.batchId = batchId

/-- The children of a batch, ordered by position. -/
def orderedChildren (batchId : EffectBatchId) : List (EffectRow V) :=
  orderBy EffectRow.position (db.childrenOf batchId)

/-- The batches of an operation, in storage order. -/
def batchesOf (operationId : OperationId) : List EffectBatchRow :=
  db.effectBatches.rows.filter fun batch => batch.operationId = operationId

/-- The events of a session, in storage order. -/
def eventsOf (sessionId : SessionId) : List (EventRow V) :=
  db.semanticEvents.rows.filter fun event => event.sessionId = sessionId

/-- The operations of a session, in storage order. -/
def operationsOf (sessionId : SessionId) : List (OperationRow V) :=
  db.operations.rows.filter fun operation => operation.sessionId = sessionId

/-- A cancellation of the operation is recorded. -/
def cancellationRequested (operationId : OperationId) : Bool :=
  db.cancellationRequests.rows.any fun request => request.operationId = operationId

end

@[simp] theorem mem_childrenOf {e : EffectRow V} :
    e ∈ db.childrenOf bid ↔ e ∈ db.effects ∧ e.batchId = bid := by
  simp [childrenOf, mem_rows]

@[simp] theorem mem_orderedChildren {e : EffectRow V} :
    e ∈ db.orderedChildren bid ↔ e ∈ db.effects ∧ e.batchId = bid := by
  simp [orderedChildren]

@[simp] theorem mem_batchesOf {b : EffectBatchRow} :
    b ∈ db.batchesOf opId ↔ b ∈ db.effectBatches ∧ b.operationId = opId := by
  simp [batchesOf, mem_rows]

@[simp] theorem mem_eventsOf {e : EventRow V} :
    e ∈ db.eventsOf sid ↔ e ∈ db.semanticEvents ∧ e.sessionId = sid := by
  simp [eventsOf, mem_rows]

@[simp] theorem mem_operationsOf {o : OperationRow V} :
    o ∈ db.operationsOf sid ↔ o ∈ db.operations ∧ o.sessionId = sid := by
  simp [operationsOf, mem_rows]

theorem cancellationRequested_iff : db.cancellationRequested opId = true ↔
      ∃ req ∈ db.cancellationRequests, req.operationId = opId := by
  simp [cancellationRequested, mem_rows]

end Database

end Renoa.Kernel
