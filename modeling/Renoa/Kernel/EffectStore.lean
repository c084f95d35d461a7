import Renoa.Foundation.Fallible
import Renoa.Kernel.RequestRelease

/-!
# Effect batches

An operation commits a batch of effects as an intent, marks every child dispatched before any
adapter runs, and records each completion in a transaction of its own. The transaction that
records the last open child moves the operation on: back to a decision when every child is
settled, to `outcomeUnknown` when one of them is unknown. After process loss `prepareEffectBatch`
dispatches a child again only when its recovery class allows it.
-/

namespace Renoa.Kernel

open Foundation

variable {V : Type}

/-! ## Values -/

/-- A child that is marked dispatched and waits for its adapter. `dispatchCount` and
`transitionVersion` are the stored values after the dispatch. -/
structure PendingEffect (V : Type) where
  batchId : EffectBatchId
  effectId : EffectId
  binding : String
  bindingRevision : String
  request : V
  recovery : EffectRecovery
  dispatchCount : Nat
  transitionVersion : Nat
  deriving DecidableEq, Repr

structure PendingEffectBatch (V : Type) where
  batchId : EffectBatchId
  effects : List (PendingEffect V)
  deriving DecidableEq, Repr

structure NewEffectIntent (V : Type) where
  binding : String
  bindingRevision : String
  request : V
  recovery : EffectRecovery
  deriving DecidableEq, Repr

structure NewEffectBatchIntent (V : Type) where
  checkpoint : Checkpoint V
  effects : List (NewEffectIntent V)
  deriving DecidableEq, Repr

inductive EffectBatchStart (V : Type) where
  | invoke (pending : PendingEffectBatch V)
  | settled
  | blocked
  | cancellationPending
  deriving DecidableEq, Repr

inductive EffectBatchFinish where
  | retry
  | settled
  | blocked
  | cancellationPending
  deriving DecidableEq, Repr

inductive EffectIntentCommit where
  | committed
  | cancellationPending
  deriving DecidableEq, Repr

/-- The row of an operation whose batch has no open child left: blocked on an unknown child, or
back at a decision with the batch as its input. -/
def OperationRow.finishBatch (row : OperationRow V) (batchId : EffectBatchId) (blocked : Bool) :
    OperationRow V :=
  { row with
    phase := if blocked then .outcomeUnknown else .needDecision
    currentEffectBatchId := if blocked then some batchId else none
    inputEffectBatchId := if blocked then none else some batchId
    transitionVersion := row.transitionVersion + 1 }

/-! ## Intent -/

/-- The rows of a new batch's children, at the positions from `position` on. -/
def effectRows (batchId : EffectBatchId) (newId : Nat → EffectId) (position : Nat) :
    List (NewEffectIntent V) → List (EffectRow V)
  | [] => []
  | effect :: rest =>
    { effect with
      effectId := newId 0
      batchId
      position
      request := some effect.request
      status := .intentCommitted
      dispatchCount := 0
      outcome := none } ::
      effectRows batchId (fun i => newId (i + 1)) (position + 1) rest

namespace Database

section

variable (db : Database V)

/-- Inserting one child, under the constraints of the effect table. -/
def insertEffect (row : EffectRow V) : Except KernelError (Database V) := do
  ensure (decide (row.binding ≠ "") && decide (row.bindingRevision ≠ "")) .store
  let effects ← require .store (db.effects.insert
    (fun effect => effect.batchId = row.batchId ∧ effect.position = row.position) row)
  return { db with effects }

def insertEffects (db : Database V) : List (EffectRow V) → Except KernelError (Database V)
  | [] => .ok db
  | row :: rest => do
    let db ← db.insertEffect row
    insertEffects db rest

/-- Commits a new effect batch. `batchId` and `newId` are the identities drawn for the batch and
its children. -/
def commitEffectBatchIntent (operationId : OperationId) (expectedTransition : Nat)
    (batchId : EffectBatchId) (newId : Nat → EffectId) (intent : NewEffectBatchIntent V) :
    Except KernelError (EffectIntentCommit × Database V) := do
  ensure (!intent.effects.isEmpty)
    (.invalidDecision "an effect batch must contain at least one effect")
  if db.cancellationRequested operationId then
    return (.cancellationPending, db)
  else
    let operation ← require (.corrupt "effect batch intent compare-and-set failed")
      ((db.operations.find? operationId).filter fun row =>
        decide (row.phase = .needDecision) &&
          decide (row.transitionVersion = expectedTransition))
    let position := operation.nextEffectBatchPosition
    let effectBatches ← require .store (db.effectBatches.insert
      (fun batch => batch.operationId = operationId ∧ batch.position = position)
      { batchId, operationId, position })
    let db ← { db with effectBatches }.insertEffects (effectRows batchId newId 0 intent.effects)
    let db ← require (.corrupt "effect batch intent state update failed")
      (db.updateOperation operationId
        (fun row => decide (row.phase = .needDecision) &&
          decide (row.transitionVersion = expectedTransition)) fun row =>
        { row with
          phase := .effectIntent
          checkpoint := some intent.checkpoint
          currentEffectBatchId := some batchId
          inputEffectBatchId := none
          nextEffectBatchPosition := row.nextEffectBatchPosition + 1
          transitionVersion := row.transitionVersion + 1 })
    return (.committed, db)

/-! ## Statuses of a batch -/

/-- The children of a batch that belongs to the operation, ordered by position. -/
def ownedChildren (operationId : OperationId) (batchId : EffectBatchId) : List (EffectRow V) :=
  if (db.batchesOf operationId).any fun batch => batch.batchId = batchId then
    db.orderedChildren batchId
  else []

/-- The children of an owned batch, checked to be gapless and not empty. -/
def loadBatchChildren (operationId : OperationId) (batchId : EffectBatchId) :
    Except KernelError (List (EffectRow V)) := do
  let children := db.ownedChildren operationId batchId
  ensure (gaplessFrom EffectRow.position 0 children)
    (.corrupt "effect batch child positions are not gapless")
  ensure (!children.isEmpty) (.corrupt "effect batch contains no children")
  return children

def loadBatchStatuses (operationId : OperationId) (batchId : EffectBatchId) :
    Except KernelError (List EffectStatus) := do
  let children ← db.loadBatchChildren operationId batchId
  return children.map EffectRow.status

/-- The operation is dispatching the batch at the expected transition. -/
def dispatchesBatch (batchId : EffectBatchId) (expectedTransition : Nat)
    (row : OperationRow V) : Bool :=
  decide (row.phase = .effectDispatched) && decide (row.transitionVersion = expectedTransition) &&
    decide (row.currentEffectBatchId = some batchId)

def requireDispatchedBatch (operationId : OperationId) (batchId : EffectBatchId)
    (expectedTransition : Nat) : Except KernelError Unit :=
  ensure ((db.operations.find? operationId).any (dispatchesBatch batchId expectedTransition))
    (.corrupt "effect batch changed before child settlement")

/-- Moves an operation on whose batch has no open child. -/
def transitionFinishedBatch (operationId : OperationId) (batchId : EffectBatchId)
    (expectedTransition : Nat) (blocked : Bool) : Except KernelError (Database V) :=
  require (.corrupt "effect batch completion compare-and-set failed")
    (db.updateOperation operationId (dispatchesBatch batchId expectedTransition) fun row =>
      row.finishBatch batchId blocked)

/-- Moves the operation on when no child is open. The result is `none` while one is, and else
says whether an unknown child blocks the operation. -/
def transitionBatchIfTerminal (operationId : OperationId) (batchId : EffectBatchId)
    (expectedTransition : Nat) : Except KernelError (Option Bool × Database V) := do
  let statuses ← db.loadBatchStatuses operationId batchId
  ensure (!statuses.contains .intentCommitted)
    (.corrupt "dispatched effect batch contains an unmarked child")
  if statuses.contains .dispatchStarted then
    return (none, db)
  else
    let blocked := statuses.contains .outcomeUnknown
    let db ← db.transitionFinishedBatch operationId batchId expectedTransition blocked
    return (some blocked, db)

/-! ## Completions -/

/-- Records the settled outcome of a dispatched child; the result says whether this finished
the batch. -/
def settleBatchEffect (operationId : OperationId) (batchId : EffectBatchId) (effectId : EffectId)
    (expectedTransition : Nat) (outcome : EffectOutcome V) :
    Except KernelError (Bool × Database V) := do
  db.requireDispatchedBatch operationId batchId expectedTransition
  let effects ← require (.corrupt "effect settlement compare-and-set failed")
    (db.effects.updateOne effectId
      (fun row => decide (row.batchId = batchId) && decide (row.status = .dispatchStarted))
      fun row => { row with status := .settled, outcome := some outcome })
  let (finished, db) ←
    { db with effects }.transitionBatchIfTerminal operationId batchId expectedTransition
  return (finished.isSome, db)

/-- Moves a child from one status to another, whatever its batch. -/
def updateEffectStatus (effectId : EffectId) (expected next : EffectStatus) :
    Except KernelError (Database V) := do
  let effects ← require (.corrupt "effect status compare-and-set failed")
    (db.effects.updateOne effectId (fun row => row.status = expected) fun row =>
      { row with status := next })
  return { db with effects }

/-- Records that the outcome of a dispatched child is unknown. -/
def recordBatchEffectUnknown (operationId : OperationId) (batchId : EffectBatchId)
    (effectId : EffectId) (expectedTransition : Nat) : Except KernelError (Bool × Database V) := do
  db.requireDispatchedBatch operationId batchId expectedTransition
  let db ← db.updateEffectStatus effectId .dispatchStarted .outcomeUnknown
  let (finished, db) ← db.transitionBatchIfTerminal operationId batchId expectedTransition
  return (finished.isSome, db)

/-- Closes a round of invocations that no completion finished. -/
def finishEffectBatchAttempt (operationId : OperationId) (batchId : EffectBatchId)
    (expectedTransition : Nat) : Except KernelError (EffectBatchFinish × Database V) := do
  db.requireDispatchedBatch operationId batchId expectedTransition
  if db.cancellationRequested operationId then
    return (.cancellationPending, db)
  else
    let (blocked, db) ← db.transitionBatchIfTerminal operationId batchId expectedTransition
    return (match blocked with
      | none => .retry
      | some true => .blocked
      | some false => .settled, db)

end

/-- Turns an open child of the batch unknown. -/
def closeChild (batchId : EffectBatchId) (row : EffectRow V) : EffectRow V :=
  if row.batchId = batchId ∧ row.status = .dispatchStarted then
    { row with status := .outcomeUnknown }
  else row

theorem closeChild_effectId (bid : EffectBatchId) (row : EffectRow V) :
    (closeChild bid row).effectId = row.effectId := by
  unfold closeChild
  split <;> rfl

/-- Turns every open child unknown and moves the operation on; the result is its new phase. -/
def closeDispatchedBatchForCancellation (db : Database V) (operationId : OperationId)
    (batchId : EffectBatchId) (expectedTransition : Nat) :
    Except KernelError (OperationPhase × Database V) := do
  db.requireDispatchedBatch operationId batchId expectedTransition
  let db := { db with
    effects := db.effects.mapRows (closeChild batchId) (closeChild_effectId batchId) }
  let statuses ← db.loadBatchStatuses operationId batchId
  ensure (!statuses.contains .intentCommitted && !statuses.contains .dispatchStarted)
    (.corrupt "cancellation could not close every dispatched child")
  let blocked := statuses.contains .outcomeUnknown
  let db ← db.transitionFinishedBatch operationId batchId expectedTransition blocked
  return (if blocked then .outcomeUnknown else .needDecision, db)

end Database

/-! ## Dispatch -/

/-- The two phases a batch is prepared in. -/
inductive PreparePhase where
  | effectIntent
  | effectDispatched
  deriving DecidableEq, Repr

def OperationPhase.prepare? : OperationPhase → Option PreparePhase
  | .effectIntent => some .effectIntent
  | .effectDispatched => some .effectDispatched
  | _ => none

/-- A child as the preparation of its batch holds it. -/
structure PreparedEffect (V : Type) where
  effectId : EffectId
  binding : String
  bindingRevision : String
  recovery : EffectRecovery
  request : V
  status : EffectStatus
  dispatchCount : Nat
  deriving DecidableEq, Repr

/-- Reads one child for preparation; its request must not have been released. -/
def EffectRow.prepared (row : EffectRow V) : Except KernelError (PreparedEffect V) := do
  let request ← require .store row.request
  return { row with request }

namespace Database

variable (db : Database V)

def loadPreparedEffects (operationId : OperationId) (batchId : EffectBatchId) :
    Except KernelError (List (PreparedEffect V)) := do
  let children ← db.loadBatchChildren operationId batchId
  children.mapM EffectRow.prepared

/-- Marks one child dispatched and counts the dispatch. -/
def dispatchChild (batchId : EffectBatchId) (nextTransition : Nat) (effect : PreparedEffect V) :
    Except KernelError (Option (PendingEffect V) × PreparedEffect V × Database V) := do
  let dispatchCount := effect.dispatchCount + 1
  let effects ← require (.corrupt "effect dispatch compare-and-set failed")
    (db.effects.updateOne effect.effectId
      (fun row => decide (row.status = effect.status) &&
        decide (row.dispatchCount = effect.dispatchCount)) fun row =>
      { row with status := .dispatchStarted, dispatchCount })
  let pending : PendingEffect V :=
    { effect with batchId, dispatchCount, transitionVersion := nextTransition }
  return (some pending, { effect with status := .dispatchStarted, dispatchCount },
    { db with effects })

/-- Prepares one child: a new intent and a replayable open child are dispatched, an open child
that must not be replayed becomes unknown, and a finished child is left alone. -/
def prepareChild (phase : PreparePhase) (batchId : EffectBatchId) (nextTransition : Nat)
    (effect : PreparedEffect V) :
    Except KernelError (Option (PendingEffect V) × PreparedEffect V × Database V) :=
  match phase, effect.status, effect.recovery with
  | .effectIntent, .intentCommitted, _ => db.dispatchChild batchId nextTransition effect
  | .effectDispatched, .dispatchStarted, .safeToReplay =>
    db.dispatchChild batchId nextTransition effect
  | .effectIntent, _, _ => .error (.corrupt "new effect batch contains a non-intent child")
  | .effectDispatched, .dispatchStarted, .neverReplay => do
    let db ← db.updateEffectStatus effect.effectId .dispatchStarted .outcomeUnknown
    return (none, { effect with status := .outcomeUnknown }, db)
  | .effectDispatched, .settled, _ => .ok (none, effect, db)
  | .effectDispatched, .outcomeUnknown, _ => .ok (none, effect, db)
  | .effectDispatched, .intentCommitted, _ =>
    .error (.corrupt "dispatched effect batch contains an unmarked child")

/-- Prepares the children in order; the results are the children to invoke and all children
with their new statuses. -/
def prepareChildren (db : Database V) (phase : PreparePhase) (batchId : EffectBatchId)
    (nextTransition : Nat) :
    List (PreparedEffect V) →
      Except KernelError (List (PendingEffect V) × List (PreparedEffect V) × Database V)
  | [] => .ok ([], [], db)
  | effect :: rest => do
    let (pending, effect, db) ← db.prepareChild phase batchId nextTransition effect
    let (pendings, effects, db) ← prepareChildren db phase batchId nextTransition rest
    return (pending.toList ++ pendings, effect :: effects, db)

def finishBatchWithoutInvocations (operationId : OperationId) (batchId : EffectBatchId)
    (expectedTransition : Nat) (effects : List (PreparedEffect V)) :
    Except KernelError (EffectBatchStart V × Database V) := do
  ensure (!effects.any fun effect => effect.status = .dispatchStarted)
    (.corrupt "effect batch has pending children but no dispatch")
  let blocked := effects.any fun effect => effect.status = .outcomeUnknown
  let db ← db.transitionFinishedBatch operationId batchId expectedTransition blocked
  return (if blocked then .blocked else .settled, db)

/-- The phase and current batch of an operation at the expected transition. -/
def loadActiveBatch (operationId : OperationId) (expectedTransition : Nat) :
    Except KernelError (OperationPhase × EffectBatchId) := do
  let row ← require (.corrupt "effect state changed before batch dispatch")
    ((db.operations.find? operationId).filter fun row => row.transitionVersion = expectedTransition)
  let batchId ← require (.corrupt "effect phase has no current batch") row.currentEffectBatchId
  return (row.phase, batchId)

/-- Marks the children that may run as dispatched, before any adapter is invoked. -/
def prepareEffectBatch (operationId : OperationId) (expectedTransition : Nat) :
    Except KernelError (EffectBatchStart V × Database V) := do
  if db.cancellationRequested operationId then
    return (.cancellationPending, db)
  else
    let (phase, batchId) ← db.loadActiveBatch operationId expectedTransition
    let prepare ← require
      (.corrupt ("cannot prepare effect batch from phase `" ++ phase.asStr ++ "`"))
      phase.prepare?
    let stored ← db.loadPreparedEffects operationId batchId
    let (pending, stored, db) ←
      db.prepareChildren prepare batchId (expectedTransition + 1) stored
    if pending.isEmpty then
      db.finishBatchWithoutInvocations operationId batchId expectedTransition stored
    else
      let db ← require (.corrupt "operation batch dispatch compare-and-set failed")
        (db.updateOperation operationId
          (fun row => decide (row.transitionVersion = expectedTransition) &&
            decide (row.phase = phase) && decide (row.currentEffectBatchId = some batchId))
          fun row =>
          { row with
            phase := .effectDispatched
            transitionVersion := row.transitionVersion + 1 })
      return (.invoke { batchId, effects := pending }, db)

end Database

end Renoa.Kernel
