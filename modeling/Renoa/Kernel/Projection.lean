import Renoa.Kernel.EffectStore

/-!
# Projections of effect batches

`loadEffectBatchFacts` reads the children of a batch in declaration order with every check the
kernel makes on them; `loadSettledEffectBatch` is the form a loop decision receives, and
`loadEffectBatchSnapshots` the form an inspection receives.
-/

namespace Renoa.Kernel

open Foundation

variable {V : Type}

/-- A child with its outcome, as the loop receives it. -/
structure SettledEffect (V : Type) where
  effectId : EffectId
  binding : String
  bindingRevision : String
  request : V
  outcome : EffectOutcome V
  deriving DecidableEq, Repr

/-- A child that has no outcome. -/
structure UnsettledEffect (V : Type) where
  effectId : EffectId
  binding : String
  bindingRevision : String
  request : V
  deriving DecidableEq, Repr

/-- What is durably known of one child. -/
inductive EffectFact (V : Type) where
  | notDispatched (effect : UnsettledEffect V)
  | settled (effect : SettledEffect V)
  | outcomeUnknown (effect : UnsettledEffect V)
  deriving DecidableEq, Repr

def EffectFact.isNotDispatched : EffectFact V → Bool
  | .notDispatched _ => true
  | _ => false

def EffectFact.isSettled : EffectFact V → Bool
  | .settled _ => true
  | _ => false

def EffectFact.isOutcomeUnknown : EffectFact V → Bool
  | .outcomeUnknown _ => true
  | _ => false

/-- A batch with what is known of each child, in declaration order. -/
structure EffectBatchFacts (V : Type) where
  batchId : EffectBatchId
  effects : List (EffectFact V)
  deriving DecidableEq, Repr

structure SettledEffectBatch (V : Type) where
  batchId : EffectBatchId
  effects : List (SettledEffect V)
  deriving DecidableEq, Repr

/-- A child carries the revision its manifest froze for its binding. -/
def EffectRow.boundBy (row : EffectRow V) (manifest : RuntimeManifest) : Bool :=
  decide (manifest.revision? row.binding = some row.bindingRevision)

/-- The fact of one child, from its status and outcome. -/
def EffectRow.fact (row : EffectRow V) (request : V) : Except KernelError (EffectFact V) :=
  let unsettled : UnsettledEffect V := ⟨row.effectId, row.binding, row.bindingRevision, request⟩
  match row.status, row.outcome with
  | .intentCommitted, none => .ok (.notDispatched unsettled)
  | .dispatchStarted, none => .ok (.outcomeUnknown unsettled)
  | .outcomeUnknown, none => .ok (.outcomeUnknown unsettled)
  | .settled, some outcome =>
    .ok (.settled ⟨row.effectId, row.binding, row.bindingRevision, request, outcome⟩)
  | .settled, none => .error (.corrupt "settled effect has no outcome")
  | _, some _ => .error (.corrupt "unsettled effect contains an outcome")

/-- The facts of the children from an expected position on. -/
def effectFacts (manifest : Option RuntimeManifest) :
    Nat → List (EffectRow V) → Except KernelError (List (EffectFact V))
  | _, [] => .ok []
  | expectedPosition, row :: rest => do
    ensure (row.position = expectedPosition)
      (.corrupt "effect batch child positions are not gapless")
    ensure (manifest.all row.boundBy)
      (.corrupt "effect batch child differs from the frozen manifest")
    let request ← require (.corrupt "effect batch child request was released") row.request
    let fact ← row.fact request
    let facts ← effectFacts manifest (expectedPosition + 1) rest
    return fact :: facts

/-- The settled effects of a batch without any other child. -/
def settledEffects : List (EffectFact V) → Except KernelError (List (SettledEffect V))
  | [] => .ok []
  | .settled effect :: rest => do
    let effects ← settledEffects rest
    return effect :: effects
  | _ :: _ => .error (.corrupt "settled input batch contains an unsettled child")

namespace Database

/-- Reads a batch of the operation, against the manifest if one is given. -/
def loadEffectBatchFacts (db : Database V) (operationId : OperationId)
    (batchId : EffectBatchId) (manifest : Option RuntimeManifest) :
    Except KernelError (EffectBatchFacts V) := do
  ensure ((db.effectBatches.find? batchId).any fun batch => batch.operationId = operationId)
    (.corrupt "effect batch does not belong to the operation")
  let effects ← effectFacts manifest 0 (db.orderedChildren batchId)
  ensure (!effects.isEmpty) (.corrupt "effect batch contains no children")
  return { batchId, effects }

/-- Reads a batch whose children are all settled. -/
def loadSettledEffectBatch (db : Database V) (operationId : OperationId)
    (batchId : EffectBatchId) : Except KernelError (SettledEffectBatch V) := do
  let facts ← db.loadEffectBatchFacts operationId batchId none
  let effects ← settledEffects facts.effects
  return { batchId, effects }

end Database

/-! ## Snapshots -/

/-- A child as it is stored, with its request unless that was released. -/
structure EffectSnapshot (V : Type) where
  effectId : EffectId
  position : Nat
  binding : String
  bindingRevision : String
  recovery : EffectRecovery
  request : Option V
  status : EffectStatus
  dispatchCount : Nat
  outcome : Option (EffectOutcome V)
  deriving DecidableEq, Repr

structure EffectBatchSnapshot (V : Type) where
  batchId : EffectBatchId
  position : Nat
  effects : List (EffectSnapshot V)
  deriving DecidableEq, Repr

def EffectRow.snapshot (row : EffectRow V) : EffectSnapshot V := { row with }

namespace Database

/-- The children of a batch, checked for gaps. -/
def loadEffectSnapshots (db : Database V) (batchId : EffectBatchId) :
    Except KernelError (List (EffectSnapshot V)) := do
  let children := db.orderedChildren batchId
  ensure (gaplessFrom EffectRow.position 0 children)
    (.corrupt "effect batch child positions are not gapless")
  ensure (!children.isEmpty) (.corrupt "effect batch contains no children")
  return children.map EffectRow.snapshot

/-- The snapshots of the batches from an expected position on. -/
def batchSnapshots (db : Database V) :
    Nat → List EffectBatchRow → Except KernelError (List (EffectBatchSnapshot V))
  | _, [] => .ok []
  | expectedPosition, batch :: rest => do
    ensure (batch.position = expectedPosition)
      (.corrupt "effect batch positions are not gapless")
    let effects ← db.loadEffectSnapshots batch.batchId
    let snapshots ← batchSnapshots db (expectedPosition + 1) rest
    return { batch with effects } :: snapshots

def loadEffectBatchSnapshots (db : Database V) (operationId : OperationId) :
    Except KernelError (List (EffectBatchSnapshot V)) :=
  db.batchSnapshots 0 (orderBy EffectBatchRow.position (db.batchesOf operationId))

end Database

end Renoa.Kernel
