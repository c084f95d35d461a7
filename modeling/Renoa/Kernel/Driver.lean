import Renoa.Kernel.Cancellation
import Renoa.Kernel.Inspection
import Renoa.Kernel.UnknownEffect

/-!
# Drivers

A driver holds a session's lease and takes its active operation from transaction to transaction.
`DriverState` names the points between two transactions with what the driver holds in memory
there, and `DriverState.step` is the code from one point to the next: at most one transaction and
the checks on its result. The loop plugin may answer anything (`Choice`).

An effect round is the part of a driver that waits for concurrent adapter invocations; its
attempts and tasks are moved by the system in `Renoa.Kernel.World`.
-/

namespace Renoa.Kernel

open Foundation

variable {V : Type}

/-! ## Values of a driver -/

/-- A runtime: its manifest, and the revisions of the adapters it holds by name. -/
structure Runtime where
  manifest : RuntimeManifest
  effects : List (String × String)
  deriving DecidableEq, Repr

def Runtime.resolvesEffect (runtime : Runtime) (name revision : String) : Bool :=
  decide (runtime.effects.lookup name = some revision)

/-- What a loop plugin decides from. -/
structure LoopInput (V : Type) where
  agentId : AgentId
  sessionId : SessionId
  operationId : OperationId
  runtimeManifest : RuntimeManifest
  command : Command V
  events : List (SemanticEvent V)
  checkpoint : Option (Checkpoint V)
  effectBatch : Option (SettledEffectBatch V)
  deriving DecidableEq, Repr

inductive DriveResult where
  | idle
  | finished (operationId : OperationId) (outcome : OperationOutcome)
  | blocked (operationId : OperationId)
  deriving DecidableEq, Repr

/-- The value a driver returns: of `drive`, or of `abandon_unknown_effect`. -/
inductive Answer where
  | drive (result : DriveResult)
  | abandonment (outcome : OperationOutcome)
  deriving DecidableEq, Repr

/-- Dispatch count from which an adapter-reported unknown outcome is recorded and not replayed. -/
def maxLiveDispatchesBeforeUnknown : Nat := 2

/-- What the environment adds to one step of a driver: the identities it draws, whether it is
polled inside an executor, and the answers of the loop plugin. -/
structure Choice (V : Type) where
  batchId : EffectBatchId
  effectIds : Nat → EffectId
  eventIds : Nat → EventId
  inExecutor : Bool
  decision : Except String (LoopDecision V)
  cancellation : Except String (CancellationTransition V)
  abandonment : Except String (UnknownEffectAbandonment V)

/-! ## Loop input and decision -/

namespace Database

/-- The settled batch the operation is to decide on. -/
def loadInputBatch (db : Database V) (active : ActiveOperation V) :
    Except KernelError (Option (SettledEffectBatch V)) :=
  match active.inputEffectBatchId with
  | none => .ok none
  | some batchId => some <$> db.loadSettledEffectBatch active.operationId batchId

def loadLoopInput (db : Database V) (sessionId : SessionId) (active : ActiveOperation V)
    (events : List (SemanticEvent V)) : Except KernelError (LoopInput V) := do
  let effectBatch ← db.loadInputBatch active
  ensure (effectBatch.all fun batch => batch.effects.all fun effect =>
      decide (active.manifest.revision? effect.binding = some effect.bindingRevision))
    (.corrupt "settled effect differs from the frozen manifest")
  return { agentId := active.agentId
           sessionId
           operationId := active.operationId
           runtimeManifest := active.manifest
           command := active.command
           events
           checkpoint := active.checkpoint
           effectBatch }

end Database

/-- The intent of one requested effect, bound to the revision its manifest froze. -/
def EffectRequest.intent (runtime : Runtime) (manifest : RuntimeManifest)
    (effect : EffectRequest V) : Except KernelError (NewEffectIntent V) := do
  let revision ← require (.effectBindingUnavailable effect.binding)
    (manifest.revision? effect.binding)
  ensure (runtime.resolvesEffect effect.binding revision)
    (.effectBindingUnavailable effect.binding)
  return { binding := effect.binding
           bindingRevision := revision
           request := effect.request
           recovery := effect.recovery }

namespace Database

/-- Commits a loop decision; the result is the outcome when it ended the operation. -/
def applyLoopDecision (db : Database V) (sessionId : SessionId) (active : ActiveOperation V)
    (runtime : Runtime) (choice : Choice V) (decision : LoopDecision V) :
    Except KernelError (Option OperationOutcome × Database V) := do
  ensure (decision.checkpoint.schemaVersion = active.manifest.checkpointSchemaVersion)
    (.checkpointSchemaMismatch active.manifest.checkpointSchemaVersion
      decision.checkpoint.schemaVersion)
  match decision with
  | .invokeEffects checkpoint effects =>
    ensure (!effects.isEmpty)
      (.invalidDecision "an effect batch must contain at least one effect")
    let intents ← effects.mapM (EffectRequest.intent runtime active.manifest)
    let (_, db) ← db.commitEffectBatchIntent active.operationId active.transitionVersion
      choice.batchId choice.effectIds { checkpoint, effects := intents }
    return (none, db)
  | decision =>
    let (committed, db) ← db.commitDecision sessionId active.operationId
      active.transitionVersion choice.eventIds decision
    return (match committed with
      | .continued | .cancellationPending => none
      | .finished outcome => some outcome, db)

end Database

/-! ## Effect rounds -/

/-- A batch in the hands of its driver: the attempts not polled yet, the transition of the last
completion received, and whether a completion finished the batch. -/
@[ext]
structure EffectRound (V : Type) where
  batchId : EffectBatchId
  attempts : List (PendingEffect V)
  expectedTransition : Option Nat
  batchFinished : Bool
  deriving DecidableEq, Repr

/-- The checks on a prepared child before its adapter is used. -/
def PendingEffect.resolve (runtime : Runtime) (manifest : RuntimeManifest)
    (batchId : EffectBatchId) (effect : PendingEffect V) : Except KernelError Unit := do
  ensure (decide (effect.batchId = batchId) &&
      decide (manifest.revision? effect.binding = some effect.bindingRevision))
    (.corrupt "active effect differs from its batch or frozen manifest")
  ensure (runtime.resolvesEffect effect.binding effect.bindingRevision)
    (.effectBindingUnavailable effect.binding)

/-- The round of a prepared batch. -/
def PendingEffectBatch.round (runtime : Runtime) (manifest : RuntimeManifest) (inExecutor : Bool)
    (pending : PendingEffectBatch V) : Except KernelError (EffectRound V) := do
  ensure inExecutor .runtimeUnavailable
  let _ ← pending.effects.mapM (PendingEffect.resolve runtime manifest pending.batchId)
  return { batchId := pending.batchId
           attempts := pending.effects
           expectedTransition := none
           batchFinished := false }

/-- Records what the adapter of one child reported; the result says whether this finished the
batch. An unknown outcome of a first replayable dispatch is left for a retry. -/
def Database.recordCompletion (db : Database V) (operationId : OperationId)
    (batchId : EffectBatchId) (effect : PendingEffect V) :
    EffectCompletion V → Except KernelError (Bool × Database V)
  | .settled outcome =>
    db.settleBatchEffect operationId batchId effect.effectId effect.transitionVersion outcome
  | .outcomeUnknown =>
    if effect.recovery = .safeToReplay ∧
        effect.dispatchCount < maxLiveDispatchesBeforeUnknown then
      .ok (false, db)
    else
      db.recordBatchEffectUnknown operationId batchId effect.effectId effect.transitionVersion

/-- The round after a received completion. -/
def EffectRound.received (round : EffectRound V) (effect : PendingEffect V) (finished : Bool) :
    EffectRound V :=
  { round with
    expectedTransition := some effect.transitionVersion
    batchFinished := round.batchFinished || finished }

/-! ## Control -/

/-- The points of a driver between two transactions. -/
inductive DriverState (V : Type) where
  | activating
  | checking (active : ActiveOperation V)
  | cancelling (active : ActiveOperation V) (pending : PendingCancellation V)
  | reading (active : ActiveOperation V)
  | preparing (active : ActiveOperation V)
  | invoking (active : ActiveOperation V) (round : EffectRound V)
  | finishing (active : ActiveOperation V) (batchId : EffectBatchId) (expectedTransition : Nat)
  | loading (active : ActiveOperation V) (events : List (SemanticEvent V))
  | deciding (active : ActiveOperation V) (input : LoopInput V)
  | reloading (active : ActiveOperation V)
  | abandoning (operationId : OperationId)
  | closing (operationId : OperationId) (pending : PendingAbandonment V)
  deriving DecidableEq, Repr

/-- Where a step leads: to another point, or out with a value. -/
inductive Control (V : Type) where
  | next (state : DriverState V)
  | done (answer : Answer)
  deriving DecidableEq, Repr

/-- A transaction and the code after it. A failed transaction leaves the database; an error after
the commit does not undo it. -/
def transact {α : Type} (db : Database V) (t : Except KernelError (α × Database V))
    (k : α → Except KernelError (Control V)) : Database V × Except KernelError (Control V) :=
  match t with
  | .error e => (db, .error e)
  | .ok (a, db') => (db', k a)

/-- Where a driver goes with an operation whose journal it has read. -/
def ActiveOperation.dispatch (active : ActiveOperation V) (events : List (SemanticEvent V)) :
    Except KernelError (Control V) :=
  match active.phase with
  | .effectIntent | .effectDispatched => .ok (.next (.preparing active))
  | .outcomeUnknown => .ok (.done (.drive (.blocked active.operationId)))
  | .needDecision => .ok (.next (.loading active events))
  | phase => .error (.corrupt ("unsupported active phase `" ++ phase.asStr ++ "`"))

/-- One step of a driver. `awaiting` says that an adapter task of its round is still running. -/
def DriverState.step (db : Database V) (sessionId : SessionId) (runtime : Runtime)
    (choice : Choice V) (awaiting : Bool) :
    DriverState V → Database V × Except KernelError (Control V)
  | .activating =>
    transact db (db.activate sessionId runtime.manifest) fun
      | none => .ok (.done (.drive .idle))
      | some active => do
        ensure (active.manifest = runtime.manifest) .runtimeMismatch
        return .next (.checking active)
  | .checking active =>
    transact db (db.loadRequestedCancellation sessionId active.operationId) fun
      | none => .ok (.next (.reading active))
      | some pending => do
        ensure (pending.manifest = runtime.manifest) .runtimeMismatch
        return .next (.cancelling active pending)
  | .cancelling active pending =>
    transact db (do
      let transition ← choice.cancellation.mapError .loop
      requireCompatibleCheckpoint pending.manifest (some transition.checkpoint)
      validateNewEvents transition.events
      let db ← db.commitCancellation sessionId active.operationId pending.transitionVersion
        pending.eventHighWater choice.eventIds transition
      return ((), db)) fun _ => .ok (.done (.drive (.finished active.operationId .cancelled)))
  | .reading active =>
    transact db (do
      let page ← db.eventsAfter sessionId 0
      return (page.events, db)) active.dispatch
  | .preparing active =>
    transact db (db.prepareEffectBatch active.operationId active.transitionVersion) fun
      | .invoke pending => do
        let round ← pending.round runtime active.manifest choice.inExecutor
        return .next (.invoking active round)
      | .settled | .blocked | .cancellationPending => .ok (.next (.reloading active))
  | .invoking active round =>
    if awaiting || !round.attempts.isEmpty then (db, .ok (.next (.invoking active round)))
    else
      (db, do
        let expectedTransition ← require
          (.corrupt "effect batch prepared no child invocations") round.expectedTransition
        return .next (if round.batchFinished then .reloading active
          else .finishing active round.batchId expectedTransition))
  | .finishing active batchId expectedTransition =>
    transact db (db.finishEffectBatchAttempt active.operationId batchId expectedTransition)
      fun _ => .ok (.next (.reloading active))
  | .loading active events =>
    transact db (do
      let input ← db.loadLoopInput sessionId active events
      return (input, db)) fun input => .ok (.next (.deciding active input))
  | .deciding active _ =>
    transact db (do
      let decision ← choice.decision.mapError .loop
      db.applyLoopDecision sessionId active runtime choice decision) fun
      | some outcome => .ok (.done (.drive (.finished active.operationId outcome)))
      | none => .ok (.next (.reloading active))
  | .reloading active =>
    transact db (do
      let active ← db.loadActive sessionId active.operationId
      return (active, db)) fun active => .ok (.next (.checking active))
  | .abandoning operationId =>
    transact db (do
      let state ← db.loadUnknownEffectState sessionId operationId
      return (state, db)) fun
      | .alreadyAbandoned manifest outcome => do
        ensure (manifest = runtime.manifest) .runtimeMismatch
        return .done (.abandonment outcome)
      | .pending pending => do
        ensure (pending.manifest = runtime.manifest) .runtimeMismatch
        return .next (.closing operationId pending)
  | .closing operationId pending =>
    transact db (do
      let abandonment ← choice.abandonment.mapError .loop
      requireCompatibleCheckpoint pending.manifest (some abandonment.checkpoint)
      validateNewEvents abandonment.events
      db.commitUnknownEffectAbandonment sessionId operationId pending.transitionVersion
        pending.eventHighWater choice.eventIds abandonment) fun outcome =>
        .ok (.done (.abandonment outcome))

end Renoa.Kernel
