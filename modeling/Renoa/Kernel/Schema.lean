import Renoa.Foundation.Fallible
import Renoa.Kernel.RequestRelease
import Mathlib.Algebra.Order.Ring.Nat

/-!
# Opening a kernel database

A kernel database carries the version of its layout. Versions 1 and 2 gave an operation single
effects, version 3 puts effects into batches, and version 4 lets go of the requests of finished
operations. `Stored` is a database file in any of these layouts and `Stored.initializeDatabase`
opens it: a file of an earlier version is checked, migrated one version at a time and checked again.

Each migration is one transaction that also writes the new version, so a process that stops on the
way leaves the file that `Stored.migrated` gives after some number of migrations.

A migration copies rows from a table with the same constraints; the ones that the copied rows do
not inherit column by column, the uniqueness of positions in the new tables, are fields of the
layouts, so that the copies have to establish them.
-/

namespace Renoa.Kernel

open Foundation

/-- The version this kernel writes. -/
def schemaVersion : Nat := 4

variable (V : Type)

/-! ## Earlier layouts -/

/-- An operation of versions 1 and 2, which points to single effects. -/
structure OperationRowV2 where
  operationId : OperationId
  sessionId : SessionId
  commandId : CommandId
  position : Nat
  phase : OperationPhase
  stateVersion : Nat
  transitionVersion : Nat
  manifest : Option RuntimeManifest
  checkpoint : Option (Checkpoint V)
  currentEffectId : Option EffectId
  inputEffectId : Option EffectId
  outcome : Option OperationOutcome
  nextEffectPosition : Nat
  deriving DecidableEq, Repr

/-- An effect of versions 1 and 2, which belongs to its operation directly. -/
structure EffectRowV2 where
  effectId : EffectId
  operationId : OperationId
  position : Nat
  binding : String
  bindingRevision : String
  recovery : EffectRecovery
  request : V
  status : EffectStatus
  dispatchCount : Nat
  outcome : Option (EffectOutcome V)
  deriving DecidableEq, Repr

/-- An effect of version 3: a child of a batch that always keeps its request. -/
structure EffectRowV3 where
  effectId : EffectId
  batchId : EffectBatchId
  position : Nat
  binding : String
  bindingRevision : String
  recovery : EffectRecovery
  request : V
  status : EffectStatus
  dispatchCount : Nat
  outcome : Option (EffectOutcome V)
  deriving DecidableEq, Repr

structure DatabaseV1 where
  agents : Table (id : AgentId → AgentId)
  sessions : Table SessionRow.sessionId
  commands : Table (CommandRow.commandId (V := V))
  operations : Table (OperationRowV2.operationId (V := V))
  semanticEvents : Table (EventRow.eventId (V := V))
  effects : Table (EffectRowV2.effectId (V := V))
  effect_positions : (effects.rows.map fun e => (e.operationId, e.position)).Nodup

/-- Version 2 records requested cancellations. -/
structure DatabaseV2 extends DatabaseV1 V where
  cancellationRequests : Table CancellationRow.cancellationId

structure DatabaseV3 where
  agents : Table (id : AgentId → AgentId)
  sessions : Table SessionRow.sessionId
  commands : Table (CommandRow.commandId (V := V))
  operations : Table (OperationRow.operationId (V := V))
  semanticEvents : Table (EventRow.eventId (V := V))
  effectBatches : Table EffectBatchRow.batchId
  batch_positions : (effectBatches.rows.map fun b => (b.operationId, b.position)).Nodup
  effects : Table (EffectRowV3.effectId (V := V))
  effect_positions : (effects.rows.map fun e => (e.batchId, e.position)).Nodup
  cancellationRequests : Table CancellationRow.cancellationId

variable {V}

/-! ## The migrations -/

/-- `MIGRATE_V1_TO_V2`: operations are copied and no cancellation is recorded yet. -/
def DatabaseV1.migrateV1ToV2 (d : DatabaseV1 V) : DatabaseV2 V where
  toDatabaseV1 := d
  cancellationRequests := .empty

/-- The batch that is made for a single effect takes the effect's identity. -/
def EffectId.asBatchId (effectId : EffectId) : EffectBatchId := ⟨effectId.uuid⟩

theorem EffectId.asBatchId_injective : Function.Injective EffectId.asBatchId := by
  rintro ⟨a⟩ ⟨b⟩ h
  exact congrArg EffectId.mk (EffectBatchId.mk.inj h)

/-- The operation row of version 3: its pointers name the batches of the effects. -/
def OperationRowV2.toV3 (o : OperationRowV2 V) : OperationRow V :=
  { o with
    currentEffectBatchId := o.currentEffectId.map EffectId.asBatchId
    inputEffectBatchId := o.inputEffectId.map EffectId.asBatchId
    nextEffectBatchPosition := o.nextEffectPosition }

/-- The batch of a single effect. -/
def EffectRowV2.toBatch (e : EffectRowV2 V) : EffectBatchRow :=
  { e with batchId := e.effectId.asBatchId }

/-- The effect as the only child of its batch. -/
def EffectRowV2.toV3 (e : EffectRowV2 V) : EffectRowV3 V :=
  { e with batchId := e.effectId.asBatchId, position := 0 }

/-- `MIGRATE_V2_TO_V3`: operations are copied with their pointers, and each effect becomes a batch
with one child. -/
def DatabaseV2.migrateV2ToV3 (d : DatabaseV2 V) : DatabaseV3 V where
  __ := d
  operations := d.operations.copyTo OperationRowV2.toV3 id Function.injective_id fun _ => rfl
  effectBatches := d.effects.copyTo EffectRowV2.toBatch EffectId.asBatchId
    EffectId.asBatchId_injective fun _ => rfl
  batch_positions := by
    show ((d.effects.rows.map EffectRowV2.toBatch).map fun b => (b.operationId, b.position)).Nodup
    rw [List.map_map]
    exact d.effect_positions
  effects := d.effects.copyTo EffectRowV2.toV3 id Function.injective_id fun _ => rfl
  effect_positions := by
    show ((d.effects.rows.map EffectRowV2.toV3).map fun e => (e.batchId, e.position)).Nodup
    have hpairs : (d.effects.rows.map EffectRowV2.toV3).map (fun e => (e.batchId, e.position)) =
        (d.effects.rows.map EffectRowV2.effectId).map fun id => (id.asBatchId, 0) := by
      rw [List.map_map, List.map_map]
      rfl
    rw [hpairs]
    refine d.effects.keys_nodup.map ?_
    intro a b hab
    exact EffectId.asBatchId_injective (Prod.mk.inj hab).1

/-- The effect row of version 4, with its request still there. -/
def EffectRowV3.toV4 (e : EffectRowV3 V) : EffectRow V := { e with request := some e.request }

/-- The tables of version 3 in the layout of version 4. -/
def DatabaseV3.toV4 (d : DatabaseV3 V) : Database V :=
  { d with effects := d.effects.copyTo EffectRowV3.toV4 id Function.injective_id fun _ => rfl }

namespace Database

/-- The effect is in the view `finished_effect_requests`. -/
def finishedEffectRequests (db : Database V) (effect : EffectRow V) : Bool :=
  db.operations.rows.any fun o => db.finishedEffectRequest o.operationId effect

/-- The effect after the release of every finished request. -/
def releaseAny (db : Database V) (effect : EffectRow V) : EffectRow V :=
  if db.finishedEffectRequests effect then { effect with request := none } else effect

theorem releaseAny_effectId (db : Database V) (eff : EffectRow V) :
    (db.releaseAny eff).effectId = eff.effectId := by
  unfold releaseAny
  split <;> rfl

/-- The update that releases every request in the view `finished_effect_requests`. -/
def releaseAll (db : Database V) : Database V :=
  { db with effects := db.effects.mapRows db.releaseAny db.releaseAny_effectId }

end Database

/-- `MIGRATE_V3_TO_V4` and the release of the requests that are already finished. -/
def DatabaseV3.migrateV3ToV4 (d : DatabaseV3 V) : Database V := d.toV4.releaseAll

/-! ## Checks -/

/-- `validate_operation_versions`, on the state versions of the stored operations. -/
def validateOperationVersions (versions : List Nat) : Except KernelError Unit :=
  match versions.find? fun version => version ≠ operationStateVersion with
  | none => pure ()
  | some found =>
    if operationStateVersion < found then
      .error (.unsupportedStateVersion (min found (2 ^ 32 - 1)) operationStateVersion)
    else .error (.corrupt s!"invalid operation state version {found}")

/-- What the other tables refer to in an operation row. -/
structure OperationKey where
  operationId : OperationId
  sessionId : SessionId
  commandId : CommandId
  deriving DecidableEq, Repr

def OperationRowV2.key (o : OperationRowV2 V) : OperationKey :=
  ⟨o.operationId, o.sessionId, o.commandId⟩

def OperationRow.key (o : OperationRow V) : OperationKey :=
  ⟨o.operationId, o.sessionId, o.commandId⟩

/-- The session has the operation. -/
def OwnsOperation (operations : List OperationKey) (sessionId : SessionId)
    (operationId : OperationId) : Prop :=
  ∃ o ∈ operations, o.operationId = operationId ∧ o.sessionId = sessionId

instance (operations : List OperationKey) (sessionId : SessionId) (operationId : OperationId) :
    Decidable (OwnsOperation operations sessionId operationId) := by
  unfold OwnsOperation
  infer_instance

/-- The foreign keys between the tables that every layout has. -/
def SharedKeys (agents : List AgentId) (sessions : List SessionRow) (commands : List (CommandRow V))
    (operations : List OperationKey) (events : List (EventRow V))
    (requests : List CancellationRow) : Prop :=
  (∀ s ∈ sessions, s.agentId ∈ agents ∧
    ∀ id ∈ s.activeOperationId, OwnsOperation operations s.sessionId id) ∧
  (∀ c ∈ commands, c.sessionId ∈ sessions.map SessionRow.sessionId) ∧
  (∀ o ∈ operations, o.sessionId ∈ sessions.map SessionRow.sessionId ∧
    ∃ c ∈ commands, c.commandId = o.commandId ∧ c.sessionId = o.sessionId) ∧
  (∀ e ∈ events, e.sessionId ∈ sessions.map SessionRow.sessionId ∧
    OwnsOperation operations e.sessionId e.operationId) ∧
  ∀ r ∈ requests, OwnsOperation operations r.sessionId r.operationId

instance (agents : List AgentId) (sessions : List SessionRow) (commands : List (CommandRow V))
    (operations : List OperationKey) (events : List (EventRow V))
    (requests : List CancellationRow) :
    Decidable (SharedKeys agents sessions commands operations events requests) := by
  unfold SharedKeys
  infer_instance

/-- The foreign keys between operations, their batches and the batches' children. -/
def BatchKeys (operations : List (OperationRow V)) (batches : List EffectBatchRow)
    (children : List EffectBatchId) : Prop :=
  (∀ o ∈ operations, (∀ id ∈ o.currentEffectBatchId,
      ∃ b ∈ batches, b.batchId = id ∧ b.operationId = o.operationId) ∧
    ∀ id ∈ o.inputEffectBatchId, ∃ b ∈ batches, b.batchId = id ∧ b.operationId = o.operationId) ∧
  (∀ b ∈ batches, b.operationId ∈ operations.map OperationRow.operationId) ∧
  ∀ id ∈ children, id ∈ batches.map EffectBatchRow.batchId

instance (operations : List (OperationRow V)) (batches : List EffectBatchRow)
    (children : List EffectBatchId) : Decidable (BatchKeys operations batches children) := by
  unfold BatchKeys
  infer_instance

namespace DatabaseV2

/-- The foreign keys of versions 1 and 2. -/
def ForeignKeys (d : DatabaseV2 V) : Prop :=
  SharedKeys d.agents.rows d.sessions.rows d.commands.rows
      (d.operations.rows.map OperationRowV2.key) d.semanticEvents.rows
      d.cancellationRequests.rows ∧
    ∀ e ∈ d.effects.rows, e.operationId ∈ d.operations.rows.map OperationRowV2.operationId

instance (d : DatabaseV2 V) : Decidable d.ForeignKeys := by
  unfold ForeignKeys
  infer_instance

end DatabaseV2

namespace DatabaseV3

/-- The foreign keys of version 3. -/
def ForeignKeys (d : DatabaseV3 V) : Prop :=
  SharedKeys d.agents.rows d.sessions.rows d.commands.rows
      (d.operations.rows.map OperationRow.key) d.semanticEvents.rows d.cancellationRequests.rows ∧
    BatchKeys d.operations.rows d.effectBatches.rows (d.effects.rows.map EffectRowV3.batchId)

instance (d : DatabaseV3 V) : Decidable d.ForeignKeys := by
  unfold ForeignKeys
  infer_instance

end DatabaseV3

namespace Database

/-- The foreign keys of version 4. -/
def ForeignKeys (db : Database V) : Prop :=
  SharedKeys db.agents.rows db.sessions.rows db.commands.rows
      (db.operations.rows.map OperationRow.key) db.semanticEvents.rows
      db.cancellationRequests.rows ∧
    BatchKeys db.operations.rows db.effectBatches.rows (db.effects.rows.map EffectRow.batchId)

instance (db : Database V) : Decidable db.ForeignKeys := by
  unfold ForeignKeys
  infer_instance

end Database

/-- `validate_foreign_keys`; the rest of the message is the violated row as SQLite reports it. -/
def validateForeignKeys (holds : Bool) : Except KernelError Unit :=
  ensure holds (.corrupt "foreign-key violation")

/-- `validate_database`, on the state versions of the operations and the foreign keys. -/
def validateDatabase (versions : List Nat) (foreignKeys : Bool) : Except KernelError Unit := do
  validateOperationVersions versions
  validateForeignKeys foreignKeys

/-! ## Database files -/

variable (V) in
/-- A database of an earlier version. -/
inductive OldDatabase where
  | v1 (d : DatabaseV1 V)
  | v2 (d : DatabaseV2 V)
  | v3 (d : DatabaseV3 V)

variable (V) in
/-- A database file by its stored version: a new file has version 0. `installed` says that the
view and the trigger that release finished requests are there. -/
inductive Stored where
  | new
  | old (d : OldDatabase V)
  | current (db : Database V) (installed : Bool)
  | newer (version : Nat)

namespace OldDatabase

/-- The checks before the migrations. Version 1 has the foreign keys of version 2, and no
cancellation request to check. -/
def validate : OldDatabase V → Except KernelError Unit
  | .v1 d => validateDatabase (d.operations.rows.map OperationRowV2.stateVersion)
      (decide d.migrateV1ToV2.ForeignKeys)
  | .v2 d => validateDatabase (d.operations.rows.map OperationRowV2.stateVersion)
      (decide d.ForeignKeys)
  | .v3 d => validateDatabase (d.operations.rows.map OperationRow.stateVersion)
      (decide d.ForeignKeys)

/-- The migrations from the stored version to the current one. -/
def upgrade : OldDatabase V → Database V
  | .v1 d => d.migrateV1ToV2.migrateV2ToV3.migrateV3ToV4
  | .v2 d => d.migrateV2ToV3.migrateV3ToV4
  | .v3 d => d.migrateV3ToV4

/-- The file after the next migration has committed. -/
def migrate : OldDatabase V → Stored V
  | .v1 d => .old (.v2 d.migrateV1ToV2)
  | .v2 d => .old (.v3 d.migrateV2ToV3)
  | .v3 d => .current d.migrateV3ToV4 true

end OldDatabase

/-- `validate_current`. -/
def validateCurrent (db : Database V) (installed : Bool) : Except KernelError Unit := do
  validateDatabase (db.operations.rows.map OperationRow.stateVersion) (decide db.ForeignKeys)
  ensure installed (.corrupt "the release of finished effect requests is not installed")

namespace Stored

/-- `schema::initialize`, with the database that is open afterwards. -/
def initializeDatabase : Stored V → Except KernelError (Database V)
  | .newer version => .error (.unsupportedSchema version schemaVersion)
  | .current db installed => do
    validateCurrent db installed
    pure db
  | .old d => do
    d.validate
    validateCurrent d.upgrade true
    pure d.upgrade
  | .new => do
    validateCurrent (Database.empty (V := V)) true
    pure .empty

/-- The file after the next transaction of `initializeDatabase` has committed. -/
def migrated : Stored V → Stored V
  | .new => .current .empty true
  | .old d => d.migrate
  | .current db installed => .current db installed
  | .newer version => .newer version

end Stored

end Renoa.Kernel
