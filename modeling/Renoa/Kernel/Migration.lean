import Renoa.Kernel.Schema

/-!
# Migration keeps the meaning of a database

`Meaning` says what a database holds without reference to a layout: every operation with its
batches, every batch with its children, and every pointer as the batch it points to. Each layout
has its own reading; in versions 1 and 2 an effect is read as a batch with one child.

The first two migrations keep the meaning, and the last one changes it in one way only: a batch
whose children are all settled loses their requests once its operation has ended
(`Meaning.released`). An interrupted upgrade leaves a valid file of a later version with the same
final database, so the next process ends where the first one would have.
-/

namespace Renoa.Kernel

open Foundation List Table Database Function

/-! ## Meaning -/

section Meaning

variable (V : Type)

structure EffectMeaning where
  effectId : EffectId
  position : Nat
  binding : String
  bindingRevision : String
  recovery : EffectRecovery
  request : Option V
  status : EffectStatus
  dispatchCount : Nat
  outcome : Option (EffectOutcome V)

structure BatchMeaning where
  batchId : EffectBatchId
  position : Nat
  effects : List (EffectMeaning V)

/-- An operation with its batches; the pointers are given as the batches they point to. -/
structure OperationMeaning where
  operationId : OperationId
  sessionId : SessionId
  commandId : CommandId
  position : Nat
  phase : OperationPhase
  stateVersion : Nat
  transitionVersion : Nat
  manifest : Option RuntimeManifest
  checkpoint : Option (Checkpoint V)
  outcome : Option OperationOutcome
  nextBatchPosition : Nat
  batches : List (BatchMeaning V)
  current : Option (BatchMeaning V)
  input : Option (BatchMeaning V)

/-- What a kernel database holds, in any layout. -/
structure Meaning where
  agents : List AgentId
  sessions : List SessionRow
  commands : List (CommandRow V)
  operations : List (OperationMeaning V)
  events : List (EventRow V)
  cancellations : List CancellationRow

end Meaning

variable {V : Type} {db : Database V} {o : OperationRow V} {d : OldDatabase V}

/-! ## Released requests -/

def EffectMeaning.withoutRequest (e : EffectMeaning V) : EffectMeaning V :=
  { e with request := none }

/-- The batch after the release of its requests, if all its children are settled. -/
def BatchMeaning.released (b : BatchMeaning V) : BatchMeaning V :=
  if b.effects.all fun e => e.status = .settled then
    { b with effects := b.effects.map EffectMeaning.withoutRequest }
  else b

/-- The operation after the release of its finished requests, if it has ended. -/
def OperationMeaning.released (o : OperationMeaning V) : OperationMeaning V :=
  if o.outcome.isSome then
    { o with
      batches := o.batches.map BatchMeaning.released
      current := o.current.map BatchMeaning.released
      input := o.input.map BatchMeaning.released }
  else o

def Meaning.released (m : Meaning V) : Meaning V :=
  { m with operations := m.operations.map OperationMeaning.released }

/-! ## The readings of the layouts -/

/-- A single effect is read as a batch with one child, at the effect's position. -/
def EffectRowV2.meaning (e : EffectRowV2 V) : BatchMeaning V where
  batchId := e.effectId.asBatchId
  position := e.position
  effects := [{ e with position := 0, request := some e.request }]

def EffectRowV3.meaning (e : EffectRowV3 V) : EffectMeaning V :=
  { e with request := some e.request }

def EffectRow.meaning (e : EffectRow V) : EffectMeaning V := { e with }

/-- In versions 1 and 2 a pointer names the effect, so it points to the batch that holds it. -/
def OperationRowV2.meaning (o : OperationRowV2 V) (batches : List (BatchMeaning V)) :
    OperationMeaning V :=
  { o with
    nextBatchPosition := o.nextEffectPosition
    batches
    current := o.currentEffectId.bind fun id =>
      batches.find? fun b => b.effects.any fun e => e.effectId = id
    input := o.inputEffectId.bind fun id =>
      batches.find? fun b => b.effects.any fun e => e.effectId = id }

def OperationRow.meaning (o : OperationRow V) (batches : List (BatchMeaning V)) :
    OperationMeaning V :=
  { o with
    nextBatchPosition := o.nextEffectBatchPosition
    batches
    current := o.currentEffectBatchId.bind fun id => batches.find? fun b => b.batchId = id
    input := o.inputEffectBatchId.bind fun id => batches.find? fun b => b.batchId = id }

namespace DatabaseV1

/-- The single effects of an operation, as batches. -/
def batchMeanings (d : DatabaseV1 V) (operationId : OperationId) : List (BatchMeaning V) :=
  (d.effects.rows.filter fun e => e.operationId = operationId).map EffectRowV2.meaning

def meaning (d : DatabaseV1 V) : Meaning V where
  agents := d.agents.rows
  sessions := d.sessions.rows
  commands := d.commands.rows
  operations := d.operations.rows.map fun o => o.meaning (d.batchMeanings o.operationId)
  events := d.semanticEvents.rows
  cancellations := []

end DatabaseV1

def DatabaseV2.meaning (d : DatabaseV2 V) : Meaning V :=
  { d.toDatabaseV1.meaning with cancellations := d.cancellationRequests.rows }

namespace DatabaseV3

def batchMeaning (d : DatabaseV3 V) (b : EffectBatchRow) : BatchMeaning V where
  __ := b
  effects := (d.effects.rows.filter fun e => e.batchId = b.batchId).map EffectRowV3.meaning

def batchMeanings (d : DatabaseV3 V) (operationId : OperationId) : List (BatchMeaning V) :=
  (d.effectBatches.rows.filter fun b => b.operationId = operationId).map d.batchMeaning

def meaning (d : DatabaseV3 V) : Meaning V where
  agents := d.agents.rows
  sessions := d.sessions.rows
  commands := d.commands.rows
  operations := d.operations.rows.map fun o => o.meaning (d.batchMeanings o.operationId)
  events := d.semanticEvents.rows
  cancellations := d.cancellationRequests.rows

end DatabaseV3

namespace Database

def batchMeaning (db : Database V) (b : EffectBatchRow) : BatchMeaning V where
  __ := b
  effects := (db.childrenOf b.batchId).map EffectRow.meaning

def batchMeanings (db : Database V) (operationId : OperationId) : List (BatchMeaning V) :=
  (db.batchesOf operationId).map db.batchMeaning

def meaning (db : Database V) : Meaning V where
  agents := db.agents.rows
  sessions := db.sessions.rows
  commands := db.commands.rows
  operations := db.operations.rows.map fun o => o.meaning (db.batchMeanings o.operationId)
  events := db.semanticEvents.rows
  cancellations := db.cancellationRequests.rows

end Database

def OldDatabase.meaning : OldDatabase V → Meaning V
  | .v1 d => d.meaning
  | .v2 d => d.meaning
  | .v3 d => d.meaning

/-! ## From single effects to batches -/

/-- A pointer to a single effect and the pointer to its batch point to the same batch. -/
theorem find?_single (effs : List (EffectRowV2 V)) (id : EffectId) :
    (effs.map EffectRowV2.meaning).find? (fun b => decide (b.batchId = id.asBatchId)) =
      (effs.map EffectRowV2.meaning).find? fun b => b.effects.any fun e => e.effectId = id := by
  have hsame : (fun b : BatchMeaning V => decide (b.batchId = id.asBatchId)) ∘ EffectRowV2.meaning =
        (fun b : BatchMeaning V => b.effects.any fun e => decide (e.effectId = id)) ∘
          EffectRowV2.meaning := by
    funext e
    simp [EffectRowV2.meaning, EffectId.asBatchId_injective.eq_iff]
  rw [find?_map, find?_map, hsame]

theorem OperationRowV2.meaning_toV3 (o : OperationRowV2 V) (effs : List (EffectRowV2 V)) :
    o.toV3.meaning (effs.map EffectRowV2.meaning) =
      o.meaning (effs.map EffectRowV2.meaning) := by
  have hptr : ∀ pointer : Option EffectId, ((pointer.map EffectId.asBatchId).bind fun id =>
        (effs.map EffectRowV2.meaning).find? fun b => b.batchId = id) =
      pointer.bind fun id =>
        (effs.map EffectRowV2.meaning).find? fun b => b.effects.any fun e => e.effectId = id := by
    intro pointer
    cases pointer with
    | none => rfl
    | some id => exact find?_single effs id
  unfold OperationRow.meaning OperationRowV2.meaning
  congr 1
  · exact hptr o.currentEffectId
  · exact hptr o.inputEffectId

/-- The batch made for a single effect has that effect as its only child. -/
theorem DatabaseV2.batchMeaning_toBatch (d : DatabaseV2 V) {e : EffectRowV2 V}
    (he : e ∈ d.effects) : d.migrateV2ToV3.batchMeaning e.toBatch = e.meaning := by
  have hsame : (fun q : EffectRowV3 V => decide (q.batchId = e.toBatch.batchId)) ∘
      EffectRowV2.toV3 = fun q : EffectRowV2 V => decide (q.effectId = e.effectId) := by
    funext q
    exact decide_eq_decide.mpr EffectId.asBatchId_injective.eq_iff
  have hkids : d.migrateV2ToV3.effects.rows.filter
      (fun q => decide (q.batchId = e.toBatch.batchId)) = [e.toV3] := by
    show (d.effects.rows.map EffectRowV2.toV3).filter _ = _
    rw [filter_map, hsame, filter_key_eq he]
    rfl
  unfold DatabaseV3.batchMeaning
  rw [hkids]
  rfl

theorem DatabaseV2.batchMeanings_migrate (d : DatabaseV2 V) (opId : OperationId) :
    d.migrateV2ToV3.batchMeanings opId = d.batchMeanings opId := by
  show ((d.effects.rows.map EffectRowV2.toBatch).filter
    fun b => decide (b.operationId = opId)).map _ = _
  rw [filter_map, map_map]
  refine map_congr_left fun e he => ?_
  exact d.batchMeaning_toBatch (mem_filter.mp he).1

/-- The migration from version 2 to version 3 keeps the meaning. -/
theorem DatabaseV2.meaning_migrate (d : DatabaseV2 V) : d.migrateV2ToV3.meaning = d.meaning := by
  have hops : (d.operations.rows.map OperationRowV2.toV3).map (fun o =>
        o.meaning (d.migrateV2ToV3.batchMeanings o.operationId)) =
      d.operations.rows.map fun o => o.meaning (d.batchMeanings o.operationId) := by
    rw [map_map]
    refine map_congr_left fun o _ => ?_
    show o.toV3.meaning (d.migrateV2ToV3.batchMeanings o.operationId) = _
    rw [d.batchMeanings_migrate]
    exact o.meaning_toV3 _
  unfold DatabaseV3.meaning DatabaseV2.meaning DatabaseV1.meaning
  congr 1

/-! ## The release of finished requests -/

theorem EffectRow.meaning_releaseAny (db : Database V) (e : EffectRow V) :
    (db.releaseAny e).meaning =
      if db.finishedEffectRequests e then e.meaning.withoutRequest else e.meaning := by
  unfold Database.releaseAny
  split <;> rfl

theorem Database.childrenOf_releaseAll (db : Database V) (bid : EffectBatchId) :
    db.releaseAll.childrenOf bid = (db.childrenOf bid).map db.releaseAny := by
  have hsame : (fun e : EffectRow V => decide (e.batchId = bid)) ∘ db.releaseAny =
      fun e : EffectRow V => decide (e.batchId = bid) := by
    funext e
    show decide ((db.releaseAny e).batchId = bid) = _
    unfold Database.releaseAny
    split <;> rfl
  show (db.effects.rows.map db.releaseAny).filter _ = _
  rw [filter_map, hsame]
  rfl

/-- The view for a child of an operation's batch: the operation has an outcome, every child of the
batch is settled and the request is still there. -/
theorem Database.finishedEffectRequests_iff {b : EffectBatchRow} {e : EffectRow V}
    (ho : o ∈ db.operations) (hb : b ∈ db.effectBatches) (hbo : b.operationId = o.operationId)
    (he : e ∈ db.childrenOf b.batchId) :
    db.finishedEffectRequests e = true ↔ o.outcome.isSome = true ∧
      (∀ q ∈ db.childrenOf b.batchId, q.status = .settled) ∧ e.request.isSome = true := by
  have hbat : e.batchId = b.batchId := of_decide_eq_true (mem_filter.mp he).2
  have hfind : (db.operations.find? o.operationId).bind OperationRow.outcome = o.outcome := by
    rw [find?_of_mem ho]
    rfl
  -- only the operation that owns the batch can put its children into the view
  have hview : db.finishedEffectRequests e = true ↔
      db.finishedEffectRequest o.operationId e = true := by
    unfold Database.finishedEffectRequests
    rw [any_eq_true]
    constructor
    · rintro ⟨o', ho', hfin⟩
      have howned : ((db.batchesOf o'.operationId).any
          fun batch => decide (batch.batchId = e.batchId)) = true := by
        unfold Database.finishedEffectRequest at hfin
        simp only [Bool.and_eq_true] at hfin
        exact hfin.1.1.1.1
      obtain ⟨b', hb', hid⟩ := any_eq_true.mp howned
      obtain ⟨hb', hb'o⟩ := mem_filter.mp hb'
      have hsame : b' = b := key_inj hb' hb ((of_decide_eq_true hid).trans hbat)
      have hoid : o'.operationId = o.operationId := by rw [← of_decide_eq_true hb'o, hsame, hbo]
      rwa [hoid] at hfin
    · intro hfin
      exact ⟨o, ho, hfin⟩
  have howned : ((db.batchesOf o.operationId).any
      fun batch => decide (batch.batchId = e.batchId)) = true :=
    any_eq_true.mpr ⟨b, mem_filter.mpr ⟨hb, decide_eq_true hbo⟩, decide_eq_true hbat.symm⟩
  rw [hview]
  unfold Database.finishedEffectRequest
  rw [howned, hfind, hbat]
  simp only [Bool.true_and, Bool.and_eq_true, decide_eq_true_eq, all_eq_true]
  constructor
  · rintro ⟨⟨⟨hout, _⟩, hreq⟩, hdone⟩
    exact ⟨hout, hdone, hreq⟩
  · rintro ⟨hout, hdone, hreq⟩
    exact ⟨⟨⟨hout, hdone e he⟩, hreq⟩, hdone⟩

theorem EffectMeaning.withoutRequest_of_none {e : EffectMeaning V} (h : e.request = none) :
    e.withoutRequest = e := by
  cases e
  cases h
  rfl

theorem Database.batchMeaning_releaseAll {b : EffectBatchRow} (ho : o ∈ db.operations)
    (hb : b ∈ db.effectBatches) (hbo : b.operationId = o.operationId) :
    db.releaseAll.batchMeaning b =
      if o.outcome.isSome then (db.batchMeaning b).released else db.batchMeaning b := by
  have hch : ∀ e ∈ db.childrenOf b.batchId, (db.releaseAny e).meaning =
      if o.outcome.isSome = true ∧ ∀ q ∈ db.childrenOf b.batchId, q.status = .settled then
        e.meaning.withoutRequest else e.meaning := by
    intro e he
    have hiff := finishedEffectRequests_iff ho hb hbo he
    rw [EffectRow.meaning_releaseAny]
    by_cases hreq : e.request.isSome = true
    · simp only [hreq, and_true] at hiff
      simp only [hiff]
    · have hnone : e.meaning.request = none := Option.not_isSome_iff_eq_none.mp hreq
      simp only [EffectMeaning.withoutRequest_of_none hnone, ite_self]
  have hall : ((db.batchMeaning b).effects.all fun e => decide (e.status = .settled)) =
      decide (∀ q ∈ db.childrenOf b.batchId, q.status = .settled) := by
    rw [Bool.eq_iff_iff, all_eq_true, decide_eq_true_eq]
    show (∀ e ∈ (db.childrenOf b.batchId).map EffectRow.meaning, _) ↔ _
    rw [forall_mem_map]
    exact forall₂_congr fun e _ => decide_eq_true_iff
  have heffs : (db.releaseAll.childrenOf b.batchId).map EffectRow.meaning =
      if o.outcome.isSome = true ∧ ∀ q ∈ db.childrenOf b.batchId, q.status = .settled then
        ((db.childrenOf b.batchId).map EffectRow.meaning).map EffectMeaning.withoutRequest
      else (db.childrenOf b.batchId).map EffectRow.meaning := by
    rw [db.childrenOf_releaseAll, map_map, map_map]
    split
    next hrel =>
      refine map_congr_left fun e he => ?_
      rw [comp_apply, hch e he, if_pos hrel]
      rfl
    next hkept =>
      refine map_congr_left fun e he => ?_
      rw [comp_apply, hch e he, if_neg hkept]
  have hbat : db.releaseAll.batchMeaning b = { db.batchMeaning b with
        effects := (db.releaseAll.childrenOf b.batchId).map EffectRow.meaning } := rfl
  rw [hbat, heffs]
  unfold BatchMeaning.released
  rw [hall]
  by_cases hout : o.outcome.isSome = true
  · by_cases hdone : ∀ q ∈ db.childrenOf b.batchId, q.status = .settled
    · rw [if_pos ⟨hout, hdone⟩, if_pos hout, if_pos (decide_eq_true hdone)]
      rfl
    · rw [if_neg (fun h => hdone h.2), if_pos hout, if_neg (fun h => hdone (of_decide_eq_true h))]
      rfl
  · rw [if_neg (fun h => hout h.1), if_neg hout]
    rfl

theorem BatchMeaning.released_batchId (b : BatchMeaning V) : b.released.batchId = b.batchId := by
  unfold BatchMeaning.released
  split <;> rfl

/-- An ended operation read with released batches is the released operation. -/
theorem OperationRow.meaning_released (hout : o.outcome.isSome = true)
    (batches : List (BatchMeaning V)) :
    o.meaning (batches.map BatchMeaning.released) = (o.meaning batches).released := by
  have hfind : ∀ id : EffectBatchId,
      (batches.map BatchMeaning.released).find? (fun b => decide (b.batchId = id)) =
        (batches.find? fun b => decide (b.batchId = id)).map BatchMeaning.released := by
    intro id
    have hsame : (fun b : BatchMeaning V => decide (b.batchId = id)) ∘ BatchMeaning.released =
        fun b : BatchMeaning V => decide (b.batchId = id) := by
      funext b
      show decide (b.released.batchId = id) = _
      rw [BatchMeaning.released_batchId]
    rw [find?_map, hsame]
  have hptr : ∀ pointer : Option EffectBatchId,
      (pointer.bind fun id => (batches.map BatchMeaning.released).find? fun b => b.batchId = id) =
      (pointer.bind fun id => batches.find? fun b => b.batchId = id).map
        BatchMeaning.released := by
    intro pointer
    cases pointer with
    | none => rfl
    | some id => exact hfind id
  have hend : (o.meaning batches).outcome.isSome = true := hout
  unfold OperationMeaning.released
  rw [if_pos hend]
  unfold OperationRow.meaning
  congr 1
  · exact hptr o.currentEffectBatchId
  · exact hptr o.inputEffectBatchId

/-- Releasing every finished request is the release of the meaning. -/
theorem Database.meaning_releaseAll (db : Database V) :
    db.releaseAll.meaning = db.meaning.released := by
  have hop : ∀ o ∈ db.operations.rows, o.meaning (db.releaseAll.batchMeanings o.operationId) =
        (o.meaning (db.batchMeanings o.operationId)).released := by
    intro o ho
    have hbats : db.releaseAll.batchMeanings o.operationId =
        (db.batchesOf o.operationId).map fun b =>
          if o.outcome.isSome then (db.batchMeaning b).released else db.batchMeaning b := by
      refine map_congr_left fun b hb => ?_
      obtain ⟨hb, hbo⟩ := mem_filter.mp hb
      exact batchMeaning_releaseAll ho hb (of_decide_eq_true hbo)
    rw [hbats]
    by_cases hout : o.outcome.isSome = true
    · simp only [hout]
      rw [← OperationRow.meaning_released hout]
      unfold Database.batchMeanings
      rw [map_map]
      rfl
    · have hkept : (o.meaning (db.batchMeanings o.operationId)).released =
          o.meaning (db.batchMeanings o.operationId) := if_neg hout
      simp only [hout, hkept]
      rfl
  have hops : db.operations.rows.map (fun o =>
        o.meaning (db.releaseAll.batchMeanings o.operationId)) =
      (db.operations.rows.map fun o => o.meaning (db.batchMeanings o.operationId)).map
        OperationMeaning.released := by
    rw [map_map]
    exact map_congr_left hop
  unfold Database.meaning Meaning.released
  congr 1

theorem DatabaseV3.meaning_toV4 (d : DatabaseV3 V) : d.toV4.meaning = d.meaning := by
  have hkids : ∀ bid : EffectBatchId, (d.toV4.childrenOf bid).map EffectRow.meaning =
        (d.effects.rows.filter fun e => e.batchId = bid).map EffectRowV3.meaning := by
    intro bid
    show ((d.effects.rows.map EffectRowV3.toV4).filter _).map _ = _
    rw [filter_map, map_map]
    rfl
  have hbat : d.toV4.batchMeaning = d.batchMeaning := by
    funext b
    unfold Database.batchMeaning DatabaseV3.batchMeaning
    rw [hkids]
  unfold Database.meaning DatabaseV3.meaning Database.batchMeanings
  rw [hbat]
  rfl

/-- The migration from version 3 to version 4 releases finished requests and keeps the rest. -/
theorem DatabaseV3.meaning_migrate (d : DatabaseV3 V) :
    d.migrateV3ToV4.meaning = d.meaning.released := by
  unfold DatabaseV3.migrateV3ToV4
  rw [meaning_releaseAll, d.meaning_toV4]

/-- The whole upgrade releases finished requests and keeps the rest. -/
theorem OldDatabase.meaning_upgrade (d : OldDatabase V) :
    d.upgrade.meaning = d.meaning.released := by
  cases d with
  | v1 d =>
    show d.migrateV1ToV2.migrateV2ToV3.migrateV3ToV4.meaning = _
    rw [DatabaseV3.meaning_migrate, DatabaseV2.meaning_migrate]
    rfl
  | v2 d =>
    show d.migrateV2ToV3.migrateV3ToV4.meaning = _
    rw [DatabaseV3.meaning_migrate, DatabaseV2.meaning_migrate]
    rfl
  | v3 d => exact d.meaning_migrate

/-! ## Valid databases -/

/-- The effect pointers of versions 1 and 2, for which these layouts have no foreign key, name
effects of their operations. -/
def DatabaseV1.PointersOwned (d : DatabaseV1 V) : Prop :=
  ∀ o ∈ d.operations.rows,
    (∀ id ∈ o.currentEffectId, ∃ e ∈ d.effects.rows, e.effectId = id ∧
      e.operationId = o.operationId) ∧
    ∀ id ∈ o.inputEffectId, ∃ e ∈ d.effects.rows, e.effectId = id ∧ e.operationId = o.operationId

/-- Every operation has the state version of this kernel, and every reference is met. -/
def OldDatabase.Valid : OldDatabase V → Prop
  | .v1 d => (∀ o ∈ d.operations.rows, o.stateVersion = operationStateVersion) ∧
      d.migrateV1ToV2.ForeignKeys ∧ d.PointersOwned
  | .v2 d => (∀ o ∈ d.operations.rows, o.stateVersion = operationStateVersion) ∧
      d.ForeignKeys ∧ d.PointersOwned
  | .v3 d => (∀ o ∈ d.operations.rows, o.stateVersion = operationStateVersion) ∧ d.ForeignKeys

theorem validateDatabase_of {versions : List Nat} {keys : Prop} [Decidable keys]
    (hvers : ∀ version ∈ versions, version = operationStateVersion) (hkeys : keys) :
    validateDatabase versions (decide keys) = .ok () := by
  have hnone : (versions.find? fun version => version ≠ operationStateVersion) = none := by
    rw [find?_eq_none]
    intro version hver
    simp [hvers version hver]
  unfold validateDatabase validateOperationVersions
  rw [hnone]
  exact ensure_of_eq_true (decide_eq_true hkeys)

/-- The foreign keys of version 3 hold after the migration. -/
theorem DatabaseV2.foreignKeys_migrate {d : DatabaseV2 V} (hkeys : d.ForeignKeys)
    (howned : d.PointersOwned) : d.migrateV2ToV3.ForeignKeys := by
  obtain ⟨hshared, heffs⟩ := hkeys
  have hptr : ∀ (o : OperationRowV2 V) (pointer : Option EffectId),
      (∀ id ∈ pointer, ∃ e ∈ d.effects.rows, e.effectId = id ∧ e.operationId = o.operationId) →
      ∀ id ∈ pointer.map EffectId.asBatchId, ∃ b ∈ d.migrateV2ToV3.effectBatches.rows,
        b.batchId = id ∧ b.operationId = o.operationId := by
    intro o pointer hptr id hid
    obtain ⟨eid, heffectId, rfl⟩ := Option.map_eq_some_iff.mp hid
    obtain ⟨e, he, rfl, hop⟩ := hptr eid heffectId
    exact ⟨e.toBatch, mem_map_of_mem he, rfl, hop⟩
  refine ⟨?_, ?_, ?_, ?_⟩
  · have hkeys : d.migrateV2ToV3.operations.rows.map OperationRow.key =
        d.operations.rows.map OperationRowV2.key := by
      show (d.operations.rows.map OperationRowV2.toV3).map OperationRow.key = _
      rw [map_map]
      rfl
    rw [hkeys]
    exact hshared
  · intro o' ho'
    obtain ⟨o, ho, rfl⟩ := mem_map.mp ho'
    exact ⟨hptr o o.currentEffectId (howned o ho).1, hptr o o.inputEffectId (howned o ho).2⟩
  · intro b hb
    obtain ⟨e, he, rfl⟩ := mem_map.mp hb
    have hids : d.migrateV2ToV3.operations.rows.map OperationRow.operationId =
        d.operations.rows.map OperationRowV2.operationId := by
      show (d.operations.rows.map OperationRowV2.toV3).map OperationRow.operationId = _
      rw [map_map]
      rfl
    rw [hids]
    exact heffs e he
  · intro id hid
    obtain ⟨q, hq, rfl⟩ := mem_map.mp hid
    obtain ⟨e, he, rfl⟩ := mem_map.mp hq
    exact mem_map_of_mem (mem_map_of_mem he)

/-- The foreign keys of version 4 hold after the migration. -/
theorem DatabaseV3.foreignKeys_migrate {d : DatabaseV3 V} (hkeys : d.ForeignKeys) :
    d.migrateV3ToV4.ForeignKeys := by
  obtain ⟨hshared, hpointers, hbats, hkids⟩ := hkeys
  refine ⟨hshared, hpointers, hbats, ?_⟩
  intro id hid
  obtain ⟨e', he', rfl⟩ := mem_map.mp hid
  obtain ⟨q, hq, rfl⟩ := mem_map.mp he'
  obtain ⟨e, he, rfl⟩ := mem_map.mp hq
  have hbat : (d.toV4.releaseAny e.toV4).batchId = e.batchId := by
    unfold Database.releaseAny
    split <;> rfl
  rw [hbat]
  exact hkids _ (mem_map_of_mem he)

namespace OldDatabase

theorem valid_migrateV2ToV3 {d : DatabaseV2 V} (h : (OldDatabase.v2 d).Valid) :
    (OldDatabase.v3 d.migrateV2ToV3).Valid := by
  obtain ⟨hvers, hkeys, howned⟩ := h
  refine ⟨?_, DatabaseV2.foreignKeys_migrate hkeys howned⟩
  intro o' ho'
  obtain ⟨o, ho, rfl⟩ := mem_map.mp ho'
  exact hvers o ho

theorem validate_of_valid (h : d.Valid) : d.validate = .ok () := by
  cases d with
  | v1 d | v2 d =>
    obtain ⟨hvers, hkeys, _⟩ := h
    exact validateDatabase_of (forall_mem_map.mpr hvers) hkeys
  | v3 d =>
    obtain ⟨hvers, hkeys⟩ := h
    exact validateDatabase_of (forall_mem_map.mpr hvers) hkeys

/-- What a committed migration of a valid database leaves: a valid database of the next version
with the same upgrade, or the upgraded database itself. -/
theorem migrate_valid (h : d.Valid) :
    (∃ d' : OldDatabase V, d.migrate = .old d' ∧ d'.Valid ∧ d'.upgrade = d.upgrade) ∨
      d.migrate = .current d.upgrade true := by
  cases d with
  | v1 d => exact .inl ⟨.v2 d.migrateV1ToV2, rfl, h, rfl⟩
  | v2 d => exact .inl ⟨.v3 d.migrateV2ToV3, rfl, valid_migrateV2ToV3 h, rfl⟩
  | v3 d => exact .inr rfl

theorem validateCurrent_upgrade (h : d.Valid) : validateCurrent d.upgrade true = .ok () := by
  -- every version reaches version 3 as a valid database with the same upgrade
  have hv3 : ∃ d₃ : DatabaseV3 V, (OldDatabase.v3 d₃).Valid ∧ d.upgrade = d₃.migrateV3ToV4 := by
    cases d with
    | v1 d => exact ⟨d.migrateV1ToV2.migrateV2ToV3, valid_migrateV2ToV3 h, rfl⟩
    | v2 d => exact ⟨d.migrateV2ToV3, valid_migrateV2ToV3 h, rfl⟩
    | v3 d => exact ⟨d, h, rfl⟩
  obtain ⟨d₃, ⟨hvers, hkeys⟩, hupgrade⟩ := hv3
  rw [hupgrade]
  exact bind_eq_ok.mpr ⟨(), validateDatabase_of (forall_mem_map.mpr hvers)
    (DatabaseV3.foreignKeys_migrate hkeys), rfl⟩

end OldDatabase

/-! ## Interrupted upgrades -/

namespace Stored

/-- A file on the way to the database `db`: a valid older database whose upgrade is `db`, or
`db` itself. -/
inductive LeadsTo (db : Database V) : Stored V → Prop
  | old {d : OldDatabase V} (hvalid : d.Valid) (hupgrade : d.upgrade = db) : LeadsTo db (.old d)
  | current : LeadsTo db (.current db true)

/-- A file that leads to a database opens as that database, if a valid upgrade ends there. -/
theorem LeadsTo.initializeDatabase {s : Stored V} (h : LeadsTo db s)
    (hcur : validateCurrent db true = .ok ()) : s.initializeDatabase = .ok db := by
  cases h with
  | old hval hupgrade =>
    refine bind_eq_ok.mpr ⟨(), OldDatabase.validate_of_valid hval, ?_⟩
    rw [hupgrade]
    exact bind_eq_ok.mpr ⟨(), hcur, rfl⟩
  | current => exact bind_eq_ok.mpr ⟨(), hcur, rfl⟩

theorem LeadsTo.migrated {s : Stored V} (h : LeadsTo db s) : LeadsTo db s.migrated := by
  cases h with
  | @old d hval hupgrade =>
    show LeadsTo db d.migrate
    obtain ⟨d', hmigrate, hvalid', hsame⟩ | hmigrate := OldDatabase.migrate_valid hval
    · rw [hmigrate]
      exact .old hvalid' (hsame.trans hupgrade)
    · rw [hmigrate, hupgrade]
      exact .current
  | current => exact .current

/-- Every file that an upgrade passes through leads to the same database. -/
theorem LeadsTo.iterate {s : Stored V} (h : LeadsTo db s) (steps : Nat) :
    LeadsTo db (Stored.migrated^[steps] s) := by
  induction steps with
  | zero => exact h
  | succ steps ih =>
    rw [iterate_succ_apply']
    exact ih.migrated

end Stored

theorem OldDatabase.migrated_three (d : OldDatabase V) :
    Stored.migrated^[3] (.old d) = .current d.upgrade true := by
  cases d <;> rfl

/-- **Migration keeps the meaning and can be interrupted.** A valid database of version 1, 2 or 3
opens as a database of the current version that means the same, up to the requests that are
released. A process that stops after any number of committed migrations leaves a file that opens
as the very same database. -/
theorem migration_restartable (d : OldDatabase V) (h : d.Valid) :
    ∃ db, (Stored.old d).initializeDatabase = .ok db ∧
      Stored.migrated^[3] (.old d) = .current db true ∧
      db.meaning = d.meaning.released ∧
      ∀ steps, (Stored.migrated^[steps] (.old d)).initializeDatabase = .ok db := by
  have hcurrent := OldDatabase.validateCurrent_upgrade h
  have hleads : Stored.LeadsTo d.upgrade (.old d) := .old h rfl
  exact ⟨d.upgrade, hleads.initializeDatabase hcurrent, d.migrated_three, d.meaning_upgrade,
    fun steps => (hleads.iterate steps).initializeDatabase hcurrent⟩

/-- A finished operation of version 2 with one settled effect. -/
def finishedOperationV2 : OperationRowV2 Nat where
  operationId := ⟨4⟩
  sessionId := ⟨2⟩
  commandId := ⟨3⟩
  position := 0
  phase := .completed
  stateVersion := 1
  transitionVersion := 5
  manifest := none
  checkpoint := none
  currentEffectId := none
  inputEffectId := none
  outcome := some .completed
  nextEffectPosition := 1

def settledEffectV2 : EffectRowV2 Nat where
  effectId := ⟨5⟩
  operationId := ⟨4⟩
  position := 0
  binding := "tool"
  bindingRevision := "1"
  recovery := .neverReplay
  request := 7
  status := .settled
  dispatchCount := 1
  outcome := some (.success 8)

/-- An operation that waits for its one effect. -/
def activeOperationV2 : OperationRowV2 Nat :=
  { finishedOperationV2 with
    operationId := ⟨7⟩
    commandId := ⟨6⟩
    position := 1
    phase := .effectDispatched
    currentEffectId := some ⟨8⟩
    outcome := none }

/-- A database of version 2 with a finished operation and the active one of its session. -/
def finishedV2 : DatabaseV2 Nat where
  agents := ⟨[⟨1⟩], by decide⟩
  sessions := ⟨[⟨⟨2⟩, ⟨1⟩, 2, some ⟨7⟩, 0⟩], by decide⟩
  commands := ⟨[⟨⟨3⟩, ⟨2⟩, ⟨⟨3⟩, 6⟩⟩, ⟨⟨6⟩, ⟨2⟩, ⟨⟨6⟩, 6⟩⟩], by decide⟩
  operations := ⟨[finishedOperationV2, activeOperationV2], by decide⟩
  semanticEvents := .empty
  effects := ⟨[settledEffectV2, { settledEffectV2 with
    effectId := ⟨8⟩, operationId := ⟨7⟩, status := .dispatchStarted, outcome := none }], by decide⟩
  effect_positions := by decide
  cancellationRequests := .empty

theorem finishedV2_valid : (OldDatabase.v2 finishedV2).Valid := by
  refine ⟨by decide, by decide, ?_⟩
  unfold DatabaseV1.PointersOwned
  decide

/-- The request of the finished effect is let go, and the active operation points to the batch of
its effect. -/
theorem migration_restartable_finished :
    (∃ db, (Stored.old (.v2 finishedV2)).initializeDatabase = .ok db ∧
      Stored.migrated^[3] (.old (.v2 finishedV2)) = .current db true ∧
      db.meaning = finishedV2.meaning.released ∧
      ∀ steps, (Stored.migrated^[steps] (.old (.v2 finishedV2))).initializeDatabase = .ok db) ∧
    (OldDatabase.v2 finishedV2).upgrade.effects.rows.map EffectRow.request = [none, some 7] ∧
    (OldDatabase.v2 finishedV2).upgrade.operations.rows.map OperationRow.currentEffectBatchId =
      [none, some ⟨8⟩] :=
  ⟨migration_restartable (.v2 finishedV2) finishedV2_valid, by decide, by decide⟩

end Renoa.Kernel
