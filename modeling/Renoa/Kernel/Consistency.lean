import Renoa.Kernel.Events
import Renoa.Kernel.RequestRelease

/-!
# Consistency of the kernel database

`Consistent db` collects what holds of every reachable database: the shape of each operation and
effect row, who owns which row, gapless numbering of commands, batches, children and events, the
session's active pointer, and, for each batch of an operation, which statuses its children may
have in the operation's phase (`OperationPhase.allowsStatus`).

An operation works on one batch at a time. Earlier batches are settled; the last batch is the
current one in the effect phases and the input of the next decision right after it settled.
-/

namespace Renoa.Kernel

open Foundation Table

variable {V : Type}

/-! ## Rows -/

/-- The shape of an operation row. -/
structure OperationRow.WellFormed (o : OperationRow V) : Prop where
  stateVersion : o.stateVersion = operationStateVersion
  outcome : o.outcome.map OperationOutcome.phase = if o.phase.isTerminal then some o.phase else none
  manifest : o.manifest = none ↔ o.phase = .queued
  current : o.currentEffectBatchId.isSome = o.phase.isEffectPhase
  input : o.inputEffectBatchId ≠ none → o.phase = .needDecision
  checkpoint : o.phase.isEffectPhase = true ∨ o.phase.isTerminal = true → o.checkpoint ≠ none
  queued : o.phase = .queued → o.checkpoint = none

/-- The shape of an effect row. -/
structure EffectRow.WellFormed (e : EffectRow V) : Prop where
  outcome : e.outcome.isSome = decide (e.status = .settled)
  request : e.request = none → e.status = .settled
  intent : e.status = .intentCommitted → e.dispatchCount = 0
  dispatched : e.status = .dispatchStarted → 0 < e.dispatchCount
  neverReplay : e.recovery = .neverReplay → e.dispatchCount ≤ 1

/-- The statuses a child of the last batch may have in a phase. -/
def OperationPhase.allowsStatus : OperationPhase → EffectStatus → Bool
  | .queued, _ => false
  | .effectIntent, status => decide (status = .intentCommitted)
  | .effectDispatched, status => decide (status ≠ .intentCommitted)
  | .outcomeUnknown, status | .failed, status =>
    decide (status = .settled) || decide (status = .outcomeUnknown)
  | .needDecision, status | .waiting, status | .completed, status => decide (status = .settled)
  | .cancelled, _ => true

/-- A child that is neither at its intent nor open is finished. -/
theorem EffectStatus.settled_or_unknown {status : EffectStatus}
    (hint : status ≠ .intentCommitted) (hopen : status ≠ .dispatchStarted) :
    status = .settled ∨ status = .outcomeUnknown := by
  cases status with
  | intentCommitted => exact absurd rfl hint
  | dispatchStarted => exact absurd rfl hopen
  | settled => exact .inl rfl
  | outcomeUnknown => exact .inr rfl

/-- Where an open child is allowed, an unknown one is. -/
theorem OperationPhase.allowsStatus_unknown {phase : OperationPhase}
    (h : phase.allowsStatus .dispatchStarted = true) :
    phase.allowsStatus .outcomeUnknown = true := by
  cases phase <;> first | rfl | exact absurd h (by decide)

theorem OperationRow.WellFormed.outcome_isSome {o : OperationRow V} (h : o.WellFormed) :
    o.outcome.isSome = o.phase.isTerminal := by
  have := h.outcome
  cases hout : o.outcome with
  | none =>
    rw [hout] at this
    cases hph : o.phase.isTerminal with
    | false => rfl
    | true => simp [hph] at this
  | some out =>
    rw [hout] at this
    cases hph : o.phase.isTerminal with
    | false => simp [hph] at this
    | true => rfl

/-! ## The invariant -/

/-- What holds of one batch of an operation. -/
structure BatchConsistent (db : Database V) (o : OperationRow V) (b : EffectBatchRow) : Prop where
  earlier : b.position + 1 < o.nextEffectBatchPosition →
    ∀ e ∈ db.effects, e.batchId = b.batchId → e.status = .settled
  last : b.position + 1 = o.nextEffectBatchPosition →
    ∀ e ∈ db.effects, e.batchId = b.batchId → o.phase.allowsStatus e.status = true
  unknown : b.position + 1 = o.nextEffectBatchPosition → o.phase = .outcomeUnknown →
    ∃ e ∈ db.effects, e.batchId = b.batchId ∧ e.status = .outcomeUnknown
  released : ∀ e ∈ db.effects, e.batchId = b.batchId → e.request = none →
    o.outcome ≠ none ∧ ∀ e' ∈ db.effects, e'.batchId = b.batchId → e'.status = .settled

theorem BatchConsistent.of_effects_eq {db db' : Database V} {o : OperationRow V}
    {b : EffectBatchRow} (h : BatchConsistent db o b) (heffs : db'.effects = db.effects) :
    BatchConsistent db' o b := by
  obtain ⟨hearl, hlast, hunk, hrel⟩ := h
  rw [← heffs] at hearl hlast hunk hrel
  exact ⟨hearl, hlast, hunk, hrel⟩

/-- The batch identity names the last batch of the operation. -/
def IsLastBatch (db : Database V) (o : OperationRow V) (batchId : EffectBatchId) : Prop :=
  ∃ b ∈ db.effectBatches, b.batchId = batchId ∧ b.operationId = o.operationId ∧
    b.position + 1 = o.nextEffectBatchPosition

/-- An active operation has no outcome. -/
abbrev Database.Unfinished (db : Database V) : Prop :=
  ∀ o ∈ db.operations, o.phase.isCancellable = true → o.outcome = none

/-- The invariant of reachable databases. -/
structure Consistent (db : Database V) : Prop where
  operation_row : ∀ o ∈ db.operations, o.WellFormed
  operation_session : ∀ o ∈ db.operations, ∃ s ∈ db.sessions, s.sessionId = o.sessionId
  operation_command : ∀ o ∈ db.operations, ∃ c ∈ db.commands,
    c.commandId = o.commandId ∧ c.sessionId = o.sessionId ∧ c.content.commandId = c.commandId
  operation_numbered : ∀ s ∈ db.sessions,
    Numbered OperationRow.position (db.operationsOf s.sessionId) s.nextCommandPosition
  active : ∀ s ∈ db.sessions, ∀ id, s.activeOperationId = some id ↔
    ∃ o ∈ db.operations, o.operationId = id ∧ o.sessionId = s.sessionId ∧
      o.phase.isCancellable = true
  batch_owner : ∀ b ∈ db.effectBatches, ∃ o ∈ db.operations, o.operationId = b.operationId
  batch_numbered : ∀ o ∈ db.operations,
    Numbered EffectBatchRow.position (db.batchesOf o.operationId) o.nextEffectBatchPosition
  batch_consistent : ∀ o ∈ db.operations, ∀ b ∈ db.effectBatches,
    b.operationId = o.operationId → BatchConsistent db o b
  current_last : ∀ o ∈ db.operations, ∀ batchId, o.currentEffectBatchId = some batchId →
    IsLastBatch db o batchId
  input_last : ∀ o ∈ db.operations, ∀ batchId, o.inputEffectBatchId = some batchId →
    IsLastBatch db o batchId
  effect_row : ∀ e ∈ db.effects, e.WellFormed
  effect_owner : ∀ e ∈ db.effects, ∃ b ∈ db.effectBatches, b.batchId = e.batchId
  effect_numbered : ∀ b ∈ db.effectBatches, ∃ n, 0 < n ∧
    Numbered EffectRow.position (db.childrenOf b.batchId) n
  event_owner : ∀ e ∈ db.semanticEvents, ∃ o ∈ db.operations,
    o.operationId = e.operationId ∧ o.sessionId = e.sessionId
  event_numbered : ∀ s ∈ db.sessions,
    Numbered EventRow.sequence (db.eventsOf s.sessionId) s.nextEventSequence
  cancellation_owner : ∀ c ∈ db.cancellationRequests, ∃ o ∈ db.operations,
    o.operationId = c.operationId ∧ o.sessionId = c.sessionId

theorem consistent_empty : Consistent (Database.empty : Database V) where
  operation_row _ ho := absurd ho not_mem_empty
  operation_session _ ho := absurd ho not_mem_empty
  operation_command _ ho := absurd ho not_mem_empty
  operation_numbered _ hs := absurd hs not_mem_empty
  active _ hs := absurd hs not_mem_empty
  batch_owner _ hb := absurd hb not_mem_empty
  batch_numbered _ ho := absurd ho not_mem_empty
  batch_consistent _ ho := absurd ho not_mem_empty
  current_last _ ho := absurd ho not_mem_empty
  input_last _ ho := absurd ho not_mem_empty
  effect_row _ he := absurd he not_mem_empty
  effect_owner _ he := absurd he not_mem_empty
  effect_numbered _ hb := absurd hb not_mem_empty
  event_owner _ he := absurd he not_mem_empty
  event_numbered _ hs := absurd hs not_mem_empty
  cancellation_owner _ hc := absurd hc not_mem_empty

/-- Replacing an operation row by one with its session and position keeps the numbering. -/
theorem numbered_put_operation {db : Database V} {o o' : OperationRow V} (ho : o ∈ db.operations)
    (hid : o'.operationId = o.operationId) (hsess : o'.sessionId = o.sessionId)
    (hpos : o'.position = o.position) {sid : SessionId} {n : Nat}
    (h : Numbered OperationRow.position (db.operationsOf sid) n) :
    Numbered OperationRow.position
      ((db.operations.put o').rows.filter fun q => q.sessionId = sid) n := by
  have hrow : ∀ q ∈ db.operations.rows,
      (if q.operationId = o'.operationId then o' else q).sessionId = q.sessionId ∧
        (if q.operationId = o'.operationId then o' else q).position = q.position := by
    intro q hq
    by_cases hqid : q.operationId = o'.operationId
    · rw [if_pos hqid, hsess, hpos, key_inj hq ho (hqid.trans hid)]
      exact ⟨rfl, rfl⟩
    · rw [if_neg hqid]
      exact ⟨rfl, rfl⟩
  exact h.filter_map (fun q hq => by rw [(hrow q hq).1]) fun q hq => (hrow q hq).2

/-! ## Steps of one effect row -/

/-- What one transaction may do to one effect row. -/
inductive EffectStep : EffectRow V → EffectRow V → Prop
  | same (e : EffectRow V) : EffectStep e e
  | released (e : EffectRow V) (h : e.status = .settled) : EffectStep e { e with request := none }
  | dispatched (e : EffectRow V) (h : e.status = .intentCommitted) :
      EffectStep e
        { e with status := .dispatchStarted, dispatchCount := e.dispatchCount + 1 }
  | replayed (e : EffectRow V) (h : e.status = .dispatchStarted)
      (hrecovery : e.recovery = .safeToReplay) :
      EffectStep e
        { e with status := .dispatchStarted, dispatchCount := e.dispatchCount + 1 }
  | settled (e : EffectRow V) (h : e.status = .dispatchStarted) (outcome : EffectOutcome V) :
      EffectStep e { e with status := .settled, outcome := some outcome }
  | unknown (e : EffectRow V) (h : e.status = .dispatchStarted) :
      EffectStep e { e with status := .outcomeUnknown }

namespace EffectStep

variable {e e' : EffectRow V}

section

variable (h : EffectStep e e')

include h

theorem effectId_eq : e'.effectId = e.effectId := by cases h <;> rfl

theorem batchId_eq : e'.batchId = e.batchId := by cases h <;> rfl

theorem position_eq : e'.position = e.position := by cases h <;> rfl

theorem binding_eq : e'.binding = e.binding := by cases h <;> rfl

theorem bindingRevision_eq : e'.bindingRevision = e.bindingRevision := by cases h <;> rfl

/-- A settled effect keeps its status and outcome. -/
theorem settled_stays (hs : e.status = .settled) :
    e'.status = .settled ∧ e'.outcome = e.outcome := by
  cases h with
  | same | released => exact ⟨hs, rfl⟩
  | dispatched h | replayed h | settled h | unknown h =>
    rw [hs] at h
    cases h

/-- A settled or unknown effect keeps its status and its dispatches. -/
theorem closed_stays (hcls : e.status = .settled ∨ e.status = .outcomeUnknown) :
    e'.status = e.status := by
  cases h with
  | same | released => rfl
  | dispatched h | replayed h | settled h | unknown h =>
    rcases hcls with hs | hs <;> rw [hs] at h <;> cases h

theorem dispatchCount_le : e.dispatchCount ≤ e'.dispatchCount := by cases h <;> simp

theorem wellFormed (hw : e.WellFormed) : e'.WellFormed := by
  cases h with
  | same => exact hw
  | released hs => exact { hw with request := fun _ => hs }
  | dispatched hs =>
    have hzero := hw.intent hs
    have hnone := hw.outcome
    rw [hs] at hnone
    refine ⟨hnone, fun hreq => absurd (hw.request hreq) (by simp [hs]), fun h => (by cases h),
      fun _ => Nat.succ_pos _, fun _ => ?_⟩
    show e.dispatchCount + 1 ≤ 1
    omega
  | replayed hs hr =>
    have hnone := hw.outcome
    rw [hs] at hnone
    refine ⟨hnone, fun hreq => absurd (hw.request hreq) (by simp [hs]), fun h => (by cases h),
      fun _ => Nat.succ_pos _, fun hn => ?_⟩
    rw [show e.recovery = .neverReplay from hn] at hr
    cases hr
  | settled hs out =>
    refine ⟨rfl, fun _ => rfl, fun h => (by cases h), fun h => (by cases h), hw.neverReplay⟩
  | unknown hs =>
    have hnone := hw.outcome
    rw [hs] at hnone
    exact ⟨hnone, fun hreq => absurd (hw.request hreq) (by simp [hs]), fun h => (by cases h),
      fun h => (by cases h), hw.neverReplay⟩

end

end EffectStep

end Renoa.Kernel
