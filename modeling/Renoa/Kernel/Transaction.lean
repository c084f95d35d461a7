import Renoa.Kernel.OperationCommit

/-!
# Kernel transactions and their runs

`Transaction` lists the write transactions of the kernel with every argument a caller may pass.
A failed transaction is rolled back, so a run over a list of transactions is a fold
(`Database.runAll`). The durable state is all a crash leaves, so a crash between two transactions
is a run that goes on with transactions of another process.

`durableInvariant_runAll` is the consistency of every database such a run reaches.
-/

namespace Renoa.Kernel

open Foundation Database

variable {V : Type} {db : Database V}

/-- A write transaction of the kernel. -/
inductive Transaction (V : Type) where
  | createAgent (agentId : AgentId)
  | createSession (sessionId : SessionId) (agentId : AgentId)
  | submit (mode : AdmissionMode) (operationId : OperationId) (sessionId : SessionId)
      (command : Command V)
  | activate (sessionId : SessionId) (manifest : RuntimeManifest)
  | commitDecision (sessionId : SessionId) (operationId : OperationId) (expectedTransition : Nat)
      (newId : Nat → EventId) (decision : LoopDecision V)
  | commitEffectBatchIntent (operationId : OperationId) (expectedTransition : Nat)
      (batchId : EffectBatchId) (newId : Nat → EffectId) (intent : NewEffectBatchIntent V)
  | prepareEffectBatch (operationId : OperationId) (expectedTransition : Nat)
  | settleBatchEffect (operationId : OperationId) (batchId : EffectBatchId) (effectId : EffectId)
      (expectedTransition : Nat) (outcome : EffectOutcome V)
  | recordBatchEffectUnknown (operationId : OperationId) (batchId : EffectBatchId)
      (effectId : EffectId) (expectedTransition : Nat)
  | finishEffectBatchAttempt (operationId : OperationId) (batchId : EffectBatchId)
      (expectedTransition : Nat)
  | requestCancellation (sessionId : SessionId) (operationId : OperationId)
      (cancellationId : CancellationId)
  | loadRequestedCancellation (sessionId : SessionId) (operationId : OperationId)
  | commitCancellation (sessionId : SessionId) (operationId : OperationId)
      (expectedTransition expectedEventHighWater : Nat) (newId : Nat → EventId)
      (transition : CancellationTransition V)
  | commitUnknownEffectAbandonment (sessionId : SessionId) (operationId : OperationId)
      (expectedTransition expectedEventHighWater : Nat) (newId : Nat → EventId)
      (abandonment : UnknownEffectAbandonment V)

section Runs

variable [DecidableEq V]

/-- The database a transaction commits. -/
def Transaction.commit (db : Database V) : Transaction V → Except KernelError (Database V)
  | .createAgent agentId => .ok (db.createAgent agentId)
  | .createSession sessionId agentId => db.createSession sessionId agentId
  | .submit mode operationId sessionId command =>
    Prod.snd <$> db.submitWithMode mode operationId sessionId command
  | .activate sessionId manifest => Prod.snd <$> db.activate sessionId manifest
  | .commitDecision sessionId operationId expectedTransition newId decision =>
    Prod.snd <$> db.commitDecision sessionId operationId expectedTransition newId decision
  | .commitEffectBatchIntent operationId expectedTransition batchId newId intent =>
    Prod.snd <$>
      db.commitEffectBatchIntent operationId expectedTransition batchId newId intent
  | .prepareEffectBatch operationId expectedTransition =>
    Prod.snd <$> db.prepareEffectBatch operationId expectedTransition
  | .settleBatchEffect operationId batchId effectId expectedTransition outcome =>
    Prod.snd <$>
      db.settleBatchEffect operationId batchId effectId expectedTransition outcome
  | .recordBatchEffectUnknown operationId batchId effectId expectedTransition =>
    Prod.snd <$> db.recordBatchEffectUnknown operationId batchId effectId expectedTransition
  | .finishEffectBatchAttempt operationId batchId expectedTransition =>
    Prod.snd <$> db.finishEffectBatchAttempt operationId batchId expectedTransition
  | .requestCancellation sessionId operationId cancellationId =>
    db.requestCancellation sessionId operationId cancellationId
  | .loadRequestedCancellation sessionId operationId =>
    Prod.snd <$> db.loadRequestedCancellation sessionId operationId
  | .commitCancellation sessionId operationId expectedTransition expectedEventHighWater newId
      transition =>
      db.commitCancellation sessionId operationId expectedTransition expectedEventHighWater newId
        transition
  | .commitUnknownEffectAbandonment sessionId operationId expectedTransition
      expectedEventHighWater newId abandonment =>
      Prod.snd <$> db.commitUnknownEffectAbandonment sessionId operationId expectedTransition
        expectedEventHighWater newId abandonment

/-- The database after a transaction, which changes nothing when it fails. -/
def Database.apply (db : Database V) (t : Transaction V) : Database V :=
  match t.commit db with
  | .ok db' => db'
  | .error _ => db

theorem Database.apply_of_ok {db' : Database V} {t : Transaction V}
    (hcom : t.commit db = .ok db') : db.apply t = db' := by
  rw [Database.apply, hcom]

theorem Database.apply_of_error {e : KernelError} {t : Transaction V}
    (hcom : t.commit db = .error e) : db.apply t = db := by
  rw [Database.apply, hcom]

/-- The database after a run of transactions. -/
def Database.runAll (db : Database V) (ts : List (Transaction V)) : Database V :=
  ts.foldl Database.apply db

theorem Database.runAll_append (db : Database V) (ts us : List (Transaction V)) :
    db.runAll (ts ++ us) = (db.runAll ts).runAll us := List.foldl_append

/-- What a run preserves, from what each committed transaction preserves. -/
theorem Database.runAll_induction {motive : Database V → Prop} (hst : motive db)
    (hstep : ∀ db t db', motive db → Transaction.commit db t = .ok db' → motive db')
    (ts : List (Transaction V)) : motive (db.runAll ts) := by
  induction ts generalizing db with
  | nil => exact hst
  | cons t ts ih =>
    apply ih
    unfold Database.apply
    split
    next db' hcom =>
      exact hstep db t db' hst hcom
    · exact hst

/-- What a transaction can do. -/
theorem committed_commit {db' : Database V} {t : Transaction V} (h : Consistent db)
    (hcom : t.commit db = .ok db') : Committed db db' := by
  cases t with
  | createAgent agentId =>
    cases hcom
    exact (called_createAgent db agentId).committed
  | createSession sid agentId => exact (called_createSession hcom).committed
  | submit mode opId sid cmd =>
    obtain ⟨r, hrun, rfl⟩ := map_ok hcom
    exact (called_submitWithMode hrun).committed
  | activate sid mf =>
    obtain ⟨r, hrun, rfl⟩ := map_ok hcom
    exact committed_activate h hrun
  | commitDecision sid opId expected newId dec =>
    obtain ⟨r, hrun, rfl⟩ := map_ok hcom
    exact (changedBy_commitDecision h hrun).committed
  | commitEffectBatchIntent opId expected bid newId intent =>
    obtain ⟨r, hrun, rfl⟩ := map_ok hcom
    exact committed_commitEffectBatchIntent h hrun
  | prepareEffectBatch opId expected =>
    obtain ⟨r, hrun, rfl⟩ := map_ok hcom
    exact (changedBy_prepareEffectBatch h hrun).committed
  | settleBatchEffect opId bid eid expected out =>
    obtain ⟨r, hrun, rfl⟩ := map_ok hcom
    exact (changedBy_settleBatchEffect h hrun).committed
  | recordBatchEffectUnknown opId bid eid expected =>
    obtain ⟨r, hrun, rfl⟩ := map_ok hcom
    exact committed_recordBatchEffectUnknown h hrun
  | finishEffectBatchAttempt opId bid expected =>
    obtain ⟨r, hrun, rfl⟩ := map_ok hcom
    exact (changedBy_finishEffectBatchAttempt h hrun).committed
  | requestCancellation sid opId cancellationId =>
    exact (called_requestCancellation h hcom).committed
  | loadRequestedCancellation sid opId =>
    obtain ⟨r, hrun, rfl⟩ := map_ok hcom
    exact (changedBy_loadRequestedCancellation h hrun).committed
  | commitCancellation sid opId expected highWater newId transition =>
    exact (changedBy_commitCancellation h hcom).committed
  | commitUnknownEffectAbandonment sid opId expected highWater newId
      abandonment =>
      obtain ⟨r, hrun, rfl⟩ := map_ok hcom
      exact (changedBy_commitUnknownEffectAbandonment h hrun).committed

theorem consistent_runAll (h : Consistent db) (ts : List (Transaction V)) :
    Consistent (db.runAll ts) :=
  runAll_induction h (fun _ _ _ h hrun => (committed_commit h hrun).consistent h) ts

/-- What a run preserves, from what each committed transaction of a consistent database
preserves. -/
theorem Consistent.runAll_induction {motive : Database V → Prop} (h : Consistent db)
    (hst : motive db) (hstep : ∀ db t db', Consistent db → motive db →
      Transaction.commit db t = .ok db' → motive db')
    (ts : List (Transaction V)) : motive (db.runAll ts) := by
  refine (Database.runAll_induction (motive := fun db => Consistent db ∧ motive db) ⟨h, hst⟩
    ?_ ts).2
  rintro db t db' ⟨hdb, hmot⟩ hcom
  exact ⟨(committed_commit hdb hcom).consistent hdb, hstep db t db' hdb hmot hcom⟩

end Runs

/-! ## The invariant in the words of the lifecycle -/

/-- The operation is the one operation of the session in an active phase. -/
def IsOnlyActive (db : Database V) (s : SessionRow) (id : OperationId) : Prop :=
  ∃ o ∈ db.operations, o.operationId = id ∧ o.sessionId = s.sessionId ∧
    o.phase ∈ [.needDecision, .effectIntent, .effectDispatched, .outcomeUnknown] ∧
    ∀ q ∈ db.operations, q.sessionId = s.sessionId →
      q.phase ∈ [.needDecision, .effectIntent, .effectDispatched, .outcomeUnknown] → q = o

/-- The batch belongs to the operation and has a child. -/
def OwnsBatch (db : Database V) (o : OperationRow V) (batchId : EffectBatchId) : Prop :=
  (∃ b ∈ db.effectBatches, b.batchId = batchId ∧ b.operationId = o.operationId) ∧
    db.childrenOf batchId ≠ []

/-- What the phase of an operation says about its row and its batches. -/
structure OperationInvariant (db : Database V) (o : OperationRow V) : Prop where
  outcome : o.outcome ≠ none ↔ o.phase ∈ [.waiting, .completed, .failed, .cancelled]
  queued : o.phase = .queued ↔ o.manifest = none
  current : o.currentEffectBatchId ≠ none ↔
    o.phase ∈ [.effectIntent, .effectDispatched, .outcomeUnknown]
  owned : ∀ batchId, o.currentEffectBatchId = some batchId ∨ o.inputEffectBatchId = some batchId →
    OwnsBatch db o batchId
  input : ∀ batchId, o.inputEffectBatchId = some batchId → o.phase = .needDecision ∧
    ∀ e ∈ db.childrenOf batchId, e.status = .settled
  intent : o.phase = .effectIntent → ∀ batchId, o.currentEffectBatchId = some batchId →
    ∀ e ∈ db.childrenOf batchId, e.status = .intentCommitted
  dispatched : o.phase = .effectDispatched → ∀ batchId, o.currentEffectBatchId = some batchId →
    ∀ e ∈ db.childrenOf batchId, e.status ≠ .intentCommitted
  unknown : o.phase = .outcomeUnknown → ∀ batchId, o.currentEffectBatchId = some batchId →
    (∀ e ∈ db.childrenOf batchId, e.status = .settled ∨ e.status = .outcomeUnknown) ∧
      ∃ e ∈ db.childrenOf batchId, e.status = .outcomeUnknown

/-- The consistency of a database as its sessions and operations show it. -/
structure DurableInvariant (db : Database V) : Prop where
  active : ∀ s ∈ db.sessions, ∀ id, s.activeOperationId = some id ↔ IsOnlyActive db s id
  operation : ∀ o ∈ db.operations, OperationInvariant db o

theorem active_phase_iff {phase : OperationPhase} :
    phase ∈ [.needDecision, .effectIntent, .effectDispatched, .outcomeUnknown] ↔
      phase.isCancellable = true := by
  cases phase <;> decide

/-- The active operation is the only one of its session in an active phase. -/
theorem Consistent.active_iff_isOnlyActive (h : Consistent db) {s : SessionRow}
    (hs : s ∈ db.sessions) (id : OperationId) :
    s.activeOperationId = some id ↔ IsOnlyActive db s id := by
  constructor
  · intro hact
    obtain ⟨o, ho, hid, hos, hph⟩ := (h.active s hs id).mp hact
    refine ⟨o, ho, hid, hos, active_phase_iff.mpr hph, ?_⟩
    intro q hq hqs hqphase
    -- the pointer names every active operation of the session
    have hptr := (h.active s hs q.operationId).mpr ⟨q, hq, rfl, hqs, active_phase_iff.mp hqphase⟩
    rw [hact] at hptr
    exact Table.key_inj hq ho ((Option.some.inj hptr).symm.trans hid.symm)
  · rintro ⟨o, ho, hid, hos, hph, _⟩
    exact (h.active s hs id).mpr ⟨o, ho, hid, hos, active_phase_iff.mp hph⟩

/-- The last batch of an operation has a child, and its children have allowed statuses. -/
theorem Consistent.lastBatch (h : Consistent db) {o : OperationRow V} (ho : o ∈ db.operations)
    {bid : EffectBatchId} (hlast : IsLastBatch db o bid) :
    OwnsBatch db o bid ∧ (∀ e ∈ db.childrenOf bid, o.phase.allowsStatus e.status = true) ∧
      (o.phase = .outcomeUnknown → ∃ e ∈ db.childrenOf bid, e.status = .outcomeUnknown) := by
  obtain ⟨b, hb, rfl, hown, hpos⟩ := hlast
  have hbat := h.batch_consistent o ho b hb hown
  refine ⟨⟨⟨b, hb, rfl, hown⟩, ?_⟩, ?_, ?_⟩
  · intro hemp
    obtain ⟨n, hn, hnum⟩ := h.effect_numbered b hb
    rw [hemp] at hnum
    have := hnum.length_rows
    simp only [List.length_nil] at this
    omega
  · intro e he
    obtain ⟨hmem, heb⟩ := mem_childrenOf.mp he
    exact hbat.last hpos e hmem heb
  · intro hph
    obtain ⟨e, hmem, heb, hstat⟩ := hbat.unknown hpos hph
    exact ⟨e, mem_childrenOf.mpr ⟨hmem, heb⟩, hstat⟩

theorem Consistent.operationInvariant (h : Consistent db) {o : OperationRow V}
    (ho : o ∈ db.operations) : OperationInvariant db o := by
  have hrow := h.operation_row o ho
  have hcurrent : ∀ bid, o.currentEffectBatchId = some bid → _ :=
    fun bid hcur => h.lastBatch ho (h.current_last o ho bid hcur)
  have hinp : ∀ bid, o.inputEffectBatchId = some bid → _ :=
    fun bid hin => h.lastBatch ho (h.input_last o ho bid hin)
  have hal : ∀ phase, o.phase = phase → ∀ bid, o.currentEffectBatchId = some bid →
      ∀ e ∈ db.childrenOf bid, phase.allowsStatus e.status = true := by
    rintro _ rfl bid hcur
    exact (hcurrent bid hcur).2.1
  refine ⟨?_, hrow.manifest.symm, ?_, ?_, ?_, ?_, ?_, ?_⟩
  · rw [← Option.isSome_iff_ne_none, hrow.outcome_isSome]
    cases o.phase <;> decide
  · rw [← Option.isSome_iff_ne_none, hrow.current]
    cases o.phase <;> decide
  · rintro bid (hcur | hin)
    · exact (hcurrent bid hcur).1
    · exact (hinp bid hin).1
  · intro bid hin
    have hph : o.phase = .needDecision := hrow.input (by rw [hin]; exact Option.some_ne_none _)
    refine ⟨hph, fun e he => ?_⟩
    have hal := (hinp bid hin).2.1 e he
    rw [hph] at hal
    exact of_decide_eq_true hal
  · exact fun hph bid hcur e he => of_decide_eq_true (hal _ hph bid hcur e he)
  · exact fun hph bid hcur e he => of_decide_eq_true (hal _ hph bid hcur e he)
  · intro hph bid hcur
    refine ⟨fun e he => ?_, (hcurrent bid hcur).2.2 hph⟩
    simpa [OperationPhase.allowsStatus] using hal _ hph bid hcur e he

/-- Every run of transactions from the empty database, with failed transactions rolled back and
crashes between any two, keeps the lifecycle consistent. -/
theorem durableInvariant_runAll [DecidableEq V] (ts : List (Transaction V)) :
    DurableInvariant (Database.empty.runAll ts) := by
  have h : Consistent (Database.empty.runAll ts) := consistent_runAll consistent_empty ts
  exact ⟨fun s hs id => h.active_iff_isOnlyActive hs id, fun o ho => h.operationInvariant ho⟩

end Renoa.Kernel
