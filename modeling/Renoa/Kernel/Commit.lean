import Renoa.Kernel.Admission
import Renoa.Kernel.Change
import Renoa.Kernel.EffectStoreSpec
import Renoa.Kernel.OperationStoreSpec

/-!
# What a committed transaction can do

`Committed db db'` lists everything a transaction of the kernel may have done to a database:
nothing, a change of one operation, a new effect batch, a new operation, or new sessions and
cancellation requests. Consistency (`Committed.consistent`) and the facts about whole runs are
proved from these cases, not from the transactions.
-/

namespace Renoa.Kernel

open Foundation List Table Database

variable {V : Type} {db db' : Database V} {o : OperationRow V} {b : EffectBatchRow}
  {e : EffectRow V} {s : SessionRow} {f : EffectRow V → EffectRow V} {bid : EffectBatchId}

/-! ## Facts of a consistent database -/

/-- An operation has one last batch. -/
theorem Consistent.lastBatch_eq (h : Consistent db) (ho : o ∈ db.operations)
    (hlast : IsLastBatch db o bid) (hb : b ∈ db.effectBatches)
    (hown : b.operationId = o.operationId) (hpos : b.position + 1 = o.nextEffectBatchPosition) :
    b.batchId = bid := by
  obtain ⟨b', hb', rfl, hown', hpos'⟩ := hlast
  have hsame : b = b' := (h.batch_numbered o ho).eq_of_pos_eq
    (mem_batchesOf.mpr ⟨hb, hown⟩) (mem_batchesOf.mpr ⟨hb', hown'⟩)
    (by omega)
  rw [hsame]

/-- No child of an active operation has lost its request. -/
theorem Consistent.request_ne_none (h : Consistent db) (ho : o ∈ db.operations)
    (hph : o.phase.isCancellable = true) (hb : b ∈ db.effectBatches)
    (hown : b.operationId = o.operationId) (he : e ∈ db.effects) (heb : e.batchId = b.batchId) :
    e.request ≠ none :=
  fun hreq => ((h.batch_consistent o ho b hb hown).released e he heb hreq).1
    (h.outcome_none o ho hph)

/-- The pointer of a session while its operation stays inside or outside the active phases. -/
theorem Consistent.active_of_same (h : Consistent db) {o' : OperationRow V} (ho : o ∈ db.operations)
    (hs : s ∈ db.sessions) (hown : s.sessionId = o.sessionId)
    (hph : o'.phase.isCancellable = o.phase.isCancellable) (id : OperationId) :
    s.activeOperationId = some id ↔ if id = o.operationId then o'.phase.isCancellable = true
      else s.activeOperationId = some id := by
  by_cases hid : id = o.operationId
  · rw [if_pos hid, h.active s hs id, hph]
    constructor
    · rintro ⟨q, hq, hqid, _, hcanc⟩
      rw [← key_inj hq ho (hqid.trans hid)]
      exact hcanc
    · intro hcanc
      exact ⟨o, ho, hid.symm, hown.symm, hcanc⟩
  · rw [if_neg hid]

theorem OperationRow.WellFormed.manifest_ne_none (h : o.WellFormed) (hph : o.phase ≠ .queued) :
    o.manifest ≠ none :=
  fun hnone => hph (h.manifest.mp hnone)

/-- A row in an active phase. -/
theorem wellFormed_of_active (hver : o.stateVersion = operationStateVersion)
    (hact : o.phase.isCancellable = true) (hout : o.outcome = none) (hman : o.manifest ≠ none)
    (hcur : o.currentEffectBatchId.isSome = o.phase.isEffectPhase)
    (hinp : o.inputEffectBatchId ≠ none → o.phase = .needDecision)
    (hckpt : o.phase.isEffectPhase = true → o.checkpoint ≠ none) : o.WellFormed := by
  have hterm := OperationPhase.not_terminal_of_cancellable hact
  have hqueued := OperationPhase.ne_queued_of_cancellable hact
  refine ⟨hver, ?_, ⟨fun hnone => absurd hnone hman, fun hq => absurd hq hqueued⟩, hcur, hinp, ?_,
    fun hq => absurd hq hqueued⟩
  · rw [hout, hterm]
    rfl
  · rw [hterm, or_iff_left Bool.false_ne_true]
    exact hckpt

/-! ## A new batch -/

theorem wellFormed_intend (h : o.WellFormed) (hph : o.phase = .needDecision)
    (bid : EffectBatchId) (ckpt : Checkpoint V) :
    (o.intend bid ckpt).WellFormed :=
  wellFormed_of_active h.stateVersion rfl (h.outcome_eq_none (by rw [hph]; rfl))
    (h.manifest_ne_none (by rw [hph]; decide)) rfl (absurd rfl) fun _ => Option.some_ne_none _

/-- A child of a new batch is well formed. -/
theorem wellFormed_of_mem_effectRows {newId : Nat → EffectId} {pos : Nat}
    {effs : List (NewEffectIntent V)} (h : e ∈ effectRows bid newId pos effs) :
    e.WellFormed := by
  obtain ⟨_, hstat, hcnt, hout, intent, _, _, _, hreq, _⟩ := mem_effectRows h
  refine ⟨by rw [hout, hstat]; rfl, ?_, fun _ => hcnt, ?_, fun _ => by omega⟩
  · intro hnone
    rw [hreq] at hnone
    cases hnone
  · intro hopen
    rw [hstat] at hopen
    cases hopen

section NewBatch

variable {opId : OperationId} {expected : Nat} {bid : EffectBatchId}
  {newId : Nat → EffectId} {intent : NewEffectBatchIntent V}
  (i : IntendedBatch db opId expected bid newId intent db')

include i

namespace IntendedBatch

theorem effectBatches'_rows : db'.effectBatches.rows = db.effectBatches.rows ++
    [⟨bid, opId, i.operation.nextEffectBatchPosition⟩] :=
  (congrArg (fun d => d.effectBatches.rows) i.db'_eq).trans i.effectBatches_eq

theorem effects'_rows : db'.effects.rows = db.effects.rows ++
    effectRows bid newId 0 intent.effects :=
  (congrArg (fun d => d.effects.rows) i.db'_eq).trans i.effects_eq

theorem operations' :
    db'.operations = db.operations.put (i.operation.intend bid intent.checkpoint) :=
  congrArg Database.operations i.db'_eq

theorem mem_effectBatches : b ∈ db'.effectBatches ↔ b ∈ db.effectBatches ∨
      b = ⟨bid, opId, i.operation.nextEffectBatchPosition⟩ :=
  mem_concat i.effectBatches'_rows

theorem mem_effects :
    e ∈ db'.effects ↔ e ∈ db.effects ∨ e ∈ effectRows bid newId 0 intent.effects := by
  rw [← mem_rows, i.effects'_rows, mem_append, mem_rows]

theorem operation_mem : i.operation ∈ db.operations := mem_of_find? i.operation_find

theorem operationId_eq : i.operation.operationId = opId := key_of_find? i.operation_find

/-- An operation of the new table is the committing one or untouched. -/
theorem mem_operations : o ∈ db'.operations ↔
    o = i.operation.intend bid intent.checkpoint ∨ o ∈ db.operations ∧ o.operationId ≠ opId := by
  have hput : o ∈ db.operations.put (i.operation.intend bid intent.checkpoint) ↔ _ :=
    mem_put_iff i.operation_mem rfl
  rwa [← i.operations', i.operationId_eq] at hput

theorem intend_mem : i.operation.intend bid intent.checkpoint ∈ db'.operations :=
  i.mem_operations.mpr (.inl rfl)

theorem exists_operation' (ho : o ∈ db.operations) :
    ∃ o' ∈ db'.operations, o'.operationId = o.operationId ∧ o'.sessionId = o.sessionId := by
  rw [i.operations']
  refine exists_mem_put i.operation_mem rfl ho ?_ ⟨rfl, rfl⟩
  rintro rfl
  exact ⟨rfl, rfl⟩

/-- The new batch stands behind those of its operation. -/
theorem batchesOf (id : OperationId) : db'.batchesOf id = db.batchesOf id ++
    if id = opId then [⟨bid, opId, i.operation.nextEffectBatchPosition⟩] else [] := by
  unfold Database.batchesOf
  rw [i.effectBatches'_rows]
  exact filter_append_owner (fun b hb => by rw [mem_singleton.mp hb]) id

theorem childrenOf (id : EffectBatchId) : db'.childrenOf id = db.childrenOf id ++
    if id = bid then effectRows bid newId 0 intent.effects else [] := by
  unfold Database.childrenOf
  rw [i.effects'_rows]
  exact filter_append_owner (fun e he => (mem_effectRows he).1) id

/-- No stored child carries the identity of the new batch. -/
theorem effect_batchId_ne (h : Consistent db) (he : e ∈ db.effects) : e.batchId ≠ bid := by
  obtain ⟨b, hb, hbe⟩ := h.effect_owner e he
  rw [← hbe]
  exact i.fresh b hb

/-- The children of a stored batch are those stored before. -/
theorem mem_effects_of_old (hb : b ∈ db.effectBatches) (he : e ∈ db'.effects)
    (heb : e.batchId = b.batchId) : e ∈ db.effects := by
  rcases i.mem_effects.mp he with hold | hnew
  · exact hold
  · exact absurd (heb.symm.trans (mem_effectRows hnew).1) (i.fresh b hb)

/-- The children of the new batch are the new rows. -/
theorem mem_effects_of_new (h : Consistent db) (he : e ∈ db'.effects)
    (heb : e.batchId = bid) : e ∈ effectRows bid newId 0 intent.effects := by
  rcases i.mem_effects.mp he with hold | hnew
  · exact absurd heb (i.effect_batchId_ne h hold)
  · exact hnew

theorem batchConsistent_old (h : Consistent db) (ho : o ∈ db.operations)
    (hb : b ∈ db.effectBatches) (hown : b.operationId = o.operationId) :
    BatchConsistent db' o b := by
  have hbat := h.batch_consistent o ho b hb hown
  refine ⟨?_, ?_, ?_, ?_⟩
  · exact fun hearl e he heb => hbat.earlier hearl e (i.mem_effects_of_old hb he heb) heb
  · exact fun hlast e he heb => hbat.last hlast e (i.mem_effects_of_old hb he heb) heb
  · intro hlast hph
    obtain ⟨e, he, hrest⟩ := hbat.unknown hlast hph
    exact ⟨e, i.mem_effects.mpr (.inl he), hrest⟩
  · intro e he heb hreq
    obtain ⟨hout, hall⟩ := hbat.released e (i.mem_effects_of_old hb he heb) heb hreq
    exact ⟨hout, fun e' he' heb' => hall e' (i.mem_effects_of_old hb he' heb') heb'⟩

/-- The batch that was the last one before is settled: the operation was at a decision. -/
theorem batchConsistent_intend (h : Consistent db) (hb : b ∈ db'.effectBatches)
    (hown : b.operationId = opId) :
    BatchConsistent db' (i.operation.intend bid intent.checkpoint) b := by
  have hnext : (i.operation.intend bid intent.checkpoint).nextEffectBatchPosition =
      i.operation.nextEffectBatchPosition + 1 := rfl
  rcases i.mem_effectBatches.mp hb with hold | rfl
  · have hbat := h.batch_consistent _ i.operation_mem b hold (hown.trans i.operationId_eq.symm)
    have hpos : b.position < i.operation.nextEffectBatchPosition :=
      (h.batch_numbered _ i.operation_mem).lt
        (mem_batchesOf.mpr ⟨hold, hown.trans i.operationId_eq.symm⟩)
    have hact : i.operation.phase.isCancellable = true := by rw [i.phase_eq]; rfl
    refine ⟨?_, fun hlast => by omega, fun _ hph => (by cases hph), ?_⟩
    · intro _ e he heb
      have he := i.mem_effects_of_old hold he heb
      by_cases hlast : b.position + 1 = i.operation.nextEffectBatchPosition
      · have hal := hbat.last hlast e he heb
        rw [i.phase_eq] at hal
        exact of_decide_eq_true hal
      · exact hbat.earlier (by omega) e he heb
    · intro e he heb hreq
      exact absurd hreq (h.request_ne_none i.operation_mem hact hold
        (hown.trans i.operationId_eq.symm) (i.mem_effects_of_old hold he heb) heb)
  · refine ⟨fun hearl => ?_, ?_, fun _ hph => (by cases hph), ?_⟩
    · exact absurd hearl (lt_irrefl _)
    · intro _ e he heb
      exact decide_eq_true (mem_effectRows (i.mem_effects_of_new h he heb)).2.1
    · intro e he heb hreq
      obtain ⟨_, _, _, _, new, _, _, _, hsome, _⟩ := mem_effectRows (i.mem_effects_of_new h he heb)
      rw [hsome] at hreq
      cases hreq

theorem isLastBatch_old {last : EffectBatchId} (h : IsLastBatch db o last) :
    IsLastBatch db' o last := by
  obtain ⟨b, hb, hrest⟩ := h
  exact ⟨b, i.mem_effectBatches.mpr (.inl hb), hrest⟩

theorem operation_numbered (h : Consistent db) (hs : s ∈ db.sessions) :
    Numbered OperationRow.position (db'.operationsOf s.sessionId) s.nextCommandPosition := by
  unfold Database.operationsOf
  rw [i.operations']
  refine numbered_put_operation i.operation_mem ?_ ?_ ?_ (h.operation_numbered s hs)
  all_goals rfl

theorem batch_numbered (h : Consistent db) (ho : o ∈ db'.operations) :
    Numbered EffectBatchRow.position (db'.batchesOf o.operationId) o.nextEffectBatchPosition := by
  rw [i.batchesOf]
  rcases i.mem_operations.mp ho with rfl | ⟨hmem, hne⟩
  · have hown : (i.operation.intend bid intent.checkpoint).operationId = opId := i.operationId_eq
    rw [if_pos hown]
    exact (h.batch_numbered _ i.operation_mem).concat rfl
  · rw [if_neg hne, append_nil]
    exact h.batch_numbered o hmem

/-- A stored batch gets no child. -/
theorem childrenOf_old (hb : b ∈ db.effectBatches) :
    db'.childrenOf b.batchId = db.childrenOf b.batchId := by
  rw [i.childrenOf, if_neg (i.fresh b hb), append_nil]

theorem effect_numbered (h : Consistent db) (hb : b ∈ db'.effectBatches) :
    ∃ n, 0 < n ∧ Numbered EffectRow.position (db'.childrenOf b.batchId) n := by
  rcases i.mem_effectBatches.mp hb with hold | rfl
  · rw [i.childrenOf_old hold]
    exact h.effect_numbered b hold
  · have hnone : db.childrenOf bid = [] :=
      filter_eq_nil_iff.mpr fun e he => by simpa using i.effect_batchId_ne h he
    rw [i.childrenOf, if_pos rfl, hnone, nil_append]
    refine ⟨intent.effects.length, length_pos_iff.mpr i.nonempty, ?_⟩
    exact numbered_of_map_eq (by rw [map_position_effectRows, range_eq_range'])

theorem active (h : Consistent db) (hs : s ∈ db.sessions) (id : OperationId) :
    s.activeOperationId = some id ↔ ∃ o ∈ db'.operations, o.operationId = id ∧
      o.sessionId = s.sessionId ∧ o.phase.isCancellable = true := by
  rw [h.active s hs id]
  constructor
  · rintro ⟨o, ho, rfl, hos, hph⟩
    rw [i.operations']
    refine exists_mem_put i.operation_mem rfl ho ?_ ⟨rfl, hos, hph⟩
    rintro rfl
    exact ⟨rfl, hos, rfl⟩
  · rintro ⟨o, ho, rfl, hos, hph⟩
    rcases i.mem_operations.mp ho with rfl | ⟨hmem, _⟩
    · exact ⟨i.operation, i.operation_mem, rfl, hos, by rw [i.phase_eq]; rfl⟩
    · exact ⟨o, hmem, rfl, hos, hph⟩

theorem db'_rest : db' = { db with
    operations := db'.operations, effectBatches := db'.effectBatches
    effects := db'.effects } := by
  rw [i.db'_eq]

theorem consistent (h : Consistent db) : Consistent db' := by
  have howner : ∀ o ∈ db'.operations, ∃ q ∈ db.operations, q.operationId = o.operationId ∧
      q.sessionId = o.sessionId ∧ q.commandId = o.commandId := by
    intro o ho
    rcases i.mem_operations.mp ho with rfl | ⟨hmem, _⟩
    · exact ⟨i.operation, i.operation_mem, rfl, rfl, rfl⟩
    · exact ⟨o, hmem, rfl, rfl, rfl⟩
  rw [i.db'_rest]
  exact { h with
    operation_row := fun o ho => by
      rcases i.mem_operations.mp ho with rfl | ⟨hmem, _⟩
      · exact wellFormed_intend (h.operation_row _ i.operation_mem) i.phase_eq _ _
      · exact h.operation_row o hmem
    operation_session := fun o ho => by
      obtain ⟨q, hq, _, hsid, _⟩ := howner o ho
      rw [← hsid]
      exact h.operation_session q hq
    operation_command := fun o ho => by
      obtain ⟨q, hq, _, hsid, hcid⟩ := howner o ho
      rw [← hsid, ← hcid]
      exact h.operation_command q hq
    operation_numbered := fun _ hs => i.operation_numbered h hs
    active := fun _ hs id => i.active h hs id
    batch_owner := fun b hb => by
      rcases i.mem_effectBatches.mp hb with hold | rfl
      · obtain ⟨o, ho, hob⟩ := h.batch_owner b hold
        obtain ⟨o', ho', hid, _⟩ := i.exists_operation' ho
        exact ⟨o', ho', hid.trans hob⟩
      · exact ⟨_, i.intend_mem, i.operationId_eq⟩
    batch_numbered := fun _ ho => i.batch_numbered h ho
    batch_consistent := fun o ho b hb hown => by
      rcases i.mem_operations.mp ho with rfl | ⟨hmem, hne⟩
      · exact (i.batchConsistent_intend h hb (hown.trans i.operationId_eq)).of_effects_eq rfl
      · rcases i.mem_effectBatches.mp hb with hold | rfl
        · exact (i.batchConsistent_old h hmem hold hown).of_effects_eq rfl
        · exact absurd hown.symm hne
    current_last := fun o ho last hcur => by
      rcases i.mem_operations.mp ho with rfl | ⟨hmem, _⟩
      · cases hcur
        exact ⟨_, i.mem_effectBatches.mpr (.inr rfl), rfl, i.operationId_eq.symm, rfl⟩
      · exact i.isLastBatch_old (h.current_last o hmem last hcur)
    input_last := fun o ho last hin => by
      rcases i.mem_operations.mp ho with rfl | ⟨hmem, _⟩
      · cases hin
      · exact i.isLastBatch_old (h.input_last o hmem last hin)
    effect_row := fun e he => by
      rcases i.mem_effects.mp he with hold | hnew
      · exact h.effect_row e hold
      · exact wellFormed_of_mem_effectRows hnew
    effect_owner := fun e he => by
      rcases i.mem_effects.mp he with hold | hnew
      · obtain ⟨b, hb, hbe⟩ := h.effect_owner e hold
        exact ⟨b, i.mem_effectBatches.mpr (.inl hb), hbe⟩
      · exact ⟨_, i.mem_effectBatches.mpr (.inr rfl), (mem_effectRows hnew).1.symm⟩
    effect_numbered := fun _ hb => i.effect_numbered h hb
    event_owner := fun e he => by
      obtain ⟨o, ho, hid, hsid⟩ := h.event_owner e he
      obtain ⟨o', ho', hid', hsid'⟩ := i.exists_operation' ho
      exact ⟨o', ho', hid'.trans hid, hsid'.trans hsid⟩
    cancellation_owner := fun c hc => by
      obtain ⟨o, ho, hid, hsid⟩ := h.cancellation_owner c hc
      obtain ⟨o', ho', hid', hsid'⟩ := i.exists_operation' ho
      exact ⟨o', ho', hid'.trans hid, hsid'.trans hsid⟩ }

end IntendedBatch

end NewBatch

/-! ## A new operation -/

section NewOperation

variable {operationId : OperationId} {sessionId : SessionId} {command : Command V}
  (a : AdmittedOperation db operationId sessionId command db')

/-- The row of the admitted operation. -/
def AdmittedOperation.operation : OperationRow V :=
  queuedOperation operationId sessionId command.commandId a.session.nextCommandPosition

/-- The session row with the cursor moved past the admitted operation. -/
def AdmittedOperation.session' : SessionRow :=
  { a.session with nextCommandPosition := a.session.nextCommandPosition + 1 }

include a

namespace AdmittedOperation

theorem session_mem : a.session ∈ db.sessions := mem_of_find? a.session_find

theorem sessionId_eq : a.session.sessionId = sessionId := key_of_find? a.session_find

theorem operations'_rows : db'.operations.rows = db.operations.rows ++ [a.operation] :=
  (congrArg (fun d => d.operations.rows) a.db'_eq).trans a.operations_eq

theorem sessions' : db'.sessions = db.sessions.put a.session' := congrArg Database.sessions a.db'_eq

theorem mem_operations : o ∈ db'.operations ↔ o ∈ db.operations ∨ o = a.operation :=
  mem_concat a.operations'_rows

theorem mem_commands {c : CommandRow V} :
    c ∈ db'.commands ↔ c ∈ db.commands ∨ c = ⟨command.commandId, sessionId, command⟩ := by
  have hrows : db'.commands.rows = db.commands.rows ++ [⟨command.commandId, sessionId, command⟩] :=
    (congrArg (fun d => d.commands.rows) a.db'_eq).trans a.commands_eq
  exact mem_concat hrows

theorem mem_sessions : s ∈ db'.sessions ↔
    s = a.session' ∨ s ∈ db.sessions ∧ s.sessionId ≠ sessionId := by
  have hput : s ∈ db.sessions.put a.session' ↔ _ := mem_put_iff a.session_mem rfl
  rwa [← a.sessions', a.sessionId_eq] at hput

theorem exists_session' (hs : s ∈ db.sessions) :
    ∃ s' ∈ db'.sessions, s'.sessionId = s.sessionId := by
  rw [a.sessions']
  exact exists_mem_put a.session_mem rfl hs (fun heq => heq ▸ rfl) rfl

/-- The new operation stands behind those of its session. -/
theorem operationsOf (sid : SessionId) :
    db'.operationsOf sid =
      db.operationsOf sid ++ if sid = sessionId then [a.operation] else [] := by
  unfold Database.operationsOf
  rw [a.operations'_rows]
  exact filter_append_owner (fun o ho => by rw [mem_singleton.mp ho]; rfl) sid

/-- The new operation owns no batch: every batch belongs to a stored operation. -/
theorem batch_operationId_ne (h : Consistent db) (hb : b ∈ db.effectBatches) :
    b.operationId ≠ operationId := by
  obtain ⟨o, ho, hob⟩ := h.batch_owner b hb
  rw [← hob]
  exact a.fresh o ho

theorem operation_numbered (h : Consistent db) (hs : s ∈ db'.sessions) :
    Numbered OperationRow.position (db'.operationsOf s.sessionId) s.nextCommandPosition := by
  rw [a.operationsOf]
  rcases a.mem_sessions.mp hs with rfl | ⟨hold, hne⟩
  · have hown : a.session'.sessionId = sessionId := a.sessionId_eq
    rw [if_pos hown]
    exact (h.operation_numbered a.session a.session_mem).concat rfl
  · rw [if_neg hne, append_nil]
    exact h.operation_numbered s hold

/-- A queued operation leaves every pointer alone. -/
theorem active (h : Consistent db) (hs : s ∈ db'.sessions) (id : OperationId) :
    s.activeOperationId = some id ↔ ∃ o ∈ db'.operations, o.operationId = id ∧
      o.sessionId = s.sessionId ∧ o.phase.isCancellable = true := by
  have hold : ∀ t ∈ db.sessions, t.activeOperationId = some id ↔
      ∃ o ∈ db'.operations, o.operationId = id ∧ o.sessionId = t.sessionId ∧
        o.phase.isCancellable = true := by
    intro t ht
    rw [h.active t ht id]
    constructor
    · rintro ⟨o, ho, hrest⟩
      exact ⟨o, a.mem_operations.mpr (.inl ho), hrest⟩
    · rintro ⟨o, ho, hid, hos, hph⟩
      rcases a.mem_operations.mp ho with ho | rfl
      · exact ⟨o, ho, hid, hos, hph⟩
      · cases hph
  rcases a.mem_sessions.mp hs with rfl | ⟨hmem, _⟩
  · exact hold a.session a.session_mem
  · exact hold s hmem

theorem wellFormed : a.operation.WellFormed :=
  ⟨rfl, rfl, ⟨fun _ => rfl, fun _ => rfl⟩, rfl, fun hin => absurd rfl hin,
    fun hph => (by rcases hph with hph | hph <;> cases hph), fun _ => rfl⟩

theorem db'_rest : db' = { db with
    operations := db'.operations, sessions := db'.sessions, commands := db'.commands } := by
  rw [a.db'_eq]

theorem consistent (h : Consistent db) : Consistent db' := by
  rw [a.db'_rest]
  exact { h with
    operation_row := fun o ho => by
      rcases a.mem_operations.mp ho with hold | rfl
      · exact h.operation_row o hold
      · exact a.wellFormed
    operation_session := fun o ho => by
      rcases a.mem_operations.mp ho with hold | rfl
      · obtain ⟨s, hs, hso⟩ := h.operation_session o hold
        obtain ⟨s', hs', hss⟩ := a.exists_session' hs
        exact ⟨s', hs', hss.trans hso⟩
      · obtain ⟨s', hs', hss⟩ := a.exists_session' a.session_mem
        exact ⟨s', hs', hss.trans a.sessionId_eq⟩
    operation_command := fun o ho => by
      rcases a.mem_operations.mp ho with hold | rfl
      · obtain ⟨c, hc, hrest⟩ := h.operation_command o hold
        exact ⟨c, a.mem_commands.mpr (.inl hc), hrest⟩
      · exact ⟨_, a.mem_commands.mpr (.inr rfl), rfl, rfl, rfl⟩
    operation_numbered := fun _ hs => a.operation_numbered h hs
    active := fun _ hs id => a.active h hs id
    batch_owner := fun b hb => by
      obtain ⟨o, ho, hob⟩ := h.batch_owner b hb
      exact ⟨o, a.mem_operations.mpr (.inl ho), hob⟩
    batch_numbered := fun o ho => by
      rcases a.mem_operations.mp ho with hold | rfl
      · exact h.batch_numbered o hold
      · have hemp : db.batchesOf a.operation.operationId = [] :=
          filter_eq_nil_iff.mpr fun b hb heq => a.batch_operationId_ne h hb (of_decide_eq_true heq)
        exact hemp ▸ numbered_nil _
    batch_consistent := fun o ho b hb hown => by
      rcases a.mem_operations.mp ho with hold | rfl
      · exact (h.batch_consistent o hold b hb hown).of_effects_eq rfl
      · exact absurd hown (a.batch_operationId_ne h hb)
    current_last := fun o ho bid hcur => by
      rcases a.mem_operations.mp ho with hold | rfl
      · exact h.current_last o hold bid hcur
      · cases hcur
    input_last := fun o ho bid hin => by
      rcases a.mem_operations.mp ho with hold | rfl
      · exact h.input_last o hold bid hin
      · cases hin
    event_owner := fun e he => by
      obtain ⟨o, ho, hrest⟩ := h.event_owner e he
      exact ⟨o, a.mem_operations.mpr (.inl ho), hrest⟩
    event_numbered := fun s hs => by
      rcases a.mem_sessions.mp hs with rfl | ⟨hold, _⟩
      · exact h.event_numbered a.session a.session_mem
      · exact h.event_numbered s hold
    cancellation_owner := fun c hc => by
      obtain ⟨o, ho, hrest⟩ := h.cancellation_owner c hc
      exact ⟨o, a.mem_operations.mpr (.inl ho), hrest⟩ }

end AdmittedOperation

end NewOperation

/-! ## New sessions and cancellation requests -/

/-- An identity no session has is of no operation and of no event. -/
theorem Consistent.operationsOf_eq_nil (h : Consistent db)
    (hfree : ∀ q ∈ db.sessions, q.sessionId ≠ s.sessionId) :
    db.operationsOf s.sessionId = [] ∧ db.eventsOf s.sessionId = [] := by
  have hnone : ∀ o ∈ db.operations, o.sessionId ≠ s.sessionId := by
    intro o ho heq
    obtain ⟨q, hq, hqo⟩ := h.operation_session o ho
    exact hfree q hq (hqo.trans heq)
  unfold Database.operationsOf Database.eventsOf
  rw [filter_eq_nil_iff, filter_eq_nil_iff]
  refine ⟨fun o ho heq => hnone o ho (of_decide_eq_true heq), fun e he heq => ?_⟩
  obtain ⟨o, ho, _, hos⟩ := h.event_owner e he
  exact hnone o ho (hos.trans (of_decide_eq_true heq))

/-- Only sessions without operations and requests against stored operations were added. -/
structure Registered (db db' : Database V) : Prop where
  operations_eq : db'.operations = db.operations
  commands_eq : db'.commands = db.commands
  effectBatches_eq : db'.effectBatches = db.effectBatches
  effects_eq : db'.effects = db.effects
  semanticEvents_eq : db'.semanticEvents = db.semanticEvents
  session_kept : ∀ s ∈ db.sessions, s ∈ db'.sessions
  session_cases : ∀ s ∈ db'.sessions, s ∈ db.sessions ∨
    ((∀ q ∈ db.sessions, q.sessionId ≠ s.sessionId) ∧ s.nextCommandPosition = 0 ∧
      s.activeOperationId = none ∧ s.nextEventSequence = 0)
  request_kept : ∀ r ∈ db.cancellationRequests, r ∈ db'.cancellationRequests
  request_cases : ∀ r ∈ db'.cancellationRequests, r ∈ db.cancellationRequests ∨
    ∃ o ∈ db.operations, o.operationId = r.operationId ∧ o.sessionId = r.sessionId ∧
      o.outcome = none

namespace Registered

variable (r : Registered db db')

include r

theorem db'_eq : db' = { db with
    agents := db'.agents, sessions := db'.sessions
    cancellationRequests := db'.cancellationRequests } := by
  obtain ⟨hops, hcmds, hbats, heffs, hevs, _⟩ := r
  cases db'
  cases hops
  cases hcmds
  cases hbats
  cases heffs
  cases hevs
  rfl

theorem consistent (h : Consistent db) : Consistent db' := by
  rw [r.db'_eq]
  exact { h with
    operation_session := fun o ho => by
      obtain ⟨s, hs, hso⟩ := h.operation_session o ho
      exact ⟨s, r.session_kept s hs, hso⟩
    operation_numbered := fun s hs => by
      rcases r.session_cases s hs with hold | ⟨hfree, hpos, _, _⟩
      · exact h.operation_numbered s hold
      · rw [hpos]
        exact (h.operationsOf_eq_nil hfree).1 ▸ numbered_nil _
    active := fun s hs id => by
      rcases r.session_cases s hs with hold | ⟨hfree, _, hidle, _⟩
      · exact h.active s hold id
      · rw [hidle]
        refine ⟨fun hsome => (by cases hsome), ?_⟩
        rintro ⟨o, ho, _, hos, _⟩
        obtain ⟨q, hq, hqo⟩ := h.operation_session o ho
        exact absurd (hqo.trans hos) (hfree q hq)
    batch_consistent := fun o ho b hb hown => (h.batch_consistent o ho b hb hown).of_effects_eq rfl
    event_numbered := fun s hs => by
      rcases r.session_cases s hs with hold | ⟨hfree, _, _, hseq⟩
      · exact h.event_numbered s hold
      · rw [hseq]
        exact (h.operationsOf_eq_nil hfree).2 ▸ numbered_nil _
    cancellation_owner := fun c hc => by
      rcases r.request_cases c hc with hold | ⟨o, ho, hid, hos, _⟩
      · exact h.cancellation_owner c hold
      · exact ⟨o, ho, hid, hos⟩ }

theorem cancellationRequested {opId : OperationId} (hask : db.cancellationRequested opId = true) :
    db'.cancellationRequested opId = true := by
  obtain ⟨req, hmem, hid⟩ := cancellationRequested_iff.mp hask
  exact cancellationRequested_iff.mpr ⟨req, r.request_kept req hmem, hid⟩

end Registered

/-! ## All transactions -/

/-- The change makes no dispatch and no ending but `cancelled` once a cancellation of its
operation is requested. -/
def OperationChange.RespectsCancellation (c : OperationChange db db') : Prop :=
  db.cancellationRequested c.operation.operationId = true →
    (∀ e ∈ db.effects, (c.effect e).dispatchCount = e.dispatchCount) ∧
      (c.operation'.outcome = none ∨ c.operation'.outcome = some .cancelled)

/-- The change leaves the effects of other operations alone. -/
def OperationChange.IsLocal (c : OperationChange db db') : Prop :=
  ∀ e ∈ db.effects, ∀ b ∈ db.effectBatches, b.batchId = e.batchId →
    b.operationId ≠ c.operation.operationId → c.effect e = e

/-- What every change of an operation by a transaction keeps. -/
structure OperationChange.Lawful (c : OperationChange db db') : Prop where
  admissible : c.Admissible
  unfinished : c.operation.outcome = none
  manifest : c.operation'.manifest = c.operation.manifest ∨ c.operation.phase = .queued
  cancellation : c.RespectsCancellation

/-- What a committed transaction did to a consistent database. -/
inductive Committed (db db' : Database V) : Prop
  | unchanged (heq : db' = db)
  | changed (c : OperationChange db db') (hlawful : c.Lawful)
  | intended {operationId : OperationId} {expectedTransition : Nat} {batchId : EffectBatchId}
      {newId : Nat → EffectId} {intent : NewEffectBatchIntent V}
      (i : IntendedBatch db operationId expectedTransition batchId newId intent db')
      (hcancel : db.cancellationRequested operationId = false)
  | admitted {operationId : OperationId} {sessionId : SessionId} {command : Command V}
      (a : AdmittedOperation db operationId sessionId command db')
  | registered (r : Registered db db')

/-- What a committed transaction did that rewrites rows of one operation only. -/
inductive ChangedBy (operationId : OperationId) (db db' : Database V) : Prop
  | unchanged (heq : db' = db)
  | changed (c : OperationChange db db') (hlawful : c.Lawful) (hlocal : c.IsLocal)
      (hid : c.operation.operationId = operationId)

/-- What a call committed that holds no lease: it adds rows and moves no operation. -/
inductive Called (db db' : Database V) : Prop
  | unchanged (heq : db' = db)
  | admitted {operationId : OperationId} {sessionId : SessionId} {command : Command V}
      (a : AdmittedOperation db operationId sessionId command db')
  | registered (r : Registered db db')

theorem Called.committed (h : Called db db') : Committed db db' := by
  cases h with
  | unchanged heq => exact .unchanged heq
  | admitted a => exact .admitted a
  | registered r => exact .registered r

theorem ChangedBy.committed {opId : OperationId} (h : ChangedBy opId db db') :
    Committed db db' := by
  cases h with
  | unchanged heq => exact .unchanged heq
  | changed c hlaw _ _ => exact .changed c hlaw

theorem Committed.consistent (hcom : Committed db db') (h : Consistent db) :
    Consistent db' := by
  cases hcom with
  | unchanged heq =>
    rw [heq]
    exact h
  | changed c hlaw => exact c.consistent h hlaw.admissible
  | intended i _ => exact i.consistent h
  | admitted a => exact a.consistent h
  | registered r => exact r.consistent h

/-- A stored effect takes one step of its lifecycle, or none. -/
theorem Committed.effect_step (hcom : Committed db db') (he : e ∈ db.effects) :
    ∃ e' ∈ db'.effects, EffectStep e e' := by
  cases hcom with
  | unchanged heq => exact ⟨e, by rw [heq]; exact he, .same e⟩
  | changed c _ => exact ⟨c.effect e, c.effect_mem he, c.effect_step e he⟩
  | intended i _ => exact ⟨e, i.mem_effects.mpr (.inl he), .same e⟩
  | admitted a => exact ⟨e, by rw [a.db'_eq]; exact he, .same e⟩
  | registered r => exact ⟨e, by rw [r.effects_eq]; exact he, .same e⟩

/-- A stored batch stays, and no child is added to it or taken from it. -/
theorem Committed.batch_kept (hcom : Committed db db') (hb : b ∈ db.effectBatches)
    : b ∈ db'.effectBatches ∧ (db'.childrenOf b.batchId).map EffectRow.effectId =
        (db.childrenOf b.batchId).map EffectRow.effectId := by
  cases hcom with
  | unchanged heq =>
    rw [heq]
    exact ⟨hb, rfl⟩
  | changed c _ =>
    refine ⟨by rw [c.effectBatches_eq]; exact hb, ?_⟩
    unfold Database.childrenOf
    rw [c.effects_eq, filter_map, map_map]
    have hfilt : db.effects.rows.filter ((fun e => decide (e.batchId = b.batchId)) ∘ c.effect) =
        db.effects.rows.filter fun e => decide (e.batchId = b.batchId) := by
      refine filter_congr fun e he => ?_
      show decide ((c.effect e).batchId = b.batchId) = _
      rw [(c.effect_step e he).batchId_eq]
    rw [hfilt]
    exact map_congr_left fun e he => (c.effect_step e (mem_of_mem_filter he)).effectId_eq
  | intended i _ =>
    refine ⟨i.mem_effectBatches.mpr (.inl hb), ?_⟩
    rw [i.childrenOf_old hb]
  | admitted a =>
    rw [a.db'_rest]
    exact ⟨hb, rfl⟩
  | registered r =>
    rw [r.db'_eq]
    exact ⟨hb, rfl⟩

/-- A lawful change of the operation row `o` that rewrites the effect rows by `f`. -/
def Changes (db db' : Database V) (o : OperationRow V) (f : EffectRow V → EffectRow V) : Prop :=
  ∃ c : OperationChange db db', c.Lawful ∧ c.operation = o ∧ c.effect = f

theorem Changes.committed (h : Changes db db' o f) : Committed db db' := by
  obtain ⟨c, hlaw, _, _⟩ := h
  exact .changed c hlaw

theorem Changes.changedBy (h : Changes db db' o f) (hlocal : ∀ e ∈ db.effects, ∀ b ∈
      db.effectBatches, b.batchId = e.batchId → b.operationId ≠ o.operationId → f e = e) :
    ChangedBy o.operationId db db' := by
  obtain ⟨c, hlaw, rfl, rfl⟩ := h
  exact .changed c hlaw hlocal rfl

end Renoa.Kernel
