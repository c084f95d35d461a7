import Renoa.Kernel.Consistency

/-!
# Changes of one operation

Most transactions rewrite one operation row, the session row that owns it, some effect rows, and
append events: an `OperationChange`. `OperationChange.consistent` is the one proof that such a
change keeps a database consistent; what it asks of the change is `OperationChange.Admissible`.
-/

namespace Renoa.Kernel

open Foundation List Table

variable {V : Type} {db db' : Database V} {o : OperationRow V} {s : SessionRow} {e : EffectRow V}
  {b : EffectBatchRow}

/-- A transaction that rewrites the row `operation` to `operation'` and the row `session` that
owns it to `session'`, rewrites every effect row by `effect`, and appends `events`. -/
structure OperationChange (db db' : Database V) where
  operation : OperationRow V
  operation' : OperationRow V
  session : SessionRow
  session' : SessionRow
  effect : EffectRow V → EffectRow V
  newId : Nat → EventId
  events : List (NewEvent V)
  operation_mem : operation ∈ db.operations
  operations_eq : db'.operations = db.operations.put operation'
  operationId_eq : operation'.operationId = operation.operationId
  sessionId_eq : operation'.sessionId = operation.sessionId
  commandId_eq : operation'.commandId = operation.commandId
  position_eq : operation'.position = operation.position
  nextEffectBatchPosition_eq :
    operation'.nextEffectBatchPosition = operation.nextEffectBatchPosition
  session_mem : session ∈ db.sessions
  session_owner : session.sessionId = operation.sessionId
  sessions_eq : db'.sessions = db.sessions.put session'
  session'_id : session'.sessionId = session.sessionId
  session'_position : session'.nextCommandPosition = session.nextCommandPosition
  session'_sequence : session'.nextEventSequence = session.nextEventSequence + events.length
  effects_eq : db'.effects.rows = db.effects.rows.map effect
  effect_step : ∀ e ∈ db.effects, EffectStep e (effect e)
  events_eq : db'.semanticEvents.rows = db.semanticEvents.rows ++
    eventRows operation.sessionId operation.operationId newId session.nextEventSequence events
  commands_eq : db'.commands = db.commands
  effectBatches_eq : db'.effectBatches = db.effectBatches
  cancellationRequests_eq : db'.cancellationRequests = db.cancellationRequests

/-- The two rows agree on what only an activation or a batch commit changes. -/
structure OperationRow.SameIdentity (o o' : OperationRow V) : Prop where
  operationId : o'.operationId = o.operationId
  sessionId : o'.sessionId = o.sessionId
  commandId : o'.commandId = o.commandId
  position : o'.position = o.position
  manifest : o'.manifest = o.manifest
  nextEffectBatchPosition : o'.nextEffectBatchPosition = o.nextEffectBatchPosition

namespace OperationChange

/-- The change that leads to a database with these rows in place of `o` and `s`; only the manifest
of the operation may be new. -/
def ofRows {o' : OperationRow V} {s' : SessionRow} {f : EffectRow V → EffectRow V}
    {effects : Table (EffectRow.effectId (V := V))}
    {semanticEvents : Table (EventRow.eventId (V := V))} (newId : Nat → EventId)
    (events : List (NewEvent V))
    (hdb : db' = { db with
      operations := db.operations.put o'
      sessions := db.sessions.put s'
      effects
      semanticEvents }) (ho : o ∈ db.operations)
    (hsame : o.SameIdentity { o' with manifest := o.manifest }) (hs : s ∈ db.sessions)
    (hown : s.sessionId = o.sessionId)
    (hid : s'.sessionId = s.sessionId) (hposition : s'.nextCommandPosition = s.nextCommandPosition)
    (hsequence : s'.nextEventSequence = s.nextEventSequence + events.length)
    (heffects : effects.rows = db.effects.rows.map f)
    (hstep : ∀ e ∈ db.effects, EffectStep e (f e))
    (hevents : semanticEvents.rows = db.semanticEvents.rows ++
      eventRows o.sessionId o.operationId newId s.nextEventSequence events) :
    OperationChange db db' where
  operation := o
  operation' := o'
  session := s
  session' := s'
  effect := f
  newId := newId
  events := events
  operation_mem := ho
  operations_eq := congrArg Database.operations hdb
  operationId_eq := hsame.operationId
  sessionId_eq := hsame.sessionId
  commandId_eq := hsame.commandId
  position_eq := hsame.position
  nextEffectBatchPosition_eq := hsame.nextEffectBatchPosition
  session_mem := hs
  session_owner := hown
  sessions_eq := congrArg (fun d => d.sessions) hdb
  session'_id := hid
  session'_position := hposition
  session'_sequence := hsequence
  effects_eq := (congrArg (fun d => d.effects.rows) hdb).trans heffects
  effect_step := hstep
  events_eq := (congrArg (fun d => d.semanticEvents.rows) hdb).trans hevents
  commands_eq := congrArg (fun d => d.commands) hdb
  effectBatches_eq := congrArg (fun d => d.effectBatches) hdb
  cancellationRequests_eq := congrArg (fun d => d.cancellationRequests) hdb

/-- What a change asks of its new operation row, its session row and its effects to keep the
database consistent. -/
structure Admissible (c : OperationChange db db') : Prop where
  wellFormed : c.operation'.WellFormed
  active : ∀ id, c.session'.activeOperationId = some id ↔
    if id = c.operation.operationId then c.operation'.phase.isCancellable = true
    else c.session.activeOperationId = some id
  foreign : ∀ e ∈ db.effects, ∀ b ∈ db.effectBatches, b.batchId = e.batchId →
    b.operationId ≠ c.operation.operationId →
    c.effect e = e ∨
      (e.status = .dispatchStarted ∧ c.effect e = { e with status := .outcomeUnknown })
  last : ∀ b ∈ db.effectBatches, b.operationId = c.operation.operationId →
    b.position + 1 = c.operation.nextEffectBatchPosition →
    ∀ e ∈ db.effects, e.batchId = b.batchId →
      c.operation'.phase.allowsStatus (c.effect e).status = true
  unknown : ∀ b ∈ db.effectBatches, b.operationId = c.operation.operationId →
    b.position + 1 = c.operation.nextEffectBatchPosition →
    c.operation'.phase = .outcomeUnknown →
    ∃ e ∈ db.effects, e.batchId = b.batchId ∧ (c.effect e).status = .outcomeUnknown
  released : ∀ b ∈ db.effectBatches, b.operationId = c.operation.operationId →
    ∀ e ∈ db.effects, e.batchId = b.batchId → (c.effect e).request = none →
      c.operation'.outcome ≠ none ∧
        ∀ e' ∈ db.effects, e'.batchId = b.batchId → (c.effect e').status = .settled
  current : ∀ batchId, c.operation'.currentEffectBatchId = some batchId →
    IsLastBatch db c.operation batchId
  input : ∀ batchId, c.operation'.inputEffectBatchId = some batchId →
    IsLastBatch db c.operation batchId

variable (c : OperationChange db db') {bid : EffectBatchId}

include c

/-- A row of the new operation table is the new row or an untouched one. -/
theorem mem_operations : o ∈ db'.operations ↔
    o = c.operation' ∨ o ∈ db.operations ∧ o.operationId ≠ c.operation.operationId := by
  rw [c.operations_eq, mem_put_iff c.operation_mem c.operationId_eq]

theorem operation'_mem : c.operation' ∈ db'.operations := c.mem_operations.mpr (.inl rfl)

/-- Every operation keeps a row with its identity and its session. -/
theorem exists_operation' (ho : o ∈ db.operations) :
    ∃ o' ∈ db'.operations, o'.operationId = o.operationId ∧ o'.sessionId = o.sessionId := by
  rw [c.operations_eq]
  refine exists_mem_put c.operation_mem c.operationId_eq ho ?_ ⟨rfl, rfl⟩
  rintro rfl
  exact ⟨c.operationId_eq, c.sessionId_eq⟩

theorem mem_sessions : s ∈ db'.sessions ↔
    s = c.session' ∨ s ∈ db.sessions ∧ s.sessionId ≠ c.session.sessionId := by
  rw [c.sessions_eq, mem_put_iff c.session_mem c.session'_id]

theorem mem_effects : e ∈ db'.effects ↔ ∃ q ∈ db.effects, c.effect q = e := by
  rw [← mem_rows, c.effects_eq, mem_map]
  rfl

theorem effect_mem (he : e ∈ db.effects) : c.effect e ∈ db'.effects :=
  c.mem_effects.mpr ⟨e, he, rfl⟩

/-- The effects of a batch are those it had, each after its step. -/
theorem forall_effects {p : EffectRow V → Prop}
    (hp : ∀ q ∈ db.effects, q.batchId = bid → p (c.effect q)) :
    ∀ e ∈ db'.effects, e.batchId = bid → p e := by
  intro e he heb
  obtain ⟨q, hq, rfl⟩ := c.mem_effects.mp he
  exact hp q hq ((c.effect_step q hq).batchId_eq.symm.trans heb)

theorem isLastBatch_iff : IsLastBatch db' o bid ↔ IsLastBatch db o bid := by
  unfold IsLastBatch
  rw [c.effectBatches_eq]

theorem isLastBatch_operation' (h : IsLastBatch db c.operation bid) :
    IsLastBatch db' c.operation' bid := by
  unfold IsLastBatch
  rwa [c.effectBatches_eq, c.operationId_eq, c.nextEffectBatchPosition_eq]

/-! ## Numbering -/

theorem operation_numbered (h : Consistent db) (hs : s ∈ db'.sessions) :
    Numbered OperationRow.position (db'.operationsOf s.sessionId) s.nextCommandPosition := by
  have hold : Numbered OperationRow.position (db.operationsOf s.sessionId)
      s.nextCommandPosition := by
    rcases c.mem_sessions.mp hs with rfl | ⟨hmem, _⟩
    · rw [c.session'_id, c.session'_position]
      exact h.operation_numbered _ c.session_mem
    · exact h.operation_numbered s hmem
  unfold Database.operationsOf
  rw [c.operations_eq]
  exact numbered_put_operation c.operation_mem c.operationId_eq c.sessionId_eq c.position_eq hold

theorem childrenOf_numbered {n : Nat} (h : Numbered EffectRow.position (db.childrenOf bid) n) :
    Numbered EffectRow.position (db'.childrenOf bid) n := by
  unfold Database.childrenOf at *
  rw [c.effects_eq]
  exact h.filter_map (fun e he => by rw [(c.effect_step e he).batchId_eq])
    fun e he => (c.effect_step e he).position_eq

theorem event_numbered (h : Consistent db) (hs : s ∈ db'.sessions) :
    Numbered EventRow.sequence (db'.eventsOf s.sessionId) s.nextEventSequence := by
  have hnew : ∀ e ∈ eventRows c.operation.sessionId c.operation.operationId c.newId
      c.session.nextEventSequence c.events, e.sessionId = c.session.sessionId :=
    fun e he => (eventRows_owner he).1.trans c.session_owner.symm
  unfold Database.eventsOf
  rw [c.events_eq, filter_append_owner hnew]
  rcases c.mem_sessions.mp hs with rfl | ⟨hmem, hne⟩
  · -- the owning session takes all new rows, numbered from its cursor on
    rw [if_pos c.session'_id, c.session'_id, c.session'_sequence]
    exact (h.event_numbered _ c.session_mem).append (map_sequence_eventRows _ _ _ _ _)
  · rw [if_neg hne, append_nil]
    exact h.event_numbered s hmem

/-! ## Batches -/

/-- The children of another operation's batch move only from open to unknown. -/
theorem foreign_status (hc : c.Admissible) (he : e ∈ db.effects) (hb : b ∈ db.effectBatches)
    (heb : e.batchId = b.batchId) (hne : b.operationId ≠ c.operation.operationId) :
    (c.effect e).request = e.request ∧ ((c.effect e).status = e.status ∨
        (e.status = .dispatchStarted ∧ (c.effect e).status = .outcomeUnknown)) := by
  rcases hc.foreign e he b hb heb.symm hne with heq | ⟨hopen, heq⟩
  · rw [heq]
    exact ⟨rfl, .inl rfl⟩
  · rw [heq]
    exact ⟨rfl, .inr ⟨hopen, rfl⟩⟩

section

variable (h : Consistent db) (hc : c.Admissible)

include h hc

/-- The batches of the changed operation. -/
theorem batchConsistent_own (hb : b ∈ db.effectBatches)
    (hown : b.operationId = c.operation.operationId) : BatchConsistent db' c.operation' b := by
  have hbat := h.batch_consistent _ c.operation_mem b hb hown
  refine ⟨?_, ?_, ?_, ?_⟩
  · intro hearl
    rw [c.nextEffectBatchPosition_eq] at hearl
    exact c.forall_effects fun q hq heb =>
      ((c.effect_step q hq).settled_stays (hbat.earlier hearl q hq heb)).1
  · intro hlast
    rw [c.nextEffectBatchPosition_eq] at hlast
    exact c.forall_effects fun q hq heb => hc.last b hb hown hlast q hq heb
  · intro hlast hph
    rw [c.nextEffectBatchPosition_eq] at hlast
    obtain ⟨q, hq, hqb, hstat⟩ := hc.unknown b hb hown hlast hph
    exact ⟨c.effect q, c.effect_mem hq, by rw [(c.effect_step q hq).batchId_eq, hqb], hstat⟩
  · refine c.forall_effects fun q hq heb hreq => ?_
    obtain ⟨hout, hall⟩ := hc.released b hb hown q hq heb hreq
    exact ⟨hout, c.forall_effects hall⟩

/-- The batches of every other operation. -/
theorem batchConsistent_other (ho : o ∈ db.operations)
    (hne : o.operationId ≠ c.operation.operationId) (hb : b ∈ db.effectBatches)
    (hown : b.operationId = o.operationId) : BatchConsistent db' o b := by
  have hbat := h.batch_consistent o ho b hb hown
  have hfor : b.operationId ≠ c.operation.operationId := by
    rw [hown]
    exact hne
  refine ⟨?_, ?_, ?_, ?_⟩
  · exact fun hearl => c.forall_effects fun q hq heb =>
      ((c.effect_step q hq).settled_stays (hbat.earlier hearl q hq heb)).1
  · refine fun hlast => c.forall_effects fun q hq heb => ?_
    have hal := hbat.last hlast q hq heb
    rcases (c.foreign_status hc hq hb heb hfor).2 with hsame | ⟨hopen, hunk⟩
    · rw [hsame]
      exact hal
    · rw [hunk]
      rw [hopen] at hal
      exact OperationPhase.allowsStatus_unknown hal
  · intro hlast hph
    obtain ⟨q, hq, hqb, hstat⟩ := hbat.unknown hlast hph
    refine ⟨c.effect q, c.effect_mem hq, by rw [(c.effect_step q hq).batchId_eq, hqb], ?_⟩
    rcases (c.foreign_status hc hq hb hqb hfor).2 with hsame | ⟨_, hunk⟩
    · rw [hsame]
      exact hstat
    · exact hunk
  · refine c.forall_effects fun q hq heb hreq => ?_
    rw [(c.foreign_status hc hq hb heb hfor).1] at hreq
    obtain ⟨hout, hall⟩ := hbat.released q hq heb hreq
    exact ⟨hout, c.forall_effects fun q' hq' heb' =>
      ((c.effect_step q' hq').settled_stays (hall q' hq' heb')).1⟩

/-- The session's pointer follows the operation in and out of the active phases. -/
theorem active (hs : s ∈ db'.sessions) (id : OperationId) :
    s.activeOperationId = some id ↔ ∃ o ∈ db'.operations, o.operationId = id ∧
      o.sessionId = s.sessionId ∧ o.phase.isCancellable = true := by
  have hoth : ∀ t ∈ db.sessions, id ≠ c.operation.operationId →
      (t.activeOperationId = some id ↔ ∃ o ∈ db'.operations, o.operationId = id ∧
        o.sessionId = t.sessionId ∧ o.phase.isCancellable = true) := by
    intro t ht hid
    rw [h.active t ht id]
    constructor
    · rintro ⟨o, ho, rfl, hrest⟩
      exact ⟨o, c.mem_operations.mpr (.inr ⟨ho, hid⟩), rfl, hrest⟩
    · rintro ⟨o, ho, rfl, hrest⟩
      rcases c.mem_operations.mp ho with rfl | ⟨hmem, _⟩
      · exact absurd c.operationId_eq hid
      · exact ⟨o, hmem, rfl, hrest⟩
  rcases c.mem_sessions.mp hs with rfl | ⟨hmem, hne⟩
  · rw [hc.active id, c.session'_id]
    by_cases hid : id = c.operation.operationId
    · rw [if_pos hid]
      constructor
      · intro hcanc
        exact ⟨c.operation', c.operation'_mem, c.operationId_eq.trans hid.symm,
          c.sessionId_eq.trans c.session_owner.symm, hcanc⟩
      · rintro ⟨o, ho, rfl, _, hcanc⟩
        rcases c.mem_operations.mp ho with rfl | ⟨_, hneq⟩
        · exact hcanc
        · exact absurd hid hneq
    · rw [if_neg hid]
      exact hoth _ c.session_mem hid
  · by_cases hid : id = c.operation.operationId
    · -- the changed operation belongs to the owning session, not to this one
      have hwrong : ∀ o : OperationRow V, o.sessionId = s.sessionId →
          o.sessionId ≠ c.operation.sessionId := by
        intro o hos heq
        exact hne (hos.symm.trans (heq.trans c.session_owner.symm))
      constructor
      · intro hact
        obtain ⟨o, ho, hoid, hos, _⟩ := (h.active s hmem id).mp hact
        have hsame : o = c.operation := key_inj ho c.operation_mem (hoid.trans hid)
        exact absurd (by rw [hsame]) (hwrong o hos)
      · rintro ⟨o, ho, hoid, hos, _⟩
        rcases c.mem_operations.mp ho with rfl | ⟨_, hneq⟩
        · exact absurd c.sessionId_eq (hwrong _ hos)
        · exact absurd (hoid.trans hid) hneq
    · exact hoth s hmem hid

/-- An admissible change keeps the database consistent. -/
theorem consistent : Consistent db' where
  operation_row o ho := by
    rcases c.mem_operations.mp ho with rfl | ⟨hmem, _⟩
    · exact hc.wellFormed
    · exact h.operation_row o hmem
  operation_session o ho := by
    rcases c.mem_operations.mp ho with rfl | ⟨hmem, _⟩
    · exact ⟨c.session', c.mem_sessions.mpr (.inl rfl),
        c.session'_id.trans (c.session_owner.trans c.sessionId_eq.symm)⟩
    · obtain ⟨s, hs, hso⟩ := h.operation_session o hmem
      rw [c.sessions_eq]
      exact exists_mem_put c.session_mem c.session'_id hs
        (fun heq => c.session'_id.trans (heq ▸ hso)) hso
  operation_command o ho := by
    rw [c.commands_eq]
    rcases c.mem_operations.mp ho with rfl | ⟨hmem, _⟩
    · rw [c.commandId_eq, c.sessionId_eq]
      exact h.operation_command _ c.operation_mem
    · exact h.operation_command o hmem
  operation_numbered _ hs := c.operation_numbered h hs
  active _ hs id := c.active h hc hs id
  batch_owner b hb := by
    rw [c.effectBatches_eq] at hb
    obtain ⟨o, ho, hob⟩ := h.batch_owner b hb
    obtain ⟨o', ho', hid, _⟩ := c.exists_operation' ho
    exact ⟨o', ho', hid.trans hob⟩
  batch_numbered o ho := by
    unfold Database.batchesOf
    rw [c.effectBatches_eq]
    rcases c.mem_operations.mp ho with rfl | ⟨hmem, _⟩
    · rw [c.operationId_eq, c.nextEffectBatchPosition_eq]
      exact h.batch_numbered _ c.operation_mem
    · exact h.batch_numbered o hmem
  batch_consistent o ho b hb hown := by
    rw [c.effectBatches_eq] at hb
    rcases c.mem_operations.mp ho with rfl | ⟨hmem, hne⟩
    · exact c.batchConsistent_own h hc hb (hown.trans c.operationId_eq)
    · exact c.batchConsistent_other h hc hmem hne hb hown
  current_last o ho bid hcur := by
    rcases c.mem_operations.mp ho with rfl | ⟨hmem, _⟩
    · exact c.isLastBatch_operation' (hc.current bid hcur)
    · exact c.isLastBatch_iff.mpr (h.current_last o hmem bid hcur)
  input_last o ho bid hin := by
    rcases c.mem_operations.mp ho with rfl | ⟨hmem, _⟩
    · exact c.isLastBatch_operation' (hc.input bid hin)
    · exact c.isLastBatch_iff.mpr (h.input_last o hmem bid hin)
  effect_row e he := by
    obtain ⟨q, hq, rfl⟩ := c.mem_effects.mp he
    exact (c.effect_step q hq).wellFormed (h.effect_row q hq)
  effect_owner e he := by
    obtain ⟨q, hq, rfl⟩ := c.mem_effects.mp he
    rw [c.effectBatches_eq, (c.effect_step q hq).batchId_eq]
    exact h.effect_owner q hq
  effect_numbered b hb := by
    rw [c.effectBatches_eq] at hb
    obtain ⟨n, hn, hnum⟩ := h.effect_numbered b hb
    exact ⟨n, hn, c.childrenOf_numbered hnum⟩
  event_owner e he := by
    rw [← mem_rows, c.events_eq, mem_append] at he
    rcases he with hold | hnew
    · obtain ⟨o, ho, hid, hsid⟩ := h.event_owner e hold
      obtain ⟨o', ho', hid', hsid'⟩ := c.exists_operation' ho
      exact ⟨o', ho', hid'.trans hid, hsid'.trans hsid⟩
    · obtain ⟨hses, hop⟩ := eventRows_owner hnew
      exact ⟨c.operation', c.operation'_mem, c.operationId_eq.trans hop.symm,
        c.sessionId_eq.trans hses.symm⟩
  event_numbered _ hs := c.event_numbered h hs
  cancellation_owner r hr := by
    rw [c.cancellationRequests_eq] at hr
    obtain ⟨o, ho, hid, hsid⟩ := h.cancellation_owner r hr
    obtain ⟨o', ho', hid', hsid'⟩ := c.exists_operation' ho
    exact ⟨o', ho', hid'.trans hid, hsid'.trans hsid⟩

end

end OperationChange

end Renoa.Kernel
