import Renoa.Kernel.SoundReads

/-!
# Writes of a driver find nothing corrupt

A write transaction of a driver reports a corrupt state when a row it is about to replace is not
the row the driver expects. From a consistent database in which the driver's knowledge of its
operation still holds, no such guard fails: one `sound_` lemma for each transaction, with the rows
it needs as hypotheses.
-/

namespace Renoa.Kernel

open Foundation Table Database

variable {V : Type} {db : Database V} {o : OperationRow V} {guard : OperationRow V → Bool}
  {f : OperationRow V → OperationRow V} {sid : SessionId} {opId : OperationId}

/-! ## Guarded rows -/

/-- A guard that the row passes does not stop its update. -/
theorem updateOperation_ne_none (ho : o ∈ db.operations) (hgrd : guard o = true) :
    db.updateOperation o.operationId guard f ≠ none := by
  unfold Database.updateOperation
  rw [ne_eq, Option.map_eq_none_iff]
  exact updateOne_ne_none ho hgrd

theorem find?_filter_ne_none (ho : o ∈ db.operations) (hgrd : guard o = true) :
    (db.operations.find? o.operationId).filter guard ≠ none := by
  rw [find?_of_mem ho, Option.filter_some, if_pos hgrd]
  exact Option.some_ne_none o

/-- The session of an active operation points at it. -/
theorem Consistent.pointer (h : Consistent db) (ho : o ∈ db.operations)
    (hphase : o.phase.isCancellable = true) : ∃ row,
      db.sessions.find? o.sessionId = some row ∧ row.activeOperationId = some o.operationId := by
  obtain ⟨row, hrow, hs⟩ := h.operation_session o ho
  refine ⟨row, find?_eq_some.mpr ⟨hrow, hs⟩, ?_⟩
  exact (h.active row hrow o.operationId).mpr ⟨o, ho, rfl, hs.symm, hphase⟩

/-- It also has the high water the driver read. -/
theorem Consistent.pointer_at (h : Consistent db) (ho : o ∈ db.operations)
    (hphase : o.phase.isCancellable = true) {sequence : Nat}
    (hwater : HighWater db o.sessionId sequence) : ∃ row,
      db.sessions.find? o.sessionId = some row ∧ row.activeOperationId = some o.operationId ∧
        row.nextEventSequence = sequence := by
  obtain ⟨row, hrow, hact⟩ := h.pointer ho hphase
  obtain ⟨row', hrow', hs, rfl⟩ := hwater
  have hsame : row' = row := key_inj hrow' (mem_of_find? hrow) (hs.trans (key_of_find? hrow).symm)
  exact ⟨row, hrow, hact, by rw [hsame]⟩

/-- The session row a closing transaction reads first. -/
theorem find?_filter_pointer {row : SessionRow} (hrow : db.sessions.find? sid = some row)
    (hact : row.activeOperationId = some opId) :
    (db.sessions.find? sid).filter
      (fun sess => decide (sess.activeOperationId = some opId)) = some row := by
  rw [hrow, Option.filter_some, if_pos (decide_eq_true hact)]

/-- The current batch of an operation in an effect phase. -/
theorem Consistent.currentBatch (h : Consistent db) (ho : o ∈ db.operations)
    (hphase : o.phase.isEffectPhase = true) : ∃ b ∈ db.effectBatches,
      o.currentEffectBatchId = some b.batchId ∧ b.operationId = o.operationId ∧
        b.position + 1 = o.nextEffectBatchPosition := by
  have hcur := (h.operation_row o ho).current
  rw [hphase] at hcur
  obtain ⟨bid, hsome⟩ := Option.isSome_iff_exists.mp hcur
  obtain ⟨b, hb, rfl, hown, hpos⟩ := h.current_last o ho bid hsome
  exact ⟨b, hb, hsome, hown, hpos⟩

/-! ## Events and endings -/

theorem sound_insertEvents (db : Database V) (rows : List (EventRow V)) :
    Sound (db.insertEvents rows) := by
  induction rows generalizing db with
  | nil => exact avoids_ok db
  | cons row rest ih =>
    refine avoids_bind ?_ fun db' _ => ih db'
    exact avoids_ensure_bind False.elim fun _ =>
      avoids_require_bind False.elim fun _ _ => avoids_ok _

/-- The session whose events are numbered is still there. -/
theorem sound_appendEvents (db : Database V) (sid : SessionId) (opId : OperationId)
    (newId : Nat → EventId) (evs : List (NewEvent V)) :
    Sound (db.appendEvents sid opId newId evs) := by
  refine avoids_require_bind False.elim fun row hrow => ?_
  refine avoids_bind (sound_insertEvents _ _) fun mid hmid => ?_
  refine avoids_require_bind (fun _ => ?_) fun _ _ => avoids_ok _
  obtain ⟨hmem, rfl⟩ := find?_eq_some.mp hrow
  have hsessions : mid.sessions = db.sessions := by rw [(insertEvents_ok hmid).2.2]
  rw [hsessions]
  exact updateOne_ne_none hmem (decide_eq_true rfl)

theorem sound_validateNewEvents (evs : List (NewEvent V)) : Sound (validateNewEvents evs) :=
  avoids_ensure False.elim

section Ending

variable {o : OperationRow V} (h : Consistent db) (ho : o ∈ db.operations)
  (hphase : o.phase.isCancellable = true) {newId : Nat → EventId} {evs : List (NewEvent V)}
  {db₁ db₂ : Database V}

include ho in
theorem updateOperation_append_ne_none (happ : db.appendEvents sid opId newId evs = .ok db₁)
    (hgrd : guard o = true) : db₁.updateOperation o.operationId guard f ≠ none := by
  obtain ⟨_, _, _, _, hdb₁⟩ := appendEvents_ok happ
  have hops : db₁.operations = db.operations := by rw [hdb₁]
  exact updateOperation_ne_none (by rw [hops]; exact ho) hgrd

include h ho hphase in
/-- An active operation still owns its session when its last events are appended and its row is
replaced. -/
theorem releaseSession_ne_none
    (happ : db.appendEvents o.sessionId o.operationId newId evs = .ok db₁)
    (hupd : db₁.updateOperation o.operationId guard f = some db₂) :
    db₂.releaseSession o.sessionId o.operationId ≠ none := by
  obtain ⟨row, hrow, hact⟩ := h.pointer ho hphase
  obtain ⟨row', hrow', _, _, hdb₁⟩ := appendEvents_ok happ
  obtain ⟨_, _, _, rfl⟩ := updateOperation_eq_some hupd
  obtain rfl : row' = row := Option.some.inj (hrow'.symm.trans hrow)
  unfold Database.releaseSession
  rw [ne_eq, Option.map_eq_none_iff]
  have hsessions : db₁.sessions = db.sessions.put
      { row' with nextEventSequence := row'.nextEventSequence + evs.length } := by
    rw [hdb₁]
  have hmem := mem_of_find? hrow
  have hkey : row'.sessionId = o.sessionId := key_of_find? hrow
  rw [hsessions, ← hkey]
  refine updateOne_ne_none (r := { row' with
    nextEventSequence := row'.nextEventSequence + evs.length })
    (mem_put_self hmem rfl) ?_
  exact decide_eq_true hact

end Ending

section

variable (h : Consistent db) (ho : o ∈ db.operations)

include h ho

/-- The operation is still where the loop decided on it. -/
theorem Consistent.sound_commitDecision (hphase : o.phase = .needDecision) (newId : Nat → EventId)
    (dec : LoopDecision V) :
    Sound (db.commitDecision o.sessionId o.operationId o.transitionVersion newId dec) := by
  have hact : o.phase.isCancellable = true := by rw [hphase]; rfl
  refine avoids_bind ?_ fun write _ => avoids_bind (sound_validateNewEvents _) fun _ _ => ?_
  · cases dec with
    | appendEventsAndContinue ckpt evs => exact avoids_ensure_bind False.elim fun _ => avoids_ok _
    | invokeEffects ckpt effs => exact avoids_error.mpr False.elim
    | waitForInput ckpt evs | complete ckpt evs | fail ckpt evs reason => exact avoids_ok _
  · split
    · exact avoids_ok _
    · refine avoids_bind (sound_appendEvents _ _ _ _ _) fun db₁ happ => ?_
      refine avoids_require_bind (fun _ => ?_) fun db₂ hupd => ?_
      · apply updateOperation_append_ne_none ho happ
        rw [Bool.and_eq_true]
        exact ⟨decide_eq_true hphase, decide_eq_true rfl⟩
      · split
        · exact avoids_ok _
        · refine avoids_require_bind (fun _ => ?_) fun _ _ => avoids_ok _
          exact releaseSession_ne_none h ho hact happ hupd

/-- No other transaction ended the operation since it was read. -/
theorem Consistent.sound_commitCancellation (hact : o.phase.isCancellable = true)
    {highWater : Nat} (hwater : HighWater db o.sessionId highWater)
    (hask : db.cancellationRequested o.operationId = true) (newId : Nat → EventId)
    (transition : CancellationTransition V) :
    Sound (db.commitCancellation o.sessionId o.operationId o.transitionVersion highWater newId
      transition) := by
  obtain ⟨row, hrow, hptr, hseq⟩ := h.pointer_at ho hact hwater
  have hgrd : (decide (o.sessionId = o.sessionId) &&
      decide (o.transitionVersion = o.transitionVersion) && o.outcome.isNone) = true := by
    rw [h.outcome_none o ho hact]
    simp
  unfold Database.commitCancellation
  rw [find?_filter_pointer hrow hptr]
  refine avoids_bind (avoids_ok row) fun sess hsess => ?_
  cases hsess
  refine avoids_ensure_bind (fun _ => decide_eq_true hseq) fun _ => ?_
  refine avoids_ensure_bind (fun _ => hask) fun _ => ?_
  refine avoids_require_bind (fun _ => find?_filter_ne_none ho hgrd) fun q hq => ?_
  rw [find?_of_mem ho] at hq
  cases (Option.filter_eq_some_iff.mp hq).1
  refine avoids_ensure_bind (fun _ => hact) fun _ => ?_
  refine avoids_bind (sound_appendEvents _ _ _ _ _) fun db₁ happ => ?_
  refine avoids_require_bind (fun _ => ?_) fun db₂ hupd => avoids_require fun _ => ?_
  · exact updateOperation_append_ne_none ho happ (by simp)
  · exact releaseSession_ne_none h ho hact happ hupd

/-- The batch an abandonment read still has its unknown child. -/
theorem Consistent.unknownBatchUnchanged (hphase : o.phase = .outcomeUnknown) :
    db.unknownBatchUnchanged o.sessionId o.operationId o.transitionVersion = true := by
  have hact : o.phase.isCancellable = true := by rw [hphase]; rfl
  obtain ⟨b, hb, hcur, hown, hpos⟩ := h.currentBatch ho (by rw [hphase]; rfl)
  have hbat := h.batch_consistent o ho b hb hown
  have hinp := (h.operation_row o ho).input_eq_none (by rw [hphase]; decide)
  obtain ⟨e, he, heb, hunk⟩ := hbat.unknown hpos hphase
  have hout : e.outcome.isNone = true := by
    have := (h.effect_row e he).outcome
    rw [hunk] at this
    rw [Option.isNone_iff_eq_none]
    exact Option.not_isSome_iff_eq_none.mp (by rw [this]; decide)
  unfold Database.unknownBatchUnchanged
  rw [find?_of_mem ho]
  simp only [Option.any_some, Bool.and_eq_true, decide_eq_true_eq, List.any_eq_true,
    List.all_eq_true, Bool.or_eq_true, true_and, hphase, hinp, h.outcome_none o ho hact,
    Option.isNone_none]
  refine ⟨b, mem_batchesOf.mpr ⟨hb, hown⟩, ⟨hcur, e, ?_, hunk, hout⟩, ?_⟩
  · exact mem_childrenOf.mpr ⟨he, heb⟩
  · intro q hq
    obtain ⟨hq, hqb⟩ := mem_childrenOf.mp hq
    have hal := hbat.last hpos q hq hqb
    rw [hphase] at hal
    simpa [OperationPhase.allowsStatus] using hal

theorem Consistent.sound_commitUnknownEffectAbandonment (hphase : o.phase = .outcomeUnknown)
    {highWater : Nat} (hwater : HighWater db o.sessionId highWater) (newId : Nat → EventId)
    (abandonment : UnknownEffectAbandonment V) :
    Sound (db.commitUnknownEffectAbandonment o.sessionId o.operationId o.transitionVersion
      highWater newId abandonment) := by
  have hact : o.phase.isCancellable = true := by rw [hphase]; rfl
  obtain ⟨row, hrow, hptr, hseq⟩ := h.pointer_at ho hact hwater
  unfold Database.commitUnknownEffectAbandonment
  rw [find?_filter_pointer hrow hptr]
  refine avoids_ensure_bind False.elim fun _ => ?_
  refine avoids_bind (avoids_ok row) fun sess hsess => ?_
  cases hsess
  refine avoids_ensure_bind (fun _ => decide_eq_true hseq) fun _ => ?_
  refine avoids_ensure_bind (fun _ => h.unknownBatchUnchanged ho hphase) fun _ => ?_
  refine avoids_bind (sound_appendEvents _ _ _ _ _) fun db₁ happ => ?_
  refine avoids_require_bind (fun _ => ?_) fun db₂ hupd =>
    avoids_require_bind (fun _ => ?_) fun _ _ => avoids_ok _
  · exact updateOperation_append_ne_none ho happ (by simp [hphase])
  · exact releaseSession_ne_none h ho hact happ hupd

end

/-! ## Loop decisions -/

theorem sound_insertEffects (db : Database V) (rows : List (EffectRow V)) :
    Sound (db.insertEffects rows) := by
  induction rows generalizing db with
  | nil => exact avoids_ok db
  | cons row rest ih =>
    refine avoids_bind ?_ fun db' _ => ih db'
    exact avoids_ensure_bind False.elim fun _ =>
      avoids_require_bind False.elim fun _ _ => avoids_ok _

/-- The new batch and its children do not move the operation's row. -/
theorem sound_commitEffectBatchIntent (ho : o ∈ db.operations) (hphase : o.phase = .needDecision)
    (bid : EffectBatchId) (newId : Nat → EffectId) (intent : NewEffectBatchIntent V) :
    Sound (db.commitEffectBatchIntent o.operationId o.transitionVersion bid newId intent) := by
  have hgrd : (decide (o.phase = .needDecision) &&
      decide (o.transitionVersion = o.transitionVersion)) = true := by simp [hphase]
  refine avoids_ensure_bind False.elim fun _ => ?_
  split
  · exact avoids_ok _
  · refine avoids_require_bind (fun _ => find?_filter_ne_none ho hgrd) fun q _ => ?_
    refine avoids_require_bind False.elim fun batches _ => ?_
    refine avoids_bind (sound_insertEffects _ _) fun mid hmid => ?_
    refine avoids_require_bind (fun _ => ?_) fun _ _ => avoids_ok _
    have hops : mid.operations = db.operations := by rw [(insertEffects_ok hmid).2]
    exact updateOperation_ne_none (by rw [hops]; exact ho) hgrd

/-- Whatever the loop decides, its commit finds the operation. -/
theorem Consistent.sound_applyLoopDecision (h : Consistent db) (ho : o ∈ db.operations)
    (hphase : o.phase = .needDecision) {act : ActiveOperation V}
    (hid : o.operationId = act.operationId) (htrack : Tracks act o) (runtime : Runtime)
    (ch : Choice V) (dec : LoopDecision V) :
    Sound (db.applyLoopDecision o.sessionId act runtime ch dec) := by
  have hcom := h.sound_commitDecision ho hphase ch.eventIds
  unfold Database.applyLoopDecision
  rw [← hid, ← htrack.transitionVersion]
  refine avoids_ensure_bind False.elim fun _ => ?_
  cases dec with
  | invokeEffects ckpt effs =>
    refine avoids_ensure_bind False.elim fun _ => ?_
    refine avoids_bind (avoids_mapM fun eff _ => ?_) fun intents _ => ?_
    · exact avoids_require_bind False.elim fun _ _ =>
        avoids_ensure_bind False.elim fun _ => avoids_ok _
    · exact avoids_bind (sound_commitEffectBatchIntent ho hphase _ _ _) fun _ _ => avoids_ok _
  | appendEventsAndContinue ckpt evs | waitForInput ckpt evs
  | complete ckpt evs | fail ckpt evs reason => exact avoids_bind (hcom _) fun _ _ => avoids_ok _

/-! ## Activation and reload -/

/-- The activated row is stored. -/
theorem ActivatedOperation.activate_mem {mf : RuntimeManifest} {db' : Database V}
    (a : ActivatedOperation db sid mf db') :
    a.operation.activate mf ∈ db'.operations := by
  have hops := congrArg Database.operations a.db'_eq
  rw [hops]
  exact mem_put_self (firstQueued_eq_some a.first).1 rfl

/-- The pointer of a session names an open operation; an idle session takes its first queued one. -/
theorem Consistent.sound_activate (h : Consistent db) (sid : SessionId)
    (mf : RuntimeManifest) : Sound (db.activate sid mf) := by
  refine avoids_require_bind False.elim fun row hrow => ?_
  have hfind := hrow
  obtain ⟨hmem, rfl⟩ := find?_eq_some.mp hfind
  split
  next id hact =>
    obtain ⟨o, ho, rfl, hs, hphase⟩ := (h.active row hmem id).mp hact
    rw [← hs]
    exact avoids_bind (h.sound_loadActiveQuery ho hphase _) fun _ _ => avoids_ok _
  next hidle =>
    split
    · exact avoids_ok _
    next o hfst =>
      obtain ⟨ho, hs, hq⟩ := firstQueued_eq_some hfst
      refine avoids_bind ?_ fun db' hactivate => ?_
      · refine avoids_require_bind (fun _ => ?_) fun mid hmid =>
          avoids_require_bind (fun _ => ?_) fun _ _ => avoids_ok _
        · apply updateOperation_ne_none ho
          rw [(h.operation_row o ho).manifest.mpr hq]
          simp [hq]
        · obtain ⟨_, _, _, rfl⟩ := updateOperation_eq_some hmid
          apply updateOne_ne_none (t := db.sessions) hmem
          rw [hidle]
          rfl
      · obtain ⟨a, rfl⟩ := activateQueued_ok h.operation_row hfind hfst hactivate
        have hcons := (changedBy_activatedOperation h a).committed.consistent h
        have := hcons.sound_loadActiveQuery a.activate_mem rfl row.agentId
        rw [show (a.operation.activate mf).sessionId = row.sessionId from hs] at this
        exact avoids_bind this fun _ _ => avoids_ok _

theorem Consistent.sound_loadActive (h : Consistent db) (ho : o ∈ db.operations)
    (hphase : o.phase.isCancellable = true) : Sound (db.loadActive o.sessionId o.operationId) := by
  obtain ⟨row, hrow, hptr⟩ := h.pointer ho hphase
  unfold Database.loadActive
  rw [find?_filter_pointer hrow hptr]
  exact avoids_bind (avoids_ok row) fun _ _ => h.sound_loadActiveQuery ho hphase _

/-! ## Calls of other threads -/

theorem sound_createSession (db : Database V) (sid : SessionId) (aid : AgentId) :
    Sound (db.createSession sid aid) := by
  unfold Database.createSession
  split
  · exact avoids_ensure_bind False.elim fun _ => avoids_ok _
  · exact avoids_require_bind False.elim fun _ _ =>
      avoids_require_bind False.elim fun _ _ => avoids_ok _

/-- The session that is counted up was read in the same transaction. -/
theorem sound_insertOperation (db : Database V) (opId : OperationId)
    (sid : SessionId) (cmd : Command V) :
    Sound (db.insertOperation opId sid cmd) := by
  refine avoids_require_bind False.elim fun row hrow => ?_
  refine avoids_require_bind False.elim fun _ _ => ?_
  refine avoids_require_bind False.elim fun _ _ => ?_
  refine avoids_require_bind (fun _ => ?_) fun _ _ => avoids_ok _
  obtain ⟨hmem, rfl⟩ := find?_eq_some.mp hrow
  exact updateOne_ne_none hmem rfl

theorem sound_submitWithMode [DecidableEq V] (db : Database V) (mode : AdmissionMode)
    (opId : OperationId) (sid : SessionId) (cmd : Command V) :
    Sound (db.submitWithMode mode opId sid cmd) := by
  refine avoids_bind ?_ fun existing _ => ?_
  · unfold Database.existingAdmission
    split
    · exact avoids_ok none
    · split
      · exact avoids_ok none
      · exact avoids_ensure_bind False.elim fun _ => avoids_ok _
  · split
    · exact avoids_ok _
    · split
      · refine avoids_bind ?_ fun _ _ => sound_insertOperation _ _ _ _
        unfold Database.requireNoUnfinishedOperation
        split
        · exact avoids_error.mpr False.elim
        · exact avoids_ok ()
      · exact sound_insertOperation _ _ _ _

theorem sound_requestCancellation (db : Database V) (sid : SessionId)
    (opId : OperationId) (cancellationId : CancellationId) :
    Sound (db.requestCancellation sid opId cancellationId) := by
  unfold Database.requestCancellation
  split
  · exact avoids_ensure_bind False.elim fun _ =>
      avoids_require_bind False.elim fun _ _ => avoids_ok _
  · exact avoids_require_bind False.elim fun _ _ =>
      avoids_require_bind False.elim fun _ _ =>
        avoids_ensure_bind False.elim fun _ => avoids_require_bind False.elim fun _ _ => avoids_ok _

end Renoa.Kernel
