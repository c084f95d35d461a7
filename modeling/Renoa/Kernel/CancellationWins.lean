import Renoa.Kernel.Transaction

/-!
# A requested cancellation wins

Once a cancellation of an operation is recorded, every later transaction leaves its batches and
dispatch counts alone, settled outcomes stay, and the operation ends as `cancelled` or not at all.
`CancellationKept` is what each committed transaction preserves (`cancellationKept_of_committed`)
and a whole run with it (`cancellationKept_runAll`).
-/

namespace Renoa.Kernel

open Foundation List Table Database

variable {V : Type} {db db' db'' : Database V} {opId : OperationId} {sid : SessionId}

/-- The effect is a child of a batch of the operation. -/
def Database.ownsEffect (db : Database V) (operationId : OperationId) (e : EffectRow V) : Prop :=
  ∃ b ∈ db.batchesOf operationId, b.batchId = e.batchId

/-- What stays of an operation between two databases once its cancellation is requested. -/
structure CancellationKept (operationId : OperationId) (db db' : Database V) : Prop where
  requested : db'.cancellationRequested operationId = true
  batches : db'.batchesOf operationId = db.batchesOf operationId
  effect_kept : ∀ e ∈ db.effects, db.ownsEffect operationId e → ∃ e' ∈ db'.effects,
    e'.effectId = e.effectId ∧ e'.batchId = e.batchId ∧ e'.dispatchCount = e.dispatchCount ∧
      (e.status = .settled → e'.status = .settled ∧ e'.outcome = e.outcome)
  effect_old : ∀ e' ∈ db'.effects, db'.ownsEffect operationId e' →
    ∃ e ∈ db.effects, e.effectId = e'.effectId ∧ e.batchId = e'.batchId
  operation_kept : ∀ o ∈ db.operations, o.operationId = operationId → ∃ o' ∈ db'.operations,
    o'.operationId = operationId ∧ (o.outcome ≠ none → o' = o) ∧
      (o'.outcome = none ∨ o'.outcome = some .cancelled ∨ o'.outcome = o.outcome)

theorem cancellationKept_refl (h : db.cancellationRequested opId = true) :
    CancellationKept opId db db where
  requested := h
  batches := rfl
  effect_kept e he _ := ⟨e, he, rfl, rfl, rfl, fun hs => ⟨hs, rfl⟩⟩
  effect_old e he _ := ⟨e, he, rfl, rfl⟩
  operation_kept o ho hid := ⟨o, ho, hid, fun _ => rfl, .inr (.inr rfl)⟩

theorem CancellationKept.trans (h : CancellationKept opId db db')
    (h' : CancellationKept opId db' db'') : CancellationKept opId db db'' where
  requested := h'.requested
  batches := h'.batches.trans h.batches
  effect_kept := by
    rintro e he ⟨b, hb, hbe⟩
    obtain ⟨e', he', hid, hbat, hcnt, hdone⟩ := h.effect_kept e he ⟨b, hb, hbe⟩
    have howns : db'.ownsEffect opId e' :=
      ⟨b, by rw [h.batches]; exact hb, hbe.trans hbat.symm⟩
    obtain ⟨e'', he'', hid', hbatch', hcount', hsettled'⟩ := h'.effect_kept e' he' howns
    refine ⟨e'', he'', hid'.trans hid, hbatch'.trans hbat, hcount'.trans hcnt, ?_⟩
    intro hs
    obtain ⟨hs', hout⟩ := hdone hs
    obtain ⟨hs'', hout'⟩ := hsettled' hs'
    exact ⟨hs'', hout'.trans hout⟩
  effect_old := by
    rintro e'' he'' ⟨b, hb, hbe⟩
    obtain ⟨e', he', hid, hbat⟩ := h'.effect_old e'' he'' ⟨b, hb, hbe⟩
    have howns : db'.ownsEffect opId e' :=
      ⟨b, by rw [← h'.batches]; exact hb, hbe.trans hbat.symm⟩
    obtain ⟨e, he, hid', hbatch'⟩ := h.effect_old e' he' howns
    exact ⟨e, he, hid'.trans hid, hbatch'.trans hbat⟩
  operation_kept := by
    intro o ho hid
    obtain ⟨o', ho', hid', hfrozen, hout⟩ := h.operation_kept o ho hid
    obtain ⟨o'', ho'', hid'', hfrozen', hout'⟩ := h'.operation_kept o' ho' hid'
    refine ⟨o'', ho'', hid'', ?_, ?_⟩
    · intro hne
      have hsame := hfrozen hne
      rw [← hsame]
      exact hfrozen' (by rw [hsame]; exact hne)
    · rcases hout' with hnone | hcanc | hsame
      · exact .inl hnone
      · exact .inr (.inl hcanc)
      · rw [hsame]
        exact hout

/-! ## One transaction -/

theorem OperationChange.effect_dispatchCount (c : OperationChange db db')
    (hc : c.Lawful) (hask : db.cancellationRequested opId = true) {e : EffectRow V}
    (he : e ∈ db.effects) (howns : db.ownsEffect opId e) :
    (c.effect e).dispatchCount = e.dispatchCount := by
  obtain ⟨b, hb, hbe⟩ := howns
  obtain ⟨hmem, hown⟩ := mem_batchesOf.mp hb
  by_cases hid : c.operation.operationId = opId
  · rw [← hid] at hask
    exact (hc.cancellation hask).1 e he
  · -- another operation's transaction can at most turn the child unknown
    rcases hc.admissible.foreign e he b hmem hbe (by rw [hown]; exact Ne.symm hid)
      with heq | ⟨_, heq⟩
    · rw [heq]
    · rw [heq]

theorem OperationChange.cancellationKept (c : OperationChange db db')
    (hc : c.Lawful) (hask : db.cancellationRequested opId = true) :
    CancellationKept opId db db' where
  requested := by
    unfold Database.cancellationRequested
    rwa [c.cancellationRequests_eq]
  batches := by
    unfold Database.batchesOf
    rw [c.effectBatches_eq]
  effect_kept e he howns := by
    have hstep := c.effect_step e he
    exact ⟨c.effect e, c.effect_mem he, hstep.effectId_eq, hstep.batchId_eq,
      c.effect_dispatchCount hc hask he howns, hstep.settled_stays⟩
  effect_old e' he' _ := by
    obtain ⟨e, he, rfl⟩ := c.mem_effects.mp he'
    have hstep := c.effect_step e he
    exact ⟨e, he, hstep.effectId_eq.symm, hstep.batchId_eq.symm⟩
  operation_kept o ho hid := by
    by_cases hchanged : o.operationId = c.operation.operationId
    · have hsame : o = c.operation := key_inj ho c.operation_mem hchanged
      refine ⟨c.operation', c.operation'_mem, by rw [c.operationId_eq, ← hchanged, hid], ?_, ?_⟩
      · intro hne
        rw [hsame] at hne
        exact absurd hc.unfinished hne
      · rw [← hid, hchanged] at hask
        rcases (hc.cancellation hask).2 with hnone | hcanc
        · exact .inl hnone
        · exact .inr (.inl hcanc)
    · exact ⟨o, c.mem_operations.mpr (.inr ⟨ho, hchanged⟩), hid, fun _ => rfl, .inr (.inr rfl)⟩

theorem IntendedBatch.cancellationKept {intending : OperationId} {expected : Nat}
    {bid : EffectBatchId} {newId : Nat → EffectId} {intent : NewEffectBatchIntent V}
    (i : IntendedBatch db intending expected bid newId intent db')
    (hcanc : db.cancellationRequested intending = false)
    (hask : db.cancellationRequested opId = true) :
    CancellationKept opId db db' := by
  have hne : intending ≠ opId := by
    intro heq
    rw [heq, hask] at hcanc
    cases hcanc
  have hbats : db'.batchesOf opId = db.batchesOf opId := by
    rw [i.batchesOf, if_neg hne.symm, append_nil]
  refine ⟨?_, hbats, ?_, ?_, ?_⟩
  · rw [i.db'_rest]
    exact hask
  · intro e he _
    exact ⟨e, i.mem_effects.mpr (.inl he), rfl, rfl, rfl, fun hs => ⟨hs, rfl⟩⟩
  · rintro e he ⟨b, hb, hbe⟩
    rcases i.mem_effects.mp he with hold | hnew
    · exact ⟨e, hold, rfl, rfl⟩
    · -- a new child belongs to the new batch, which is not one of this operation
      rw [hbats] at hb
      obtain ⟨hmem, _⟩ := mem_batchesOf.mp hb
      exact absurd (hbe.trans (mem_effectRows hnew).1) (i.fresh b hmem)
  · intro o ho hid
    exact ⟨o, i.mem_operations.mpr (.inr ⟨ho, by rw [hid]; exact hne.symm⟩), hid, fun _ => rfl,
      .inr (.inr rfl)⟩

/-- What one committed transaction leaves of an operation whose cancellation is requested. -/
theorem cancellationKept_of_committed (hcom : Committed db db')
    (hask : db.cancellationRequested opId = true) :
    CancellationKept opId db db' := by
  cases hcom with
  | unchanged heq =>
    rw [heq]
    exact cancellationKept_refl hask
  | changed c hc => exact c.cancellationKept hc hask
  | intended i hcanc => exact i.cancellationKept hcanc hask
  | admitted a =>
    rw [a.db'_rest]
    exact { cancellationKept_refl hask with
      operation_kept := fun o ho hid =>
        ⟨o, a.mem_operations.mpr (.inl ho), hid, fun _ => rfl, .inr (.inr rfl)⟩ }
  | registered r =>
    rw [r.db'_eq]
    exact { cancellationKept_refl hask with requested := r.cancellationRequested hask }

/-! ## Runs -/

theorem cancellationKept_runAll [DecidableEq V] (h : Consistent db)
    (hask : db.cancellationRequested opId = true) (ts : List (Transaction V)) :
    CancellationKept opId db (db.runAll ts) := by
  refine h.runAll_induction (motive := CancellationKept opId db) (cancellationKept_refl hask) ?_ ts
  intro d t d' hd hkept hcom
  exact hkept.trans (cancellationKept_of_committed (committed_commit hd hcom) hkept.requested)

/-- The transactions that a requested cancellation turns away: each fails or reports the pending
cancellation, and the abandonment always fails. -/
structure CancellationRefusals (operationId : OperationId) (db : Database V) : Prop where
  intent : ∀ expectedTransition batchId newId intent result,
    db.commitEffectBatchIntent operationId expectedTransition batchId newId intent = .ok result →
      result = (.cancellationPending, db)
  dispatch : ∀ expectedTransition result,
    db.prepareEffectBatch operationId expectedTransition = .ok result →
      result = (.cancellationPending, db)
  decision : ∀ sessionId expectedTransition newId decision result,
    db.commitDecision sessionId operationId expectedTransition newId decision = .ok result →
      result = (.cancellationPending, db)
  abandonment : ∀ sessionId expectedTransition expectedEventHighWater newId abandonment,
    db.commitUnknownEffectAbandonment sessionId operationId expectedTransition
      expectedEventHighWater newId abandonment = .error (.cancellationPending operationId)

theorem cancellationRefusals (h : Consistent db) (hask : db.cancellationRequested opId = true) :
    CancellationRefusals opId db where
  intent _ _ _ _ res hrun := by
    rcases commitEffectBatchIntent_ok hrun h.outcome_none with ⟨_, heq⟩ | ⟨hno, _⟩
    · exact heq
    · rw [hask] at hno
      cases hno
  dispatch _ res hrun := by
    rcases prepareEffectBatch_ok hrun h.outcome_none with ⟨_, heq⟩ | ⟨hno, _⟩
    · exact heq
    · rw [hask] at hno
      cases hno
  decision _ _ _ _ res hrun := by
    rcases commitDecision_ok hrun with ⟨_, heq⟩ | ⟨hno, _⟩
    · exact heq
    · rw [hask] at hno
      cases hno
  abandonment _ _ _ _ _ := by
    unfold Database.commitUnknownEffectAbandonment
    rw [hask]
    rfl

/-- A committed cancellation ends an operation that had not ended. -/
theorem commitCancellation_ends {expected highWater : Nat} {newId : Nat → EventId}
    {transition : CancellationTransition V} (h : Consistent db) (hrun : db.commitCancellation
      sid opId expected highWater newId transition = .ok db') :
    (∃ o ∈ db.operations, o.operationId = opId ∧ o.outcome = none) ∧
      ∃ o' ∈ db'.operations, o'.operationId = opId ∧ o'.outcome = some .cancelled := by
  obtain ⟨_, e, _, hact, _⟩ := commitCancellation_ok hrun
  have ho : e.operation ∈ db.operations := mem_of_find? e.operation_find
  have hid : e.operation.operationId = opId := key_of_find? e.operation_find
  refine ⟨⟨e.operation, ho, hid, h.outcome_none _ ho hact⟩, ?_⟩
  refine ⟨e.operation.cancel transition.checkpoint, ?_, hid, rfl⟩
  have hops : db'.operations = db.operations.put (e.operation.cancel transition.checkpoint) :=
    congrArg Database.operations e.db'_eq
  rw [hops]
  exact mem_put_self ho rfl

/-- The database after a recorded request still has it. -/
theorem cancellationRequested_of_request {cancellationId : CancellationId}
    (hrun : db.requestCancellation sid opId cancellationId = .ok db') :
    db'.cancellationRequested opId = true := by
  rcases requestCancellation_ok hrun with ⟨rfl, hask⟩ | ⟨_, hrows, _⟩
  · exact hask
  · refine cancellationRequested_iff.mpr ⟨⟨cancellationId, sid, opId⟩, ?_, rfl⟩
    rw [← mem_rows, hrows]
    exact mem_append_right _ mem_cons_self

/-- Cancellation wins. After any run, let a request to cancel an unfinished operation be recorded,
and let any transactions follow, `later` and then `more`. In between, the transactions that could
go on with the operation are turned away; over `more` nothing of it changes but its closing; it
ends as `cancelled` or not at all, and a committed cancellation is the last one. -/
theorem cancellation_wins [DecidableEq V] (ts later more : List (Transaction V))
    (sessionId : SessionId) (operationId : OperationId) (cancellationId : CancellationId)
    (o : OperationRow V) (db : Database V)
    (ho : (Database.empty.runAll ts).operations.find? operationId = some o)
    (hunfinished : o.outcome = none)
    (hrequest : (Database.empty.runAll ts).requestCancellation sessionId operationId
      cancellationId = .ok db) :
    CancellationRefusals operationId (db.runAll later) ∧
      CancellationKept operationId (db.runAll later) ((db.runAll later).runAll more) ∧
      (∀ q ∈ (db.runAll later).operations, q.operationId = operationId →
        q.outcome = none ∨ q.outcome = some .cancelled) ∧
      (∀ sessionId expectedTransition highWater newId transition db',
        (db.runAll later).commitCancellation sessionId operationId expectedTransition highWater
          newId transition = .ok db' →
        ∀ sessionId' expectedTransition' highWater' newId' transition' db'',
          (db'.runAll more).commitCancellation sessionId' operationId expectedTransition'
            highWater' newId' transition' ≠ .ok db'') := by
  have hstart : Consistent (Database.empty.runAll ts) := consistent_runAll consistent_empty ts
  have hdb : Consistent db :=
    (called_requestCancellation hstart hrequest).committed.consistent hstart
  have hrequested := cancellationRequested_of_request hrequest
  have hlater : Consistent (db.runAll later) := consistent_runAll hdb later
  have hkept := cancellationKept_runAll hdb hrequested later
  refine ⟨cancellationRefusals hlater hkept.requested,
    cancellationKept_runAll hlater hkept.requested more, ?_, ?_⟩
  · intro q hq hqid
    -- the request itself leaves the operation's row as it was
    have hops : db.operations = (Database.empty.runAll ts).operations := by
      rcases requestCancellation_ok hrequest with ⟨heq, _⟩ | ⟨_, _, heq⟩
      · rw [heq]
      · rw [heq]
    have hmem : o ∈ db.operations := by
      rw [hops]
      exact mem_of_find? ho
    obtain ⟨o', ho', hid', _, hout⟩ := hkept.operation_kept o hmem (key_of_find? ho)
    rw [key_inj hq ho' (hqid.trans hid'.symm)]
    rw [hunfinished] at hout
    rcases hout with hnone | hcancelled | hnone
    · exact .inl hnone
    · exact .inr hcancelled
    · exact .inl hnone
  · intro sessionId _ _ _ _ db' hfirst sessionId' _ _ _ _ db'' hsecond
    have hdb' : Consistent db' :=
      (changedBy_commitCancellation hlater hfirst).committed.consistent hlater
    obtain ⟨_, o', ho', hid', hout'⟩ := commitCancellation_ends hlater hfirst
    have hrequested' : db'.cancellationRequested operationId = true :=
      (cancellationKept_of_committed (changedBy_commitCancellation hlater hfirst).committed
        hkept.requested).requested
    obtain ⟨⟨q, hq, hqid, hqout⟩, _⟩ :=
      commitCancellation_ends (consistent_runAll hdb' more) hsecond
    obtain ⟨o'', ho'', hid'', hfrozen, _⟩ :=
      (cancellationKept_runAll hdb' hrequested' more).operation_kept o' ho' hid'
    have hsame : o'' = o' := hfrozen (by rw [hout']; exact Option.some_ne_none _)
    rw [key_inj hq ho'' (hqid.trans hid''.symm), hsame, hout'] at hqout
    cases hqout

/-- A run that dispatches one effect of an operation. -/
def dispatchedRun : List (Transaction Nat) :=
  [.createAgent ⟨0⟩, .createSession ⟨0⟩ ⟨0⟩, .submit .ordered ⟨0⟩ ⟨0⟩ ⟨⟨0⟩, 7⟩,
    .activate ⟨0⟩ ⟨"agent", "1", 1, [("tool", "1")], ""⟩,
    .commitEffectBatchIntent ⟨0⟩ 1 ⟨0⟩ (fun i => ⟨i⟩)
      ⟨⟨1, 0⟩, [⟨"tool", "1", 5, .neverReplay⟩]⟩,
    .prepareEffectBatch ⟨0⟩ 2]

theorem cancellation_wins_dispatchedRun : ∃ db,
    (Database.empty.runAll dispatchedRun).requestCancellation ⟨0⟩ ⟨0⟩ ⟨0⟩ = .ok db ∧
      CancellationRefusals ⟨0⟩ db := by
  have hfound : ((Database.empty.runAll dispatchedRun).operations.find? ⟨0⟩).isSome = true := by
    decide
  have hunfinished :
      ((Database.empty.runAll dispatchedRun).operations.find? ⟨0⟩).bind OperationRow.outcome =
        none := by decide
  have hrecorded : ((Database.empty.runAll dispatchedRun).requestCancellation ⟨0⟩ ⟨0⟩
      ⟨0⟩).toBool = true := by decide
  obtain ⟨o, ho⟩ := Option.isSome_iff_exists.mp hfound
  rw [ho] at hunfinished
  cases hrequest : (Database.empty.runAll dispatchedRun).requestCancellation ⟨0⟩ ⟨0⟩ ⟨0⟩ with
  | error e =>
    rw [hrequest] at hrecorded
    cases hrecorded
  | ok db =>
    exact ⟨db, rfl,
      (cancellation_wins dispatchedRun [] [] ⟨0⟩ ⟨0⟩ ⟨0⟩ o db ho hunfinished hrequest).1⟩

end Renoa.Kernel
