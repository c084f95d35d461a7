import Renoa.Kernel.Cancellation
import Renoa.Kernel.Consistency
import Renoa.Kernel.UnknownEffect

/-!
# What the operation transactions do

One lemma for each transaction on operation rows: the rows a successful run replaced, and the
checks it passed. The three ways to end an operation, by a loop decision, a cancellation and an
abandonment, write the same rows (`EndedOperation`).
-/

namespace Renoa.Kernel

open Foundation Table Database

variable {V : Type} {db : Database V} {sid : SessionId} {opId : OperationId}
  {o : OperationRow V} {db' : Database V} {newId : Nat → EventId} {expected : Nat}
  {expectedEventHighWater : Nat} {manifest : RuntimeManifest} {dec : LoopDecision V}

theorem OperationRow.WellFormed.outcome_eq_none (h : o.WellFormed)
    (hph : o.phase.isTerminal = false) : o.outcome = none := by
  have := h.outcome_isSome
  rw [hph] at this
  exact Option.not_isSome_iff_eq_none.mp (by rw [this]; exact Bool.false_ne_true)

theorem OperationRow.WellFormed.current_eq_none (h : o.WellFormed)
    (hph : o.phase.isEffectPhase = false) : o.currentEffectBatchId = none := by
  rw [← Option.not_isSome_iff_eq_none, h.current, hph]
  exact Bool.false_ne_true

theorem OperationRow.WellFormed.input_eq_none (h : o.WellFormed)
    (hph : o.phase ≠ .needDecision) : o.inputEffectBatchId = none := by
  by_contra hinp
  exact hph (h.input hinp)

theorem OperationPhase.ne_queued_of_cancellable {phase : OperationPhase}
    (h : phase.isCancellable = true) : phase ≠ .queued := by
  rintro rfl
  cases h

theorem OperationPhase.not_terminal_of_cancellable {phase : OperationPhase}
    (h : phase.isCancellable = true) : phase.isTerminal = false := by
  cases phase <;> first | rfl | exact absurd h (by decide)

theorem Consistent.outcome_none (h : Consistent db) : db.Unfinished :=
  fun o ho hph =>
    (h.operation_row o ho).outcome_eq_none (OperationPhase.not_terminal_of_cancellable hph)

/-! ## Activation -/

/-- The row of an activated operation. -/
def OperationRow.activate (o : OperationRow V) (manifest : RuntimeManifest) : OperationRow V :=
  { o with
    phase := .needDecision
    manifest := some manifest
    transitionVersion := o.transitionVersion + 1 }

theorem firstQueued_eq_some (h : db.firstQueued sid = some o) :
    o ∈ db.operations ∧ o.sessionId = sid ∧ o.phase = .queued := by
  have hmem := List.mem_of_mem_head? h
  rw [mem_orderBy, List.mem_filter, mem_operationsOf, decide_eq_true_eq] at hmem
  exact ⟨hmem.1.1, hmem.1.2, hmem.2⟩

/-- What the activation of a queued operation did. -/
structure ActivatedOperation (db : Database V) (sessionId : SessionId)
    (manifest : RuntimeManifest) (db' : Database V) where
  operation : OperationRow V
  session : SessionRow
  session_find : db.sessions.find? sessionId = some session
  session_idle : session.activeOperationId = none
  first : db.firstQueued sessionId = some operation
  manifest_none : operation.manifest = none
  db'_eq : db' = { db with
    operations := db.operations.put (operation.activate manifest)
    sessions := db.sessions.put { session with activeOperationId := some operation.operationId } }

theorem activateQueued_ok {sess : SessionRow} (hrow : ∀ o ∈ db.operations, o.WellFormed)
    (hsess : db.sessions.find? sid = some sess)
    (hfst : db.firstQueued sid = some o)
    (h : db.activateQueued sid manifest o.operationId = .ok db') :
    ∃ a : ActivatedOperation db sid manifest db', a.operation = o := by
  obtain ⟨mid, hupd, h⟩ := require_bind_ok h
  obtain ⟨sessions, hact, h⟩ := require_bind_ok h
  cases h
  obtain ⟨o', ho', hgrd, rfl⟩ := updateOperation_eq_some_of_outcome_none hupd (fun _ => rfl) (by
      intro row hmem hgrd
      simp only [Bool.and_eq_true, decide_eq_true_eq] at hgrd
      exact (hrow row hmem).outcome_eq_none (by rw [hgrd.1]; rfl))
  obtain rfl : o' = o :=
    Option.some.inj (ho'.symm.trans (find?_of_mem (firstQueued_eq_some hfst).1))
  obtain ⟨session', hsession', hidle, rfl⟩ := updateOne_eq_some.mp hact
  obtain rfl : session' = sess := Option.some.inj (hsession'.symm.trans hsess)
  simp only [Bool.and_eq_true, Option.isNone_iff_eq_none] at hgrd hidle
  exact ⟨⟨o', session', hsess, hidle, hfst, hgrd.2, rfl⟩, rfl⟩

/-- A successful `activate` reads the active operation, finds nothing queued, or activates. -/
theorem activate_ok {res : Option (ActiveOperation V) × Database V}
    (hrow : ∀ o ∈ db.operations, o.WellFormed) (h : db.activate sid manifest = .ok res) :
    ∃ sess, db.sessions.find? sid = some sess ∧ ((∃ id act, sess.activeOperationId = some id ∧
          db.loadActiveQuery sess.agentId sid id = .ok act ∧
          res = (some act, db)) ∨
        (sess.activeOperationId = none ∧ db.firstQueued sid = none ∧ res = (none, db)) ∨
        ∃ (a : ActivatedOperation db sid manifest res.2) (act : ActiveOperation V),
          res.2.loadActiveQuery sess.agentId sid a.operation.operationId = .ok act ∧
          res.1 = some act) := by
  obtain ⟨sess, hsess, h⟩ := require_bind_ok h
  refine ⟨sess, hsess, ?_⟩
  cases hact : sess.activeOperationId with
  | some id =>
    simp only [hact] at h
    obtain ⟨act, hload, h⟩ := bind_ok h
    cases h
    exact .inl ⟨id, act, rfl, hload, rfl⟩
  | none =>
    simp only [hact] at h
    cases hfst : db.firstQueued sid with
    | none =>
      simp only [hfst] at h
      cases h
      exact .inr (.inl ⟨rfl, rfl, rfl⟩)
    | some o =>
      simp only [hfst] at h
      obtain ⟨db', hq, h⟩ := bind_ok h
      obtain ⟨act, hload, h⟩ := bind_ok h
      cases h
      obtain ⟨a, rfl⟩ := activateQueued_ok hrow hsess hfst hq
      exact .inr (.inr ⟨a, act, hload, rfl⟩)

/-! ## Endings -/

/-- The database after an operation ended: its row replaced, the requests of its settled batches
released, its session idle and its last events appended. -/
structure EndedOperation (db : Database V) (sessionId : SessionId) (operationId : OperationId)
    (newId : Nat → EventId) (events : List (NewEvent V))
    (f : OperationRow V → OperationRow V) (db' : Database V) where
  operation : OperationRow V
  session : SessionRow
  semanticEvents : Table (EventRow.eventId (V := V))
  operation_find : db.operations.find? operationId = some operation
  session_find : db.sessions.find? sessionId = some session
  session_active : session.activeOperationId = some operationId
  events_eq : semanticEvents.rows = db.semanticEvents.rows ++
    eventRows sessionId operationId newId session.nextEventSequence events
  db'_eq : db' = { db with
    operations := db.operations.put (f operation)
    effects := ({ db with operations := db.operations.put (f operation) } :
      Database V).releasedEffects operationId
    sessions := db.sessions.put
      { session with
        activeOperationId := none
        nextEventSequence := session.nextEventSequence + events.length }
    semanticEvents }

/-- The session works on the operation, so the operation is its own. -/
theorem EndedOperation.owner {newId : Nat → EventId} {evs : List (NewEvent V)}
    {f : OperationRow V → OperationRow V}
    (e : EndedOperation db sid opId newId evs f db') (h : Consistent db) :
    e.operation.sessionId = sid := by
  obtain ⟨q, hq, hqid, hqs, _⟩ :=
    (h.active _ (mem_of_find? e.session_find) opId).mp e.session_active
  rw [← key_inj hq (mem_of_find? e.operation_find)
    (hqid.trans (key_of_find? e.operation_find).symm), hqs]
  exact key_of_find? e.session_find

theorem endedOperation_of_ok {evs : List (NewEvent V)} {guard : OperationRow V → Bool}
    {f : OperationRow V → OperationRow V} {db₁ db₂ db₃ : Database V}
    (happ : db.appendEvents sid opId newId evs = .ok db₁)
    (hupd : db₁.updateOperation opId guard f = some db₂)
    (hrelease : db₂.releaseSession sid opId = some db₃) :
    ∃ e : EndedOperation db sid opId newId evs f db₃,
      guard e.operation = true := by
  obtain ⟨sess, hsess, _, hevs, hdb₁⟩ := appendEvents_ok happ
  obtain rfl : sess.sessionId = sid := key_of_find? hsess
  rw [hdb₁] at hupd
  obtain ⟨o, ho, hgrd, rfl⟩ := updateOperation_eq_some hupd
  obtain ⟨sessions, hsessions, rfl⟩ := Option.map_eq_some_iff.mp hrelease
  -- the session row is written twice: with the new cursor, and as idle
  obtain ⟨hact, rfl⟩ := updateOne_put hsessions (mem_of_find? hsess) rfl rfl
  exact ⟨⟨o, sess, db₁.semanticEvents, ho, hsess, of_decide_eq_true hact, hevs, rfl⟩, hgrd⟩

/-! ## Decisions -/

/-- The shape of a decision's write: it continues with an event, or ends with an outcome. -/
theorem write_cases {write : DecisionWrite V} (h : dec.write = .ok write) :
    (write.outcome = none ∧ write.phase = .needDecision ∧ write.events ≠ []) ∨
      ∃ out, write.outcome = some out ∧ write.phase = out.phase ∧
        write.phase.isTerminal = true ∧ out ≠ .cancelled := by
  cases dec with
  | invokeEffects ckpt effs => cases h
  | appendEventsAndContinue ckpt evs =>
    obtain ⟨hne, h⟩ := ensure_bind_ok h
    cases h
    exact .inl ⟨rfl, rfl, by simpa using hne⟩
  | waitForInput ckpt evs =>
    cases h
    exact .inr ⟨.waitingForInput, rfl, rfl, rfl, by simp⟩
  | complete ckpt evs =>
    cases h
    exact .inr ⟨.completed, rfl, rfl, rfl, by simp⟩
  | fail ckpt evs reason =>
    cases h
    exact .inr ⟨.failed reason, rfl, rfl, rfl, by simp⟩

/-- The database after a decision that continues. -/
structure ContinuedOperation (db : Database V) (sessionId : SessionId)
    (operationId : OperationId) (newId : Nat → EventId) (write : DecisionWrite V)
    (db' : Database V) where
  operation : OperationRow V
  session : SessionRow
  semanticEvents : Table (EventRow.eventId (V := V))
  operation_find : db.operations.find? operationId = some operation
  operation_session : operation.sessionId = sessionId
  session_find : db.sessions.find? sessionId = some session
  events_eq : semanticEvents.rows = db.semanticEvents.rows ++
    eventRows sessionId operationId newId session.nextEventSequence write.events
  db'_eq : db' = { db with
    operations := db.operations.put (operation.decided write)
    sessions := db.sessions.put
      { session with nextEventSequence := session.nextEventSequence + write.events.length }
    semanticEvents }

/-- A committed decision found its operation at the expected decision. -/
theorem commitDecision_ok {res : CommittedDecision × Database V}
    (h : db.commitDecision sid opId expected newId dec = .ok res) :
    (db.cancellationRequested opId = true ∧ res = (.cancellationPending, db)) ∨
      (db.cancellationRequested opId = false ∧ ∃ write, dec.write = .ok write ∧
          ((res.1 = .continued ∧ write.outcome = none ∧
              ∃ c : ContinuedOperation db sid opId newId write res.2,
                c.operation.phase = .needDecision ∧ c.operation.transitionVersion = expected) ∨
            ∃ out, write.outcome = some out ∧ res.1 = .finished out ∧
              ∃ e : EndedOperation db sid opId newId write.events
                  (OperationRow.decided · write) res.2,
                e.operation.phase = .needDecision ∧
                  e.operation.transitionVersion = expected)) := by
  obtain ⟨write, hwrt, h⟩ := bind_ok h
  obtain ⟨_, _, h⟩ := bind_ok h
  rcases ite_ok h with hask | ⟨hno, h⟩
  · exact .inl hask
  · obtain ⟨db₁, happ, h⟩ := bind_ok h
    obtain ⟨db₂, hupd, h⟩ := require_bind_ok h
    refine .inr ⟨hno, write, hwrt, ?_⟩
    cases hout : write.outcome with
    | none =>
      simp only [hout] at h
      cases h
      obtain ⟨o, ho, hgrd, rfl⟩ := updateOperation_eq_some_of_outcome_none hupd
        (fun _ => rfl) (fun _ _ _ => hout)
      obtain ⟨sess, hsess, hown, hevs, hdb₁⟩ := appendEvents_ok happ
      have hops : db₁.operations = db.operations := by rw [hdb₁]
      rw [hops] at ho
      have hne : write.events ≠ [] := by
        rcases write_cases hwrt with ⟨_, _, hne⟩ | ⟨out, hsome, _⟩
        · exact hne
        · rw [hout] at hsome
          cases hsome
      obtain ⟨q, hq, hqid, hqs⟩ := hown hne
      obtain rfl : q = o := key_inj hq (mem_of_find? ho) (hqid.trans (key_of_find? ho).symm)
      simp only [Bool.and_eq_true, decide_eq_true_eq] at hgrd
      refine .inl ⟨rfl, rfl, ⟨q, sess, db₁.semanticEvents, ho, hqs, hsess, hevs, ?_⟩, hgrd⟩
      rw [hdb₁]
    | some out =>
      simp only [hout] at h
      obtain ⟨db₃, hrelease, h⟩ := require_bind_ok h
      cases h
      obtain ⟨e, hgrd⟩ := endedOperation_of_ok happ hupd hrelease
      simp only [Bool.and_eq_true, decide_eq_true_eq] at hgrd
      exact .inr ⟨out, rfl, rfl, e, hgrd⟩

/-- A committed cancellation found a request and an active operation at its expected row. -/
theorem commitCancellation_ok {transition : CancellationTransition V} (h : db.commitCancellation
      sid opId expected expectedEventHighWater newId transition = .ok db') :
    db.cancellationRequested opId = true ∧ ∃ e : EndedOperation db sid opId newId transition.events
          (OperationRow.cancel · transition.checkpoint) db',
        e.operation.sessionId = sid ∧ e.operation.phase.isCancellable = true ∧
          e.operation.transitionVersion = expected ∧
          e.session.nextEventSequence = expectedEventHighWater := by
  obtain ⟨sess, hsess, h⟩ := bind_ok h
  obtain ⟨hwater, h⟩ := ensure_bind_ok h
  obtain ⟨hask, h⟩ := ensure_bind_ok h
  obtain ⟨o, ho, h⟩ := bind_ok h
  obtain ⟨hph, h⟩ := ensure_bind_ok h
  obtain ⟨db₁, happ, h⟩ := bind_ok h
  obtain ⟨db₂, hupd, h⟩ := require_bind_ok h
  obtain ⟨hsess, _⟩ := Option.filter_eq_some_iff.mp (require_ok hsess)
  obtain ⟨ho, hgrd⟩ := Option.filter_eq_some_iff.mp (require_ok ho)
  simp only [Bool.and_eq_true, decide_eq_true_eq] at hgrd
  obtain ⟨e, _⟩ := endedOperation_of_ok happ hupd (require_ok h)
  have hsame : e.operation = o := Option.some.inj (e.operation_find.symm.trans ho)
  have hsame' : e.session = sess := Option.some.inj (e.session_find.symm.trans hsess)
  refine ⟨hask, e, ?_⟩
  rw [hsame, hsame']
  exact ⟨hgrd.1.1, hph, hgrd.1.2, of_decide_eq_true hwater⟩

/-- A committed abandonment found no cancellation request and the operation blocked. -/
theorem commitUnknownEffectAbandonment_ok {abandonment : UnknownEffectAbandonment V}
    {res : OperationOutcome × Database V} (h : db.commitUnknownEffectAbandonment sid
      opId expected expectedEventHighWater newId abandonment = .ok res) :
    db.cancellationRequested opId = false ∧ res.1 = abandonedOutcome ∧
      ∃ e : EndedOperation db sid opId newId abandonment.events
          (OperationRow.abandon · abandonment.checkpoint) res.2,
        e.operation.sessionId = sid ∧ e.operation.phase = .outcomeUnknown ∧
          e.operation.transitionVersion = expected := by
  obtain ⟨hask, h⟩ := ensure_bind_ok h
  obtain ⟨sess, _, h⟩ := bind_ok h
  iterate 2 obtain ⟨_, _, h⟩ := bind_ok h
  obtain ⟨db₁, happ, h⟩ := bind_ok h
  obtain ⟨db₂, hupd, h⟩ := require_bind_ok h
  obtain ⟨db₃, hrelease, h⟩ := require_bind_ok h
  cases h
  obtain ⟨e, hgrd⟩ := endedOperation_of_ok happ hupd hrelease
  simp only [Bool.and_eq_true, decide_eq_true_eq] at hgrd
  refine ⟨?_, rfl, e, hgrd.1.1, hgrd.1.2, hgrd.2⟩
  rwa [Bool.not_eq_true'] at hask

/-! ## Cancellation requests -/

/-- A successful request is recorded already, or targets a queued or active operation of the
session. -/
theorem requestCancellation_ok {cancellationId : CancellationId}
    (h : db.requestCancellation sid opId cancellationId = .ok db') :
    (db' = db ∧ db.cancellationRequested opId = true) ∨
      ((∃ o, db.operations.find? opId = some o ∧ o.sessionId = sid ∧
          (o.phase = .queued ∨ o.phase.isCancellable = true)) ∧
        db'.cancellationRequests.rows = db.cancellationRequests.rows ++
          [⟨cancellationId, sid, opId⟩] ∧
        db' = { db with cancellationRequests := db'.cancellationRequests }) := by
  unfold Database.requestCancellation at h
  split at h
  next st hsto =>
    obtain ⟨hsame, h⟩ := ensure_bind_ok h
    obtain ⟨_, _, h⟩ := bind_ok h
    cases h
    simp only [Bool.and_eq_true, decide_eq_true_eq] at hsame
    exact .inl ⟨rfl, cancellationRequested_iff.mpr ⟨st, mem_of_find? hsto, hsame.2⟩⟩
  · obtain ⟨o, ho, h⟩ := bind_ok h
    obtain ⟨sess, _, h⟩ := bind_ok h
    obtain ⟨hph, h⟩ := ensure_bind_ok h
    obtain ⟨cancellationRequests, hins, h⟩ := require_bind_ok h
    cases h
    obtain ⟨ho, hos⟩ := Option.filter_eq_some_iff.mp (require_ok ho)
    simp only [Bool.or_eq_true, Bool.and_eq_true, decide_eq_true_eq] at hph
    refine .inr ⟨⟨o, ho, of_decide_eq_true hos, ?_⟩, (insert_eq_some hins).2.2, rfl⟩
    rcases hph with hq | ⟨_, hact⟩
    · exact .inl hq
    · exact .inr hact

theorem closeForCancellation_ok {st : StoredOperation V} {res : StoredOperation V × Database V}
    (h : db.closeForCancellation opId st = .ok res) :
    (st.phase ≠ .effectDispatched ∧ res = (st, db)) ∨
      ∃ bid phase, st.phase = .effectDispatched ∧ st.currentEffectBatchId = some bid ∧
        db.closeDispatchedBatchForCancellation opId bid st.transitionVersion = .ok (phase, res.2) ∧
        res.1 = { st with
          phase
          transitionVersion := st.transitionVersion + 1
          currentEffectBatchId := if phase = .needDecision then none else st.currentEffectBatchId
          inputEffectBatchId :=
            if phase = .needDecision then some bid else st.inputEffectBatchId } := by
  unfold Database.closeForCancellation at h
  by_cases hph : st.phase = .effectDispatched
  · rw [if_pos hph] at h
    obtain ⟨bid, hbat, h⟩ := require_bind_ok h
    obtain ⟨⟨phase, db'⟩, hcls, h⟩ := bind_ok h
    refine .inr ⟨bid, phase, hph, hbat, ?_⟩
    by_cases hneed : phase = .needDecision
    · simp only [hneed] at h hcls ⊢
      cases h
      exact ⟨hcls, rfl⟩
    · simp only [hneed] at h ⊢
      cases h
      exact ⟨hcls, rfl⟩
  · rw [if_neg hph] at h
    cases h
    exact .inl ⟨hph, rfl⟩

/-- Loading a cancellation writes only when it closes a dispatched batch. -/
theorem loadRequestedCancellation_ok {res : Option (PendingCancellation V) × Database V}
    (h : db.loadRequestedCancellation sid opId = .ok res) :
    (db.cancellationRequested opId = false ∧ res = (none, db)) ∨
      (db.cancellationRequested opId = true ∧ ∃ sess st stored' pend,
          db.sessions.find? sid = some sess ∧
          sess.activeOperationId = some opId ∧
          db.loadOperation sid opId = .ok (some st) ∧
          st.phase.isCancellable = true ∧
          db.closeForCancellation opId st = .ok (stored', res.2) ∧
          res.1 = some pend ∧
          some pend.manifest = stored'.manifest ∧
          pend.transitionVersion = stored'.transitionVersion ∧
          (∃ page, res.2.loadEventPage sid 0 = .ok page ∧ pend.eventHighWater = page.nextCursor ∧
            res.2.loadCancellationEffectBatch opId stored'.phase
              stored'.currentEffectBatchId stored'.inputEffectBatchId pend.manifest =
                .ok pend.input.effectBatch ∧
            pend.input = ⟨sess.agentId, sid, opId, stored'.command,
              page.events, stored'.checkpoint, pend.input.effectBatch⟩)) := by
  unfold Database.loadRequestedCancellation at h
  cases hcanc : db.cancellationRequested opId with
  | false =>
    simp only [hcanc] at h
    cases h
    exact .inl ⟨rfl, rfl⟩
  | true =>
    simp only [hcanc] at h
    obtain ⟨sess, hsess, h⟩ := require_bind_ok h
    obtain ⟨hact, h⟩ := ensure_bind_ok h
    obtain ⟨loaded, hload, h⟩ := bind_ok h
    obtain ⟨st, hsto, h⟩ := require_bind_ok h
    obtain ⟨hph, h⟩ := ensure_bind_ok h
    obtain ⟨⟨stored', db'⟩, hcls, h⟩ := bind_ok h
    obtain ⟨manifest, hman, h⟩ := require_bind_ok h
    obtain ⟨effectBatch, hbat, h⟩ := bind_ok h
    obtain ⟨page, hpage, h⟩ := bind_ok h
    cases h
    rw [Bool.and_eq_true] at hph
    rw [hsto] at hload
    exact .inr ⟨rfl, sess, st, stored', _, hsess, of_decide_eq_true hact, hload, hph.1, hcls, rfl,
      hman.symm, rfl, page, hpage, rfl, hbat, rfl⟩

end Renoa.Kernel
