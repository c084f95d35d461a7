import Renoa.Kernel.Transaction

/-!
# What a committed transaction wrote

`commitCase_commit` opens every transaction once. A transaction leaves the database, rewrites at
most one operation row between two decisions, admits an operation, commits a batch intent, or
appends events with a decision that continues or ends its operation. What the transactions do to
rows, outcomes, effects and events is read off these cases.
-/

namespace Renoa.Kernel

open Foundation Table Database

variable {V : Type} {db db' : Database V} {o : OperationRow V} {bid : EffectBatchId}
  {t : Transaction V} {decision : LoopDecision V} {finished : Option Bool} {n : Nat}

/-! ## What a transaction appends -/

/-- The events a transaction asks to append, and the transition of its operation it names. -/
structure Appending (V : Type) where
  sessionId : SessionId
  operationId : OperationId
  transition : Nat
  newId : Nat → EventId
  events : List (NewEvent V)

/-- The events of a decision other than an effect batch. -/
def LoopDecision.events? : LoopDecision V → Option (List (NewEvent V))
  | .invokeEffects _ _ => none
  | .appendEventsAndContinue _ events | .waitForInput _ events | .complete _ events
  | .fail _ events _ => some events

/-- Decisions, cancellations and abandonments append events; no other transaction does. -/
def Transaction.appending? : Transaction V → Option (Appending V)
  | .commitDecision sessionId operationId expectedTransition newId decision =>
    decision.events?.map fun events => ⟨sessionId, operationId, expectedTransition, newId, events⟩
  | .commitCancellation sessionId operationId expectedTransition _ newId transition =>
    some ⟨sessionId, operationId, expectedTransition, newId, transition.events⟩
  | .commitUnknownEffectAbandonment sessionId operationId expectedTransition _ newId abandonment =>
    some ⟨sessionId, operationId, expectedTransition, newId, abandonment.events⟩
  | _ => none

theorem LoopDecision.events?_write {write : DecisionWrite V} (h : decision.write = .ok write) :
    decision.events? = some write.events := by
  cases decision with
  | invokeEffects ckpt effs => cases h
  | appendEventsAndContinue ckpt evs =>
    obtain ⟨_, _, h⟩ := bind_ok h
    cases h
    rfl
  | waitForInput ckpt evs | complete ckpt evs | fail ckpt evs reason => cases h; rfl

/-! ## The cases -/

/-- How a transaction rewrites an operation row between two decisions. -/
inductive RowWrite (db : Database V) (o : OperationRow V) : OperationRow V → Prop
  | activated (manifest : RuntimeManifest) (hfirst : db.firstQueued o.sessionId = some o)
      (hidle : ∀ s ∈ db.sessions, s.sessionId = o.sessionId → s.activeOperationId = none) :
      RowWrite db o (o.activate manifest)
  | dispatched (hactive : o.phase.isCancellable = true) : RowWrite db o o.dispatchBatch
  | finished {batchId : EffectBatchId} (blocked : Bool) (hactive : o.phase.isCancellable = true)
      (hcurrent : o.currentEffectBatchId = some batchId) :
      RowWrite db o (o.finishBatch batchId blocked)

/-- A transaction between two decisions. -/
structure Rewritten (db db' : Database V) : Prop where
  operations : db'.operations = db.operations ∨ ∃ o ∈ db.operations, ∃ o', RowWrite db o o' ∧
    db'.operations = db.operations.put o'
  commands : db'.commands = db.commands
  effectBatches : db'.effectBatches = db.effectBatches
  semanticEvents : db'.semanticEvents = db.semanticEvents

/-- What a committed transaction wrote. -/
inductive CommitCase (t : Transaction V) (db db' : Database V) : Prop
  | unchanged (heq : db' = db)
  | rewritten (r : Rewritten db db') (hsilent : t.appending? = none)
  | admitted {mode : AdmissionMode} {operationId : OperationId} {sessionId : SessionId}
      {command : Command V} (ht : t = .submit mode operationId sessionId command)
      (hmode : mode = .requireNoUnfinishedOperation → db.firstUnfinished sessionId = none)
      (a : AdmittedOperation db operationId sessionId command db')
  | intended {operationId : OperationId} {expectedTransition : Nat} {batchId : EffectBatchId}
      {newId : Nat → EffectId} {intent : NewEffectBatchIntent V}
      (ht : t = .commitEffectBatchIntent operationId expectedTransition batchId newId intent)
      (i : IntendedBatch db operationId expectedTransition batchId newId intent db')
  | continued {sessionId : SessionId} {operationId : OperationId} {newId : Nat → EventId}
      {write : DecisionWrite V} (c : ContinuedOperation db sessionId operationId newId write db')
      (hphase : c.operation.phase = .needDecision) (hnext : write.phase = .needDecision)
      (hout : write.outcome = none) (happending : t.appending? =
        some ⟨sessionId, operationId, c.operation.transitionVersion, newId, write.events⟩)
  | ended {sessionId : SessionId} {operationId : OperationId} {newId : Nat → EventId}
      {events : List (NewEvent V)} {f : OperationRow V → OperationRow V}
      (e : EndedOperation db sessionId operationId newId events f db')
      (hactive : e.operation.phase.isCancellable = true)
      (hsame : e.operation.SameIdentity (f e.operation)) (hphase : (f e.operation).phase ≠ .queued)
      (hnext : (f e.operation).transitionVersion = e.operation.transitionVersion + 1)
      (happending : t.appending? =
        some ⟨sessionId, operationId, e.operation.transitionVersion, newId, events⟩)

theorem BatchClosing.rewritten {mid : Database V} (h : BatchClosing mid o bid finished db')
    (hmid : Rewritten db mid) (hops : mid.operations = db.operations)
    (ho : o ∈ db.operations) (hdisp : Database.dispatchesBatch bid n o = true) :
    Rewritten db db' := by
  obtain ⟨hph, _, hcur⟩ := dispatchesBatch_iff.mp hdisp
  rcases h with ⟨_, rfl, _⟩ | ⟨blocked, _, _, _, rfl⟩
  · exact hmid
  · refine ⟨.inr ⟨o, ho, _, .finished blocked (by rw [hph]; rfl) hcur, ?_⟩,
      hmid.commands, hmid.effectBatches, hmid.semanticEvents⟩
    exact congrArg (Table.put · _) hops

theorem rewritten_refl (db : Database V) : Rewritten db db := ⟨.inl rfl, rfl, rfl, rfl⟩

theorem RecordedChild.rewritten {opId : OperationId} {eid : EffectId}
    {update : EffectRow V → EffectRow V}
    (r : RecordedChild db opId bid n eid update finished db') : Rewritten db db' :=
  r.closing.rewritten ⟨.inl rfl, rfl, rfl, rfl⟩ rfl (mem_of_find? r.operation_find) r.dispatches

section Cases

variable (h : Consistent db) {sid : SessionId} {opId : OperationId}

include h

theorem rewritten_activate {mf : RuntimeManifest} {res : Option (ActiveOperation V) × Database V}
    (hrun : db.activate sid mf = .ok res) : Rewritten db res.2 := by
  obtain ⟨sess, hsess, hcas⟩ := activate_ok h.operation_row hrun
  rcases hcas with ⟨_, _, _, _, rfl⟩ | ⟨_, _, rfl⟩ | ⟨a, _⟩
  · exact rewritten_refl db
  · exact rewritten_refl db
  obtain ⟨ho, hos, _⟩ := firstQueued_eq_some a.first
  rw [a.db'_eq]
  refine ⟨.inr ⟨_, ho, _, .activated mf (by rw [hos]; exact a.first) ?_, rfl⟩, rfl, rfl, rfl⟩
  intro s hs hid
  have hfind := find?_of_mem hs
  rw [hid, hos, a.session_find] at hfind
  rw [← Option.some.inj hfind]
  exact a.session_idle

theorem rewritten_prepareEffectBatch {res : EffectBatchStart V × Database V}
    (hrun : db.prepareEffectBatch opId n = .ok res) : Rewritten db res.2 := by
  rcases prepareEffectBatch_ok hrun h.outcome_none with ⟨_, rfl⟩ | ⟨_, ⟨p⟩⟩
  · exact rewritten_refl db
  have ho : p.operation ∈ db.operations := mem_of_find? p.operation_find
  have hact : p.operation.phase.isCancellable = true := by
    have hph := p.phase_eq
    unfold OperationPhase.prepare? at hph
    split at hph <;> first | (rename_i heq; rw [heq]; rfl) | cases hph
  rcases p.result_eq with ⟨_, hres⟩ | ⟨_, _, _, blocked, _, hres⟩
  · rw [congrArg Prod.snd hres]
    exact ⟨.inr ⟨_, ho, _, .dispatched hact, rfl⟩, rfl, rfl, rfl⟩
  · rw [congrArg Prod.snd hres]
    exact ⟨.inr ⟨_, ho, _, .finished blocked hact p.current_eq, rfl⟩, rfl, rfl, rfl⟩

theorem rewritten_finishEffectBatchAttempt {res : EffectBatchFinish × Database V}
    (hrun : db.finishEffectBatchAttempt opId bid n = .ok res) :
    Rewritten db res.2 := by
  obtain ⟨o, ho, hdisp, hcas⟩ := finishEffectBatchAttempt_ok hrun h.outcome_none
  rcases hcas with ⟨_, rfl⟩ | ⟨_, _, _, _, hcls⟩
  · exact rewritten_refl db
  · exact hcls.rewritten (rewritten_refl db) rfl (mem_of_find? ho) hdisp

theorem rewritten_loadRequestedCancellation {res : Option (PendingCancellation V) × Database V}
    (hrun : db.loadRequestedCancellation sid opId = .ok res) :
    Rewritten db res.2 := by
  rcases loadRequestedCancellation_ok hrun with ⟨_, rfl⟩ | ⟨_, _, st, _, _, _, _, _, _, hcls, _⟩
  · exact rewritten_refl db
  rcases closeForCancellation_ok hcls with ⟨_, heq⟩ | ⟨bid, phase, _, _, hbat, _⟩
  · rw [(Prod.mk.inj heq).2]
    exact rewritten_refl db
  · obtain ⟨o, blocked, ho, hdisp, _, _, _, _, hdb⟩ :=
      closeDispatchedBatchForCancellation_ok hbat h.outcome_none
    obtain ⟨hph, _, hcur⟩ := dispatchesBatch_iff.mp hdisp
    rw [show res.2 = _ from hdb]
    exact ⟨.inr ⟨o, mem_of_find? ho, _, .finished blocked (by rw [hph]; rfl) hcur,
      rfl⟩, rfl, rfl, rfl⟩

omit h in
theorem commitCase_commitDecision {newId : Nat → EventId} {res : CommittedDecision × Database V}
    (hrun : db.commitDecision sid opId n newId decision = .ok res) :
    CommitCase (.commitDecision sid opId n newId decision) db res.2 := by
  rcases commitDecision_ok hrun with ⟨_, rfl⟩ | ⟨_, write, hwrt, hcas⟩
  · exact .unchanged rfl
  have happ : (Transaction.commitDecision sid opId n newId decision).appending? =
      some ⟨sid, opId, n, newId, write.events⟩ :=
    congrArg (Option.map _) (LoopDecision.events?_write hwrt)
  rcases hcas with ⟨_, hout, c, hph, rfl⟩ | ⟨_, hout, _, e, hph, rfl⟩
  · rcases write_cases hwrt with ⟨_, hnext, _⟩ | ⟨_, hsome, _⟩
    · exact .continued c hph hnext hout happ
    · rw [hout] at hsome
      cases hsome
  · refine .ended e (by rw [hph]; rfl) ⟨rfl, rfl, rfl, rfl, rfl, rfl⟩ ?_ rfl happ
    show write.phase ≠ .queued
    rcases write_cases hwrt with ⟨_, hnext, _⟩ | ⟨_, _, _, hterm, _⟩
    · rw [hnext]
      decide
    · intro hq
      rw [hq] at hterm
      cases hterm

/-- Every transaction is one of the cases. -/
theorem commitCase_commit [DecidableEq V] (hcom : t.commit db = .ok db') :
    CommitCase t db db' := by
  cases t with
  | createAgent agentId =>
    cases hcom
    rw [createAgent_eq]
    exact .rewritten ⟨.inl rfl, rfl, rfl, rfl⟩ rfl
  | createSession sid agentId =>
    rcases createSession_ok hcom with rfl | ⟨_, _, heq⟩
    · exact .unchanged rfl
    · rw [heq]
      exact .rewritten ⟨.inl rfl, rfl, rfl, rfl⟩ rfl
  | submit mode opId sid cmd =>
    obtain ⟨r, hrun, rfl⟩ := map_ok hcom
    rcases submitWithMode_ok hrun with ⟨heq, _⟩ | ⟨_, hmode, hins⟩
    · exact .unchanged heq
    · obtain ⟨a, _⟩ := insertOperation_ok hins
      exact .admitted rfl hmode a
  | activate sid mf =>
    obtain ⟨r, hrun, rfl⟩ := map_ok hcom
    exact .rewritten (rewritten_activate h hrun) rfl
  | commitDecision sid opId n newId decision =>
    obtain ⟨r, hrun, rfl⟩ := map_ok hcom
    exact commitCase_commitDecision hrun
  | commitEffectBatchIntent opId n bid newId intent =>
    obtain ⟨r, hrun, rfl⟩ := map_ok hcom
    rcases commitEffectBatchIntent_ok hrun h.outcome_none with ⟨_, rfl⟩ | ⟨_, _, ⟨i⟩⟩
    · exact .unchanged rfl
    · exact .intended rfl i
  | prepareEffectBatch opId n =>
    obtain ⟨r, hrun, rfl⟩ := map_ok hcom
    exact .rewritten (rewritten_prepareEffectBatch h hrun) rfl
  | settleBatchEffect opId bid eid n out =>
    obtain ⟨r, hrun, rfl⟩ := map_ok hcom
    obtain ⟨_, _, child, _⟩ := settleBatchEffect_ok hrun h.outcome_none
    exact .rewritten child.rewritten rfl
  | recordBatchEffectUnknown opId bid eid n =>
    obtain ⟨r, hrun, rfl⟩ := map_ok hcom
    obtain ⟨_, _, ⟨child⟩⟩ := recordBatchEffectUnknown_ok hrun h.outcome_none
    exact .rewritten child.rewritten rfl
  | finishEffectBatchAttempt opId bid n =>
    obtain ⟨r, hrun, rfl⟩ := map_ok hcom
    exact .rewritten (rewritten_finishEffectBatchAttempt h hrun) rfl
  | requestCancellation sid opId cancellationId =>
    rcases requestCancellation_ok hcom with ⟨rfl, _⟩ | ⟨_, _, heq⟩
    · exact .unchanged rfl
    · rw [heq]
      exact .rewritten ⟨.inl rfl, rfl, rfl, rfl⟩ rfl
  | loadRequestedCancellation sid opId =>
    obtain ⟨r, hrun, rfl⟩ := map_ok hcom
    exact .rewritten (rewritten_loadRequestedCancellation h hrun) rfl
  | commitCancellation sid opId n highWater newId transition =>
    obtain ⟨_, e, _, hact, rfl, _⟩ := commitCancellation_ok hcom
    exact .ended e hact ⟨rfl, rfl, rfl, rfl, rfl, rfl⟩ (fun hq => by cases hq) rfl rfl
  | commitUnknownEffectAbandonment sid opId n highWater newId abandonment =>
    obtain ⟨r, hrun, rfl⟩ := map_ok hcom
    obtain ⟨_, _, e, _, hph, rfl⟩ := commitUnknownEffectAbandonment_ok hrun
    exact .ended e (by rw [hph]; rfl) ⟨rfl, rfl, rfl, rfl, rfl, rfl⟩ (fun hq => by cases hq) rfl rfl

end Cases

end Renoa.Kernel
