import Renoa.Kernel.SoundClosing
import Renoa.Kernel.World

/-!
# What a driver knows at each of its points

`Knows db s d` is the knowledge of a driver of session `s` about the database at its point `d`,
and `Open db s p` that a prepared child is still as its preparation left it. Both survive what
other sessions and threads commit (`Knows.untouched`, `Open.untouched`), since they speak of rows
in the frame of the session.

`stepInv_step` is the driver's side: from what it knows, a step reports no corrupt state, leaves
the other sessions untouched, and ends in a point it again has the knowledge for.
-/

namespace Renoa.Kernel

open Foundation List Table Database

variable {V : Type} {db db' : Database V} {s : SessionId} {p : PendingEffect V} {d : DriverState V}
  {opId : OperationId} {t : Nat} {bid : EffectBatchId} {runtime : Runtime}
  {choice : Choice V} {mf : RuntimeManifest} {active : ActiveOperation V}
  {pending : PendingEffectBatch V}

/-! ## Outstanding children -/

/-- The row of a prepared child whose completion is not recorded. -/
structure OpenChild (p : PendingEffect V) (e : EffectRow V) : Prop where
  effectId : e.effectId = p.effectId
  batchId : e.batchId = p.batchId
  status : e.status = .dispatchStarted
  dispatchCount : e.dispatchCount = p.dispatchCount
  recovery : e.recovery = p.recovery
  request : e.request = some p.request

/-- The child is open in a batch its operation dispatches at the transition of its preparation. -/
def Open (db : Database V) (s : SessionId) (p : PendingEffect V) : Prop :=
  ∃ o ∈ db.operations, o.sessionId = s ∧
    Database.dispatchesBatch p.batchId p.transitionVersion o = true ∧
    ∃ e, OwnsEffect db o.operationId e ∧ OpenChild p e

theorem Open.untouched (h : Open db s p) (hfrm : Untouched s db db') : Open db' s p := by
  obtain ⟨o, ho, hs, hdisp, e, howns, hopen⟩ := h
  exact ⟨o, hfrm.operation o ho hs, hs, hdisp, e, hfrm.child o ho hs e howns, hopen⟩

/-- The attempts a driver has not polled yet. -/
def DriverState.attempts : DriverState V → List (PendingEffect V)
  | .invoking _ round => round.attempts
  | _ => []

/-- The children a lease still holds: the attempts of its driver and its tasks. -/
def Lease.outstanding (lease : Lease V) : List (PendingEffect V) :=
  (match lease.driver with
    | some driver => driver.attempts
    | none => []) ++ lease.tasks.map EffectTask.effect

/-! ## Knowledge -/

/-- What a driver of session `s` knows of the database. `outstanding` are the children its lease
holds. -/
def Knows (db : Database V) (s : SessionId) (outstanding : List (PendingEffect V)) :
    DriverState V → Prop
  | .activating => True
  | .checking active => Holds db s active.operationId (Tracks active)
  | .cancelling active pending =>
    Holds db s active.operationId (fun o => o.transitionVersion = pending.transitionVersion) ∧
      HighWater db s pending.eventHighWater ∧
      db.cancellationRequested active.operationId = true
  | .reading active => Holds db s active.operationId (Tracks active)
  | .preparing active => Holds db s active.operationId fun o =>
    Tracks active o ∧ o.phase.prepare? ≠ none
  | .invoking active round =>
    Holds db s active.operationId (fun _ => True) ∧
      (∀ p ∈ outstanding, p.batchId = round.batchId) ∧
      (round.expectedTransition = none → outstanding ≠ []) ∧
      (round.batchFinished = false → ∃ t, (∀ t', round.expectedTransition = some t' → t' = t) ∧
        Holds db s active.operationId fun o => Database.dispatchesBatch round.batchId t o = true)
  | .finishing active batchId t => Holds db s active.operationId fun o =>
    Database.dispatchesBatch batchId t o = true
  | .loading active _ => Holds db s active.operationId fun o =>
    Tracks active o ∧ o.phase = .needDecision
  | .deciding active input =>
    (Holds db s active.operationId fun o => Tracks active o ∧ o.phase = .needDecision) ∧
      input.operationId = active.operationId ∧
      input.effectBatch.map SettledEffectBatch.batchId = active.inputEffectBatchId
  | .reloading active => Holds db s active.operationId (fun _ => True)
  | .abandoning _ => True
  | .closing operationId pending =>
    Holds db s operationId (fun o => o.phase = .outcomeUnknown ∧
      o.transitionVersion = pending.transitionVersion) ∧
      HighWater db s pending.eventHighWater

theorem Knows.untouched {outstanding : List (PendingEffect V)} (h : Knows db s outstanding d)
    (hfrm : Untouched s db db') : Knows db' s outstanding d := by
  cases d with
  | activating => trivial
  | checking active => exact Holds.untouched h hfrm
  | cancelling active pending =>
    exact ⟨h.1.untouched hfrm, h.2.1.untouched hfrm, hfrm.requested _ h.2.2⟩
  | reading active | preparing active => exact Holds.untouched h hfrm
  | invoking active round =>
    obtain ⟨hhld, hbat, hsome, hunfin⟩ := h
    refine ⟨hhld.untouched hfrm, hbat, hsome, fun hfalse => ?_⟩
    obtain ⟨t, ht, hdisp⟩ := hunfin hfalse
    exact ⟨t, ht, hdisp.untouched hfrm⟩
  | finishing active bid t | loading active evs => exact Holds.untouched h hfrm
  | deciding active input => exact ⟨h.1.untouched hfrm, h.2⟩
  | reloading active => exact Holds.untouched h hfrm
  | abandoning opId => trivial
  | closing opId pending => exact ⟨h.1.untouched hfrm, h.2.untouched hfrm⟩

/-! ## One step -/

/-- What a transaction of a driver of session `s` does to the database. -/
structure Moved (s : SessionId) (db db' : Database V) : Prop where
  committed : Committed db db'
  bound : Bound db'
  frame : ∀ t, t ≠ s → Untouched t db db'

theorem moved_refl (s : SessionId) (hbound : Bound db) : Moved s db db :=
  ⟨.unchanged rfl, hbound, fun t _ => untouched_refl t db⟩

theorem ChangedBy.moved {P : OperationRow V → Prop} (hchg : ChangedBy opId db db')
    (h : Consistent db) (hbound : Bound db) (hhld : Holds db s opId P) :
    Moved s db db' :=
  ⟨hchg.committed, hchg.bound h hbound, fun _ hne => hchg.untouched (hhld.other hne)⟩

/-- What holds after a step that ends with a control in the database `db'`. The attempts of a new
point are open, different, and dispatched once more than in `db`. -/
def After (s : SessionId) (db db' : Database V) : Except KernelError (Control V) → Prop
  | .error e => ¬ e.IsCorrupt
  | .ok (.done _) => True
  | .ok (.next d) =>
    Knows db' s d.attempts d ∧ (d.attempts.map PendingEffect.effectId).Nodup ∧
      (∀ p ∈ d.attempts, Open db' s p) ∧
      ∀ p ∈ d.attempts, ∃ e ∈ db.effects, e.effectId = p.effectId ∧
        e.dispatchCount < p.dispatchCount

/-- The step of a driver keeps what the rest of the system relies on. -/
structure StepInv (s : SessionId) (db : Database V)
    (r : Database V × Except KernelError (Control V)) : Prop where
  moved : Moved s db r.1
  after : After s db r.1 r.2

theorem stepInv_transact {α : Type} {t : Except KernelError (α × Database V)}
    {k : α → Except KernelError (Control V)} (hbound : Bound db) (hsnd : Sound t)
    (hok : ∀ a db', t = .ok (a, db') → Moved s db db' ∧ After s db db' (k a)) :
    StepInv s db (transact db t k) := by
  cases t with
  | error e => exact ⟨moved_refl s hbound, avoids_error.mp hsnd⟩
  | ok r =>
    obtain ⟨a, db'⟩ := r
    obtain ⟨hmvd, haft⟩ := hok a db' rfl
    exact ⟨hmvd, haft⟩

/-- A point without attempts. -/
theorem after_next (hatts : d.attempts = []) (h : Knows db' s [] d) :
    After s db db' (.ok (.next d)) := by
  simp only [After, hatts]
  exact ⟨h, nodup_nil, fun p hp => absurd hp not_mem_nil, fun p hp => absurd hp not_mem_nil⟩

/-- The check of the runtime after a transaction. -/
theorem after_ensure_runtime {c : Bool} {control : Control V} (h : After s db db' (.ok control)) :
    After s db db' (do
      ensure c .runtimeMismatch
      return control) := by
  cases c with
  | false => exact not_false
  | true => exact h

/-! ## The steps -/

/-- The closing step of a batch leaves its operation active. -/
theorem BatchClosing.holds {o : OperationRow V} (ho : o ∈ db.operations)
    (hact : o.phase.isCancellable = true) {finished : Option Bool}
    (h : BatchClosing db o bid finished db') :
    Holds db' o.sessionId o.operationId fun _ => True := by
  rcases h with ⟨_, rfl, _⟩ | ⟨blocked, _, _, _, rfl⟩
  · exact ⟨o, ho, rfl, rfl, hact, trivial⟩
  · exact ⟨o.finishBatch bid blocked, mem_put_self ho rfl, rfl, rfl,
      by cases blocked <;> rfl, trivial⟩

/-- What a committed loop decision did. -/
inductive AppliedDecision (db : Database V) (s : SessionId) (active : ActiveOperation V)
    (choice : Choice V) : Option OperationOutcome → Database V → Prop
  | cancelled (hrequested : db.cancellationRequested active.operationId = true) :
      AppliedDecision db s active choice none db
  | intended {db' : Database V} {intent : NewEffectBatchIntent V}
      (i : IntendedBatch db active.operationId active.transitionVersion choice.batchId
        choice.effectIds intent db')
      (hfree : db.cancellationRequested active.operationId = false)
      (hbound : ∀ effect ∈ intent.effects,
        active.manifest.revision? effect.binding = some effect.bindingRevision) :
      AppliedDecision db s active choice none db'
  | continued {db' : Database V} (write : DecisionWrite V)
      (c : ContinuedOperation db s active.operationId choice.eventIds write db')
      (hfree : db.cancellationRequested active.operationId = false)
      (hphase : write.phase = .needDecision)
      (hchange : ChangedBy active.operationId db db') :
      AppliedDecision db s active choice none db'
  | ended {db' : Database V} {write : DecisionWrite V} {outcome : OperationOutcome}
      (e : EndedOperation db s active.operationId choice.eventIds write.events
        (OperationRow.decided · write) db')
      (hfree : db.cancellationRequested active.operationId = false)
      (hchange : ChangedBy active.operationId db db') :
      AppliedDecision db s active choice (some outcome) db'

/-- The intents of requested effects are bound by the manifest. -/
theorem intents_bound {effs : List (EffectRequest V)} {intents : List (NewEffectIntent V)}
    (h : effs.mapM (EffectRequest.intent runtime mf) = .ok intents) :
    ∀ eff ∈ intents, mf.revision? eff.binding = some eff.bindingRevision := by
  intro intent hint
  obtain ⟨eff, _, hrun⟩ := exists_of_forall₂_of_mem (mapM_eq_ok h).flip hint
  obtain ⟨revision, hrevision, hrun⟩ := require_bind_ok hrun
  obtain ⟨_, _, hrun⟩ := bind_ok hrun
  cases hrun
  exact hrevision

theorem appliedDecision_of_commit (h : Consistent db) {choice : Choice V}
    {dec : LoopDecision V} {res : CommittedDecision × Database V}
    (hrun : db.commitDecision s active.operationId active.transitionVersion choice.eventIds dec
      = .ok res) :
    AppliedDecision db s active choice (match res.1 with
        | .continued | .cancellationPending => none
        | .finished out => some out) res.2 := by
  have hchg := changedBy_commitDecision h hrun
  rcases commitDecision_ok hrun with ⟨hask, rfl⟩ | ⟨hfree, write, hwrt, hcas⟩
  · exact .cancelled hask
  rcases hcas with ⟨hres, hnone, c, _⟩ | ⟨out, _, hres, e, _⟩
  · rw [hres]
    refine .continued write c hfree ?_ hchg
    rcases write_cases hwrt with ⟨_, hph, _⟩ | ⟨out, hsome, _⟩
    · exact hph
    · rw [hnone] at hsome
      cases hsome
  · rw [hres]
    exact .ended e hfree hchg

theorem applyLoopDecision_ok (h : Consistent db) {choice : Choice V} {dec : LoopDecision V}
    {res : Option OperationOutcome × Database V}
    (hrun : db.applyLoopDecision s active runtime choice dec = .ok res) :
    AppliedDecision db s active choice res.1 res.2 := by
  obtain ⟨_, _, hrun⟩ := bind_ok hrun
  cases dec with
  | invokeEffects ckpt effs =>
    obtain ⟨_, _, hrun⟩ := bind_ok hrun
    obtain ⟨intents, hintents, hrun⟩ := bind_ok hrun
    obtain ⟨committed, hcom, hrun⟩ := bind_ok hrun
    cases hrun
    rcases commitEffectBatchIntent_ok hcom h.outcome_none with ⟨hask, rfl⟩ | ⟨hfree, _, ⟨i⟩⟩
    · exact .cancelled hask
    · exact .intended i hfree (intents_bound hintents)
  | appendEventsAndContinue ckpt evs | waitForInput ckpt evs
  | complete ckpt evs | fail ckpt evs reason =>
    obtain ⟨committed, hcom, hrun⟩ := bind_ok hrun
    cases hrun
    exact appliedDecision_of_commit h hcom

/-! ### Prepared children -/

theorem pending?_eq_some {e : EffectRow V} (h : e.pending? bid t = some p) :
    e.request = some p.request ∧ p.batchId = bid ∧ p.effectId = e.effectId ∧
      p.binding = e.binding ∧ p.bindingRevision = e.bindingRevision ∧ p.recovery = e.recovery ∧
      p.dispatchCount = e.dispatchCount + 1 ∧ p.transitionVersion = t := by
  obtain ⟨req, hreq, rfl⟩ := Option.map_eq_some_iff.mp h
  exact ⟨hreq, rfl, rfl, rfl, rfl, rfl, rfl, rfl⟩

theorem mem_pendingChildren {phase : PreparePhase} (h : p ∈ db.pendingChildren phase bid t) :
    ∃ e ∈ db.effects, e.batchId = bid ∧ e.dispatchedBy phase = true ∧
      e.pending? bid t = some p := by
  obtain ⟨e, he, hpend⟩ := mem_filterMap.mp h
  obtain ⟨hch, hdispd⟩ := mem_filter.mp he
  obtain ⟨hmem, hbat⟩ := mem_orderedChildren.mp hch
  exact ⟨e, hmem, hbat, hdispd, hpend⟩

theorem pendingChildren_nodup (phase : PreparePhase) (bid : EffectBatchId) (t : Nat)
    (hreq : ∀ e ∈ db.effects, e.batchId = bid → e.request ≠ none) :
    ((db.pendingChildren phase bid t).map PendingEffect.effectId).Nodup := by
  have hids : (db.pendingChildren phase bid t).map PendingEffect.effectId =
      ((db.orderedChildren bid).filter (EffectRow.dispatchedBy phase)).map
        EffectRow.effectId := by
    refine map_filterMap_of_forall fun e he => ?_
    obtain ⟨hmem, hbat⟩ := mem_orderedChildren.mp (mem_filter.mp he).1
    obtain ⟨req, hsome⟩ := Option.ne_none_iff_exists'.mp (hreq e hmem hbat)
    exact ⟨_, by rw [EffectRow.pending?, hsome, Option.map_some], rfl⟩
  rw [hids]
  exact (orderedChildren_nodup db bid).sublist (filter_sublist.map _)

/-- The invocations of a prepared batch, and the rows it wrote. -/
theorem PreparedBatch.invoke_eq (p : PreparedBatch db opId t (.invoke pending, db')) :
    pending.batchId = p.batchId ∧
      pending.effects = db.pendingChildren p.phase p.batchId (t + 1) ∧ pending.effects ≠ [] ∧
      db'.operations = db.operations.put p.operation.dispatchBatch ∧
      db'.effects = p.effects ∧ db'.effectBatches = db.effectBatches := by
  rcases p.result_eq with ⟨hne, hres⟩ | ⟨_, _, _, blocked, _, hres⟩
  · obtain ⟨hpend, hdb⟩ := Prod.mk.inj hres
    have hpend := EffectBatchStart.invoke.inj hpend
    have heffs : pending.effects = db.pendingChildren p.phase p.batchId (t + 1) :=
      congrArg PendingEffectBatch.effects hpend
    have hbats : db'.effectBatches = db.effectBatches := congrArg (·.effectBatches) hdb
    exact ⟨congrArg PendingEffectBatch.batchId hpend, heffs,
      fun hnil => hne (heffs.symm.trans hnil), congrArg Database.operations hdb,
      congrArg Database.effects hdb, hbats⟩
  · cases blocked <;> cases (Prod.mk.inj hres).1

/-- The invocations of a prepared batch are open. -/
theorem PreparedBatch.open (p : PreparedBatch db opId t (.invoke pending, db'))
    {q : PendingEffect V} (hq : q ∈ pending.effects) : Open db' p.operation.sessionId q := by
  obtain ⟨_, hpends, _, hops, heffs, hbats⟩ := p.invoke_eq
  rw [hpends] at hq
  obtain ⟨e, he, hbat, hdispd, hpend⟩ := mem_pendingChildren hq
  obtain ⟨hreq, hqb, hqid, _, _, hrecov, hcnt, hver⟩ := pending?_eq_some hpend
  obtain ⟨b, hb, hbid, hown⟩ := p.batch_owner
  refine ⟨p.operation.dispatchBatch, ?_, rfl, dispatchesBatch_iff.mpr ⟨rfl, ?_, ?_⟩,
    e.dispatch, ⟨?_, b, ?_, hbid.trans hbat.symm, ?_⟩, ?_⟩
  · rw [hops]
    exact mem_put_self (mem_of_find? p.operation_find) rfl
  · rw [hver]
    exact congrArg (· + 1) p.transition_eq
  · rw [hqb]
    exact p.current_eq
  · rw [heffs]
    show e.dispatch ∈ p.effects.rows
    rw [p.effects_eq]
    refine mem_map.mpr ⟨e, he, ?_⟩
    rw [prepareIn, if_pos hbat, EffectRow.prepareRow, if_pos hdispd]
  · rw [hbats]
    exact hb
  · rw [hown]
    exact (key_of_find? p.operation_find).symm
  · exact ⟨hqid.symm, hbat.trans hqb.symm, rfl, hcnt.symm, hrecov.symm, hreq⟩

/-- The round of a prepared batch finds no child that differs from its batch or manifest. -/
theorem PreparedBatch.sound_round (p : PreparedBatch db opId t (.invoke pending, db'))
    (hbound : Bound db) (hman : p.operation.manifest = some mf) (runtime : Runtime)
    (inExecutor : Bool) : Sound (pending.round runtime mf inExecutor) := by
  obtain ⟨hpb, hpends, _⟩ := p.invoke_eq
  refine avoids_ensure_bind False.elim fun _ => ?_
  refine avoids_bind (avoids_mapM fun q hq => ?_) fun _ _ => avoids_ok _
  refine avoids_ensure_bind (fun _ => ?_) fun _ => avoids_ensure False.elim
  rw [hpends] at hq
  obtain ⟨e, he, hbat, _, hpend⟩ := mem_pendingChildren hq
  obtain ⟨_, hqb, _, hbinding, hrevision, _⟩ := pending?_eq_some hpend
  obtain ⟨b, hb, hbid, hown⟩ := p.batch_owner
  have hkey : p.operation.operationId = opId := key_of_find? p.operation_find
  have hboundBy := hbound _ (mem_of_find? p.operation_find) mf hman e
    ⟨he, b, hb, hbid.trans hbat.symm, hown.trans hkey.symm⟩
  rw [hqb, hpb, decide_eq_true rfl, Bool.true_and, hbinding, hrevision]
  exact hboundBy

theorem round_ok {inExecutor : Bool} {round : EffectRound V}
    (h : pending.round runtime mf inExecutor = .ok round) :
    round = { batchId := pending.batchId, attempts := pending.effects,
              expectedTransition := none, batchFinished := false } := by
  iterate 2 obtain ⟨_, _, h⟩ := bind_ok h
  cases h
  rfl

/-- A round whose attempts and tasks have all ended. -/
theorem stepInv_invoking (hbound : Bound db) {round : EffectRound V}
    (hatts : round.attempts = []) (hkn : Knows db s [] (.invoking active round)) :
    StepInv s db ((DriverState.invoking active round).step db s runtime choice false) := by
  obtain ⟨hhld, _, hrecv, hunfin⟩ := hkn
  have hstep : (DriverState.invoking active round).step db s runtime choice false = (db, do
        let expected ← require
          (.corrupt "effect batch prepared no child invocations") round.expectedTransition
        return .next (if round.batchFinished then .reloading active
          else .finishing active round.batchId expected)) := by
    rw [DriverState.step, hatts]
    rfl
  rw [hstep]
  refine ⟨moved_refl s hbound, ?_⟩
  cases htrn : round.expectedTransition with
  | none => exact absurd rfl (hrecv htrn)
  | some t =>
    cases hfin : round.batchFinished with
    | true => exact after_next rfl hhld
    | false =>
      obtain ⟨t', ht', hdisp⟩ := hunfin hfin
      rw [← ht' t htrn] at hdisp
      exact after_next rfl hdisp

section Steps

variable (h : Consistent db) (hbound : Bound db)

include h hbound

theorem stepInv_activating :
    StepInv s db (DriverState.activating.step db s runtime choice false) := by
  apply stepInv_transact hbound (h.sound_activate s runtime.manifest)
  intro res db' hrun
  obtain ⟨row, hrow, hcas⟩ := activate_ok h.operation_row hrun
  rcases hcas with ⟨id, active, hptr, hload, hres⟩ | ⟨_, _, hres⟩ | ⟨a, active, hload, hres⟩
  · cases hres
    obtain ⟨hid, o, ho, hoid, hos, htrack⟩ := loadActiveQuery_ok hload
    refine ⟨moved_refl s hbound, after_ensure_runtime (after_next rfl ⟨o, ho, ?_, hos, ?_, htrack⟩)⟩
    · rw [hoid, hid]
    · obtain ⟨q, hq, hqid, _, hact⟩ := (h.active row (mem_of_find? hrow) id).mp hptr
      rw [key_inj ho hq (hoid.trans hqid.symm)]
      exact hact
  · cases hres
    exact ⟨moved_refl s hbound, trivial⟩
  · subst hres
    have hchg := changedBy_activatedOperation h a
    obtain ⟨ho, hos, _⟩ := firstQueued_eq_some a.first
    refine ⟨⟨hchg.committed, hchg.bound h hbound, fun t hne => hchg.untouched ?_⟩, ?_⟩
    · intro q hq hqid hqs
      rw [key_inj hq ho hqid, hos] at hqs
      exact hne hqs.symm
    · obtain ⟨hid, o, ho', hoid, hos', htrack⟩ := loadActiveQuery_ok hload
      refine after_ensure_runtime (after_next rfl ⟨o, ho', by rw [hoid, hid], hos', ?_, htrack⟩)
      rw [key_inj ho' a.activate_mem hoid]
      rfl

theorem stepInv_checking (hkn : Knows db s [] (.checking active)) :
    StepInv s db ((DriverState.checking active).step db s runtime choice false) := by
  have hhld : Holds db s active.operationId (Tracks active) := hkn
  obtain ⟨o, ho, hid, rfl, hact, htrack⟩ := hkn
  apply stepInv_transact hbound
  · rw [← hid]
    exact sound_loadRequestedCancellation h ho hact hbound
  · intro res db' hrun
    have hmvd := (changedBy_loadRequestedCancellation h hrun).moved h hbound hhld
    refine ⟨hmvd, ?_⟩
    cases res with
    | none =>
      rcases loadRequestedCancellation_ok hrun with ⟨_, hnone⟩ | ⟨_, hsome⟩
      · cases hnone
        exact after_next rfl ⟨o, ho, hid, rfl, hact, htrack⟩
      · obtain ⟨_, _, _, _, _, _, _, _, _, hres, _⟩ := hsome
        cases hres
    | some pending =>
      rw [← hid] at hrun
      obtain ⟨hrow, hwater, hask⟩ := loadRequestedCancellation_holds h ho hact hrun
      rw [hid] at hrow hask
      exact after_ensure_runtime (after_next rfl ⟨hrow, hwater, hask⟩)

theorem stepInv_cancelling {pending : PendingCancellation V}
    (hkn : Knows db s [] (.cancelling active pending)) :
    StepInv s db ((DriverState.cancelling active pending).step db s runtime choice false) := by
  obtain ⟨hhld, hwater, hask⟩ := hkn
  apply stepInv_transact hbound
  · obtain ⟨o, ho, hid, rfl, hact, htrn⟩ := hhld
    refine avoids_bind ?_ fun transition _ => ?_
    · cases choice.cancellation with
      | error msg => exact avoids_error.mpr not_false
      | ok transition => exact avoids_ok transition
    refine avoids_bind (sound_requireCompatibleCheckpoint _ _) fun _ _ => ?_
    refine avoids_bind (sound_validateNewEvents _) fun _ _ => ?_
    refine avoids_bind ?_ fun _ _ => avoids_ok _
    rw [← hid, ← htrn]
    rw [← hid] at hask
    exact h.sound_commitCancellation ho hact hwater hask _ _
  · intro res db' hrun
    iterate 3 obtain ⟨_, _, hrun⟩ := bind_ok hrun
    obtain ⟨_, hcom, hrun⟩ := bind_ok hrun
    cases hrun
    exact ⟨(changedBy_commitCancellation h hcom).moved h hbound hhld, trivial⟩

theorem stepInv_reading (hkn : Knows db s [] (.reading active)) :
    StepInv s db ((DriverState.reading active).step db s runtime choice false) := by
  obtain ⟨o, ho, hid, hs, hact, htrack⟩ := hkn
  apply stepInv_transact hbound
  · exact avoids_bind (h.sound_loadEventPage s 0) fun _ _ => avoids_ok _
  · intro res db' hrun
    obtain ⟨page, _, hrun⟩ := bind_ok hrun
    cases hrun
    refine ⟨moved_refl s hbound, ?_⟩
    unfold ActiveOperation.dispatch
    have hph := htrack.phase
    cases hp : active.phase <;> rw [hp] at hph
    case needDecision => exact after_next rfl ⟨o, ho, hid, hs, hact, htrack, hph⟩
    case outcomeUnknown => trivial
    case effectIntent | effectDispatched =>
      exact after_next rfl ⟨o, ho, hid, hs, hact, htrack, by
        rw [hph]
        exact Option.some_ne_none _⟩
    all_goals
      rw [hph] at hact
      cases hact

theorem stepInv_finishing (hkn : Knows db s [] (.finishing active bid t)) :
    StepInv s db ((DriverState.finishing active bid t).step db s runtime choice false) := by
  have hhld : Holds db s active.operationId _ := hkn
  obtain ⟨o, ho, hid, rfl, hact, hdisp⟩ := hkn
  obtain ⟨res, hres⟩ := exists_finishEffectBatchAttempt h ho hdisp
  rw [hid] at hres
  apply stepInv_transact hbound (by rw [hres]; exact avoids_ok _)
  intro finish db' hrun
  have hchg := changedBy_finishEffectBatchAttempt h hrun
  refine ⟨hchg.moved h hbound hhld, after_next rfl ?_⟩
  obtain ⟨q, hq, _, hcas⟩ := finishEffectBatchAttempt_ok hrun h.outcome_none
  obtain rfl : o = q := Option.some.inj ((find?_eq_some.mpr ⟨ho, hid⟩).symm.trans hq)
  show Holds db' o.sessionId active.operationId fun _ => True
  rw [← hid]
  rcases hcas with ⟨_, hres⟩ | ⟨_, _, _, finished, hcls⟩
  · cases hres
    exact ⟨o, ho, rfl, rfl, hact, trivial⟩
  · exact hcls.holds ho hact

theorem stepInv_loading {evs : List (SemanticEvent V)} (hkn : Knows db s [] (.loading active evs)) :
    StepInv s db ((DriverState.loading active evs).step db s runtime choice false) := by
  have hhld : Holds db s active.operationId _ := hkn
  obtain ⟨o, ho, hid, _, _, htrack, _⟩ := hkn
  apply stepInv_transact hbound
  · exact avoids_bind (h.sound_loadLoopInput hbound ho hid htrack evs) fun _ _ => avoids_ok _
  · intro input db' hrun
    obtain ⟨loaded, hload, hrun⟩ := bind_ok hrun
    cases hrun
    exact ⟨moved_refl s hbound, after_next rfl ⟨hhld, loadLoopInput_ok hload⟩⟩

theorem stepInv_reloading (hkn : Knows db s [] (.reloading active)) :
    StepInv s db ((DriverState.reloading active).step db s runtime choice false) := by
  obtain ⟨o, ho, hid, rfl, hact, _⟩ := hkn
  apply stepInv_transact hbound
  · rw [← hid]
    exact avoids_bind (h.sound_loadActive ho hact) fun _ _ => avoids_ok _
  · intro loaded db' hrun
    obtain ⟨active', hload, hrun⟩ := bind_ok hrun
    cases hrun
    obtain ⟨_, _, hload⟩ := bind_ok hload
    obtain ⟨hid', q, hq, hqid, hqs, htrack⟩ := loadActiveQuery_ok hload
    obtain rfl : o = q := key_inj ho hq (hid.trans hqid.symm)
    exact ⟨moved_refl _ hbound, after_next rfl ⟨o, ho, hid.trans hid'.symm, rfl, hact, htrack⟩⟩

theorem stepInv_abandoning (opId : OperationId) :
    StepInv s db ((DriverState.abandoning opId).step db s runtime choice false) := by
  apply stepInv_transact hbound
  · exact avoids_bind (h.sound_loadUnknownEffectState hbound s opId) fun _ _ => avoids_ok _
  · intro state db' hrun
    obtain ⟨loaded, hload, hrun⟩ := bind_ok hrun
    cases hrun
    refine ⟨moved_refl s hbound, ?_⟩
    cases state with
    | alreadyAbandoned mf out => exact after_ensure_runtime trivial
    | pending pending =>
      exact after_ensure_runtime (after_next rfl (loadUnknownEffectState_holds hload))

theorem stepInv_closing {pending : PendingAbandonment V}
    (hkn : Knows db s [] (.closing opId pending)) :
    StepInv s db ((DriverState.closing opId pending).step db s runtime choice false) := by
  obtain ⟨hhld, hwater⟩ := hkn
  apply stepInv_transact hbound
  · obtain ⟨o, ho, rfl, rfl, _, hph, htrn⟩ := hhld
    refine avoids_bind ?_ fun abandonment _ => ?_
    · cases choice.abandonment with
      | error msg => exact avoids_error.mpr not_false
      | ok abandonment => exact avoids_ok abandonment
    refine avoids_bind (sound_requireCompatibleCheckpoint _ _) fun _ _ => ?_
    refine avoids_bind (sound_validateNewEvents _) fun _ _ => ?_
    rw [← htrn]
    exact h.sound_commitUnknownEffectAbandonment ho hph hwater _ _
  · intro out db' hrun
    iterate 3 obtain ⟨_, _, hrun⟩ := bind_ok hrun
    exact ⟨(changedBy_commitUnknownEffectAbandonment h hrun).moved h hbound hhld, trivial⟩

theorem stepInv_deciding {input : LoopInput V} (hkn : Knows db s [] (.deciding active input)) :
    StepInv s db ((DriverState.deciding active input).step db s runtime choice false) := by
  obtain ⟨hhld, _⟩ := hkn
  have hoth := fun t (hne : t ≠ s) => hhld.other hne
  obtain ⟨o, ho, hid, rfl, hact, htrack, hph⟩ := hhld
  apply stepInv_transact hbound
  · refine avoids_bind ?_ fun dec _ => ?_
    · cases choice.decision with
      | error msg => exact avoids_error.mpr not_false
      | ok dec => exact avoids_ok dec
    · exact h.sound_applyLoopDecision ho hph hid htrack runtime choice dec
  intro out db' hrun
  obtain ⟨dec, _, hrun⟩ := bind_ok hrun
  have hfind : db.operations.find? active.operationId = some o := find?_eq_some.mpr ⟨ho, hid⟩
  cases applyLoopDecision_ok h hrun with
  | cancelled hask => exact ⟨moved_refl _ hbound, after_next rfl ⟨o, ho, hid, rfl, hact, trivial⟩⟩
  | intended i _ hintents =>
    have hsame : o = i.operation := Option.some.inj (hfind.symm.trans i.operation_find)
    refine ⟨⟨.intended i ‹_›, i.bound h hbound ?_ hintents, fun t hne =>
      i.untouched (hoth t hne)⟩, after_next rfl ⟨_, i.intend_mem, ?_, ?_, rfl, trivial⟩⟩
    · rw [← hsame]
      exact htrack.manifest
    · exact i.operationId_eq
    · rw [hsame]
      rfl
  | continued write c _ hnext hchg =>
    refine ⟨⟨hchg.committed, hchg.bound h hbound, fun t hne =>
      hchg.untouched (hoth t hne)⟩, after_next rfl ?_⟩
    have hsame : c.operation = o := Option.some.inj (c.operation_find.symm.trans hfind)
    have hops := congrArg Database.operations c.db'_eq
    refine ⟨c.operation.decided write, ?_, ?_, ?_, ?_, trivial⟩
    · rw [hops]
      exact mem_put_self (mem_of_find? c.operation_find) rfl
    · show c.operation.operationId = active.operationId
      exact key_of_find? c.operation_find
    · rw [hsame]
      rfl
    · rw [show (c.operation.decided write).phase = .needDecision from hnext]
      rfl
  | ended e _ hchg =>
    exact ⟨⟨hchg.committed, hchg.bound h hbound, fun t hne => hchg.untouched (hoth t hne)⟩, trivial⟩

theorem stepInv_preparing (hkn : Knows db s [] (.preparing active)) :
    StepInv s db ((DriverState.preparing active).step db s runtime choice false) := by
  have hhld : Holds db s active.operationId _ := hkn
  obtain ⟨o, ho, hid, rfl, hact, htrack, hph⟩ := hkn
  obtain ⟨phase, hph⟩ := Option.ne_none_iff_exists'.mp hph
  apply stepInv_transact hbound
  · rw [← hid, ← htrack.transitionVersion]
    exact h.sound_prepareEffectBatch ho hph
  intro start db' hrun
  have hmvd := (changedBy_prepareEffectBatch h hrun).moved h hbound hhld
  refine ⟨hmvd, ?_⟩
  rcases prepareEffectBatch_ok hrun h.outcome_none with ⟨_, hres⟩ | ⟨_, ⟨p⟩⟩
  · cases hres
    exact after_next rfl ⟨o, ho, hid, rfl, hact, trivial⟩
  have hsame : p.operation = o :=
    Option.some.inj (p.operation_find.symm.trans (find?_eq_some.mpr ⟨ho, hid⟩))
  have hcls : start ≠ .cancellationPending → (∀ pending, start ≠ .invoke pending) →
      Holds db' o.sessionId active.operationId fun _ => True := by
    intro _ hinvoke
    rcases p.result_eq with ⟨_, hres⟩ | ⟨_, _, _, blocked, _, hres⟩
    · exact absurd (Prod.mk.inj hres).1 (hinvoke _)
    · rw [(Prod.mk.inj hres).2]
      exact ⟨p.operation.finishBatch p.batchId blocked,
        mem_put_self (mem_of_find? p.operation_find) rfl,
        (key_of_find? p.operation_find : p.operation.operationId = _),
        (congrArg OperationRow.sessionId hsame : p.operation.sessionId = _),
        by cases blocked <;> rfl, trivial⟩
  cases start with
  | settled | blocked => exact after_next rfl (hcls (by simp) (by simp))
  | cancellationPending =>
    rcases p.result_eq with ⟨_, hres⟩ | ⟨_, _, _, blocked, _, hres⟩
    · cases (Prod.mk.inj hres).1
    · cases blocked <;> cases (Prod.mk.inj hres).1
  | invoke pending =>
    have hsnd := p.sound_round hbound (hsame ▸ htrack.manifest) runtime choice.inExecutor
    show After _ db db' (pending.round runtime active.manifest choice.inExecutor >>= _)
    cases hround : pending.round runtime active.manifest choice.inExecutor with
    | error e =>
      rw [hround] at hsnd
      exact avoids_error.mp hsnd
    | ok round =>
      obtain ⟨hpb, hpends, hne, hops, _⟩ := p.invoke_eq
      obtain rfl := round_ok hround
      have hopen := fun q (hq : q ∈ pending.effects) => p.open hq
      rw [hsame] at hopen
      have hdispatch : Holds db' o.sessionId active.operationId fun q =>
          Database.dispatchesBatch pending.batchId (active.transitionVersion + 1) q = true := by
        refine ⟨o.dispatchBatch, ?_, hid, rfl, rfl, dispatchesBatch_iff.mpr ⟨rfl, ?_, ?_⟩⟩
        · rw [hops, hsame]
          exact mem_put_self ho rfl
        · exact congrArg (· + 1) htrack.transitionVersion
        · rw [hpb, ← p.current_eq, hsame]
          rfl
      refine ⟨⟨hdispatch.imp fun _ _ => trivial, ?_, fun _ => hne,
        fun _ => ⟨_, fun _ hnone => (Option.some_ne_none _ hnone.symm).elim, hdispatch⟩⟩,
        ?_, hopen, ?_⟩
      all_goals
        rw [hpends]
      · intro q hq
        obtain ⟨_, _, _, _, hpend⟩ := mem_pendingChildren hq
        exact (pending?_eq_some hpend).2.1.trans hpb.symm
      · exact pendingChildren_nodup _ _ _ p.request
      · intro q hq
        obtain ⟨e, he, _, _, hpend⟩ := mem_pendingChildren hq
        obtain ⟨_, _, hqid, _, _, _, hcnt, _⟩ := pending?_eq_some hpend
        exact ⟨e, he, hqid.symm, by omega⟩

/-- A driver with nothing outstanding takes its step. -/
theorem stepInv_step (hatts : d.attempts = []) (hkn : Knows db s [] d) :
    StepInv s db (d.step db s runtime choice false) := by
  cases d with
  | activating => exact stepInv_activating h hbound
  | checking active => exact stepInv_checking h hbound hkn
  | cancelling active pending => exact stepInv_cancelling h hbound hkn
  | reading active => exact stepInv_reading h hbound hkn
  | preparing active => exact stepInv_preparing h hbound hkn
  | invoking active round => exact stepInv_invoking hbound hatts hkn
  | finishing active bid t => exact stepInv_finishing h hbound hkn
  | loading active evs => exact stepInv_loading h hbound hkn
  | deciding active input => exact stepInv_deciding h hbound hkn
  | reloading active => exact stepInv_reloading h hbound hkn
  | abandoning opId => exact stepInv_abandoning h hbound opId
  | closing opId pending => exact stepInv_closing h hbound hkn

end Steps

end Renoa.Kernel
