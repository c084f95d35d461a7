import Renoa.Kernel.SoundEffects

/-!
# Loading the input of a cancellation and of an abandonment

Both loads read the batch the operation stands on with every check on its children, after a
cancellation has closed a dispatched batch. On a consistent database with frozen bindings they are
sound, for a driver that holds the operation (`sound_loadRequestedCancellation`) and for any
operation a caller names (`sound_loadUnknownEffectState`).
-/

namespace Renoa.Kernel

open Foundation List Table Database

variable {V : Type} {db : Database V} {rows : List (EffectRow V)} {facts : List (EffectFact V)}
  {b : EffectBatchRow} {o : OperationRow V} {pend : PendingAbandonment V}
  {opId : OperationId} {sid : SessionId}

/-! ## Facts and statuses -/

section

variable (hforall : List.Forall₂ FactOf rows facts) {p : EffectFact V → Bool}
  {q : EffectRow V → Prop}

include hforall

theorem facts_all_iff (hpq : ∀ e fact, FactOf e fact → (p fact = true ↔ q e)) :
    facts.all p = true ↔ ∀ e ∈ rows, q e := by
  induction hforall with
  | nil => simp
  | cons hfact _ ih => rw [all_cons, Bool.and_eq_true, ih, forall_mem_cons, hpq _ _ hfact]

theorem facts_any_iff (hpq : ∀ e fact, FactOf e fact → (p fact = true ↔ q e)) :
    facts.any p = true ↔ ∃ e ∈ rows, q e := by
  induction hforall with
  | nil => simp
  | cons hfact _ ih => rw [any_cons, Bool.or_eq_true, ih, exists_mem_cons_iff, hpq _ _ hfact]

/-- The facts of a batch with an unknown child and no open one. -/
theorem unknownFactsValid_of_status (hunk : ∃ e ∈ rows, e.status = .outcomeUnknown)
    (hcls : ∀ e ∈ rows, e.status = .settled ∨ e.status = .outcomeUnknown) :
    unknownFactsValid facts = true := by
  unfold unknownFactsValid
  rw [Bool.and_eq_true]
  constructor
  · obtain ⟨e, he, hstat⟩ := hunk
    refine (facts_any_iff hforall (q := fun e => e.status = .dispatchStarted ∨
      e.status = .outcomeUnknown) fun e fact hfact => ?_).mpr ⟨e, he, .inr hstat⟩
    rw [hfact.kind.2.2]
    simp
  · refine (facts_all_iff hforall (q := fun e => e.status = .settled ∨
      e.status = .dispatchStarted ∨ e.status = .outcomeUnknown) fun e fact hfact => ?_).mpr
      fun e he => (hcls e he).imp id .inr
    rw [hfact.kind.1, hfact.kind.2.2]
    simp

end

/-! ## Cancellation -/

section Cancellation

variable (h : Consistent db) {o : OperationRow V} (ho : o ∈ db.operations)
  (hactive : o.phase.isCancellable = true) {mf : RuntimeManifest}

include h ho hactive

/-- The facts of a batch of an active operation. -/
theorem loadFacts_of_active (hbnd : Bound db) (hman : o.manifest = some mf)
    (hb : b ∈ db.effectBatches) (hown : b.operationId = o.operationId) :
    ∃ facts, db.loadEffectBatchFacts o.operationId b.batchId (some mf) = .ok ⟨b.batchId, facts⟩ ∧
      List.Forall₂ FactOf (db.orderedChildren b.batchId) facts := by
  rw [← hown]
  apply h.loadEffectBatchFacts_eq_ok (some mf) hb
  · exact fun e he heb => h.request_ne_none ho hactive hb hown he heb
  · exact fun e he heb => hbnd o ho mf hman e ⟨he, b, hb, heb.symm, hown⟩

/-- The facts of the last batch are those the phase asks for. -/
theorem cancellationFactsValid_of_last (hcls : o.phase ≠ .effectDispatched)
    (hb : b ∈ db.effectBatches) (hown : b.operationId = o.operationId)
    (hpos : b.position + 1 = o.nextEffectBatchPosition)
    (hforall : List.Forall₂ FactOf (db.orderedChildren b.batchId) facts) :
    Database.cancellationFactsValid o.phase facts = true := by
  have hbat := h.batch_consistent o ho b hb hown
  have hstat : ∀ e ∈ db.orderedChildren b.batchId, o.phase.allowsStatus e.status = true :=
    fun e he => hbat.last hpos e (mem_orderedChildren.mp he).1 (mem_orderedChildren.mp he).2
  cases hph : o.phase <;> rw [hph] at hactive hcls hstat <;> try cases hactive
  case needDecision =>
    refine (facts_all_iff hforall fun e fact hfact => ?_).mpr fun e he =>
      of_decide_eq_true (hstat e he)
    rw [hfact.kind.1, decide_eq_true_eq]
  case effectIntent =>
    refine (facts_all_iff hforall fun e fact hfact => ?_).mpr fun e he =>
      of_decide_eq_true (hstat e he)
    rw [hfact.kind.2.1, decide_eq_true_eq]
  case effectDispatched => exact absurd rfl hcls
  case outcomeUnknown =>
    refine unknownFactsValid_of_status hforall ?_ fun e he => ?_
    · obtain ⟨e, he, heb, hunk⟩ := hbat.unknown hpos hph
      exact ⟨e, mem_orderedChildren.mpr ⟨he, heb⟩, hunk⟩
    · simpa [OperationPhase.allowsStatus] using hstat e he

/-- The batch a cancellation closes over, if there is one, is the last batch. -/
theorem cancellationBatch_eq_ok (hcls : o.phase ≠ .effectDispatched) :
    ∃ chosen, Database.cancellationBatch o.phase o.currentEffectBatchId o.inputEffectBatchId =
        .ok chosen ∧ ∀ bid, chosen = some bid → IsLastBatch db o bid := by
  have hrow := h.operation_row o ho
  have heff : o.phase.isEffectPhase = true → o.phase ≠ .needDecision →
      ∃ b, o.currentEffectBatchId = some b ∧ o.inputEffectBatchId = none := by
    intro heff hne
    obtain ⟨b, _, hcur, _⟩ := h.currentBatch ho heff
    exact ⟨b.batchId, hcur, hrow.input_eq_none hne⟩
  cases hph : o.phase <;> rw [hph] at hactive hcls heff <;> try cases hactive
  case needDecision =>
    rw [hrow.current_eq_none (by rw [hph]; rfl)]
    cases hinp : o.inputEffectBatchId with
    | none => exact ⟨none, rfl, fun _ hnone => by cases hnone⟩
    | some bid =>
      refine ⟨some bid, rfl, fun _ hsome => ?_⟩
      cases hsome
      exact h.input_last o ho bid hinp
  case effectDispatched => exact absurd rfl hcls
  all_goals
    obtain ⟨bid, hcur, hinp⟩ := heff rfl (by decide)
    rw [hcur, hinp]
    refine ⟨some bid, rfl, fun _ hsome => ?_⟩
    cases hsome
    exact h.current_last o ho bid hcur

/-- A cancellation finds the batch of its operation as the phase says. -/
theorem sound_loadCancellationEffectBatch (hbnd : Bound db)
    (hcls : o.phase ≠ .effectDispatched) (hman : o.manifest = some mf) :
    Sound (db.loadCancellationEffectBatch o.operationId o.phase o.currentEffectBatchId
      o.inputEffectBatchId mf) := by
  obtain ⟨chosen, hchosen, hlast⟩ := cancellationBatch_eq_ok h ho hactive hcls
  unfold Database.loadCancellationEffectBatch
  rw [hchosen]
  cases chosen with
  | none => exact avoids_ok none
  | some bid =>
    obtain ⟨b, hb, rfl, hown, hpos⟩ := hlast _ rfl
    obtain ⟨facts, hfacts, hforall⟩ := loadFacts_of_active h ho hactive hbnd hman hb hown
    refine avoids_bind (x := db.loadEffectBatchFacts o.operationId b.batchId (some mf))
      (by rw [hfacts]; exact avoids_ok _) fun loaded hload => ?_
    rw [hfacts] at hload
    cases hload
    exact avoids_ensure_bind (fun _ =>
      cancellationFactsValid_of_last h ho hactive hcls hb hown hpos hforall) fun _ => avoids_ok _

/-- Closing for a cancellation leaves the operation active, in a phase other than dispatched, and
the result is its row. -/
theorem closeForCancellation_eq_ok (cmd : Command V) :
    ∃ o' db', db.closeForCancellation o.operationId (o.stored cmd) = .ok (o'.stored cmd, db') ∧
      ChangedBy o.operationId db db' ∧ o' ∈ db'.operations ∧ o.SameIdentity o' ∧
      o'.phase.isCancellable = true ∧ o'.phase ≠ .effectDispatched := by
  by_cases hph : o.phase = .effectDispatched
  · obtain ⟨b, hb, hcur, hown, _⟩ := h.currentBatch ho (by rw [hph]; rfl)
    have hdisp : Database.dispatchesBatch b.batchId o.transitionVersion o = true :=
      dispatchesBatch_iff.mpr ⟨hph, rfl, hcur⟩
    obtain ⟨⟨phase, db'⟩, hcls⟩ := exists_closeDispatchedBatchForCancellation h ho hdisp
    obtain ⟨q, blocked, hq, _, _, _, _, hres, hdb'⟩ :=
      closeDispatchedBatchForCancellation_ok hcls h.outcome_none
    obtain rfl : o = q := Option.some.inj ((find?_of_mem ho).symm.trans hq)
    simp only at hres hdb'
    refine ⟨o.finishBatch b.batchId blocked, db', ?_,
      changedBy_closeDispatchedBatchForCancellation h hcls, ?_, ⟨rfl, rfl, rfl, rfl, rfl, rfl⟩,
      ?_, ?_⟩
    · unfold Database.closeForCancellation
      rw [if_pos (show (o.stored cmd).phase = .effectDispatched from hph)]
      refine bind_eq_ok.mpr ⟨b.batchId, require_eq_ok.mpr hcur, bind_eq_ok.mpr ⟨_, hcls, ?_⟩⟩
      have hinp := (h.operation_row o ho).input_eq_none (by rw [hph]; decide)
      cases blocked with
      | true =>
        rw [show phase = .outcomeUnknown from hres]
        simp only [OperationRow.stored, hcur, hinp]
        rfl
      | false =>
        rw [show phase = .needDecision from hres]
        rfl
    · rw [hdb']
      exact mem_put_self ho rfl
    · cases blocked <;> rfl
    · cases blocked <;> simp [OperationRow.finishBatch]
  · refine ⟨o, db, ?_, .unchanged rfl, ho, ⟨rfl, rfl, rfl, rfl, rfl, rfl⟩, hactive, hph⟩
    unfold Database.closeForCancellation
    rw [if_neg (show ¬ (o.stored cmd).phase = .effectDispatched from hph)]

theorem sound_loadRequestedCancellation (hbnd : Bound db) :
    Sound (db.loadRequestedCancellation o.sessionId o.operationId) := by
  obtain ⟨row, hrow, hptr⟩ := h.pointer ho hactive
  unfold Database.loadRequestedCancellation
  split
  · rw [hrow]
    refine avoids_bind (avoids_ok row) fun sess hsess => ?_
    cases hsess
    refine avoids_ensure_bind (fun _ => decide_eq_true hptr) fun _ => ?_
    refine avoids_bind (h.sound_loadOperation _ _) fun loaded hload => ?_
    refine avoids_require_bind ?_ fun st hsto => ?_
    · rintro _ rfl
      exact h.loadOperation_ne_none ho hload
    rw [hsto] at hload
    obtain ⟨q, hq, hid, _, cmd, rfl⟩ := loadOperation_ok hload
    obtain rfl : o = q := key_inj ho hq hid.symm
    refine avoids_ensure_bind (fun _ => ?_) fun _ => ?_
    · rw [show (o.stored cmd).outcome = none from h.outcome_none o ho hactive,
        show (o.stored cmd).phase.isCancellable = true from hactive]
      rfl
    obtain ⟨o', db', hclose, hchg, ho', hsame, hactive', hcls⟩ :=
      closeForCancellation_eq_ok h ho hactive cmd
    have h' := hchg.committed.consistent h
    rw [hclose]
    refine avoids_bind (avoids_ok _) fun closed hclosing => ?_
    cases hclosing
    refine avoids_require_bind (fun _ => ?_) fun mf hman => ?_
    · exact (h'.operation_row o' ho').manifest_ne_none
        (OperationPhase.ne_queued_of_cancellable hactive')
    rw [← hsame.operationId]
    refine avoids_bind (sound_loadCancellationEffectBatch h' ho' hactive' (hchg.bound h hbnd)
      hcls hman) fun _ _ => ?_
    exact avoids_bind (h'.sound_loadEventPage _ _) fun _ _ => avoids_ok _
  · exact avoids_ok _

/-- What a driver that has loaded a cancellation knows of its operation. -/
theorem loadRequestedCancellation_holds {pend : PendingCancellation V} {db' : Database V}
    (hload : db.loadRequestedCancellation o.sessionId o.operationId = .ok (some pend, db')) :
    Holds db' o.sessionId o.operationId (fun q => q.transitionVersion = pend.transitionVersion) ∧
      HighWater db' o.sessionId pend.eventHighWater ∧
      db'.cancellationRequested o.operationId = true := by
  rcases loadRequestedCancellation_ok hload with ⟨_, hnone⟩ | ⟨hask, hsome⟩
  · cases hnone
  obtain ⟨_, st, stored', _, _, _, hsto, _, hcls, hpend, _, htrn, page, hpage, hwater, _⟩ := hsome
  cases hpend
  obtain ⟨q, hq, hid, _, cmd, rfl⟩ := loadOperation_ok hsto
  obtain rfl : o = q := key_inj ho hq hid.symm
  obtain ⟨o', db'', hclose', hchg, ho', hsame, hactive', _⟩ :=
    closeForCancellation_eq_ok h ho hactive cmd
  rw [hclose'] at hcls
  cases hcls
  refine ⟨⟨o', ho', hsame.operationId, hsame.sessionId, hactive', htrn.symm⟩, ?_, ?_⟩
  · rw [hwater]
    exact loadEventPage_ok hpage
  · cases hchg with
    | unchanged heq =>
      rw [show db' = db from heq]
      exact hask
    | changed c _ _ _ =>
      unfold Database.cancellationRequested
      rwa [c.cancellationRequests_eq]

end Cancellation

/-! ## Abandonment -/

section

variable (h : Consistent db) {row : SessionRow}

include h

/-- Only the last batch of an operation can have an unknown child. -/
theorem Consistent.unknownBatches_last (ho : o ∈ db.operations)
    (hb : b ∈ db.unknownBatches o.operationId) :
    b ∈ db.effectBatches ∧ b.operationId = o.operationId ∧
      b.position + 1 = o.nextEffectBatchPosition ∧
      ∃ e ∈ db.effects, e.batchId = b.batchId ∧ e.status = .outcomeUnknown := by
  obtain ⟨hmem, hunk⟩ := mem_filter.mp hb
  rw [mem_orderBy] at hmem
  have hlt := (h.batch_numbered o ho).lt hmem
  obtain ⟨hb, hown⟩ := mem_batchesOf.mp hmem
  obtain ⟨e, he, hstat⟩ := any_eq_true.mp hunk
  obtain ⟨he, heb⟩ := mem_childrenOf.mp he
  have hstat : e.status = .outcomeUnknown := of_decide_eq_true hstat
  refine ⟨hb, hown, ?_, e, he, heb, hstat⟩
  by_contra hne
  have hdone := (h.batch_consistent o ho b hb hown).earlier (by omega) e he heb
  rw [hstat] at hdone
  cases hdone

theorem Consistent.unknownBatches_tail (ho : o ∈ db.operations) :
    (db.unknownBatches o.operationId).tail = [] := by
  have hnd : (db.unknownBatches o.operationId).Nodup := by
    refine List.Nodup.filter _ ((orderBy_perm _ _).nodup_iff.mpr ?_)
    exact (List.Nodup.of_map _ db.effectBatches.keys_nodup).filter _
  cases hlist : db.unknownBatches o.operationId with
  | nil => rfl
  | cons b rest =>
    cases rest with
    | nil => rfl
    | cons b' rest =>
      obtain ⟨hb, hown, hpos, _⟩ := h.unknownBatches_last ho (b := b) (by simp [hlist])
      obtain ⟨hb', hown', hpos', _⟩ := h.unknownBatches_last ho (b := b') (by simp [hlist])
      have hsame : b = b' := (h.batch_numbered o ho).eq_of_pos_eq
        (mem_batchesOf.mpr ⟨hb, hown⟩) (mem_batchesOf.mpr ⟨hb', hown'⟩)
        (by omega)
      rw [hlist, hsame] at hnd
      simp at hnd

theorem Consistent.sound_loadPendingAbandonment (hbnd : Bound db) (ho : o ∈ db.operations)
    (hph : o.phase = .outcomeUnknown) (hrow : db.sessions.find? o.sessionId = some row)
    (cmd : Command V) :
    Sound (db.loadPendingAbandonment row o.operationId (o.stored cmd)) := by
  have hactive : o.phase.isCancellable = true := by rw [hph]; rfl
  have hwell := h.operation_row o ho
  obtain ⟨row', hrow', hptr⟩ := h.pointer ho hactive
  obtain rfl : row = row' := Option.some.inj (hrow.symm.trans hrow')
  obtain ⟨b, hb, hcur, hown, hpos⟩ := h.currentBatch ho (by rw [hph]; rfl)
  have hinp := hwell.input_eq_none (by rw [hph]; decide)
  refine avoids_ensure_bind (fun _ => decide_eq_true hptr) fun _ => ?_
  refine avoids_ensure_bind (fun _ => ?_) fun _ => ?_
  · rw [show (o.stored cmd).inputEffectBatchId = none from hinp,
      show (o.stored cmd).outcome = none from h.outcome_none o ho hactive]
    rfl
  refine avoids_require_bind (fun _ => hwell.manifest_ne_none (by rw [hph]; decide))
    fun mf hman => ?_
  refine avoids_require_bind (fun _ => hwell.checkpoint (.inl (by rw [hph]; rfl))) fun _ _ => ?_
  rw [show (o.stored cmd).currentEffectBatchId = some b.batchId from hcur]
  refine avoids_bind (avoids_ok b.batchId) fun bid hbatchId => ?_
  cases hbatchId
  obtain ⟨facts, hfacts, hforall⟩ := loadFacts_of_active h ho hactive hbnd hman hb hown
  rw [hfacts]
  refine avoids_bind (avoids_ok _) fun loaded hload => ?_
  cases hload
  refine avoids_ensure_bind (fun _ => ?_) fun _ => ?_
  · have hval := cancellationFactsValid_of_last h ho hactive (by rw [hph]; decide) hb hown
      hpos hforall
    rw [hph] at hval
    exact hval
  · exact avoids_bind (h.sound_loadEventPage _ _) fun _ _ => avoids_ok _

/-- The abandonment of a failed operation with an unknown batch is recognised from its rows. -/
theorem Consistent.loadPriorAbandonment_eq_ok (hbnd : Bound db) (ho : o ∈ db.operations)
    (hph : o.phase = .failed) (hrow : row ∈ db.sessions) (cmd : Command V)
    (hunk : db.unknownBatches o.operationId ≠ []) :
    ∃ mf out, o.manifest = some mf ∧ o.outcome = some out ∧
      db.loadPriorAbandonment row o.operationId (o.stored cmd) =
        .ok (.alreadyAbandoned mf out) := by
  have hwell := h.operation_row o ho
  obtain ⟨b, hhead⟩ := Option.ne_none_iff_exists'.mp (mt head?_eq_none_iff.mp hunk)
  obtain ⟨hb, hown, hpos, e, he, heb, hstat⟩ := h.unknownBatches_last ho (mem_of_mem_head? hhead)
  have hbat := h.batch_consistent o ho b hb hown
  have hidle : row.activeOperationId ≠ some o.operationId := by
    intro hptr
    obtain ⟨q, hq, hid, _, hactive⟩ := (h.active row hrow _).mp hptr
    rw [key_inj hq ho hid, hph] at hactive
    cases hactive
  have hcur := hwell.current_eq_none (by rw [hph]; rfl)
  have hinp := hwell.input_eq_none (by rw [hph]; decide)
  obtain ⟨mf, hman⟩ := Option.ne_none_iff_exists'.mp (hwell.manifest_ne_none (by rw [hph]; decide))
  -- a released request would mean that every child is settled
  obtain ⟨facts, hfacts, hforall⟩ := h.loadEffectBatchFacts_eq_ok (some mf) hb
    (fun q hq hqb hreq => by
      have := (hbat.released q hq hqb hreq).2 e he heb
      rw [hstat] at this
      cases this)
    (fun q hq hqb => hbnd o ho mf hman q ⟨hq, b, hb, hqb.symm, hown⟩)
  rw [hown] at hfacts
  have hval : unknownFactsValid facts = true := by
    refine unknownFactsValid_of_status hforall
      ⟨e, mem_orderedChildren.mpr ⟨he, heb⟩, hstat⟩ fun q hq => ?_
    have hal := hbat.last hpos q (mem_orderedChildren.mp hq).1 (mem_orderedChildren.mp hq).2
    rw [hph] at hal
    simpa [OperationPhase.allowsStatus] using hal
  obtain ⟨ckpt, hcp⟩ := Option.ne_none_iff_exists'.mp (hwell.checkpoint (.inr (by rw [hph]; rfl)))
  have houtcome := hwell.outcome
  rw [hph] at houtcome
  obtain ⟨out, hout, hfailed⟩ := Option.map_eq_some_iff.mp houtcome
  obtain ⟨page, hpage⟩ := h.loadEventPage_eq_ok hrow
  refine ⟨mf, out, hman, hout, ?_⟩
  simp [Database.loadPriorAbandonment, OperationRow.stored, require, ensure, hhead,
    h.unknownBatches_tail ho, hidle, hcur, hinp, hman, hfacts, hval, hcp, hout,
    hfailed, hpage]

theorem Consistent.sound_loadPriorAbandonment (hbnd : Bound db) (ho : o ∈ db.operations)
    (hph : o.phase = .failed) (hrow : row ∈ db.sessions) (cmd : Command V) :
    Sound (db.loadPriorAbandonment row o.operationId (o.stored cmd)) := by
  by_cases hunk : db.unknownBatches o.operationId = []
  · unfold Database.loadPriorAbandonment
    rw [hunk]
    exact avoids_error.mpr False.elim
  · obtain ⟨_, _, _, _, hok⟩ :=
      h.loadPriorAbandonment_eq_ok hbnd ho hph hrow cmd hunk
    exact hok ▸ avoids_ok _

theorem Consistent.sound_loadUnknownEffectState (hbnd : Bound db) (sid : SessionId)
    (opId : OperationId) : Sound (db.loadUnknownEffectState sid opId) := by
  refine avoids_require_bind False.elim fun row hrow => ?_
  refine avoids_bind (h.sound_loadOperation _ _) fun loaded hload => ?_
  refine avoids_require_bind False.elim fun st hsto => ?_
  rw [hsto] at hload
  obtain ⟨o, ho, rfl, rfl, cmd, rfl⟩ := loadOperation_ok hload
  split
  next hph =>
    exact h.sound_loadPendingAbandonment hbnd ho hph hrow cmd
  next hph =>
    exact h.sound_loadPriorAbandonment hbnd ho hph (mem_of_find? hrow) cmd
  · exact avoids_error.mpr False.elim

end

/-- The row an abandonment is loaded from. -/
theorem loadUnknownEffectState_pending
    (hload : db.loadUnknownEffectState sid opId = .ok (.pending pend)) :
    ∃ o ∈ db.operations, o.operationId = opId ∧ o.sessionId = sid ∧
      o.phase = .outcomeUnknown ∧ o.transitionVersion = pend.transitionVersion ∧
      o.manifest = some pend.manifest ∧ HighWater db sid pend.eventHighWater := by
  obtain ⟨row, hrow, hload⟩ := require_bind_ok hload
  obtain ⟨loaded, hloaded, hload⟩ := bind_ok hload
  obtain ⟨st, hsto, hload⟩ := require_bind_ok hload
  rw [hsto] at hloaded
  obtain ⟨o, ho, rfl, rfl, cmd, rfl⟩ := loadOperation_ok hloaded
  have hkey : row.sessionId = o.sessionId := key_of_find? hrow
  split at hload
  next hph =>
    simp only [Database.loadPendingAbandonment, bind_eq_ok] at hload
    obtain ⟨_, _, _, _, mf, hman, _, _, _, _, _, _, _, _, page, hpage, hload⟩ := hload
    cases hload
    rw [hkey] at hpage
    exact ⟨o, ho, rfl, rfl, hph, rfl, require_ok hman, loadEventPage_ok hpage⟩
  · simp only [Database.loadPriorAbandonment, bind_eq_ok] at hload
    obtain ⟨_, _, _, _, _, _, _, _, _, _, _, _, _, _, _, _, _, _, _, _, hload⟩ := hload
    cases hload
  · cases hload

/-- What a driver that has loaded an abandonment knows of the operation. -/
theorem loadUnknownEffectState_holds
    (hload : db.loadUnknownEffectState sid opId = .ok (.pending pend)) :
    Holds db sid opId
        (fun o => o.phase = .outcomeUnknown ∧ o.transitionVersion = pend.transitionVersion) ∧
      HighWater db sid pend.eventHighWater := by
  obtain ⟨o, ho, hid, hs, hph, htrn, _, hwater⟩ := loadUnknownEffectState_pending hload
  exact ⟨⟨o, ho, hid, hs, by rw [hph]; rfl, hph, htrn⟩, hwater⟩

end Renoa.Kernel
