import Renoa.Kernel.SoundWrites

/-!
# The effect transactions of a driver succeed

Recording a completion, closing a round and closing a batch for a cancellation can fail only on a
corrupt state, so from a consistent database with the expected rows they succeed
(`exists_settleBatchEffect` and its companions). Preparing a batch and loading the input of a
cancellation or an abandonment are sound.
-/

namespace Renoa.Kernel

open Foundation List Table Database

variable {V : Type} {db : Database V} {bid : EffectBatchId} {expected : Nat}
  {b : EffectBatchRow} {o : OperationRow V} {e : EffectRow V} {phase : PreparePhase}
  {effs : List (PreparedEffect V)} {eff : PreparedEffect V} {es : List (EffectRow V)}

/-! ## Loading and closing a batch -/

theorem loadBatchChildren_eq_ok (hb : b ∈ db.effectBatches)
    (hnum : ∃ n, 0 < n ∧ Numbered EffectRow.position (db.childrenOf b.batchId) n) :
    db.loadBatchChildren b.operationId b.batchId = .ok (db.orderedChildren b.batchId) := by
  obtain ⟨n, hn, hnum⟩ := hnum
  unfold Database.loadBatchChildren
  rw [ownedChildren_eq hb rfl]
  refine bind_eq_ok.mpr ⟨(), ensure_eq_ok.mpr (gaplessFrom_orderBy hnum), ?_⟩
  refine bind_eq_ok.mpr ⟨(), ensure_eq_ok.mpr ?_, rfl⟩
  rw [Bool.not_eq_true', isEmpty_eq_false_iff]
  intro hnil
  have hlen := hnum.length_rows
  rw [orderBy_eq_nil.mp hnil, length_nil] at hlen
  omega

theorem loadBatchStatuses_eq_ok (hb : b ∈ db.effectBatches)
    (hnum : ∃ n, 0 < n ∧ Numbered EffectRow.position (db.childrenOf b.batchId) n) :
    db.loadBatchStatuses b.operationId b.batchId =
      .ok ((db.orderedChildren b.batchId).map EffectRow.status) :=
  bind_eq_ok.mpr ⟨_, loadBatchChildren_eq_ok hb hnum, rfl⟩

theorem exists_transitionFinishedBatch (ho : o ∈ db.operations)
    (hdispatches : Database.dispatchesBatch bid expected o = true) (blocked : Bool) :
    ∃ db', db.transitionFinishedBatch o.operationId bid expected blocked =
      .ok db' := by
  obtain ⟨db', hdb'⟩ := Option.ne_none_iff_exists'.mp
    (updateOperation_ne_none ho hdispatches (f := fun row => row.finishBatch bid blocked))
  exact ⟨db', require_eq_ok.mpr hdb'⟩

/-- The closing step of a batch without an unmarked child. -/
theorem exists_transitionBatchIfTerminal (ho : o ∈ db.operations) (hb : b ∈ db.effectBatches)
    (hown : b.operationId = o.operationId)
    (hnum : ∃ n, 0 < n ∧ Numbered EffectRow.position (db.childrenOf b.batchId) n)
    (hmarked : ∀ e ∈ db.effects, e.batchId = b.batchId → e.status ≠ .intentCommitted)
    (hdispatches : Database.dispatchesBatch b.batchId expected o = true) :
    ∃ res, db.transitionBatchIfTerminal o.operationId b.batchId expected =
      .ok res := by
  have hstats := loadBatchStatuses_eq_ok hb hnum
  rw [hown] at hstats
  have hint : ((db.orderedChildren b.batchId).map EffectRow.status).contains
      .intentCommitted = false := by
    rw [Bool.eq_false_iff, ne_eq, contains_status_iff]
    rintro ⟨e, he, heb, hstat⟩
    exact hmarked e he heb hstat
  by_cases hopen : ((db.orderedChildren b.batchId).map EffectRow.status).contains
      .dispatchStarted = true
  · refine exists_bind_eq_ok hstats (exists_bind_eq_ok (ensure_of_eq_true ?_) ?_)
    · rw [hint]
      rfl
    · rw [if_pos hopen]
      exact ⟨_, rfl⟩
  · obtain ⟨db', hdb'⟩ := exists_transitionFinishedBatch ho hdispatches
      (((db.orderedChildren b.batchId).map EffectRow.status).contains .outcomeUnknown)
    refine exists_bind_eq_ok hstats (exists_bind_eq_ok (ensure_of_eq_true ?_) ?_)
    · rw [hint]
      rfl
    · rw [if_neg hopen]
      exact exists_bind_eq_ok hdb' ⟨_, rfl⟩

/-! ## Completions -/

/-- The batch an operation dispatches: its last one, with every child marked. -/
theorem Consistent.dispatchedBatch (h : Consistent db) (ho : o ∈ db.operations)
    (hdispatches : Database.dispatchesBatch bid expected o = true) :
    ∃ b ∈ db.effectBatches, b.batchId = bid ∧ b.operationId = o.operationId ∧
      b.position + 1 = o.nextEffectBatchPosition ∧
      ∀ e ∈ db.effects, e.batchId = bid → e.status ≠ .intentCommitted := by
  obtain ⟨hph, _, hcur⟩ := dispatchesBatch_iff.mp hdispatches
  obtain ⟨b, hb, rfl, hown, hpos⟩ := h.current_last o ho bid hcur
  refine ⟨b, hb, rfl, hown, hpos, fun e he heb => ?_⟩
  have hal := (h.batch_consistent o ho b hb hown).last hpos e he heb
  rw [hph] at hal
  exact of_decide_eq_true hal

theorem requireDispatchedBatch_eq_ok (ho : o ∈ db.operations)
    (hdispatches : Database.dispatchesBatch bid expected o = true) :
    db.requireDispatchedBatch o.operationId bid expected = .ok () := by
  apply ensure_eq_ok.mpr
  rw [find?_of_mem ho]
  exact hdispatches

/-- Replacing a child by a step of it keeps the children of a batch numbered. -/
theorem Consistent.numbered_put (h : Consistent db) {e' : EffectRow V} (he : e ∈ db.effects)
    (hstep : EffectStep e e') (hb : b ∈ db.effectBatches) :
    ∃ n, 0 < n ∧ Numbered EffectRow.position
      (({ db with effects := db.effects.put e' } : Database V).childrenOf b.batchId) n := by
  obtain ⟨n, hn, hnum⟩ := h.effect_numbered b hb
  have hrow : ∀ q ∈ db.effects.rows,
      (if q.effectId = e'.effectId then e' else q).batchId = q.batchId ∧
        (if q.effectId = e'.effectId then e' else q).position = q.position := by
    intro q hq
    by_cases hid : q.effectId = e'.effectId
    · rw [if_pos hid, hstep.batchId_eq, hstep.position_eq,
        key_inj hq he (hid.trans hstep.effectId_eq)]
      exact ⟨rfl, rfl⟩
    · rw [if_neg hid]
      exact ⟨rfl, rfl⟩
  exact ⟨n, hn, hnum.filter_map (fun q hq => by rw [(hrow q hq).1]) fun q hq => (hrow q hq).2⟩

section Completions

variable (h : Consistent db) {o : OperationRow V} (ho : o ∈ db.operations)
  (hdispatches : Database.dispatchesBatch bid expected o = true)

include h ho hdispatches

/-- The closing step after one child of a dispatched batch was recorded. -/
theorem exists_transition_of_put {e' : EffectRow V} (he : e ∈ db.effects) (hstep : EffectStep e e')
    (hmarked : e'.status ≠ .intentCommitted) :
    ∃ res, ({ db with effects := db.effects.put e' } :
      Database V).transitionBatchIfTerminal o.operationId bid expected =
        .ok res := by
  obtain ⟨b, hb, rfl, hown, _, hall⟩ := h.dispatchedBatch ho hdispatches
  have ho' : o ∈ ({ db with effects := db.effects.put e' } : Database V).operations := ho
  refine exists_transitionBatchIfTerminal ho' hb hown (h.numbered_put he hstep hb) ?_ hdispatches
  intro q hq hqb
  rcases mem_put_cases hq with rfl | ⟨hq, _⟩
  · exact hmarked
  · exact hall q hq hqb

theorem exists_settleBatchEffect (he : e ∈ db.effects) (heb : e.batchId = bid)
    (hopen : e.status = .dispatchStarted) (out : EffectOutcome V) :
    ∃ res, db.settleBatchEffect o.operationId bid e.effectId expected out =
      .ok res := by
  obtain ⟨⟨finished, db'⟩, hres⟩ := exists_transition_of_put h ho hdispatches he
    (.settled e hopen out) (by simp)
  refine exists_bind_eq_ok (requireDispatchedBatch_eq_ok ho hdispatches) (exists_bind_eq_ok
    (require_eq_ok.mpr (updateOne_eq_some.mpr ⟨e, find?_of_mem he, ?_, rfl⟩))
    (exists_bind_eq_ok hres ⟨_, rfl⟩))
  simp [heb, hopen]

theorem exists_recordBatchEffectUnknown (he : e ∈ db.effects)
    (hopen : e.status = .dispatchStarted) :
    ∃ res, db.recordBatchEffectUnknown o.operationId bid e.effectId expected =
      .ok res := by
  obtain ⟨⟨finished, db'⟩, hres⟩ := exists_transition_of_put h ho hdispatches he
    (.unknown e hopen) (by simp)
  have hmark : db.updateEffectStatus e.effectId .dispatchStarted .outcomeUnknown =
      .ok { db with effects := db.effects.put { e with status := .outcomeUnknown } } :=
    bind_eq_ok.mpr ⟨_, require_eq_ok.mpr (updateOne_eq_some.mpr
      ⟨e, find?_of_mem he, decide_eq_true hopen, rfl⟩), rfl⟩
  exact exists_bind_eq_ok (requireDispatchedBatch_eq_ok ho hdispatches)
    (exists_bind_eq_ok hmark (exists_bind_eq_ok hres ⟨_, rfl⟩))

theorem exists_finishEffectBatchAttempt :
    ∃ res, db.finishEffectBatchAttempt o.operationId bid expected =
      .ok res := by
  have hreqr := requireDispatchedBatch_eq_ok ho hdispatches
  cases hcanc : db.cancellationRequested o.operationId with
  | true => exact exists_bind_eq_ok hreqr ⟨_, by rw [if_pos hcanc]; rfl⟩
  | false =>
    obtain ⟨b, hb, rfl, hown, _, hall⟩ := h.dispatchedBatch ho hdispatches
    obtain ⟨res, hres⟩ := exists_transitionBatchIfTerminal ho hb hown
      (h.effect_numbered b hb) hall hdispatches
    apply exists_bind_eq_ok hreqr
    rw [if_neg (by rw [hcanc]; decide)]
    exact exists_bind_eq_ok hres ⟨_, rfl⟩

theorem exists_closeDispatchedBatchForCancellation :
    ∃ res, db.closeDispatchedBatchForCancellation o.operationId bid expected =
      .ok res := by
  obtain ⟨b, hb, rfl, hown, _, hall⟩ := h.dispatchedBatch ho hdispatches
  let mid : Database V := { db with
    effects := db.effects.mapRows (Database.closeChild b.batchId) (closeChild_effectId b.batchId) }
  have hcls : ∀ q ∈ mid.effects, q.batchId = b.batchId →
      q.status ≠ .intentCommitted ∧ q.status ≠ .dispatchStarted := by
    intro q hq hqb
    obtain ⟨e, he, rfl⟩ := mem_map.mp hq
    unfold Database.closeChild at hqb ⊢
    split at hqb
    next hclose =>
      rw [if_pos hclose]
      exact ⟨by simp, by simp⟩
    next hkeep =>
      rw [if_neg hkeep]
      exact ⟨hall e he hqb, fun hopen => hkeep ⟨hqb, hopen⟩⟩
  have hnum : ∃ n, 0 < n ∧ Numbered EffectRow.position (mid.childrenOf b.batchId) n := by
    obtain ⟨n, hn, hnum⟩ := h.effect_numbered b hb
    refine ⟨n, hn, hnum.filter_map ?_ ?_⟩
    all_goals
      intro q _
      unfold Database.closeChild
      split <;> rfl
  have hb' : b ∈ mid.effectBatches := hb
  have ho' : o ∈ mid.operations := ho
  have hstats := loadBatchStatuses_eq_ok hb' hnum
  rw [hown] at hstats
  obtain ⟨db', hdb'⟩ := exists_transitionFinishedBatch ho' hdispatches
    (((mid.orderedChildren b.batchId).map EffectRow.status).contains .outcomeUnknown)
  refine exists_bind_eq_ok (requireDispatchedBatch_eq_ok ho hdispatches)
    (exists_bind_eq_ok hstats (exists_bind_eq_ok (ensure_of_eq_true ?_)
      (exists_bind_eq_ok hdb' ⟨_, rfl⟩)))
  rw [Bool.and_eq_true, Bool.not_eq_true', Bool.not_eq_true', Bool.eq_false_iff,
    Bool.eq_false_iff, ne_eq, ne_eq, contains_status_iff, contains_status_iff]
  exact ⟨fun ⟨q, hq, hqb, hs⟩ => (hcls q hq hqb).1 hs, fun ⟨q, hq, hqb, hs⟩ => (hcls q hq hqb).2 hs⟩

end Completions

/-! ## Preparation -/

/-- A child the preparation does not dispatch is not open afterwards. -/
theorem prepareRow_status_ne (h : ¬ e.dispatchedBy phase = true) :
    (e.prepareRow phase).status ≠ .dispatchStarted := by
  unfold EffectRow.prepareRow
  rw [if_neg h]
  split
  · simp
  · assumption

theorem sound_dispatchChild (he : e ∈ db.effects) (hprep : e.prepared = .ok eff)
    (nextTransition : Nat) : Sound (db.dispatchChild bid nextTransition eff) := by
  obtain ⟨_, heff⟩ := prepared_eq_ok.mp hprep
  refine avoids_require_bind (fun _ => ?_) fun _ _ => avoids_ok _
  rw [heff]
  exact updateOne_ne_none he (by simp)

theorem sound_prepareChild (he : e ∈ db.effects) (hprep : e.prepared = .ok eff)
    (hacc : phase.accepts e.status) (nextTransition : Nat) :
    Sound (db.prepareChild phase bid nextTransition eff) := by
  have hdispatch : Sound (db.dispatchChild bid nextTransition eff) :=
    sound_dispatchChild he hprep nextTransition
  obtain ⟨_, heff⟩ := prepared_eq_ok.mp hprep
  have hstat : eff.status = e.status := by rw [heff]
  have hid : eff.effectId = e.effectId := by rw [heff]
  unfold Database.prepareChild
  cases phase with
  | effectIntent =>
    rw [hstat, show e.status = .intentCommitted from hacc]
    exact hdispatch
  | effectDispatched =>
    rw [hstat]
    cases hs : e.status with
    | intentCommitted => exact absurd hs hacc
    | dispatchStarted =>
      cases eff.recovery with
      | safeToReplay => exact hdispatch
      | neverReplay =>
        refine avoids_bind (avoids_require_bind (fun _ => ?_) fun _ _ => avoids_ok _)
          fun _ _ => avoids_ok _
        rw [hid]
        exact updateOne_ne_none he (decide_eq_true hs)
    | settled | outcomeUnknown => exact avoids_ok _

theorem sound_prepareChildren (hmem : ∀ e ∈ es, e ∈ db.effects)
    (hnd : (es.map EffectRow.effectId).Nodup)
    (hprep : List.Forall₂ (fun e eff => e.prepared = .ok eff) es effs)
    (hacc : ∀ e ∈ es, phase.accepts e.status) (nextTransition : Nat) :
    Sound (db.prepareChildren phase bid nextTransition effs) := by
  induction hprep generalizing db with
  | nil => exact avoids_ok _
  | @cons e eff es effs hfst _ ih =>
    have he : e ∈ db.effects := hmem e mem_cons_self
    rw [map_cons, nodup_cons] at hnd
    refine avoids_bind (sound_prepareChild he hfst (hacc e mem_cons_self) nextTransition)
      fun first hch => ?_
    obtain ⟨_, _, _, hdb⟩ := prepareChild_ok he hfst hch
    refine avoids_bind (ih ?_ hnd.2 fun q hq => hacc q (mem_cons_of_mem e hq))
      fun _ _ => avoids_ok _
    -- the first write leaves the rows of the other children
    intro q hq
    rw [hdb]
    refine mem_put_of_ne (hmem q (mem_cons_of_mem e hq)) fun heq => ?_
    rw [prepareRow_effectId] at heq
    exact hnd.1 (heq ▸ mem_map_of_mem hq)

/-- Without invocations no child was dispatched. -/
theorem not_dispatchedBy_of_pending_nil {nextTransition : Nat}
    (hreq : ∀ e ∈ es, e.request ≠ none) (h : (es.filter (EffectRow.dispatchedBy
      phase)).filterMap (EffectRow.pending? bid nextTransition) = []) :
    ∀ e ∈ es, ¬ e.dispatchedBy phase = true := by
  intro e he hdispd
  obtain ⟨req, hsome⟩ := Option.ne_none_iff_exists'.mp (hreq e he)
  have hnone := filterMap_eq_nil_iff.mp h e (mem_filter.mpr ⟨he, hdispd⟩)
  unfold EffectRow.pending? at hnone
  rw [hsome] at hnone
  cases hnone

theorem sound_finishBatchWithoutInvocations (ho : o ∈ db.operations)
    (hdispatches : Database.dispatchesBatch bid expected o = true)
    (hcls : (effs.any fun eff => eff.status = .dispatchStarted) = false) :
    Sound (db.finishBatchWithoutInvocations o.operationId bid expected effs) := by
  refine avoids_ensure_bind (fun _ => by rw [hcls]; rfl) fun _ => ?_
  obtain ⟨db', hdb'⟩ := exists_transitionFinishedBatch ho hdispatches
    (effs.any fun eff => eff.status = .outcomeUnknown)
  refine avoids_bind (by rw [hdb']; exact avoids_ok db') fun _ _ => avoids_ok _

theorem loadActiveBatch_eq_ok (ho : o ∈ db.operations)
    (hcur : o.currentEffectBatchId = some b.batchId) :
    db.loadActiveBatch o.operationId o.transitionVersion = .ok (o.phase, b.batchId) := by
  refine bind_eq_ok.mpr ⟨o, require_eq_ok.mpr ?_, bind_eq_ok.mpr ⟨b.batchId,
    require_eq_ok.mpr hcur, rfl⟩⟩
  rw [find?_of_mem ho, Option.filter_some, if_pos (decide_eq_true rfl)]

/-- The statuses of the current batch are those its preparation accepts. -/
theorem Consistent.accepts (h : Consistent db) (ho : o ∈ db.operations)
    (hph : o.phase.prepare? = some phase) (hb : b ∈ db.effectBatches)
    (hown : b.operationId = o.operationId) (hpos : b.position + 1 = o.nextEffectBatchPosition) :
    ∀ e ∈ db.orderedChildren b.batchId, phase.accepts e.status := by
  intro e he
  obtain ⟨he, heb⟩ := mem_orderedChildren.mp he
  have hstat := (h.batch_consistent o ho b hb hown).last hpos e he heb
  rw [OperationPhase.eq_of_prepare? hph] at hstat
  cases phase with
  | effectIntent => exact (of_decide_eq_true hstat : e.status = .intentCommitted)
  | effectDispatched => exact (of_decide_eq_true hstat : e.status ≠ .intentCommitted)

theorem Consistent.sound_prepareEffectBatch (h : Consistent db) (ho : o ∈ db.operations)
    (hph : o.phase.prepare? = some phase) :
    Sound (db.prepareEffectBatch o.operationId o.transitionVersion) := by
  have heff : o.phase.isEffectPhase = true := by
    rw [OperationPhase.eq_of_prepare? hph]
    cases phase <;> rfl
  obtain ⟨b, hb, hcur, hown, hpos⟩ := h.currentBatch ho heff
  have hacc := h.accepts ho hph hb hown hpos
  have hkids := loadBatchChildren_eq_ok hb (h.effect_numbered b hb)
  rw [hown] at hkids
  have hmem : ∀ e ∈ db.orderedChildren b.batchId, e ∈ db.effects :=
    fun e he => (mem_orderedChildren.mp he).1
  unfold Database.prepareEffectBatch
  split
  · exact avoids_ok _
  rw [loadActiveBatch_eq_ok ho hcur]
  refine avoids_bind (avoids_ok _) fun act hact => ?_
  cases hact
  refine avoids_require_bind (fun _ => by rw [hph]; exact Option.some_ne_none phase)
    fun prepare hprepare => ?_
  obtain rfl : phase = prepare := Option.some.inj (hph.symm.trans hprepare)
  refine avoids_bind (avoids_bind (by rw [hkids]; exact avoids_ok _) fun children _ =>
    avoids_mapM fun e _ => avoids_require_bind False.elim fun _ _ => avoids_ok _) fun st hsto => ?_
  obtain ⟨_, hall⟩ := loadPreparedEffects_ok hsto
  have hnd := orderedChildren_nodup db b.batchId
  refine avoids_bind (sound_prepareChildren hmem hnd hall hacc _)
    fun ⟨pend, stored', mid⟩ hres => ?_
  obtain ⟨_, hpend, hrows, _, hmid⟩ := prepareChildren_ok hmem hnd hall hres
  simp only at hpend hrows hmid
  have hops : o ∈ mid.operations := by
    rw [hmid]
    exact ho
  show Sound (if pend.isEmpty = true then _ else _)
  cases hemp : pend.isEmpty with
  | false =>
    refine avoids_require_bind (fun _ => ?_) fun _ _ => avoids_ok _
    exact updateOperation_ne_none hops (by simp [hcur])
  | true =>
    rw [isEmpty_iff.mp hemp] at hpend
    have hnone := not_dispatchedBy_of_pending_nil (fun e he => by
        obtain ⟨eff, _, hprep⟩ := exists_of_forall₂_of_mem hall he
        rw [(prepared_eq_ok.mp hprep).1]
        exact Option.some_ne_none _) hpend.symm
    refine sound_finishBatchWithoutInvocations hops (dispatchesBatch_iff.mpr ⟨?_, rfl, hcur⟩) ?_
    · -- a new batch has a child, which its preparation would have dispatched
      cases phase with
      | effectDispatched => exact OperationPhase.eq_of_prepare? hph
      | effectIntent =>
        obtain ⟨e, he⟩ := exists_mem_of_ne_nil _ (h.orderedChildren_gapless hb).2
        have hint : e.status = .intentCommitted := hacc e he
        exact absurd (decide_eq_true hint) (hnone e he)
    · rw [Bool.eq_false_iff, ne_eq, any_status_prepared hrows]
      rintro ⟨e, he, hstat⟩
      exact prepareRow_status_ne (hnone e he) hstat

end Renoa.Kernel
