import Renoa.Kernel.Commit

/-!
# Commits of the effect transactions

Preparing a batch, recording a completion and closing a batch change one operation row inside
the active phases and some statuses of its last batch (`changes_of_effects`). Only a
preparation dispatches, and it does so only without a requested cancellation.
-/

namespace Renoa.Kernel

open Foundation List Table

variable {V : Type} {db db' : Database V} {o : OperationRow V} {f : EffectRow V → EffectRow V}
  {bid : EffectBatchId} {opId : OperationId} {expected : Nat}
  {eid : EffectId} {effs : Table (EffectRow.effectId (V := V))}
  {res : EffectBatchStart V × Database V} {update : EffectRow V → EffectRow V}
  {finished : Option Bool} {phase : PreparePhase}

/-- What a transaction of the operation does to an effect row: a step that keeps the request. Rows
of other operations at most turn unknown, and none is dispatched once cancellation is requested. -/
structure RowRewritten (db : Database V) (o : OperationRow V) (e e' : EffectRow V) : Prop where
  step : EffectStep e e'
  request : e'.request = e.request
  foreign : ∀ b ∈ db.effectBatches, b.batchId = e.batchId → b.operationId ≠ o.operationId →
    e' = e ∨ (e.status = .dispatchStarted ∧ e' = { e with status := .outcomeUnknown })
  count : db.cancellationRequested o.operationId = true → e'.dispatchCount = e.dispatchCount

theorem RowRewritten.refl (db : Database V) (o : OperationRow V) (e : EffectRow V) :
    RowRewritten db o e e :=
  ⟨.same e, rfl, fun _ _ _ _ => .inl rfl, fun _ => rfl⟩

/-- A change of an active operation and of effect rows only. -/
theorem changes_of_effects (h : Consistent db) {o' : OperationRow V} (ho : o ∈ db.operations)
    (hsame : o.SameIdentity o') (hact : o.phase.isCancellable = true)
    (hactive' : o'.phase.isCancellable = true) (hwf : o'.WellFormed)
    (hdb : db' = { db with operations := db.operations.put o', effects := effs })
    (heffs : effs.rows = db.effects.rows.map f)
    (hrows : ∀ e ∈ db.effects, RowRewritten db o e (f e))
    (hlast : ∀ b ∈ db.effectBatches, b.operationId = o.operationId → b.position + 1 =
      o.nextEffectBatchPosition → ∀ e ∈ db.effects, e.batchId = b.batchId → o'.phase.allowsStatus (f
      e).status = true)
    (hunk : ∀ b ∈ db.effectBatches, b.operationId = o.operationId → b.position + 1 =
      o.nextEffectBatchPosition → o'.phase = .outcomeUnknown → ∃ e ∈ db.effects, e.batchId =
      b.batchId ∧ (f e).status = .outcomeUnknown)
    (hcur : ∀ bid, o'.currentEffectBatchId = some bid → IsLastBatch db o bid)
    (hinp : ∀ bid, o'.inputEffectBatchId = some bid → IsLastBatch db o bid) :
    Changes db db' o f := by
  obtain ⟨s, hs, hown⟩ := h.operation_session o ho
  have hdb' : db' = { db with
      operations := db.operations.put o', sessions := db.sessions.put s, effects := effs } := by
    rw [hdb, put_eq_self hs]
  let c : OperationChange db db' := .ofRows (fun i => ⟨i⟩) [] hdb' ho
    { hsame with manifest := rfl } hs hown rfl rfl rfl heffs (fun e he => (hrows e he).step)
    (append_nil _).symm
  have hout : o'.outcome = none :=
    hwf.outcome_eq_none (OperationPhase.not_terminal_of_cancellable hactive')
  refine ⟨c, ⟨⟨hwf, ?_, fun e he => (hrows e he).foreign, hlast, hunk, ?_, hcur, hinp⟩,
    h.outcome_none o ho hact, .inl hsame.manifest,
    fun hask => ⟨fun e he => (hrows e he).count hask, .inl hout⟩⟩, rfl, rfl⟩
  · exact fun id => h.active_of_same ho hs hown (hactive'.trans hact.symm) id
  · intro b hb hbown e he heb hreq
    exact absurd ((hrows e he).request.symm.trans hreq) (h.request_ne_none ho hact hb hbown he heb)

/-! ## Rows of the effect phases -/

theorem wellFormed_finishBatch (h : o.WellFormed) (hph : o.phase = .effectDispatched)
    (bid : EffectBatchId) (blocked : Bool) : (o.finishBatch bid blocked).WellFormed := by
  have hout : o.outcome = none := h.outcome_eq_none (by rw [hph]; rfl)
  have hman : o.manifest ≠ none := h.manifest_ne_none (by rw [hph]; decide)
  have hcheck : o.checkpoint ≠ none := h.checkpoint (.inl (by rw [hph]; rfl))
  cases blocked with
  | true =>
    exact wellFormed_of_active h.stateVersion rfl hout hman rfl (absurd rfl) fun _ => hcheck
  | false =>
    exact wellFormed_of_active h.stateVersion rfl hout hman rfl (fun _ => rfl) fun _ => hcheck

theorem wellFormed_dispatchBatch (h : o.WellFormed) (hph : o.phase.prepare? = some phase) :
    o.dispatchBatch.WellFormed := by
  have hphase : o.phase.isEffectPhase = true ∧ o.phase.isTerminal = false ∧
      o.phase ≠ .queued ∧ o.phase ≠ .needDecision := by
    rw [OperationPhase.eq_of_prepare? hph]
    cases phase <;> exact ⟨rfl, rfl, nofun, nofun⟩
  obtain ⟨heff, hact, hqueued, hneed⟩ := hphase
  exact wellFormed_of_active h.stateVersion rfl (h.outcome_eq_none hact)
    (h.manifest_ne_none hqueued) (h.current.trans heff) (absurd (h.input_eq_none hneed)) fun _ =>
      h.checkpoint (.inl heff)

/-! ## Closing a batch -/

/-- A dispatched batch without open children moves its operation on. -/
theorem changes_finishBatch (h : Consistent db) {blocked : Bool} (ho : o ∈ db.operations)
    (hph : o.phase = .effectDispatched) (hcurrent : o.currentEffectBatchId = some bid)
    (hdb : db' = { db with
      operations := db.operations.put (o.finishBatch bid blocked)
      effects := effs }) (heffs : effs.rows = db.effects.rows.map f)
    (hrows : ∀ e ∈ db.effects, RowRewritten db o e (f e))
    (hcls : ∀ e ∈ db.effects, e.batchId = bid → (f e).status = .settled ∨ (f e).status =
      .outcomeUnknown)
    (hblk : blocked = true ↔ ∃ e ∈ db.effects, e.batchId = bid ∧ (f e).status =
      .outcomeUnknown) : Changes db db' o f := by
  have hlast : IsLastBatch db o bid := h.current_last o ho bid hcurrent
  have hsame : o.SameIdentity (o.finishBatch bid blocked) := ⟨rfl, rfl, rfl, rfl, rfl, rfl⟩
  refine changes_of_effects h ho hsame (by rw [hph]; rfl) ?_
    (wellFormed_finishBatch (h.operation_row o ho) hph bid blocked) hdb heffs hrows
    ?_ ?_ ?_ ?_
  · cases blocked <;> rfl
  · intro b hb hown hpos e he heb
    rw [h.lastBatch_eq ho hlast hb hown hpos] at heb
    cases blocked with
    | true =>
      rcases hcls e he heb with hs | hs
      · rw [hs]; rfl
      · rw [hs]; rfl
    | false =>
      rcases hcls e he heb with hs | hs
      · rw [hs]; rfl
      · exact absurd (hblk.mpr ⟨e, he, heb, hs⟩) Bool.false_ne_true
  · intro b hb hown hpos hunk
    cases blocked with
    | true =>
      obtain ⟨e, he, heb, hs⟩ := hblk.mp rfl
      exact ⟨e, he, heb.trans (h.lastBatch_eq ho hlast hb hown hpos).symm, hs⟩
    | false => cases hunk
  · intro batchId' hcur
    cases blocked with
    | true =>
      cases hcur
      exact hlast
    | false => cases hcur
  · intro batchId' hin
    cases blocked with
    | true => cases hin
    | false =>
      cases hin
      exact hlast

/-- A dispatched batch with an open child keeps its operation where it is. -/
theorem changes_keepBatch (h : Consistent db) (ho : o ∈ db.operations)
    (hph : o.phase = .effectDispatched) (hcur : o.currentEffectBatchId = some bid)
    (hdb : db' = { db with effects := effs }) (heffs : effs.rows = db.effects.rows.map f)
    (hrows : ∀ e ∈ db.effects, RowRewritten db o e (f e))
    (hint : ∀ e ∈ db.effects, e.batchId = bid → (f e).status ≠ .intentCommitted) :
    Changes db db' o f := by
  have hlast : IsLastBatch db o bid := h.current_last o ho bid hcur
  have hact : o.phase.isCancellable = true := by rw [hph]; rfl
  refine changes_of_effects h ho ⟨rfl, rfl, rfl, rfl, rfl, rfl⟩ hact hact
    (h.operation_row o ho) ?_ heffs hrows ?_ ?_ (h.current_last o ho) (h.input_last o ho)
  · rw [put_eq_self ho]
    exact hdb
  · intro b hb hown hpos e he heb
    rw [h.lastBatch_eq ho hlast hb hown hpos] at heb
    rw [hph]
    exact decide_eq_true (hint e he heb)
  · intro b _ _ _ hunk
    rw [hph] at hunk
    cases hunk

/-! ## The transactions -/

/-- The rewriting of the effect table that replaces one child. -/
def replaceChild (child' q : EffectRow V) : EffectRow V :=
  if q.effectId = child'.effectId then child' else q

/-- Recording the completion of an open child, as an update that is a step of its row. -/
theorem changes_recordedChild (h : Consistent db)
    (r : RecordedChild db opId bid expected eid update finished db')
    (hstep : EffectStep r.child (update r.child))
    (hreq : (update r.child).request = r.child.request)
    (hcnt : (update r.child).dispatchCount = r.child.dispatchCount)
    (hfor : r.child.batchId = bid ∨ update r.child = r.child.markUnknown) :
    Changes db db' r.operation (replaceChild (update r.child)) := by
  have ho : r.operation ∈ db.operations := mem_of_find? r.operation_find
  have hch : r.child ∈ db.effects := mem_of_find? r.child_find
  obtain ⟨hph, _, hcur⟩ := dispatchesBatch_iff.mp r.dispatches
  have hid : (update r.child).effectId = r.child.effectId := hstep.effectId_eq
  let f : EffectRow V → EffectRow V := replaceChild (update r.child)
  have hf : ∀ q ∈ db.effects, (q = r.child ∧ f q = update r.child) ∨ f q = q := by
    intro q hq
    by_cases hqid : q.effectId = (update r.child).effectId
    · refine .inl ⟨key_inj hq hch (hqid.trans hid), ?_⟩
      exact if_pos hqid
    · exact .inr (if_neg hqid)
  have hput : ∀ q ∈ db.effects, f q ∈ db.effects.put (update r.child) := by
    intro q hq
    exact mem_map_of_mem hq
  have hrows : ∀ q ∈ db.effects, RowRewritten db r.operation q (f q) := by
    intro q hq
    rcases hf q hq with ⟨rfl, heq⟩ | heq
    · rw [heq]
      refine ⟨hstep, hreq, fun b hb hbq hne => ?_, fun _ => hcnt⟩
      rcases hfor with hown | hunk
      · -- a child of the operation's own batch is not foreign
        rw [r.batch_owner.owner_eq hb (hbq.trans hown), key_of_find? r.operation_find] at hne
        exact absurd rfl hne
      · exact .inr ⟨r.child_open, hunk⟩
    · rw [heq]
      exact .refl db r.operation q
  have hbat : ∀ q ∈ db.effects, (f q).batchId = q.batchId :=
    fun q hq => (hrows q hq).step.batchId_eq
  have hint : ∀ q ∈ db.effects, q.batchId = bid → (f q).status ≠ .intentCommitted := by
    intro q hq hqb
    exact r.no_intent (f q) (hput q hq) ((hbat q hq).trans hqb)
  rcases r.closing with ⟨_, hdb, _⟩ | ⟨blocked, _, hcls, hblk, hdb⟩
  · exact changes_keepBatch h ho hph hcur hdb rfl hrows hint
  · apply changes_finishBatch h ho hph hcur hdb rfl hrows
    · intro q hq hqb
      have hnotOpen := hcls (f q) (hput q hq) ((hbat q hq).trans hqb)
      exact EffectStatus.settled_or_unknown (hint q hq hqb) hnotOpen
    · rw [hblk]
      constructor
      · rintro ⟨q', hq', hqb, hs⟩
        obtain ⟨q, hq, rfl⟩ := mem_map.mp hq'
        exact ⟨q, hq, (hbat q hq).symm.trans hqb, hs⟩
      · rintro ⟨q, hq, hqb, hs⟩
        exact ⟨f q, hput q hq, (hbat q hq).trans hqb, hs⟩

/-- The recorded child belongs to the operation when it is a child of the dispatched batch. -/
theorem RecordedChild.local (r : RecordedChild db opId bid expected eid update finished db')
    (hid : (update r.child).effectId = r.child.effectId) (hown : r.child.batchId = bid) :
    ∀ q ∈ db.effects, ∀ b ∈ db.effectBatches, b.batchId = q.batchId →
      b.operationId ≠ r.operation.operationId → replaceChild (update r.child) q = q := by
  intro q hq b hb hbq hne
  refine if_neg fun heq => hne ?_
  have hsame : q = r.child := key_inj hq (mem_of_find? r.child_find) (heq.trans hid)
  rw [r.batch_owner.owner_eq hb (hbq.trans (hsame ▸ hown)), key_of_find? r.operation_find]

theorem changedBy_settleBatchEffect (h : Consistent db) {out : EffectOutcome V}
    {res : Bool × Database V}
    (hrun : db.settleBatchEffect opId bid eid expected out = .ok
      res) : ChangedBy opId db res.2 := by
  obtain ⟨finished, _, r, hown⟩ := settleBatchEffect_ok hrun h.outcome_none
  rw [← key_of_find? r.operation_find]
  exact (changes_recordedChild h r (.settled r.child r.child_open out) rfl rfl
    (.inl hown)).changedBy (r.local rfl hown)

/-- Recording an unknown outcome checks the status of the child but not its batch. -/
theorem committed_recordBatchEffectUnknown (h : Consistent db) {res : Bool × Database V}
    (hrun : db.recordBatchEffectUnknown opId bid eid expected = .ok
      res) : Committed db res.2 := by
  obtain ⟨finished, _, ⟨r⟩⟩ := recordBatchEffectUnknown_ok hrun h.outcome_none
  exact (changes_recordedChild h r (.unknown r.child r.child_open) rfl rfl (.inr rfl)).committed

theorem changedBy_finishEffectBatchAttempt (h : Consistent db)
    {res : EffectBatchFinish × Database V}
    (hrun : db.finishEffectBatchAttempt opId bid expected = .ok res) :
    ChangedBy opId db res.2 := by
  obtain ⟨o, hfind, hdisp, hcas⟩ := finishEffectBatchAttempt_ok hrun h.outcome_none
  have ho : o ∈ db.operations := mem_of_find? hfind
  obtain ⟨hph, _, hcur⟩ := dispatchesBatch_iff.mp hdisp
  rcases hcas with ⟨_, rfl⟩ | ⟨_, _, hint, finished, hclose⟩
  · exact .unchanged rfl
  · rcases hclose with ⟨_, hdb, _⟩ | ⟨blocked, _, hcls, hblk, hdb⟩
    · exact .unchanged hdb
    · have hchanges : Changes db res.2 o id := by
        refine changes_finishBatch h ho hph hcur hdb (map_id _).symm
          (fun e _ => .refl db o e) ?_ hblk
        exact fun e he heb => EffectStatus.settled_or_unknown (hint e he heb) (hcls e he heb)
      rw [← key_of_find? hfind]
      exact hchanges.changedBy fun _ _ _ _ _ _ => rfl

/-- Closing a batch turns its open children unknown and leaves every other row alone. -/
theorem closeChild_cases (bid : EffectBatchId) (e : EffectRow V) :
    (e.batchId = bid ∧ e.status = .dispatchStarted ∧ Database.closeChild bid e = e.markUnknown) ∨
      ((e.batchId = bid → e.status ≠ .dispatchStarted) ∧ Database.closeChild bid e = e) := by
  unfold Database.closeChild
  by_cases hc : e.batchId = bid ∧ e.status = .dispatchStarted
  · rw [if_pos hc]
    exact .inl ⟨hc.1, hc.2, rfl⟩
  · rw [if_neg hc]
    exact .inr ⟨fun heb hopen => hc ⟨heb, hopen⟩, rfl⟩

theorem changedBy_closeDispatchedBatchForCancellation (h : Consistent db)
    {res : OperationPhase × Database V}
    (hrun : db.closeDispatchedBatchForCancellation opId bid expected = .ok
      res) : ChangedBy opId db res.2 := by
  obtain ⟨o, blocked, hfind, hdisp, hown, hint, hblk, _, hdb⟩ :=
    closeDispatchedBatchForCancellation_ok hrun h.outcome_none
  have ho : o ∈ db.operations := mem_of_find? hfind
  obtain ⟨hph, _, hcur⟩ := dispatchesBatch_iff.mp hdisp
  have hfor : ∀ e ∈ db.effects, ∀ b ∈ db.effectBatches, b.batchId = e.batchId →
      b.operationId ≠ o.operationId → Database.closeChild bid e = e := by
    intro e _ b hb hbe hne
    rcases closeChild_cases bid e with ⟨heb, _, _⟩ | ⟨_, heq⟩
    · rw [hown.owner_eq hb (hbe.trans heb), key_of_find? hfind] at hne
      exact absurd rfl hne
    · exact heq
  rw [← key_of_find? hfind]
  refine Changes.changedBy (changes_finishBatch h ho hph hcur hdb rfl (fun e he => ?_)
    (fun e he heb => ?_) hblk) hfor
  · rcases closeChild_cases bid e with ⟨_, hopen, heq⟩ | ⟨_, heq⟩
    · refine ⟨?_, ?_, fun b hb hbe hne => .inl (hfor e he b hb hbe hne), fun _ => ?_⟩
      · exact heq ▸ .unknown e hopen
      · rw [heq]
        rfl
      · rw [heq]
        rfl
    · rw [heq]
      exact .refl db o e
  · rcases closeChild_cases bid e with ⟨_, _, heq⟩ | ⟨hnotOpen, heq⟩
    · rw [heq]
      exact .inr rfl
    · rw [heq]
      exact EffectStatus.settled_or_unknown (hint e he heb) (hnotOpen heb)

/-! ## Preparation -/

theorem prepareRow_request (phase : PreparePhase) (e : EffectRow V) :
    (e.prepareRow phase).request = e.request := by
  unfold EffectRow.prepareRow
  split
  · rfl
  · split <;> rfl

/-- No prepared child is left at its intent. -/
theorem prepareRow_not_intent {e : EffectRow V} (h : phase.accepts e.status) :
    (e.prepareRow phase).status ≠ .intentCommitted := by
  unfold EffectRow.prepareRow
  by_cases hd : e.dispatchedBy phase = true
  · rw [if_pos hd]
    exact fun hs => by cases hs
  · rw [if_neg hd]
    by_cases hopen : e.status = .dispatchStarted
    · rw [if_pos hopen]
      exact fun hs => by cases hs
    · rw [if_neg hopen]
      cases phase with
      | effectIntent => exact absurd (decide_eq_true (show e.status = .intentCommitted from h)) hd
      | effectDispatched => exact h

theorem changedBy_preparedBatch (h : Consistent db) (p : PreparedBatch db opId expected res)
    (hcanc : db.cancellationRequested opId = false) :
    ChangedBy opId db res.2 := by
  have ho : p.operation ∈ db.operations := mem_of_find? p.operation_find
  have hlast : IsLastBatch db p.operation p.batchId :=
    h.current_last p.operation ho p.batchId p.current_eq
  have hin : ∀ e : EffectRow V, e.batchId = p.batchId →
      prepareIn p.phase p.batchId e = e.prepareRow p.phase := fun e heb => if_pos heb
  have hfor : ∀ e ∈ db.effects, ∀ b ∈ db.effectBatches, b.batchId = e.batchId →
      b.operationId ≠ p.operation.operationId → prepareIn p.phase p.batchId e = e := by
    intro e _ b hb hbe hne
    refine if_neg fun heb => hne ?_
    rw [p.batch_owner.owner_eq hb (hbe.trans heb), key_of_find? p.operation_find]
  have hrows : ∀ e ∈ db.effects, RowRewritten db p.operation e (prepareIn p.phase p.batchId e) := by
    intro e he
    by_cases heb : e.batchId = p.batchId
    · refine ⟨?_, ?_, fun b hb hbe hne => .inl (hfor e he b hb hbe hne), fun hask => ?_⟩
      · exact hin e heb ▸ effectStep_prepareRow p.phase (p.accepts e he heb)
      · exact hin e heb ▸ prepareRow_request p.phase e
      · rw [key_of_find? p.operation_find, hcanc] at hask
        cases hask
    · rw [show prepareIn p.phase p.batchId e = e from if_neg heb]
      exact .refl db p.operation e
  rw [← key_of_find? p.operation_find]
  refine Changes.changedBy ?_ hfor
  rcases p.result_eq with ⟨_, hres⟩ | ⟨_, hph, hcls, blocked, hblk, hres⟩
  · -- the batch is handed to its driver
    have hsame : p.operation.SameIdentity p.operation.dispatchBatch :=
      ⟨rfl, rfl, rfl, rfl, rfl, rfl⟩
    have hact : p.operation.phase.isCancellable = true := by
      rw [OperationPhase.eq_of_prepare? p.phase_eq]
      cases p.phase <;> rfl
    refine changes_of_effects h ho hsame hact rfl
      (wellFormed_dispatchBatch (h.operation_row _ ho) p.phase_eq) (congrArg Prod.snd hres)
      p.effects_eq hrows ?_ (fun _ _ _ _ hunk => by cases hunk)
      (h.current_last p.operation ho) (h.input_last p.operation ho)
    intro b hb hown hpos e he heb
    rw [h.lastBatch_eq ho hlast hb hown hpos] at heb
    rw [hin e heb]
    exact decide_eq_true (prepareRow_not_intent (p.accepts e he heb))
  · -- no child was left to invoke
    have hdispd : p.operation.phase = .effectDispatched := by
      rw [OperationPhase.eq_of_prepare? p.phase_eq, hph]
      rfl
    refine changes_finishBatch h ho hdispd p.current_eq (congrArg Prod.snd hres)
      p.effects_eq hrows ?_ ?_
    · intro e he heb
      rw [hin e heb]
      exact EffectStatus.settled_or_unknown (prepareRow_not_intent (p.accepts e he heb))
        (hcls e he heb)
    · rw [hblk]
      constructor
      · rintro ⟨e, he, heb, hs⟩
        exact ⟨e, he, heb, by rw [hin e heb]; exact hs⟩
      · rintro ⟨e, he, heb, hs⟩
        exact ⟨e, he, heb, by rw [← hin e heb]; exact hs⟩

theorem changedBy_prepareEffectBatch (h : Consistent db)
    (hrun : db.prepareEffectBatch opId expected = .ok res) :
    ChangedBy opId db res.2 := by
  rcases prepareEffectBatch_ok hrun h.outcome_none with ⟨_, rfl⟩ | ⟨hcanc, ⟨p⟩⟩
  · exact .unchanged rfl
  · exact changedBy_preparedBatch h p hcanc

theorem committed_commitEffectBatchIntent (h : Consistent db) {newId : Nat → EffectId}
    {intent : NewEffectBatchIntent V} {res : EffectIntentCommit × Database V}
    (hrun : db.commitEffectBatchIntent opId expected bid newId intent = .ok
      res) : Committed db res.2 := by
  rcases commitEffectBatchIntent_ok hrun h.outcome_none with ⟨_, rfl⟩ | ⟨hcanc, _, ⟨i⟩⟩
  · exact .unchanged rfl
  · exact .intended i hcanc

end Renoa.Kernel
