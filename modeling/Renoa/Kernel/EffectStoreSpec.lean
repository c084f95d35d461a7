import Renoa.Kernel.Consistency
import Renoa.Kernel.EffectStore

/-!
# What the effect transactions do

One lemma for each transaction on effect batches: the rows a successful run replaced, and the
checks it passed. A preparation rewrites every child by `prepareRow`, whatever the order of the
writes (`prepareChildren_ok`).
-/

namespace Renoa.Kernel

open Foundation List Table Database

variable {V : Type} {db : Database V} {opId : OperationId} {bid : EffectBatchId}
  {expected : Nat} {db' : Database V} {effectId : EffectId} {e : EffectRow V}
  {eff : PreparedEffect V} {nextTransition : Nat} {phase : PreparePhase}
  {effects : List (PreparedEffect V)}
  {result : Option (PendingEffect V) × PreparedEffect V × Database V} {es : List (EffectRow V)}
  {newId : Nat → EffectId}

/-! ## Loading a batch -/

/-- The children of an owned batch are all its rows. -/
theorem ownedChildren_eq {b : EffectBatchRow} (hb : b ∈ db.effectBatches)
    (hown : b.operationId = opId) :
    db.ownedChildren opId b.batchId = db.orderedChildren b.batchId := by
  unfold Database.ownedChildren
  rw [if_pos]
  rw [any_eq_true]
  exact ⟨b, mem_batchesOf.mpr ⟨hb, hown⟩, decide_eq_true rfl⟩

/-- The batch is one of the operation. -/
abbrev Database.OwnsBatch (db : Database V) (operationId : OperationId) (batchId : EffectBatchId) :
    Prop :=
  ∃ b ∈ db.effectBatches, b.batchId = batchId ∧ b.operationId = operationId

theorem Database.OwnsBatch.owner_eq (h : db.OwnsBatch opId bid) {b : EffectBatchRow}
    (hb : b ∈ db.effectBatches) (hid : b.batchId = bid) : b.operationId = opId := by
  obtain ⟨b', hb', hid', hown⟩ := h
  rw [key_inj hb hb' (hid.trans hid'.symm), hown]

/-- A loaded batch belongs to the operation, has a child, and is complete. -/
theorem loadBatchChildren_ok {children : List (EffectRow V)}
    (h : db.loadBatchChildren opId bid = .ok children) :
    db.OwnsBatch opId bid ∧
      children = db.orderedChildren bid ∧ children ≠ [] := by
  obtain ⟨_, _, h⟩ := bind_ok h
  obtain ⟨hne, h⟩ := ensure_bind_ok h
  cases h
  simp only [Bool.not_eq_true', isEmpty_eq_false_iff] at hne
  have howned : (db.batchesOf opId).any (fun batch => batch.batchId = bid) = true := by
    by_contra hno
    apply hne
    unfold Database.ownedChildren
    rw [if_neg hno]
  obtain ⟨b, hb, hid⟩ := any_eq_true.mp howned
  obtain ⟨hmem, hop⟩ := mem_batchesOf.mp hb
  refine ⟨⟨b, hmem, by simpa using hid, hop⟩, ?_, hne⟩
  unfold Database.ownedChildren
  rw [if_pos howned]

theorem contains_status_iff (db : Database V) (bid : EffectBatchId) (status : EffectStatus) :
    ((db.orderedChildren bid).map EffectRow.status).contains status = true ↔
      ∃ e ∈ db.effects, e.batchId = bid ∧ e.status = status := by
  rw [contains_iff_mem, mem_map]
  simp only [mem_orderedChildren, and_assoc]

theorem loadBatchStatuses_ok {statuses : List EffectStatus}
    (h : db.loadBatchStatuses opId bid = .ok statuses) :
    db.OwnsBatch opId bid ∧
      ∀ status, statuses.contains status = true ↔
        ∃ e ∈ db.effects, e.batchId = bid ∧ e.status = status := by
  obtain ⟨children, hkids, h⟩ := bind_ok h
  cases h
  obtain ⟨hown, rfl, _⟩ := loadBatchChildren_ok hkids
  exact ⟨hown, contains_status_iff db bid⟩

theorem requireDispatchedBatch_ok {u : Unit}
    (h : db.requireDispatchedBatch opId bid expected = .ok u) :
    ∃ o, db.operations.find? opId = some o ∧
      Database.dispatchesBatch bid expected o = true := by
  have h := ensure_ok h
  cases ho : db.operations.find? opId with
  | none => simp [ho] at h
  | some o => exact ⟨o, rfl, by simpa [ho] using h⟩

theorem dispatchesBatch_iff {o : OperationRow V} : Database.dispatchesBatch bid expected o = true ↔
      o.phase = .effectDispatched ∧ o.transitionVersion = expected ∧
        o.currentEffectBatchId = some bid := by
  simp [Database.dispatchesBatch, and_assoc]

theorem updateEffectStatus_ok {expected next : EffectStatus}
    (h : db.updateEffectStatus effectId expected next = .ok db') :
    ∃ e, db.effects.find? effectId = some e ∧ e.status = expected ∧
      db' = { db with effects := db.effects.put { e with status := next } } := by
  obtain ⟨effects, hupd, h⟩ := require_bind_ok h
  cases h
  obtain ⟨e, he, hg, rfl⟩ := updateOne_eq_some.mp hupd
  exact ⟨e, he, of_decide_eq_true hg, rfl⟩

theorem transitionFinishedBatch_ok {blocked : Bool}
    (h : db.transitionFinishedBatch opId bid expected blocked = .ok db')
    (hnone : db.Unfinished) :
    ∃ o, db.operations.find? opId = some o ∧ Database.dispatchesBatch bid expected o = true ∧
      db' = { db with operations := db.operations.put (o.finishBatch bid blocked) } := by
  obtain ⟨o, ho, hg, rfl⟩ := updateOperation_eq_some_of_outcome_none (require_ok h) (fun _ => rfl)
    fun o ho hg => hnone o ho (by rw [(dispatchesBatch_iff.mp hg).1]; rfl)
  exact ⟨o, ho, hg, rfl⟩

/-- The closing step of a batch: nothing while a child is open, and else the move of the
operation that its statuses ask for. -/
theorem transitionBatchIfTerminal_ok {result : Option Bool × Database V}
    (h : db.transitionBatchIfTerminal opId bid expected = .ok result)
    (hnone : db.Unfinished) :
    db.OwnsBatch opId bid ∧ (∀ e ∈ db.effects, e.batchId = bid → e.status ≠ .intentCommitted) ∧
      ((result = (none, db) ∧ ∃ e ∈ db.effects, e.batchId = bid ∧ e.status = .dispatchStarted) ∨
        ∃ blocked o, db.operations.find? opId = some o ∧
          Database.dispatchesBatch bid expected o = true ∧
          (∀ e ∈ db.effects, e.batchId = bid → e.status ≠ .dispatchStarted) ∧
          (blocked = true ↔ ∃ e ∈ db.effects, e.batchId = bid ∧ e.status = .outcomeUnknown) ∧
          result = (some blocked,
            { db with operations := db.operations.put (o.finishBatch bid blocked) })) := by
  obtain ⟨statuses, hstats, h⟩ := bind_ok h
  obtain ⟨hint, h⟩ := ensure_bind_ok h
  obtain ⟨hown, hcontains⟩ := loadBatchStatuses_ok hstats
  have hnoIntent : ∀ e ∈ db.effects, e.batchId = bid → e.status ≠ .intentCommitted := by
    intro e he heb hstat
    rw [(hcontains .intentCommitted).mpr ⟨e, he, heb, hstat⟩] at hint
    cases hint
  refine ⟨hown, hnoIntent, ?_⟩
  by_cases hopen : statuses.contains .dispatchStarted = true
  · rw [if_pos hopen] at h
    cases h
    exact .inl ⟨rfl, (hcontains .dispatchStarted).mp hopen⟩
  · rw [if_neg hopen] at h
    obtain ⟨db', htrn, h⟩ := bind_ok h
    cases h
    obtain ⟨o, ho, hd, rfl⟩ := transitionFinishedBatch_ok htrn hnone
    refine .inr ⟨_, o, ho, hd, ?_, hcontains .outcomeUnknown, rfl⟩
    intro e he heb hstat
    exact hopen ((hcontains .dispatchStarted).mpr ⟨e, he, heb, hstat⟩)

/-! ## Preparation -/

section

variable (phase : PreparePhase)

/-- The preparation dispatches the child. -/
def EffectRow.dispatchedBy (e : EffectRow V) : Bool :=
  match phase with
  | .effectIntent => decide (e.status = .intentCommitted)
  | .effectDispatched => decide (e.status = .dispatchStarted) && decide (e.recovery = .safeToReplay)

/-- The child with one more dispatch counted. -/
def EffectRow.dispatch (e : EffectRow V) : EffectRow V :=
  { e with status := .dispatchStarted, dispatchCount := e.dispatchCount + 1 }

/-- The child after the preparation of its batch. -/
def EffectRow.prepareRow (e : EffectRow V) : EffectRow V :=
  if e.dispatchedBy phase then e.dispatch
  else if e.status = .dispatchStarted then { e with status := .outcomeUnknown }
  else e

/-- The invocation of a dispatched child. -/
def EffectRow.pending? (batchId : EffectBatchId) (nextTransition : Nat) (e : EffectRow V) :
    Option (PendingEffect V) :=
  e.request.map fun request =>
    { e with batchId, request, dispatchCount := e.dispatchCount + 1,
             transitionVersion := nextTransition }

/-- The statuses a preparation accepts. -/
def PreparePhase.accepts (status : EffectStatus) : Prop :=
  match phase with
  | .effectIntent => status = .intentCommitted
  | .effectDispatched => status ≠ .intentCommitted

end

/-- The phase of an operation whose batch is prepared. -/
def PreparePhase.toOperationPhase : PreparePhase → OperationPhase
  | .effectIntent => .effectIntent
  | .effectDispatched => .effectDispatched

theorem OperationPhase.eq_of_prepare? {p : OperationPhase} (h : p.prepare? = some phase) :
    p = phase.toOperationPhase := by
  cases p <;> cases h <;> rfl

theorem prepareRow_effectId (phase : PreparePhase) (e : EffectRow V) :
    (e.prepareRow phase).effectId = e.effectId := by
  unfold EffectRow.prepareRow
  split
  · rfl
  · split <;> rfl

theorem effectStep_prepareRow (phase : PreparePhase) (h : phase.accepts e.status) :
    EffectStep e (e.prepareRow phase) := by
  unfold EffectRow.prepareRow
  by_cases hd : e.dispatchedBy phase = true
  · rw [if_pos hd]
    cases phase with
    | effectIntent => exact .dispatched e h
    | effectDispatched =>
      simp only [EffectRow.dispatchedBy, Bool.and_eq_true, decide_eq_true_eq] at hd
      exact .replayed e hd.1 hd.2
  · rw [if_neg hd]
    by_cases hs : e.status = .dispatchStarted
    · rw [if_pos hs]
      exact .unknown e hs
    · rw [if_neg hs]
      exact .same e

theorem prepared_eq_ok : e.prepared = .ok eff ↔ e.request = some eff.request ∧
      eff = ⟨e.effectId, e.binding, e.bindingRevision, e.recovery, eff.request, e.status,
        e.dispatchCount⟩ := by
  unfold EffectRow.prepared
  cases hr : e.request with
  | none => simp [require]
  | some req =>
    constructor
    · intro h
      cases h
      exact ⟨rfl, rfl⟩
    · rintro ⟨hreq, heq⟩
      cases hreq
      rw [heq]
      rfl

theorem dispatchChild_ok (he : e ∈ db.effects) (hprep : e.prepared = .ok eff)
    (h : db.dispatchChild bid nextTransition eff = .ok result) :
    result.1 = e.pending? bid nextTransition ∧ e.dispatch.prepared = .ok result.2.1 ∧
      result.2.2 = { db with effects := db.effects.put e.dispatch } := by
  obtain ⟨hreq, heff⟩ := prepared_eq_ok.mp hprep
  obtain ⟨effects, hupd, h⟩ := require_bind_ok h
  cases h
  rw [show eff.effectId = e.effectId by rw [heff]] at hupd
  obtain ⟨hgrd, rfl⟩ := (updateOne_of_mem he).mp hupd
  simp only [Bool.and_eq_true, decide_eq_true_eq] at hgrd
  refine ⟨?_, ?_, ?_⟩
  · unfold EffectRow.pending?
    rw [hreq, heff]
    rfl
  · rw [prepared_eq_ok]
    refine ⟨hreq, ?_⟩
    rw [heff]
    rfl
  · unfold EffectRow.dispatch
    rw [hgrd.2]

/-- Preparing one child replaces its row by `prepareRow` and invokes it when that dispatches. -/
theorem prepareChild_ok (he : e ∈ db.effects) (hprep : e.prepared = .ok eff)
    (h : db.prepareChild phase bid nextTransition eff = .ok result) :
    phase.accepts e.status ∧
      result.1 = (if e.dispatchedBy phase then e.pending? bid nextTransition else none) ∧
      (e.prepareRow phase).prepared = .ok result.2.1 ∧
      result.2.2 = { db with effects := db.effects.put (e.prepareRow phase) } := by
  obtain ⟨hreq, heff⟩ := prepared_eq_ok.mp hprep
  have hstat : eff.status = e.status := by rw [heff]
  have hrecov : eff.recovery = e.recovery := by rw [heff]
  have hid : eff.effectId = e.effectId := by rw [heff]
  unfold Database.prepareChild at h
  rw [hstat, hrecov] at h
  cases phase with
  | effectIntent =>
    cases hs : e.status with
    | intentCommitted =>
      rw [hs] at h
      have hd : e.dispatchedBy .effectIntent = true := by simp [EffectRow.dispatchedBy, hs]
      obtain ⟨hp, hr, hdb⟩ := dispatchChild_ok he hprep h
      rw [if_pos hd]
      unfold EffectRow.prepareRow
      rw [if_pos hd]
      exact ⟨rfl, hp, hr, hdb⟩
    | dispatchStarted | settled | outcomeUnknown => rw [hs] at h; cases h
  | effectDispatched =>
    cases hs : e.status with
    | intentCommitted => rw [hs] at h; cases h
    | dispatchStarted =>
      rw [hs] at h
      cases hrec : e.recovery with
      | safeToReplay =>
        rw [hrec] at h
        have hd : e.dispatchedBy .effectDispatched = true := by
          simp [EffectRow.dispatchedBy, hs, hrec]
        obtain ⟨hp, hr, hdb⟩ := dispatchChild_ok he hprep h
        rw [if_pos hd]
        unfold EffectRow.prepareRow
        rw [if_pos hd]
        exact ⟨by simp [PreparePhase.accepts], hp, hr, hdb⟩
      | neverReplay =>
        rw [hrec] at h
        have hd : ¬ e.dispatchedBy .effectDispatched = true := by
          simp [EffectRow.dispatchedBy, hrec]
        obtain ⟨db', hupd, h⟩ := bind_ok h
        cases h
        obtain ⟨row, hrow, _, rfl⟩ := updateEffectStatus_ok hupd
        rw [hid, find?_of_mem he] at hrow
        cases hrow
        rw [if_neg hd]
        unfold EffectRow.prepareRow
        rw [if_neg hd, if_pos hs]
        refine ⟨by simp [PreparePhase.accepts], rfl, ?_, rfl⟩
        rw [prepared_eq_ok]
        refine ⟨hreq, ?_⟩
        rw [heff, ← hrec]
    | settled | outcomeUnknown =>
      rw [hs] at h
      cases h
      have hd : ¬ e.dispatchedBy .effectDispatched = true := by simp [EffectRow.dispatchedBy, hs]
      have hrow : e.prepareRow .effectDispatched = e := by
        unfold EffectRow.prepareRow
        rw [if_neg hd, if_neg (by rw [hs]; decide)]
      rw [if_neg hd, hrow, put_eq_self he]
      exact ⟨by simp [PreparePhase.accepts], rfl, hprep, rfl⟩

/-- The rewriting of the effect table by the preparation of the children `es`. -/
def prepareAmong (phase : PreparePhase) (es : List (EffectRow V)) (q : EffectRow V) :
    EffectRow V :=
  if q.effectId ∈ es.map EffectRow.effectId then q.prepareRow phase else q

/-- Preparing different children in order prepares each of them, whatever the order. -/
theorem prepareChildren_ok {result : List (PendingEffect V) × List (PreparedEffect V) × Database V}
    (hmem : ∀ e ∈ es, e ∈ db.effects) (hnd : (es.map EffectRow.effectId).Nodup)
    (hprep : List.Forall₂ (fun e eff => e.prepared = .ok eff) es effects)
    (h : db.prepareChildren phase bid nextTransition effects = .ok result) :
    (∀ e ∈ es, phase.accepts e.status) ∧
      result.1 = (es.filter (EffectRow.dispatchedBy phase)).filterMap
        (EffectRow.pending? bid nextTransition) ∧
      List.Forall₂ (fun e eff => (e.prepareRow phase).prepared = .ok eff) es result.2.1 ∧
      result.2.2.effects.rows = db.effects.rows.map (prepareAmong phase es) ∧
      result.2.2 = { db with effects := result.2.2.effects } := by
  induction hprep generalizing db result with
  | nil =>
    cases h
    refine ⟨fun e he => absurd he not_mem_nil, rfl, .nil, ?_, rfl⟩
    have hid : prepareAmong phase ([] : List (EffectRow V)) = id := by
      funext q
      simp [prepareAmong]
    rw [hid, map_id]
  | cons hfst hrest ih =>
    rename_i e eff es effects
    obtain ⟨first, hch, h⟩ := bind_ok h
    obtain ⟨rest, hkids, h⟩ := bind_ok h
    cases h
    have he : e ∈ db.effects := hmem e mem_cons_self
    rw [map_cons, nodup_cons] at hnd
    obtain ⟨haccept, hpend, hrow, hdb⟩ := prepareChild_ok he hfst hch
    have hmem' : ∀ q ∈ es, q ∈ first.2.2.effects := by
      intro q hq
      rw [hdb]
      apply mem_put_of_ne (hmem q (mem_cons_of_mem e hq))
      intro heq
      rw [prepareRow_effectId] at heq
      exact hnd.1 (heq ▸ mem_map_of_mem hq)
    obtain ⟨hacc, hpends, hrows, htable, hdb'⟩ := ih hmem' hnd.2 hkids
    refine ⟨?_, ?_, .cons hrow hrows, ?_, ?_⟩
    · intro q hq
      rcases mem_cons.mp hq with rfl | hq
      · exact haccept
      · exact hacc q hq
    · obtain ⟨hreq, _⟩ := prepared_eq_ok.mp hfst
      rw [hpend, hpends]
      by_cases hd : e.dispatchedBy phase = true
      · simp [hd, EffectRow.pending?, hreq]
      · simp [hd]
    · rw [htable, hdb]
      rw [rows_put, map_map]
      apply map_congr_left
      intro q hq
      show prepareAmong phase es
        (if q.effectId = (e.prepareRow phase).effectId then e.prepareRow phase else q) =
          prepareAmong phase (e :: es) q
      rw [prepareRow_effectId]
      by_cases hqe : q.effectId = e.effectId
      · obtain rfl : q = e := key_inj hq he hqe
        have hout : (q.prepareRow phase).effectId ∉ es.map EffectRow.effectId := by
          rw [prepareRow_effectId]
          exact hnd.1
        rw [if_pos rfl]
        unfold prepareAmong
        rw [if_neg hout, if_pos (mem_map_of_mem mem_cons_self)]
      · rw [if_neg hqe]
        unfold prepareAmong
        rw [map_cons]
        simp only [mem_cons, hqe, false_or]
    · rw [hdb', hdb]

/-- The rewriting of the effect table by the preparation of a batch. -/
def prepareIn (phase : PreparePhase) (batchId : EffectBatchId) (q : EffectRow V) :
    EffectRow V :=
  if q.batchId = batchId then q.prepareRow phase else q

/-- The invocations of a prepared batch, in declaration order. -/
def Database.pendingChildren (db : Database V) (phase : PreparePhase) (batchId : EffectBatchId)
    (nextTransition : Nat) : List (PendingEffect V) :=
  ((db.orderedChildren batchId).filter (EffectRow.dispatchedBy phase)).filterMap
    (EffectRow.pending? batchId nextTransition)

/-- The operation row whose batch has been handed to its driver. -/
def OperationRow.dispatchBatch (o : OperationRow V) : OperationRow V :=
  { o with phase := .effectDispatched, transitionVersion := o.transitionVersion + 1 }

theorem orderedChildren_nodup (db : Database V) (bid : EffectBatchId) :
    ((db.orderedChildren bid).map EffectRow.effectId).Nodup := by
  have hperm := (orderBy_perm EffectRow.position (db.childrenOf bid)).map EffectRow.effectId
  apply hperm.nodup_iff.mpr
  exact db.effects.keys_nodup.sublist (filter_sublist.map _)

theorem prepareAmong_orderedChildren (phase : PreparePhase) (bid : EffectBatchId) :
    db.effects.rows.map (prepareAmong phase (db.orderedChildren bid)) =
      db.effects.rows.map (prepareIn phase bid) := by
  apply map_congr_left
  intro q hq
  unfold prepareAmong prepareIn
  have hiff : q.effectId ∈ (db.orderedChildren bid).map EffectRow.effectId ↔ q.batchId = bid := by
    rw [mem_map]
    constructor
    · rintro ⟨e, he, heq⟩
      obtain ⟨hmem, hbat⟩ := mem_orderedChildren.mp he
      rw [← key_inj hmem hq heq]
      exact hbat
    · intro hbat
      exact ⟨q, mem_orderedChildren.mpr ⟨hq, hbat⟩, rfl⟩
  simp only [hiff]

/-- What the preparation of a batch did when no cancellation was requested. -/
structure PreparedBatch (db : Database V) (operationId : OperationId) (expectedTransition : Nat)
    (result : EffectBatchStart V × Database V) where
  operation : OperationRow V
  phase : PreparePhase
  batchId : EffectBatchId
  effects : Table (EffectRow.effectId (V := V))
  operation_find : db.operations.find? operationId = some operation
  transition_eq : operation.transitionVersion = expectedTransition
  current_eq : operation.currentEffectBatchId = some batchId
  phase_eq : operation.phase.prepare? = some phase
  batch_owner : db.OwnsBatch operationId batchId
  accepts : ∀ e ∈ db.effects, e.batchId = batchId → phase.accepts e.status
  request : ∀ e ∈ db.effects, e.batchId = batchId → e.request ≠ none
  effects_eq : effects.rows = db.effects.rows.map (prepareIn phase batchId)
  result_eq :
    (db.pendingChildren phase batchId (expectedTransition + 1) ≠ [] ∧
      result =
        (.invoke ⟨batchId, db.pendingChildren phase batchId (expectedTransition + 1)⟩,
          { db with effects, operations := db.operations.put operation.dispatchBatch })) ∨
    (db.pendingChildren phase batchId (expectedTransition + 1) = [] ∧
      phase = .effectDispatched ∧
      (∀ e ∈ db.effects, e.batchId = batchId →
        (e.prepareRow phase).status ≠ .dispatchStarted) ∧
      ∃ blocked : Bool,
        (blocked = true ↔ ∃ e ∈ db.effects, e.batchId = batchId ∧
          (e.prepareRow phase).status = .outcomeUnknown) ∧
        result = (if blocked then .blocked else .settled,
          { db with
            effects
            operations := db.operations.put (operation.finishBatch batchId blocked) }))

theorem loadPreparedEffects_ok (h : db.loadPreparedEffects opId bid = .ok effects) :
    db.OwnsBatch opId bid ∧
      List.Forall₂ (fun e eff => e.prepared = .ok eff) (db.orderedChildren bid)
        effects := by
  obtain ⟨children, hkids, h⟩ := bind_ok h
  obtain ⟨hown, rfl, _⟩ := loadBatchChildren_ok hkids
  exact ⟨hown, mapM_eq_ok h⟩

theorem loadActiveBatch_ok {result : OperationPhase × EffectBatchId}
    (h : db.loadActiveBatch opId expected = .ok result) :
    ∃ o, db.operations.find? opId = some o ∧ o.transitionVersion = expected ∧
      o.phase = result.1 ∧ o.currentEffectBatchId = some result.2 := by
  obtain ⟨o, ho, h⟩ := bind_ok h
  obtain ⟨bid, hbat, h⟩ := require_bind_ok h
  cases h
  obtain ⟨ho, htrn⟩ := Option.filter_eq_some_iff.mp (require_ok ho)
  exact ⟨o, ho, of_decide_eq_true htrn, rfl, hbat⟩

/-- A child of a prepared list has the status of its prepared row. -/
theorem any_status_prepared {status : EffectStatus}
    (h : List.Forall₂ (fun e eff => (e.prepareRow phase).prepared = .ok eff) es effects) :
    (effects.any fun eff => eff.status = status) = true ↔
      ∃ e ∈ es, (e.prepareRow phase).status = status := by
  induction h with
  | nil => simp
  | cons hfst _ ih =>
    have heff := (prepared_eq_ok.mp hfst).2
    rw [any_cons, Bool.or_eq_true, ih, heff, decide_eq_true_eq, exists_mem_cons_iff]

/-- A successful preparation without a requested cancellation. -/
theorem prepareEffectBatch_ok {result : EffectBatchStart V × Database V}
    (h : db.prepareEffectBatch opId expected = .ok result)
    (hnone : db.Unfinished) :
    (db.cancellationRequested opId = true ∧ result = (.cancellationPending, db)) ∨
      (db.cancellationRequested opId = false ∧
        Nonempty (PreparedBatch db opId expected result)) := by
  unfold Database.prepareEffectBatch at h
  rcases ite_ok h with hask | ⟨hno, h⟩
  · exact .inl hask
  · refine .inr ⟨hno, ?_⟩
    obtain ⟨⟨opPhase, bid⟩, hact, h⟩ := bind_ok h
    obtain ⟨phase, hph, h⟩ := bind_ok h
    obtain ⟨st, hsto, h⟩ := bind_ok h
    obtain ⟨⟨pend, stored', mid⟩, hkids, h⟩ := bind_ok h
    obtain ⟨o, ho, htrn, rfl, hcur⟩ := loadActiveBatch_ok hact
    have hph : o.phase.prepare? = some phase := require_ok hph
    obtain ⟨hown, hall⟩ := loadPreparedEffects_ok hsto
    have hmem : ∀ e ∈ db.orderedChildren bid, e ∈ db.effects :=
      fun e he => (mem_orderedChildren.mp he).1
    obtain ⟨hacc, hpending, hrows, htable, hmid⟩ :=
      prepareChildren_ok hmem (orderedChildren_nodup db bid) hall hkids
    simp only at hpending hrows htable hmid
    rw [prepareAmong_orderedChildren] at htable
    have hcanc : o.phase.isCancellable = true := by
      rw [OperationPhase.eq_of_prepare? hph]
      cases phase <;> rfl
    have hops : mid.operations = db.operations := by rw [hmid]
    have hnone' : mid.Unfinished := by rwa [Database.Unfinished, hops]
    have hreq : ∀ e ∈ db.effects, e.batchId = bid → e.request ≠ none := by
      intro e he heb
      have hch := mem_orderedChildren.mpr ⟨he, heb⟩
      obtain ⟨eff, _, hprep⟩ := exists_of_forall₂_of_mem hall hch
      rw [(prepared_eq_ok.mp hprep).1]
      exact Option.some_ne_none _
    have haccepts' : ∀ e ∈ db.effects, e.batchId = bid → phase.accepts e.status :=
      fun e he heb => hacc e (mem_orderedChildren.mpr ⟨he, heb⟩)
    refine ⟨⟨o, phase, bid, mid.effects, ho, htrn, hcur, hph, hown, haccepts', hreq, htable, ?_⟩⟩
    cases hemp : pend.isEmpty with
    | true =>
      simp only [hemp] at h
      refine .inr ⟨?_, ?_⟩
      · rw [List.isEmpty_iff] at hemp
        exact hpending.symm.trans hemp
      obtain ⟨hopen, h⟩ := ensure_bind_ok h
      obtain ⟨db', htransition', h⟩ := bind_ok h
      cases h
      obtain ⟨o', ho', hd, rfl⟩ := transitionFinishedBatch_ok htransition' hnone'
      rw [hops] at ho'
      obtain rfl : o' = o := Option.some.inj (ho'.symm.trans ho)
      refine ⟨?_, ?_, stored'.any fun eff => eff.status = .outcomeUnknown, ?_, ?_⟩
      · rw [(dispatchesBatch_iff.mp hd).1] at hph
        exact (Option.some.inj hph).symm
      · intro e he heb hstat
        have hany := (any_status_prepared hrows).mpr ⟨e, mem_orderedChildren.mpr ⟨he, heb⟩, hstat⟩
        rw [hany] at hopen
        cases hopen
      · rw [any_status_prepared hrows]
        simp only [mem_orderedChildren, and_assoc]
      · rw [hmid]
    | false =>
      simp only [hemp] at h
      refine .inl ⟨?_, ?_⟩
      · intro hnil
        have hpend : pend = [] := hpending.trans hnil
        rw [hpend] at hemp
        cases hemp
      obtain ⟨db', hupd, h⟩ := require_bind_ok h
      cases h
      obtain ⟨o', ho', _, rfl⟩ := updateOperation_eq_some_of_outcome_none hupd (fun _ => rfl) (by
          intro row hrow hgrd
          simp only [Bool.and_eq_true, decide_eq_true_eq] at hgrd
          exact hnone' row hrow (by rw [hgrd.1.2]; exact hcanc))
      rw [hops] at ho'
      obtain rfl : o' = o := Option.some.inj (ho'.symm.trans ho)
      have hinvoke : db.pendingChildren phase bid (expected + 1) = pend :=
        hpending.symm
      rw [hinvoke, hmid]
      rfl

/-! ## Completions -/

/-- A settled child. -/
def EffectRow.settle (e : EffectRow V) (outcome : EffectOutcome V) : EffectRow V :=
  { e with status := .settled, outcome := some outcome }

/-- A child whose outcome is unknown. -/
def EffectRow.markUnknown (e : EffectRow V) : EffectRow V := { e with status := .outcomeUnknown }

/-- What the closing step of a batch did in `db`: `finished` says whether it moved the operation
on, to the row `finishBatch`. -/
def BatchClosing (db : Database V) (operation : OperationRow V) (batchId : EffectBatchId)
    (finished : Option Bool) (db' : Database V) : Prop :=
  (finished = none ∧ db' = db ∧
    ∃ e ∈ db.effects, e.batchId = batchId ∧ e.status = .dispatchStarted) ∨
  ∃ blocked, finished = some blocked ∧
    (∀ e ∈ db.effects, e.batchId = batchId → e.status ≠ .dispatchStarted) ∧
    (blocked = true ↔ ∃ e ∈ db.effects, e.batchId = batchId ∧ e.status = .outcomeUnknown) ∧
    db' = { db with operations := db.operations.put (operation.finishBatch batchId blocked) }

/-- What recording the completion of the open child `child` as `child'` did. -/
structure RecordedChild (db : Database V) (operationId : OperationId) (batchId : EffectBatchId)
    (expectedTransition : Nat) (effectId : EffectId) (update : EffectRow V → EffectRow V)
    (finished : Option Bool) (db' : Database V) where
  operation : OperationRow V
  child : EffectRow V
  operation_find : db.operations.find? operationId = some operation
  dispatches : Database.dispatchesBatch batchId expectedTransition operation = true
  child_find : db.effects.find? effectId = some child
  child_open : child.status = .dispatchStarted
  batch_owner : db.OwnsBatch operationId batchId
  no_intent : ∀ e ∈ db.effects.put (update child), e.batchId = batchId →
    e.status ≠ .intentCommitted
  closing : BatchClosing { db with effects := db.effects.put (update child) } operation batchId
    finished db'

/-- The closing step under a checked operation row. -/
theorem batchClosing_of_ok {result : Option Bool × Database V} {op : OperationRow V}
    (h : db.transitionBatchIfTerminal opId bid expected = .ok result)
    (ho : db.operations.find? opId = some op)
    (hnone : db.Unfinished) :
    db.OwnsBatch opId bid ∧ (∀ e ∈ db.effects, e.batchId = bid → e.status ≠ .intentCommitted) ∧
      BatchClosing db op bid result.1 result.2 := by
  obtain ⟨hown, hint, hcas⟩ := transitionBatchIfTerminal_ok h hnone
  refine ⟨hown, hint, ?_⟩
  rcases hcas with ⟨rfl, hopen⟩ | ⟨blocked, o, ho', _, hcls, hblk, rfl⟩
  · exact .inl ⟨rfl, rfl, hopen⟩
  · obtain rfl : o = op := Option.some.inj (ho'.symm.trans ho)
    exact .inr ⟨blocked, rfl, hcls, hblk, rfl⟩

theorem settleBatchEffect_ok {out : EffectOutcome V} {result : Bool × Database V}
    (h : db.settleBatchEffect opId bid effectId expected out = .ok result)
    (hnone : db.Unfinished) :
    ∃ finished, result.1 = finished.isSome ∧ ∃ r : RecordedChild db opId bid expected effectId
        (EffectRow.settle · out) finished result.2, r.child.batchId = bid := by
  obtain ⟨_, hreqr, h⟩ := bind_ok h
  obtain ⟨effects, hupd, h⟩ := require_bind_ok h
  obtain ⟨⟨finished, db'⟩, htrn, h⟩ := bind_ok h
  cases h
  obtain ⟨o, ho, hd⟩ := requireDispatchedBatch_ok hreqr
  obtain ⟨e, he, hgrd, rfl⟩ := updateOne_eq_some.mp hupd
  simp only [Bool.and_eq_true, decide_eq_true_eq] at hgrd
  obtain ⟨hown, hint, hcls⟩ := batchClosing_of_ok htrn ho hnone
  exact ⟨finished, rfl, ⟨o, e, ho, hd, he, hgrd.2, hown, hint, hcls⟩, hgrd.1⟩

theorem recordBatchEffectUnknown_ok {result : Bool × Database V}
    (h : db.recordBatchEffectUnknown opId bid effectId expected = .ok result)
    (hnone : db.Unfinished) :
    ∃ finished, result.1 = finished.isSome ∧ Nonempty (RecordedChild db opId bid expected effectId
        EffectRow.markUnknown finished result.2) := by
  obtain ⟨_, hreqr, h⟩ := bind_ok h
  obtain ⟨mid, hupd, h⟩ := bind_ok h
  obtain ⟨⟨finished, db'⟩, htrn, h⟩ := bind_ok h
  cases h
  obtain ⟨o, ho, hd⟩ := requireDispatchedBatch_ok hreqr
  obtain ⟨e, he, hopen, rfl⟩ := updateEffectStatus_ok hupd
  obtain ⟨hown, hint, hcls⟩ := batchClosing_of_ok htrn ho hnone
  exact ⟨finished, rfl, ⟨⟨o, e, ho, hd, he, hopen, hown, hint, hcls⟩⟩⟩

theorem finishEffectBatchAttempt_ok {result : EffectBatchFinish × Database V}
    (h : db.finishEffectBatchAttempt opId bid expected = .ok result)
    (hnone : db.Unfinished) :
    ∃ o, db.operations.find? opId = some o ∧ Database.dispatchesBatch bid expected o = true ∧
      ((db.cancellationRequested opId = true ∧ result = (.cancellationPending, db)) ∨
        (db.cancellationRequested opId = false ∧ db.OwnsBatch opId bid ∧
          (∀ e ∈ db.effects, e.batchId = bid → e.status ≠ .intentCommitted) ∧
          ∃ finished, BatchClosing db o bid finished result.2)) := by
  obtain ⟨_, hreqr, h⟩ := bind_ok h
  obtain ⟨o, ho, hd⟩ := requireDispatchedBatch_ok hreqr
  refine ⟨o, ho, hd, ?_⟩
  rcases ite_ok h with hask | ⟨hno, h⟩
  · exact .inl hask
  · obtain ⟨⟨finished, db'⟩, htrn, h⟩ := bind_ok h
    cases h
    obtain ⟨hown, hint, hcls⟩ := batchClosing_of_ok htrn ho hnone
    exact .inr ⟨hno, hown, hint, finished, hcls⟩

/-- Closing a dispatched batch for a cancellation: every open child became unknown. -/
theorem closeDispatchedBatchForCancellation_ok {result : OperationPhase × Database V}
    (h : db.closeDispatchedBatchForCancellation opId bid expected = .ok result)
    (hnone : db.Unfinished) :
    ∃ o blocked, db.operations.find? opId = some o ∧
      Database.dispatchesBatch bid expected o = true ∧
      db.OwnsBatch opId bid ∧
      (∀ e ∈ db.effects, e.batchId = bid → e.status ≠ .intentCommitted) ∧
      (blocked = true ↔ ∃ e ∈ db.effects, e.batchId = bid ∧
        (Database.closeChild bid e).status = .outcomeUnknown) ∧
      result.1 = (o.finishBatch bid blocked).phase ∧
      result.2 = { db with
        effects := db.effects.mapRows (Database.closeChild bid) (closeChild_effectId bid)
        operations := db.operations.put (o.finishBatch bid blocked) } := by
  obtain ⟨_, hreqr, h⟩ := bind_ok h
  obtain ⟨statuses, hstats, h⟩ := bind_ok h
  obtain ⟨hcls, h⟩ := ensure_bind_ok h
  obtain ⟨db', htrn, h⟩ := bind_ok h
  cases h
  obtain ⟨o, ho, hd⟩ := requireDispatchedBatch_ok hreqr
  obtain ⟨hown, hcontains⟩ := loadBatchStatuses_ok hstats
  obtain ⟨o', ho', _, rfl⟩ := transitionFinishedBatch_ok htrn hnone
  obtain rfl : o' = o := Option.some.inj (ho'.symm.trans ho)
  have hbat : ∀ e : EffectRow V, (Database.closeChild bid e).batchId = e.batchId := by
    intro e
    unfold Database.closeChild
    split <;> rfl
  refine ⟨o', _, ho, hd, hown, ?_, ?_, rfl, rfl⟩
  · intro e he heb hstat
    have hsame : Database.closeChild bid e = e := if_neg (by rw [hstat]; simp)
    have hint : statuses.contains .intentCommitted = true :=
      (hcontains _).mpr ⟨_, mem_map_of_mem he, by rw [hbat, heb], by rw [hsame, hstat]⟩
    rw [hint] at hcls
    cases hcls
  · refine (hcontains .outcomeUnknown).trans ⟨?_, ?_⟩
    · rintro ⟨q, hq, hqb, hstat⟩
      obtain ⟨e, he, rfl⟩ := mem_map.mp hq
      exact ⟨e, he, by rw [← hbat]; exact hqb, hstat⟩
    · rintro ⟨e, he, heb, hstat⟩
      exact ⟨_, mem_map_of_mem he, by rw [hbat, heb], hstat⟩

/-! ## Intents -/

@[simp] theorem map_position_effectRows (bid : EffectBatchId) (newId : Nat → EffectId)
    (pos : Nat) (effects : List (NewEffectIntent V)) :
    (effectRows bid newId pos effects).map EffectRow.position =
      List.range' pos effects.length := by
  induction effects generalizing newId pos with
  | nil => rfl
  | cons eff rest ih => simp only [effectRows, map_cons, ih, length_cons, range'_succ]

/-- A child of a new batch: not dispatched, with its request and one of the intents. -/
theorem mem_effectRows {pos : Nat} {effects : List (NewEffectIntent V)}
    (h : e ∈ effectRows bid newId pos effects) :
    e.batchId = bid ∧ e.status = .intentCommitted ∧ e.dispatchCount = 0 ∧
      e.outcome = none ∧ ∃ intent ∈ effects, e.binding = intent.binding ∧
        e.bindingRevision = intent.bindingRevision ∧ e.request = some intent.request ∧
        e.recovery = intent.recovery := by
  induction effects generalizing newId pos with
  | nil => cases h
  | cons eff rest ih =>
    rcases mem_cons.mp h with rfl | hrest
    · exact ⟨rfl, rfl, rfl, rfl, eff, mem_cons_self, rfl, rfl, rfl, rfl⟩
    · obtain ⟨hb, hs, hc, ho, intent, hmem, hfields⟩ := ih hrest
      exact ⟨hb, hs, hc, ho, intent, mem_cons_of_mem _ hmem, hfields⟩

theorem insertEffects_ok {rows : List (EffectRow V)} (h : db.insertEffects rows = .ok db') :
    db'.effects.rows = db.effects.rows ++ rows ∧
      db' = { db with effects := db'.effects } := by
  induction rows generalizing db with
  | nil =>
    cases h
    exact ⟨by simp, rfl⟩
  | cons row rest ih =>
    obtain ⟨mid, hfst, hrest⟩ := bind_ok h
    obtain ⟨_, _, hfst⟩ := bind_ok hfst
    obtain ⟨effects, hins, hfst⟩ := require_bind_ok hfst
    cases hfst
    obtain ⟨hrows, hdb⟩ := ih hrest
    refine ⟨?_, by rw [hdb]⟩
    rw [hrows, (insert_eq_some hins).2.2, append_assoc, singleton_append]

/-- The row of an operation that committed a new batch. -/
def OperationRow.intend (o : OperationRow V) (batchId : EffectBatchId)
    (checkpoint : Checkpoint V) : OperationRow V :=
  { o with
    phase := .effectIntent
    checkpoint := some checkpoint
    currentEffectBatchId := some batchId
    inputEffectBatchId := none
    nextEffectBatchPosition := o.nextEffectBatchPosition + 1
    transitionVersion := o.transitionVersion + 1 }

/-- What the commit of an effect batch did when no cancellation was requested. -/
structure IntendedBatch (db : Database V) (operationId : OperationId) (expectedTransition : Nat)
    (batchId : EffectBatchId) (newId : Nat → EffectId) (intent : NewEffectBatchIntent V)
    (db' : Database V) where
  operation : OperationRow V
  effectBatches : Table EffectBatchRow.batchId
  effects : Table (EffectRow.effectId (V := V))
  operation_find : db.operations.find? operationId = some operation
  phase_eq : operation.phase = .needDecision
  transition_eq : operation.transitionVersion = expectedTransition
  fresh : ∀ b ∈ db.effectBatches, b.batchId ≠ batchId
  nonempty : intent.effects ≠ []
  effectBatches_eq : effectBatches.rows = db.effectBatches.rows ++
    [⟨batchId, operationId, operation.nextEffectBatchPosition⟩]
  effects_eq : effects.rows = db.effects.rows ++ effectRows batchId newId 0 intent.effects
  db'_eq : db' = { db with
    effectBatches
    effects
    operations := db.operations.put (operation.intend batchId intent.checkpoint) }

theorem commitEffectBatchIntent_ok {intent : NewEffectBatchIntent V}
    {result : EffectIntentCommit × Database V} (h : db.commitEffectBatchIntent opId
      expected bid newId intent = .ok result) (hnone : db.Unfinished) :
    (db.cancellationRequested opId = true ∧ result = (.cancellationPending, db)) ∨
      (db.cancellationRequested opId = false ∧ result.1 = .committed ∧
        Nonempty (IntendedBatch db opId expected bid newId intent
          result.2)) := by
  obtain ⟨hnonempty, h⟩ := ensure_bind_ok h
  simp only [Bool.not_eq_true', isEmpty_eq_false_iff] at hnonempty
  rcases ite_ok h with hask | ⟨hno, h⟩
  · exact .inl hask
  · obtain ⟨o, ho, h⟩ := bind_ok h
    obtain ⟨effectBatches, hbat, h⟩ := require_bind_ok h
    obtain ⟨mid, hins, h⟩ := bind_ok h
    obtain ⟨db', hupd, h⟩ := require_bind_ok h
    cases h
    obtain ⟨ho, hgrd⟩ := Option.filter_eq_some_iff.mp (require_ok ho)
    simp only [Bool.and_eq_true, decide_eq_true_eq] at hgrd
    obtain ⟨hfsh, _, hbats⟩ := insert_eq_some hbat
    obtain ⟨heffs, hmid⟩ := insertEffects_ok hins
    have hops : mid.operations = db.operations := by rw [hmid]
    obtain ⟨o', ho', _, rfl⟩ := updateOperation_eq_some_of_outcome_none hupd (fun _ => rfl) (by
        intro row hrow hg
        simp only [Bool.and_eq_true, decide_eq_true_eq] at hg
        rw [hops] at hrow
        exact hnone row hrow (by rw [hg.1]; rfl))
    rw [hops] at ho'
    obtain rfl : o' = o := Option.some.inj (ho'.symm.trans ho)
    refine .inr ⟨hno, rfl, ⟨⟨o', effectBatches, mid.effects, ho, hgrd.1, hgrd.2, hfsh,
      hnonempty, hbats, heffs, ?_⟩⟩⟩
    rw [hmid]
    rfl

end Renoa.Kernel
