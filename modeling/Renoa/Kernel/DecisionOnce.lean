import Renoa.Kernel.CommitCase
import Renoa.Kernel.Confluence

/-!
# Each settled batch is decided on once

An operation awaits the batch it dispatches until it decides on it (`OperationRow.awaited`). A step
of the kernel keeps the awaited batch, ends the operation by cancellation or abandonment, or is the
commit of a loop decision, whose input was the batch. `Standing` counts the decisions on a batch
along a run: none while it is awaited, and one afterwards unless its operation was cancelled or a
child of it is unknown.
-/

namespace Renoa.Kernel

open Foundation List Table

variable {V : Type} {db db' : Database V} {s : SessionId} {o : OperationRow V}
  {bid : EffectBatchId} {b : EffectBatchRow} {w w' : World V} {act : ActiveOperation V}
  {o' : OperationRow V} {input : LoopInput V}

/-- The batch the operation has not decided on yet. -/
def OperationRow.awaited (o : OperationRow V) : Option EffectBatchId :=
  o.currentEffectBatchId.or o.inputEffectBatchId

/-- What a step other than a decision does to the awaited batch of an operation. -/
inductive AwaitStep (o o' : OperationRow V) : Prop
  | kept (hawaited : o'.awaited = o.awaited) (houtcome : o'.outcome = o.outcome)
  | cancelled (hawaited : o'.awaited = none) (houtcome : o'.outcome = some .cancelled)
  | abandoned (hawaited : o'.awaited = none) (hphase : o.phase = .outcomeUnknown)

theorem AwaitStep.awaited_ne (h : AwaitStep o o') (hne : o.awaited ≠ some bid) :
    o'.awaited ≠ some bid := by
  cases h with
  | kept hkept _ => rwa [hkept]
  | cancelled hgone _ | abandoned hgone _ => rw [hgone]; nofun

/-- No operation has decided on a batch between the two databases. -/
structure Undecided (db db' : Database V) : Prop where
  batches : db'.effectBatches = db.effectBatches
  operation : ∀ o ∈ db.operations, ∃ o' ∈ db'.operations,
    o'.operationId = o.operationId ∧ AwaitStep o o'

theorem undecided_refl (db : Database V) : Undecided db db where
  batches := rfl
  operation o ho := ⟨o, ho, rfl, .kept rfl rfl⟩

theorem undecided_of_put (ho : o ∈ db.operations) (hops : db'.operations = db.operations.put o')
    (hbats : db'.effectBatches = db.effectBatches) (hid : o'.operationId = o.operationId)
    (hstep : AwaitStep o o') : Undecided db db' := by
  refine ⟨hbats, fun q hq => ?_⟩
  rw [hops]
  exact exists_mem_put ho hid hq (fun heq => heq ▸ ⟨hid, hstep⟩) ⟨rfl, .kept rfl rfl⟩

/-- Between two decisions the awaited batch stays; a finished one is awaited as input. -/
theorem RowWrite.awaitStep (h : RowWrite db o o') :
    o'.operationId = o.operationId ∧ AwaitStep o o' := by
  cases h with
  | activated | dispatched => exact ⟨rfl, .kept rfl rfl⟩
  | finished blocked _ hcur =>
    refine ⟨rfl, .kept ?_ rfl⟩
    unfold OperationRow.awaited
    rw [hcur]
    cases blocked <;> rfl

theorem Rewritten.undecided (r : Rewritten db db') : Undecided db db' := by
  rcases r.operations with hsame | ⟨o, ho, o', hwrt, hput⟩
  · exact ⟨r.effectBatches, fun o ho => ⟨o, hsame ▸ ho, rfl, .kept rfl rfl⟩⟩
  · obtain ⟨hid, hstep⟩ := hwrt.awaitStep
    exact undecided_of_put ho hput r.effectBatches hid hstep

theorem Recorded.undecided {opId : OperationId} {p : PendingEffect V}
    {compl : EffectCompletion V} {finished : Bool}
    (h : Recorded db opId p compl finished db') : Undecided db db' := by
  cases h with
  | retried => exact undecided_refl db
  | closed _ r _ => exact r.rewritten.undecided

/-- A call decides on nothing. -/
theorem Called.undecided (h : Called db db') : Undecided db db' := by
  cases h with
  | unchanged heq =>
    rw [heq]
    exact undecided_refl db
  | admitted a =>
    exact ⟨by rw [a.db'_eq], fun o ho => ⟨o, a.mem_operations.mpr (.inl ho), rfl, .kept rfl rfl⟩⟩
  | registered r =>
    exact ⟨r.effectBatches_eq, fun o ho => ⟨o, r.operations_eq ▸ ho, rfl, .kept rfl rfl⟩⟩

/-! ## The steps of a driver -/

theorem undecided_transact {α : Type} {t : Except KernelError (α × Database V)}
    {k : α → Except KernelError (Control V)}
    (h : ∀ a db', t = .ok (a, db') → Undecided db db') : Undecided db (transact db t k).1 := by
  cases t with
  | error e => exact undecided_refl db
  | ok r => exact h r.1 r.2 rfl

/-- A transaction that only reads. -/
theorem undecided_read {α β : Type} {t : Except KernelError α} {f : α → β} : ∀ b db', (do
      let a ← t
      return (f a, db)) = Except.ok (b, db') → Undecided db db' := by
  intro b db' hrun
  obtain ⟨_, _, hrun⟩ := bind_ok hrun
  cases hrun
  exact undecided_refl db

/-- Every step of a driver but the commit of a decision. -/
theorem undecided_step (h : Consistent db) {d : DriverState V}
    (hdeciding : ∀ act input, d ≠ .deciding act input) (runtime : Runtime) (ch : Choice V) :
    Undecided db (d.step db s runtime ch false).1 := by
  cases d with
  | activating => exact undecided_transact fun _ _ hrun => (rewritten_activate h hrun).undecided
  | checking act =>
    exact undecided_transact fun _ _ hrun => (rewritten_loadRequestedCancellation h hrun).undecided
  | cancelling act pend =>
    refine undecided_transact fun _ _ hrun => ?_
    iterate 3 obtain ⟨_, _, hrun⟩ := bind_ok hrun
    obtain ⟨_, hcom, hrun⟩ := bind_ok hrun
    cases hrun
    obtain ⟨_, e, _⟩ := commitCancellation_ok hcom
    exact undecided_of_put (mem_of_find? e.operation_find)
      (congrArg Database.operations e.db'_eq) (congrArg (·.effectBatches) e.db'_eq) rfl
      (.cancelled rfl rfl)
  | reading act => exact undecided_transact undecided_read
  | preparing act =>
    exact undecided_transact fun _ _ hrun => (rewritten_prepareEffectBatch h hrun).undecided
  | invoking act round =>
    have hdb : ((DriverState.invoking act round).step db s runtime ch false).1 = db := by
      rw [DriverState.step]
      split <;> rfl
    rw [hdb]
    exact undecided_refl db
  | finishing act bid t =>
    exact undecided_transact fun _ _ hrun => (rewritten_finishEffectBatchAttempt h hrun).undecided
  | loading act evs => exact undecided_transact undecided_read
  | deciding act input => exact absurd rfl (hdeciding act input)
  | reloading act | abandoning opId => exact undecided_transact undecided_read
  | closing opId pend =>
    refine undecided_transact fun _ _ hrun => ?_
    iterate 3 obtain ⟨_, _, hrun⟩ := bind_ok hrun
    obtain ⟨_, _, e, _, hph, _⟩ := commitUnknownEffectAbandonment_ok hrun
    exact undecided_of_put (mem_of_find? e.operation_find)
      (congrArg Database.operations e.db'_eq) (congrArg (·.effectBatches) e.db'_eq) rfl
      (.abandoned rfl hph)

/-! ## A committed decision -/

/-- The operation `o` decided between the two databases: it awaits none of the stored batches any
more, and a new batch is one it awaits. -/
structure Decides (o : OperationRow V) (db db' : Database V) : Prop where
  own : ∃ o' ∈ db'.operations, o'.operationId = o.operationId ∧
    (∀ b ∈ db.effectBatches, o'.awaited ≠ some b.batchId) ∧
    ∀ b ∈ db'.effectBatches, b ∉ db.effectBatches → b.operationId = o.operationId ∧
      o'.awaited = some b.batchId ∧ ∀ q ∈ db.effectBatches, q.batchId ≠ b.batchId
  other : ∀ q ∈ db'.operations, q.operationId ≠ o.operationId → q ∈ db.operations

/-- An operation at a decision awaits its input batch only. -/
theorem awaited_of_needDecision (h : o.WellFormed) (hph : o.phase = .needDecision) :
    o.currentEffectBatchId = none ∧ o.awaited = o.inputEffectBatchId := by
  have hnone := h.current_eq_none (by rw [hph]; rfl)
  exact ⟨hnone, by rw [OperationRow.awaited, hnone, Option.none_or]⟩

/-- The row of a decision without effects awaits nothing. -/
theorem decides_of_put (ho : o ∈ db.operations) (h : o.WellFormed)
    (hph : o.phase = .needDecision) (write : DecisionWrite V)
    (hops : db'.operations = db.operations.put (o.decided write))
    (hbats : db'.effectBatches = db.effectBatches) : Decides o db db' := by
  have hawt : (o.decided write).awaited = none := by
    rw [OperationRow.awaited, show (o.decided write).currentEffectBatchId = none from
      (awaited_of_needDecision h hph).1]
    rfl
  refine ⟨⟨o.decided write, ?_, rfl, fun b _ hsome => ?_, fun b hb hnew => ?_⟩, ?_⟩
  · rw [hops]
    exact mem_put_self ho rfl
  · rw [hawt] at hsome
    cases hsome
  · exact absurd (hbats ▸ hb) hnew
  · rw [hops]
    intro q hq hne
    rcases mem_put_cases hq with rfl | ⟨hq, _⟩
    · exact absurd rfl hne
    · exact hq

theorem AppliedDecision.decides (h : Consistent db) {ch : Choice V}
    {out : Option OperationOutcome} (happlied : AppliedDecision db s act ch out db')
    (ho : db.operations.find? act.operationId = some o) (hph : o.phase = .needDecision) :
    (db.cancellationRequested act.operationId = true ∧ db' = db) ∨
      (db.cancellationRequested act.operationId = false ∧ Decides o db db') := by
  have hmem : o ∈ db.operations := mem_of_find? ho
  have hrow := h.operation_row o hmem
  cases happlied with
  | cancelled hask => exact .inl ⟨hask, rfl⟩
  | intended i hfree _ =>
    obtain rfl : o = i.operation := Option.some.inj (ho.symm.trans i.operation_find)
    refine .inr ⟨hfree, ⟨_, i.intend_mem, rfl, fun b hb hsome => ?_, fun b hb hnew => ?_⟩, ?_⟩
    · exact i.fresh b hb (Option.some.inj hsome).symm
    · rcases i.mem_effectBatches.mp hb with hold | rfl
      · exact absurd hold hnew
      · exact ⟨i.operationId_eq.symm, rfl, i.fresh⟩
    · intro q hq hne
      rcases i.mem_operations.mp hq with rfl | ⟨hq, _⟩
      · exact absurd rfl hne
      · exact hq
  | continued write c hfree _ _ =>
    obtain rfl : o = c.operation := Option.some.inj (ho.symm.trans c.operation_find)
    exact .inr ⟨hfree, decides_of_put hmem hrow hph write
      (congrArg Database.operations c.db'_eq) (congrArg (·.effectBatches) c.db'_eq)⟩
  | @ended _ write _ e hfree _ =>
    obtain rfl : o = e.operation := Option.some.inj (ho.symm.trans e.operation_find)
    exact .inr ⟨hfree, decides_of_put hmem hrow hph write
      (congrArg Database.operations e.db'_eq) (congrArg (·.effectBatches) e.db'_eq)⟩

/-! ## Counting the decisions on a batch -/

def LoopInput.decidesOn (input : LoopInput V) (batchId : EffectBatchId) : Bool :=
  decide (input.effectBatch.map SettledEffectBatch.batchId = some batchId)

/-- The committed decisions a batch was given to. -/
def World.decisionsOn (w : World V) (batchId : EffectBatchId) : Nat :=
  w.decisions.countP fun input => input.decidesOn batchId

/-- A child of the batch has an unknown outcome. -/
def HasUnknown (db : Database V) (b : EffectBatchRow) : Prop :=
  ∃ e ∈ db.effects, e.batchId = b.batchId ∧ e.status = .outcomeUnknown

/-- How often the batch `b` of the operation `o` was decided on. -/
inductive Standing (w : World V) (o : OperationRow V) (b : EffectBatchRow) : Prop
  | awaited (hawaited : o.awaited = some b.batchId) (hcount : w.decisionsOn b.batchId = 0)
  | decided (hawaited : o.awaited ≠ some b.batchId) (hcount : w.decisionsOn b.batchId = 1)
  | unused (hawaited : o.awaited ≠ some b.batchId) (hcount : w.decisionsOn b.batchId = 0)
      (hended : o.outcome = some .cancelled ∨ HasUnknown w.db b)

structure DecisionInv (w : World V) : Prop where
  stored : ∀ batchId, w.decisionsOn batchId ≠ 0 → ∃ b ∈ w.db.effectBatches, b.batchId = batchId
  standing : ∀ b ∈ w.db.effectBatches, ∀ o ∈ w.db.operations, o.operationId = b.operationId →
    Standing w o b

theorem HasUnknown.committed (h : HasUnknown db b) (hcom : Committed db db') :
    HasUnknown db' b := by
  obtain ⟨e, he, heb, hstat⟩ := h
  obtain ⟨e', he', hstep⟩ := hcom.effect_step he
  exact ⟨e', he', hstep.batchId_eq.trans heb, (hstep.closed_stays (.inr hstat)).trans hstat⟩

/-- A blocked operation awaits a batch with an unknown child. -/
theorem Consistent.hasUnknown (h : Consistent db) (ho : o ∈ db.operations)
    (hph : o.phase = .outcomeUnknown) (hb : b ∈ db.effectBatches)
    (hawt : o.awaited = some b.batchId) : HasUnknown db b := by
  have hinp := (h.operation_row o ho).input_eq_none (by rw [hph]; decide)
  rw [OperationRow.awaited, hinp, Option.or_none] at hawt
  obtain ⟨b', hb', hid, hown, hpos⟩ := h.current_last o ho _ hawt
  obtain rfl : b' = b := key_inj hb' hb hid
  exact (h.batch_consistent o ho b' hb hown).unknown hpos hph

/-! ## The invariant -/

theorem decisionInv_undecided (hinv : DecisionInv w) (h : Consistent w.db)
    (hcom : Committed w.db w'.db) (hundecided : Undecided w.db w'.db)
    (hdecs : w'.decisions = w.decisions) : DecisionInv w' := by
  have hcounts : ∀ bid, w'.decisionsOn bid = w.decisionsOn bid := by
    intro bid
    rw [World.decisionsOn, hdecs]
    rfl
  refine ⟨fun bid hne => ?_, fun b hb o' ho' hown => ?_⟩
  · rw [hcounts] at hne
    rw [hundecided.batches]
    exact hinv.stored bid hne
  rw [hundecided.batches] at hb
  obtain ⟨o, ho, hoid⟩ := h.batch_owner b hb
  obtain ⟨q, hq, hqid, hstep⟩ := hundecided.operation o ho
  obtain rfl : o' = q := key_inj ho' hq (hown.trans (hoid.symm.trans hqid.symm))
  have hcnt := hcounts b.batchId
  cases hinv.standing b hb o ho hoid with
  | awaited hawt hzero =>
    rw [hzero] at hcnt
    cases hstep with
    | kept hkept _ => exact .awaited (hkept.trans hawt) hcnt
    | cancelled hgone hout => exact .unused (by rw [hgone]; nofun) hcnt (.inl hout)
    | abandoned hgone hph =>
      exact .unused (by rw [hgone]; nofun) hcnt
        (.inr ((h.hasUnknown ho hph hb hawt).committed hcom))
  | decided hawt hone => exact .decided (hstep.awaited_ne hawt) (hcnt.trans hone)
  | unused hawt hzero hend =>
    refine .unused (hstep.awaited_ne hawt) (hcnt.trans hzero) ?_
    rcases hend with hcanc | hunk
    · cases hstep with
      | kept _ hout => exact .inl (hout.trans hcanc)
      | cancelled _ hout => exact .inl hout
      | abandoned _ hph =>
        have hopen := h.outcome_none o ho (by rw [hph]; rfl)
        rw [hopen] at hcanc
        cases hcanc
    · exact .inr (hunk.committed hcom)

theorem decisionInv_decides (hinv : DecisionInv w) (h : Consistent w.db)
    (hcom : Committed w.db w'.db) (ho : o ∈ w.db.operations) (hph : o.phase = .needDecision)
    (hdecides : Decides o w.db w'.db)
    (hinp : input.effectBatch.map SettledEffectBatch.batchId = o.inputEffectBatchId)
    (hdecs : w'.decisions = input :: w.decisions) : DecisionInv w' := by
  obtain ⟨_, hawaits⟩ := awaited_of_needDecision (h.operation_row o ho) hph
  have hcounts : ∀ bid, w'.decisionsOn bid =
      w.decisionsOn bid + if o.awaited = some bid then 1 else 0 := by
    intro bid
    rw [World.decisionsOn, hdecs, countP_cons, hawaits, ← hinp]
    simp [LoopInput.decidesOn, World.decisionsOn]
  have hsto : ∀ bid, o.awaited = some bid →
      ∃ b ∈ w.db.effectBatches, b.batchId = bid ∧ b.operationId = o.operationId := by
    intro bid hsome
    rw [hawaits] at hsome
    obtain ⟨b, hb, hid, hown, _⟩ := h.input_last o ho bid hsome
    exact ⟨b, hb, hid, hown⟩
  obtain ⟨o', ho', hoid', hfree, hnew⟩ := hdecides.own
  refine ⟨fun bid hne => ?_, fun b hb q hq hown => ?_⟩
  · have hold : ∃ b ∈ w.db.effectBatches, b.batchId = bid := by
      by_cases hsome : o.awaited = some bid
      · obtain ⟨b, hb, hid, _⟩ := hsto bid hsome
        exact ⟨b, hb, hid⟩
      · rw [hcounts, if_neg hsome, Nat.add_zero] at hne
        exact hinv.stored bid hne
    obtain ⟨b, hb, hid⟩ := hold
    exact ⟨b, (hcom.batch_kept hb).1, hid⟩
  by_cases hbold : b ∈ w.db.effectBatches
  · by_cases hqo : q.operationId = o.operationId
    · -- a batch of the deciding operation
      obtain rfl : q = o' := key_inj hq ho' (hqo.trans hoid'.symm)
      have hgone := hfree b hbold
      cases hinv.standing b hbold o ho (hqo.symm.trans hown) with
      | awaited hawt hzero =>
        refine .decided hgone ?_
        rw [hcounts, hzero, if_pos hawt]
      | decided hawt hone =>
        refine .decided hgone ?_
        rw [hcounts, hone, if_neg hawt]
      | unused hawt hzero hend =>
        refine .unused hgone ?_ ?_
        · rw [hcounts, hzero, if_neg hawt]
        · rcases hend with hcanc | hunk
          · have hopen := h.outcome_none o ho (by rw [hph]; rfl)
            rw [hopen] at hcanc
            cases hcanc
          · exact .inr (hunk.committed hcom)
    · -- a batch of another operation
      have hq := hdecides.other q hq hqo
      have hne : o.awaited ≠ some b.batchId := by
        intro hsome
        obtain ⟨b', hb', hid, hown'⟩ := hsto _ hsome
        rw [key_inj hb' hbold hid] at hown'
        exact hqo (hown.trans hown')
      have hcnt : w'.decisionsOn b.batchId = w.decisionsOn b.batchId := by
        rw [hcounts, if_neg hne, Nat.add_zero]
      cases hinv.standing b hbold q hq hown with
      | awaited hawt hzero => exact .awaited hawt (hcnt.trans hzero)
      | decided hawt hone => exact .decided hawt (hcnt.trans hone)
      | unused hawt hzero hend =>
        exact .unused hawt (hcnt.trans hzero) (hend.imp_right fun hunk => hunk.committed hcom)
  · -- the batch of this decision
    obtain ⟨hbown, hawt, hfsh⟩ := hnew b hb hbold
    obtain rfl : q = o' := key_inj hq ho' (hown.trans (hbown.trans hoid'.symm))
    refine .awaited hawt ?_
    have hne : o.awaited ≠ some b.batchId := by
      intro hsome
      obtain ⟨b', hb', hid, _⟩ := hsto _ hsome
      exact hfsh b' hb' hid
    rw [hcounts, if_neg hne, Nat.add_zero]
    by_contra hcnt
    obtain ⟨b', hb', hid⟩ := hinv.stored b.batchId hcnt
    exact hfsh b' hb' hid

/-- A driver's step counts as a decision when it was one and did not fail. -/
theorem settle_decisions (w : World V) (lease : Lease V) (d : DriverState V) (db : Database V)
    (res : Except KernelError (Control V)) :
    (w.settle s lease d db res).decisions =
      if res.toBool then w.decided d ++ w.decisions else w.decisions := by
  rcases res with e | (state | answer) <;> rfl

theorem decisionInv_deciding (h : WorldInv w) (hinv : DecisionInv w) {lease : Lease V}
    {ch : Choice V} (hkn : Knows w.db s [] (.deciding act input))
    {r : Database V × Except KernelError (Control V)}
    (hstep : (DriverState.deciding act input).step w.db s lease.runtime ch false = r)
    (hcom : Committed w.db r.1) :
    DecisionInv (w.settle s lease (.deciding act input) r.1 r.2) := by
  obtain ⟨⟨o, ho, hid, _, _, htrack, hph⟩, _, hinp⟩ := hkn
  have hfind : w.db.operations.find? act.operationId = some o := find?_eq_some.mpr ⟨ho, hid⟩
  have hcomm : Committed w.db (w.settle s lease (.deciding act input) r.1 r.2).db := by
    rw [World.db_settle]
    exact hcom
  subst hstep
  cases ht : (do
      let dec ← ch.decision.mapError .loop
      w.db.applyLoopDecision s act lease.runtime ch dec :
        Except KernelError (Option OperationOutcome × Database V)) with
  | error e =>
    have hstep : (DriverState.deciding act input).step w.db s lease.runtime ch false =
        (w.db, .error e) := by
      simp only [DriverState.step, ht, transact]
    rw [hstep] at hcomm ⊢
    exact decisionInv_undecided hinv h.consistent hcomm (undecided_refl _) rfl
  | ok res =>
    obtain ⟨out, db'⟩ := res
    have hstep : ∃ control, (DriverState.deciding act input).step w.db s lease.runtime ch
        false = (db', .ok control) := by
      simp only [DriverState.step, ht]
      cases out <;> exact ⟨_, rfl⟩
    obtain ⟨control, hstep⟩ := hstep
    rw [hstep] at hcomm ⊢
    obtain ⟨dec, _, happly⟩ := bind_ok ht
    have hdecs := settle_decisions (s := s) w lease (.deciding act input) db' (.ok control)
    rcases (applyLoopDecision_ok h.consistent happly).decides h.consistent hfind hph with
      ⟨hask, hdb⟩ | ⟨hfree, hdecides⟩
    · apply decisionInv_undecided hinv h.consistent hcomm
      · rw [World.db_settle, show db' = w.db from hdb]
        exact undecided_refl _
      · rw [hdecs]
        show (if w.db.cancellationRequested act.operationId then [] else [input]) ++ _ = _
        rw [hask, if_pos rfl, nil_append]
    · refine decisionInv_decides hinv h.consistent hcomm ho hph ?_ (hinp.trans htrack.input.symm) ?_
      · rw [World.db_settle]
        exact hdecides
      · rw [hdecs]
        show (if w.db.cancellationRequested act.operationId then [] else [input]) ++ _ = _
        rw [hfree, if_neg Bool.false_ne_true, singleton_append]

theorem decisionInv_moves (h : WorldInv w) (hinv : DecisionInv w) (hmvs : Moves w w') :
    DecisionInv w' := by
  cases hmvs with
  | called hcall =>
    exact decisionInv_undecided hinv h.consistent hcall.committed hcall.undecided rfl
  | @stepped s lease d ch hls hdrv hidle =>
    obtain ⟨r, hstep, hinvStep, _, heq⟩ := advance_idle h ch hls hdrv hidle
    have hkn := (h.lease s lease hls).knows d hdrv
    rw [heq]
    by_cases hdeciding : ∃ act input, d = .deciding act input
    · obtain ⟨act, input, rfl⟩ := hdeciding
      exact decisionInv_deciding h hinv hkn hstep hinvStep.moved.committed
    · have hne : ∀ act input, d ≠ .deciding act input :=
        fun act input heq => hdeciding ⟨act, input, heq⟩
      have hnone : w.decided d = [] := by
        cases d with
        | deciding act input => exact absurd rfl (hne act input)
        | _ => rfl
      apply decisionInv_undecided hinv h.consistent
      · rw [World.db_settle]
        exact hinvStep.moved.committed
      · rw [World.db_settle, ← hstep]
        exact undecided_step h.consistent hne lease.runtime ch
      · rw [settle_decisions, hnone, nil_append, ite_self]
  | recorded _ _ _ _ hrec =>
    exact decisionInv_undecided hinv h.consistent (hrec.changedBy h.consistent).committed
      hrec.undecided rfl
  | _ => exact decisionInv_undecided hinv h.consistent (.unchanged rfl) (undecided_refl _) rfl

theorem decisionInv_initial : DecisionInv (World.initial : World V) where
  stored _ hne := absurd rfl hne
  standing _ hb := absurd hb not_mem_empty

/-- A batch whose children are all settled, of an operation that was not cancelled: no decision
while it is awaited, and exactly one afterwards. -/
theorem Standing.decisionsOn_eq (h : Standing w o b)
    (hdone : ∀ e ∈ w.db.childrenOf b.batchId, e.status = .settled)
    (hout : o.outcome ≠ some .cancelled) :
    w.decisionsOn b.batchId = if o.awaited = some b.batchId then 0 else 1 := by
  cases h with
  | awaited hawt hcnt => rw [hcnt, if_pos hawt]
  | decided hawt hcnt => rw [hcnt, if_neg hawt]
  | unused _ _ hend =>
    rcases hend with hcanc | ⟨e, he, heb, hstat⟩
    · exact absurd hcanc hout
    · rw [hdone e (Database.mem_childrenOf.mpr ⟨he, heb⟩)] at hstat
      cases hstat

variable [DecidableEq V]

/-- Runs that differ only in the order in which the completions of whole rounds are recorded end in
the same database and memory. The batch an operation decides on next loads as its settled children
in declaration order. And a settled batch of an operation that is not cancelled is the input of
exactly one committed decision, once it is not awaited any more. -/
theorem completion_order_confluence (before : List (Action V)) :
    (∀ as bs, Reordered (World.initial.run before) as bs →
      (World.initial.run (before ++ as)).Agrees (World.initial.run (before ++ bs))) ∧
    (∀ o ∈ (World.initial.run before).db.operations, ∀ batchId,
      o.inputEffectBatchId = some batchId →
      gaplessFrom EffectRow.position 0
          ((World.initial.run before).db.orderedChildren batchId) = true ∧
        ∃ effects, (World.initial.run before).db.loadSettledEffectBatch o.operationId batchId =
            .ok ⟨batchId, effects⟩ ∧
          List.Forall₂ SettledOf ((World.initial.run before).db.orderedChildren batchId) effects) ∧
    ∀ b ∈ (World.initial.run before).db.effectBatches,
      ∀ o ∈ (World.initial.run before).db.operations, o.operationId = b.operationId →
        (World.initial.run before).decisionsOn b.batchId ≤ 1 ∧
          ((∀ e ∈ (World.initial.run before).db.childrenOf b.batchId, e.status = .settled) →
            o.outcome ≠ some .cancelled →
            (World.initial.run before).decisionsOn b.batchId =
              if o.awaited = some b.batchId then 0 else 1) := by
  obtain ⟨hw, hinv⟩ := run_induction worldInv_initial decisionInv_initial
    (fun _ _ hw hinv hmoves => decisionInv_moves hw hinv hmoves) before
  refine ⟨fun as bs hr => ?_, fun o ho batchId hinput => ?_, fun b hb o ho hown => ?_⟩
  · rw [World.run_append, World.run_append]
    exact reordered_agrees hr hw ⟨rfl, rfl⟩
  · obtain ⟨b, hb, rfl, _⟩ := hw.consistent.input_last o ho batchId hinput
    exact ⟨(hw.consistent.orderedChildren_gapless hb).1,
      hw.consistent.loadSettledEffectBatch_eq_ok ho hinput⟩
  · have hstanding := hinv.standing b hb o ho hown
    refine ⟨?_, hstanding.decisionsOn_eq⟩
    cases hstanding with
    | awaited _ hcount | unused _ hcount | decided _ hcount => omega

/-- A loop that asks for two effects at once. -/
def twoEffects : Choice Nat where
  batchId := ⟨0⟩
  effectIds i := ⟨i⟩
  eventIds i := ⟨i⟩
  inExecutor := true
  decision := .ok (.invokeEffects ⟨1, 0⟩ [⟨"tool", 5, .neverReplay⟩, ⟨"tool", 6, .neverReplay⟩])
  cancellation := .error ""
  abandonment := .error ""

/-- Drives an operation until both effects are dispatched. -/
def twoEffectsRun : List (Action Nat) :=
  [.createAgent ⟨0⟩, .createSession ⟨0⟩ ⟨0⟩, .submit .ordered ⟨0⟩ ⟨0⟩ ⟨⟨0⟩, 7⟩,
    .drive ⟨0⟩ ⟨⟨"agent", "1", 1, [("tool", "1")], ""⟩, [("tool", "1")]⟩] ++
    List.replicate 9 (.advance ⟨0⟩ twoEffects)

/-- One effect succeeds, the outcome of the other stays unknown. -/
def twoReports (effectId : EffectId) : EffectCompletion Nat :=
  if effectId = ⟨0⟩ then .outcomeUnknown else .settled (.success 8)

/-- The effects end in the given order. -/
def finishing (effectIds : List EffectId) : List (Action Nat) :=
  effectIds.map (.spawn ⟨0⟩) ++ effectIds.map (.invoke ⟨0⟩) ++
    effectIds.map fun effectId => .complete ⟨0⟩ effectId (twoReports effectId)

theorem roundAction_finishing (effectIds : List EffectId) :
    ∀ action ∈ finishing effectIds, RoundAction ⟨0⟩ twoReports action := by
  intro action hac
  simp only [finishing, mem_append, mem_map] at hac
  rcases hac with (⟨_, _, rfl⟩ | ⟨_, _, rfl⟩) | ⟨_, _, rfl⟩
  · rfl
  · rfl
  · exact ⟨rfl, rfl⟩

def DriverState.isInvoking : DriverState V → Bool
  | .invoking _ _ => true
  | _ => false

theorem completesRound_finishing (effectIds : List EffectId)
    (hend : (((World.initial.run twoEffectsRun).run (finishing effectIds)).leases ⟨0⟩).any
      (fun lease => !lease.outstanding.isEmpty) = false) :
    CompletesRound ⟨0⟩ twoReports (World.initial.run twoEffectsRun) (finishing effectIds) := by
  have hst : (((World.initial.run twoEffectsRun).leases ⟨0⟩).any fun lease =>
      lease.driver.any DriverState.isInvoking && !lease.outstanding.isEmpty) = true := by decide
  refine ⟨roundAction_finishing effectIds, ?_, ?_⟩
  · cases hls : (World.initial.run twoEffectsRun).leases ⟨0⟩ with
    | none =>
      rw [hls] at hst
      cases hst
    | some lease =>
      rw [hls] at hst
      simp only [Option.any_some, Bool.and_eq_true] at hst
      obtain ⟨hdrv, hne⟩ := hst
      obtain ⟨d, hd, hinvoking⟩ := (Option.any_eq_true _ _).mp hdrv
      cases d with
      | invoking act round =>
        refine ⟨lease, act, round, rfl, hd, fun hnil => ?_⟩
        rw [hnil] at hne
        cases hne
      | _ => cases hinvoking
  · intro lease hls
    rw [hls] at hend
    simpa using hend

theorem completion_order_confluence_twoEffects :
    (World.initial.run (twoEffectsRun ++ finishing [⟨0⟩, ⟨1⟩])).Agrees
      (World.initial.run (twoEffectsRun ++ finishing [⟨1⟩, ⟨0⟩])) := by
  have hround := Reordered.round (completesRound_finishing [⟨0⟩, ⟨1⟩] (by decide))
    (completesRound_finishing [⟨1⟩, ⟨0⟩] (by decide)) (.nil _)
  exact (completion_order_confluence twoEffectsRun).1 _ _ hround

end Renoa.Kernel
