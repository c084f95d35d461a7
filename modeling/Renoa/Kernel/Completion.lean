import Renoa.Kernel.DriverInvariant

/-!
# Recording one completion

The completion of an open child is recorded on its own row (`EffectCompletion.apply`), unless a
retry keeps it open (`PendingEffect.retries`), and the last one of a batch moves the operation on.
`exists_recordCompletion` is that the recording of an open child of the driven operation never
fails, and `Recorded` what it does: the children of the round that are still outstanding stay open.
-/

namespace Renoa.Kernel

open Foundation Table

variable {V : Type} {db db' : Database V} {s : SessionId} {p : PendingEffect V}
  {opId : OperationId} {P : OperationRow V → Prop}

/-- The row of a child with its completion recorded. -/
def EffectCompletion.apply (completion : EffectCompletion V) (e : EffectRow V) : EffectRow V :=
  match completion with
  | .settled outcome => e.settle outcome
  | .outcomeUnknown => e.markUnknown

/-- The completion leaves its child open for another dispatch. -/
def PendingEffect.retries (p : PendingEffect V) : EffectCompletion V → Bool
  | .settled _ => false
  | .outcomeUnknown =>
    decide (p.recovery = .safeToReplay ∧ p.dispatchCount < maxLiveDispatchesBeforeUnknown)

theorem effectStep_apply {e : EffectRow V} (h : e.status = .dispatchStarted)
    (compl : EffectCompletion V) : EffectStep e (compl.apply e) := by
  cases compl with
  | settled out => exact .settled e h out
  | outcomeUnknown => exact .unknown e h

@[simp] theorem apply_effectId (compl : EffectCompletion V) (e : EffectRow V) :
    (compl.apply e).effectId = e.effectId := by
  cases compl <;> rfl

theorem apply_request (compl : EffectCompletion V) (e : EffectRow V) :
    (compl.apply e).request = e.request := by
  cases compl <;> rfl

theorem apply_dispatchCount (compl : EffectCompletion V) (e : EffectRow V) :
    (compl.apply e).dispatchCount = e.dispatchCount := by
  cases compl <;> rfl

/-- A session has one active operation. -/
theorem Consistent.active_unique (h : Consistent db) {o q : OperationRow V}
    (ho : o ∈ db.operations) (hq : q ∈ db.operations) (hsess : o.sessionId = q.sessionId)
    (hact : o.phase.isCancellable = true) (hactive' : q.phase.isCancellable = true) : o = q := by
  obtain ⟨row, hrow, hptr⟩ := h.pointer ho hact
  obtain ⟨row', hrow', hpointer'⟩ := h.pointer hq hactive'
  rw [← hsess, hrow] at hrow'
  obtain rfl := Option.some.inj hrow'
  exact key_inj ho hq (Option.some.inj (hptr.symm.trans hpointer'))

/-- An open child belongs to the driven operation. -/
theorem Open.of_holds (h : Consistent db) (hopen : Open db s p) (hhld : Holds db s opId P) :
    ∃ o ∈ db.operations, o.operationId = opId ∧ o.sessionId = s ∧
      Database.dispatchesBatch p.batchId p.transitionVersion o = true ∧
      ∃ e, OwnsEffect db opId e ∧ OpenChild p e := by
  obtain ⟨o, ho, hs, hdisp, hch⟩ := hopen
  obtain ⟨q, hq, rfl, hqs, hact, _⟩ := hhld
  have hph : o.phase.isCancellable = true := by
    rw [(dispatchesBatch_iff.mp hdisp).1]
    rfl
  obtain rfl : o = q := h.active_unique ho hq (hs.trans hqs.symm) hph hact
  exact ⟨o, ho, rfl, hs, hdisp, hch⟩

/-- What recording a completion did: nothing on a retry, and else the write of the child and the
closing step of its batch. -/
inductive Recorded (db : Database V) (operationId : OperationId) (p : PendingEffect V)
    (completion : EffectCompletion V) : Bool → Database V → Prop
  | retried (hretry : p.retries completion = true) :
      Recorded db operationId p completion false db
  | closed {finished : Option Bool} {db' : Database V} (hretry : p.retries completion = false)
      (r : RecordedChild db operationId p.batchId p.transitionVersion p.effectId completion.apply
        finished db') (hbatch : r.child.batchId = p.batchId) :
      Recorded db operationId p completion finished.isSome db'

theorem recordCompletion_ok (h : Consistent db) {compl : EffectCompletion V}
    {res : Bool × Database V}
    (hrun : db.recordCompletion opId p.batchId p compl = .ok res)
    (hown : ∀ e, db.effects.find? p.effectId = some e → e.batchId = p.batchId) :
    Recorded db opId p compl res.1 res.2 := by
  cases compl with
  | settled out =>
    obtain ⟨finished, hfin, r, hbat⟩ := settleBatchEffect_ok hrun h.outcome_none
    rw [hfin]
    exact .closed rfl r hbat
  | outcomeUnknown =>
    unfold Database.recordCompletion at hrun
    by_cases hretry : p.recovery = .safeToReplay ∧ p.dispatchCount < maxLiveDispatchesBeforeUnknown
    · simp only [if_pos hretry] at hrun
      cases hrun
      exact .retried (decide_eq_true hretry)
    · simp only [if_neg hretry] at hrun
      obtain ⟨finished, hfin, ⟨r⟩⟩ := recordBatchEffectUnknown_ok hrun h.outcome_none
      rw [hfin]
      exact .closed (decide_eq_false hretry) r (hown _ r.child_find)

theorem Open.child_batch (hopen : Open db s p) :
    ∀ e, db.effects.find? p.effectId = some e → e.batchId = p.batchId := by
  intro e he
  obtain ⟨_, _, _, _, q, ⟨hq, _⟩, hch⟩ := hopen
  rw [key_inj (mem_of_find? he) hq ((key_of_find? he).trans hch.effectId.symm)]
  exact hch.batchId

/-- The completion of an open child of the driven operation can be recorded. -/
theorem exists_recordCompletion (h : Consistent db) (hopen : Open db s p)
    (hhld : Holds db s opId P) (compl : EffectCompletion V) :
    ∃ res, db.recordCompletion opId p.batchId p compl = .ok res := by
  obtain ⟨o, ho, rfl, _, hdisp, e, ⟨he, _⟩, hch⟩ := hopen.of_holds h hhld
  cases compl with
  | settled out =>
    obtain ⟨res, hres⟩ := exists_settleBatchEffect h ho hdisp he hch.batchId hch.status out
    rw [hch.effectId] at hres
    exact ⟨res, hres⟩
  | outcomeUnknown =>
    by_cases hretry : p.recovery = .safeToReplay ∧ p.dispatchCount < maxLiveDispatchesBeforeUnknown
    · exact ⟨_, if_pos hretry⟩
    · obtain ⟨res, hres⟩ :=
        exists_recordBatchEffectUnknown h ho hdisp he hch.status
      rw [hch.effectId] at hres
      exact ⟨res, (if_neg hretry).trans hres⟩

namespace Recorded

variable {opId : OperationId} {p : PendingEffect V} {compl : EffectCompletion V}
  {finished : Bool} (hrecorded : Recorded db opId p compl finished db')

include hrecorded

theorem changedBy (h : Consistent db) : ChangedBy opId db db' := by
  cases hrecorded with
  | retried => exact .unchanged rfl
  | closed _ r hbat =>
    rw [← key_of_find? r.operation_find]
    exact (changes_recordedChild h r (effectStep_apply r.child_open compl)
      (apply_request _ _) (apply_dispatchCount _ _) (.inl hbat)).changedBy
      (r.local (apply_effectId _ _) hbat)

/-- The operation stays active. -/
theorem holds (hhld : Holds db s opId P) : Holds db' s opId fun _ => True := by
  cases hrecorded with
  | retried => exact hhld.imp fun _ _ => trivial
  | closed _ r _ =>
    obtain ⟨o, ho, hid, rfl, hact, _⟩ := hhld
    have hsame : o = r.operation :=
      Option.some.inj ((find?_eq_some.mpr ⟨ho, hid⟩).symm.trans r.operation_find)
    have hcls := r.closing
    rw [← hsame] at hcls
    rw [← hid]
    refine hcls.holds ?_ hact
    exact ho

/-- A child that did not end the batch leaves the operation at its dispatched batch. -/
theorem dispatches (h : Consistent db) (hopen : Open db s p) (hhld : Holds db s opId P)
    (hfin : finished = false) :
    Holds db' s opId fun o => Database.dispatchesBatch p.batchId p.transitionVersion o = true := by
  obtain ⟨o, ho, hid, hs, hdisp, _⟩ := hopen.of_holds h hhld
  have hact : o.phase.isCancellable = true := by
    rw [(dispatchesBatch_iff.mp hdisp).1]
    rfl
  refine ⟨o, ?_, hid, hs, hact, hdisp⟩
  cases hrecorded with
  | retried => exact ho
  | closed _ r _ =>
    rcases r.closing with ⟨_, hdb, _⟩ | ⟨_, rfl, _⟩
    · rw [hdb]
      exact ho
    · cases hfin

/-- The other open children of the round stay open. -/
theorem opens (h : Consistent db) (hhld : Holds db s opId P) {q : PendingEffect V}
    (hq : Open db s q) (hbat : q.batchId = p.batchId) (hne : q.effectId ≠ p.effectId) :
    Open db' s q := by
  cases hrecorded with
  | retried => exact hq
  | closed _ r _ =>
    obtain ⟨o, ho, hid, hs, hdisp, e, ⟨he, b, hb, hbe, hown⟩, hch⟩ := hq.of_holds h hhld
    have hkept : e ∈ db.effects.put (compl.apply r.child) := by
      apply mem_put_of_ne he
      rw [apply_effectId, hch.effectId, key_of_find? r.child_find]
      exact hne
    rcases r.closing with ⟨_, hdb, _⟩ | ⟨_, _, hcls, _⟩
    · rw [hdb]
      exact ⟨o, ho, hs, hdisp, e, ⟨hkept, b, hb, hbe, hown.trans hid.symm⟩, hch⟩
    · exact absurd hch.status (hcls e hkept (hch.batchId.trans hbat))

end Recorded

end Renoa.Kernel
