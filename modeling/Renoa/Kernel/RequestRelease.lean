import Renoa.Kernel.Model

/-!
# Writes of operation rows and the release of finished requests

Every write of an operation sets its phase, and a trigger runs after such a write: once the
operation has an outcome, the request of each settled effect whose batch has no unsettled child
is released. `Database.updateOperation` is the guarded write together with the trigger.
-/

namespace Renoa.Kernel

open Foundation Table

variable {V : Type} {db : Database V} {opId : OperationId}

namespace Database

/-- The view `finished_effect_requests`, restricted to one operation. -/
def finishedEffectRequest (db : Database V) (operationId : OperationId) (effect : EffectRow V) :
    Bool :=
  (db.batchesOf operationId).any (fun batch => batch.batchId = effect.batchId) &&
    ((db.operations.find? operationId).bind OperationRow.outcome).isSome &&
    decide (effect.status = .settled) && effect.request.isSome &&
    (db.childrenOf effect.batchId).all fun sibling => sibling.status = .settled

/-- The effect without its request, when its operation is finished with it. -/
def releaseRequest (db : Database V) (operationId : OperationId) (effect : EffectRow V) :
    EffectRow V :=
  if db.finishedEffectRequest operationId effect then { effect with request := none } else effect

theorem releaseRequest_effectId (db : Database V) (opId : OperationId)
    (eff : EffectRow V) : (db.releaseRequest opId eff).effectId = eff.effectId := by
  unfold releaseRequest
  split <;> rfl

/-- The effect table after the trigger `release_finished_effect_requests`. -/
def releasedEffects (db : Database V) (operationId : OperationId) :
    Table (EffectRow.effectId (V := V)) :=
  db.effects.mapRows (db.releaseRequest operationId) (db.releaseRequest_effectId operationId)

/-- The trigger `release_finished_effect_requests`. -/
def releaseFinishedRequests (db : Database V) (operationId : OperationId) : Database V :=
  { db with effects := db.releasedEffects operationId }

/-- A guarded write of an operation row, followed by the trigger on its phase. -/
def updateOperation (db : Database V) (operationId : OperationId)
    (guard : OperationRow V → Bool) (f : OperationRow V → OperationRow V) :
    Option (Database V) :=
  (db.operations.updateOne operationId guard f).map fun operations =>
    { db with operations }.releaseFinishedRequests operationId

/-- Without an outcome the trigger changes nothing. -/
theorem releaseFinishedRequests_of_outcome_none
    (h : (db.operations.find? opId).bind OperationRow.outcome = none) :
    db.releaseFinishedRequests opId = db := by
  have hid : db.releaseRequest opId = id := by
    funext eff
    simp [releaseRequest, finishedEffectRequest, h]
  have heffs : db.releasedEffects opId = db.effects := by
    apply ext_rows
    show db.effects.rows.map (db.releaseRequest opId) = db.effects.rows
    rw [hid, List.map_id]
  unfold releaseFinishedRequests
  rw [heffs]

/-- A successful write of an operation row: the row met the guard and was replaced, and the
trigger ran on the result. -/
theorem updateOperation_eq_some {db' : Database V} {guard : OperationRow V → Bool}
    {f : OperationRow V → OperationRow V} (h : db.updateOperation opId guard f = some db') :
    ∃ o, db.operations.find? opId = some o ∧ guard o = true ∧
      db' = { db with operations := db.operations.put (f o) }.releaseFinishedRequests
        opId := by
  obtain ⟨operations, hops, rfl⟩ := Option.map_eq_some_iff.mp h
  obtain ⟨o, ho, hg, rfl⟩ := updateOne_eq_some.mp hops
  exact ⟨o, ho, hg, rfl⟩

/-- A successful write that records no outcome changes the operation row only. -/
theorem updateOperation_eq_some_of_outcome_none {db' : Database V} {guard : OperationRow V → Bool}
    {f : OperationRow V → OperationRow V} (h : db.updateOperation opId guard f = some db')
    (hid : ∀ o, (f o).operationId = o.operationId)
    (hnone : ∀ o ∈ db.operations, guard o = true → (f o).outcome = none) :
    ∃ o, db.operations.find? opId = some o ∧ guard o = true ∧
      db' = { db with operations := db.operations.put (f o) } := by
  obtain ⟨o, ho, hg, rfl⟩ := updateOperation_eq_some h
  refine ⟨o, ho, hg, releaseFinishedRequests_of_outcome_none ?_⟩
  have hkey : (f o).operationId = opId := by rw [hid, key_of_find? ho]
  have hput : (db.operations.put (f o)).find? opId = some (f o) := by
    rw [← hkey]
    exact find?_put_self (mem_of_find? ho) (hid o).symm
  rw [hput]
  exact hnone o (mem_of_find? ho) hg

end Database

end Renoa.Kernel
