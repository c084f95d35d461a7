import Mathlib.Data.List.Induction
import Renoa.Kernel.CommitCase
import Renoa.Kernel.Migration

/-!
# Requests are released exactly when they are finished

`Consistent` says that a released request belongs to an operation with an outcome and to a batch
whose children are all settled. This module adds the other direction: the trigger on the phase of
an operation leaves no finished request behind (`FinishedReleased`). Only three transactions give
an operation an outcome, all through `EndedOperation` (`Endings`), and no transaction settles a
child of an operation that has ended.

A request that is still stored is the one its batch was committed with, so that the request of an
effect is determined by where it came from (`Origin`) and by whether it is finished.
-/

namespace Renoa.Kernel

open Foundation List Table Database

variable {V : Type} {db db' : Database V} {o : OperationRow V} {bid : EffectBatchId}
  {t : Transaction V} {expected : Nat} {newId : Nat → EffectId}
  {opId : OperationId} {e : EffectRow V} {intent : NewEffectBatchIntent V}
  {o' : OperationRow V}

/-! ## Endings -/

/-- How a transaction gives outcomes: it gives none, or it ends one operation and releases its
finished requests. -/
inductive Endings (db db' : Database V) : Prop
  | none (hkept : ∀ o ∈ db'.operations, o.outcome ≠ none → o ∈ db.operations)
  | ended {sessionId : SessionId} {operationId : OperationId} {newId : Nat → EventId}
      {events : List (NewEvent V)} {f : OperationRow V → OperationRow V}
      (e : EndedOperation db sessionId operationId newId events f db')
      (hid : (f e.operation).operationId = e.operation.operationId)

theorem endings_of_eq (hops : db'.operations = db.operations) : Endings db db' :=
  .none fun o ho _ => by rwa [hops] at ho

/-- A transaction that writes one operation row without an outcome. -/
theorem endings_of_put (hops : db'.operations = db.operations.put o')
    (houtcome : o'.outcome = none) : Endings db db' := by
  refine .none fun o ho hout => ?_
  rw [hops] at ho
  rcases mem_put_cases ho with rfl | ⟨ho, _⟩
  · exact absurd houtcome hout
  · exact ho

/-- A rewritten row has no outcome. -/
theorem RowWrite.outcome_eq_none (hwrt : RowWrite db o o') (h : Consistent db)
    (ho : o ∈ db.operations) : o'.outcome = none := by
  cases hwrt with
  | activated _ hfst _ =>
    exact (h.operation_row o ho).outcome_eq_none (by rw [(firstQueued_eq_some hfst).2.2]; rfl)
  | dispatched hact | finished _ hact => exact h.outcome_none o ho hact

/-- What every transaction does to the outcomes. -/
theorem endings_commit [DecidableEq V] (h : Consistent db) (hcom : t.commit db = .ok db') :
    Endings db db' := by
  cases commitCase_commit h hcom with
  | unchanged heq => exact endings_of_eq (by rw [heq])
  | rewritten r _ =>
    rcases r.operations with hsame | ⟨o, ho, o', hwrt, hput⟩
    · exact endings_of_eq hsame
    · exact endings_of_put hput (hwrt.outcome_eq_none h ho)
  | admitted _ _ a =>
    refine .none fun o ho hout => ?_
    rcases a.mem_operations.mp ho with ho | rfl
    · exact ho
    · exact absurd rfl hout
  | intended _ i =>
    apply endings_of_put i.operations'
    exact h.outcome_none i.operation i.operation_mem (by rw [i.phase_eq]; rfl)
  | continued c _ _ hout _ => exact endings_of_put (congrArg Database.operations c.db'_eq) hout
  | ended e _ hsame _ _ _ => exact .ended e hsame.operationId

/-! ## No finished request is left -/

/-- Every child of a settled batch of an ended operation has lost its request. -/
def Database.FinishedReleased (db : Database V) : Prop :=
  ∀ o ∈ db.operations, o.outcome ≠ none →
    ∀ b ∈ db.effectBatches, b.operationId = o.operationId →
      (∀ e ∈ db.effects, e.batchId = b.batchId → e.status = .settled) →
      ∀ e ∈ db.effects, e.batchId = b.batchId → e.request = none

theorem finishedReleased_of_eq (h : db.FinishedReleased)
    (hops : ∀ o ∈ db'.operations, o.outcome ≠ none → o ∈ db.operations)
    (hbats : db'.effectBatches = db.effectBatches) (heffs : db'.effects = db.effects) :
    db'.FinishedReleased := by
  intro o ho hout b hb hown hdone e he heb
  rw [hbats] at hb
  rw [heffs] at hdone he
  exact h o (hops o ho hout) hout b hb hown hdone e he heb

/-- A change of an unfinished operation that ends none: the children of the ended operations keep
their requests and are not settled. -/
theorem OperationChange.finishedReleased (c : OperationChange db db') (hlaw : c.Lawful)
    (h : db.FinishedReleased)
    (hkept : ∀ o ∈ db'.operations, o.outcome ≠ none → o ∈ db.operations) :
    db'.FinishedReleased := by
  intro o ho' hout b hb hown hdone e' he' heb
  have ho := hkept o ho' hout
  rw [c.effectBatches_eq] at hb
  have hne : b.operationId ≠ c.operation.operationId := by
    intro hid
    have hsame := key_inj ho c.operation_mem (hown.symm.trans hid)
    exact hout (hsame ▸ hlaw.unfinished)
  have hsettled' : ∀ e ∈ db.effects, e.batchId = b.batchId → e.status = .settled := by
    intro e he heb
    have haft := hdone (c.effect e) (c.effect_mem he) ((c.effect_step e he).batchId_eq.trans heb)
    rcases (c.foreign_status hlaw.admissible he hb heb hne).2 with hsame | ⟨_, hunk⟩
    · exact hsame.symm.trans haft
    · rw [hunk] at haft
      cases haft
  obtain ⟨e, he, rfl⟩ := c.mem_effects.mp he'
  have heb' : e.batchId = b.batchId := (c.effect_step e he).batchId_eq.symm.trans heb
  rw [(c.foreign_status hlaw.admissible he hb heb' hne).1]
  exact h o ho hout b hb hown hsettled' e he heb'

/-- A new batch belongs to an operation that has not ended. -/
theorem IntendedBatch.finishedReleased (i : IntendedBatch db opId expected bid newId intent db')
    (hcons : Consistent db) (h : db.FinishedReleased)
    (hkept : ∀ o ∈ db'.operations, o.outcome ≠ none → o ∈ db.operations) :
    db'.FinishedReleased := by
  intro o ho' hout b hb' hown hdone e he heb
  have ho := hkept o ho' hout
  rcases i.mem_effectBatches.mp hb' with hb | rfl
  · exact h o ho hout b hb hown (fun q hq hqb => hdone q (i.mem_effects.mpr (.inl hq)) hqb) e
      (i.mem_effects_of_old hb he heb) heb
  · have hsame := key_inj ho i.operation_mem (hown.symm.trans i.operationId_eq.symm)
    exact absurd (hsame ▸ hcons.outcome_none i.operation i.operation_mem
      (by rw [i.phase_eq]; rfl)) hout

theorem Database.releaseRequest_same (db : Database V) (opId : OperationId)
    (e : EffectRow V) : (db.releaseRequest opId e).batchId = e.batchId ∧
      (db.releaseRequest opId e).status = e.status := by
  unfold Database.releaseRequest
  split <;> exact ⟨rfl, rfl⟩

/-- The trigger leaves no request in a settled batch of an operation with an outcome. -/
theorem Database.request_releaseRequest {out : OperationOutcome}
    (hout : (db.operations.find? opId).bind OperationRow.outcome = some out)
    {b : EffectBatchRow} (hb : b ∈ db.effectBatches) (hown : b.operationId = opId)
    (hdone : ∀ q ∈ db.effects, q.batchId = b.batchId → q.status = .settled) (he : e ∈ db.effects)
    (heb : e.batchId = b.batchId) : (db.releaseRequest opId e).request = none := by
  have howned : ((db.batchesOf opId).any fun batch => decide (batch.batchId = e.batchId)) = true :=
    any_eq_true.mpr ⟨b, mem_filter.mpr ⟨hb, decide_eq_true hown⟩, decide_eq_true heb.symm⟩
  have hall : ((db.childrenOf e.batchId).all fun q => decide (q.status = .settled)) = true := by
    rw [all_eq_true]
    intro q hq
    obtain ⟨hq, hqb⟩ := mem_filter.mp hq
    exact decide_eq_true (hdone q hq ((of_decide_eq_true hqb).trans heb))
  unfold Database.releaseRequest Database.finishedEffectRequest
  rw [howned, hout, hall, decide_eq_true (hdone e he heb)]
  cases hreq : e.request with
  | none => exact hreq
  | some req => rfl

/-- The end of an operation releases what it finished, and touches no other operation. -/
theorem EndedOperation.finishedReleased {sid : SessionId} {newId : Nat → EventId}
    {evs : List (NewEvent V)} {f : OperationRow V → OperationRow V}
    (e : EndedOperation db sid opId newId evs f db')
    (hid : (f e.operation).operationId = e.operation.operationId) (h : db.FinishedReleased) :
    db'.FinishedReleased := by
  have hkey : e.operation.operationId = opId := key_of_find? e.operation_find
  have hops : db'.operations = db.operations.put (f e.operation) := congrArg (·.operations) e.db'_eq
  have hbats : db'.effectBatches = db.effectBatches := congrArg (·.effectBatches) e.db'_eq
  let mid : Database V := { db with operations := db.operations.put (f e.operation) }
  have hmem : ∀ q, q ∈ db'.effects ↔ ∃ q₀ ∈ db.effects, mid.releaseRequest opId q₀ = q := by
    intro q
    rw [show db'.effects = mid.releasedEffects opId from congrArg (·.effects) e.db'_eq]
    exact mem_mapRows
  intro o ho hout b hb hown hdone q hq hqb
  rw [hbats] at hb
  have hsettled' : ∀ q ∈ db.effects, q.batchId = b.batchId → q.status = .settled := by
    intro q hq hqb
    obtain ⟨hbat, hstat⟩ := mid.releaseRequest_same opId q
    exact hstat.symm.trans (hdone _ ((hmem _).mpr ⟨q, hq, rfl⟩) (hbat.trans hqb))
  obtain ⟨q₀, hq₀, rfl⟩ := (hmem q).mp hq
  have hqb₀ : q₀.batchId = b.batchId := (mid.releaseRequest_same opId q₀).1.symm.trans hqb
  rw [hops] at ho
  rcases mem_put_cases ho with rfl | ⟨ho, hne⟩
  · -- the operation that ends: the trigger sees the new row
    obtain ⟨out, houtcome⟩ := Option.ne_none_iff_exists'.mp hout
    have hfind : (mid.operations.find? opId).bind OperationRow.outcome = some out := by
      have hput : (db.operations.put (f e.operation)).find? (f e.operation).operationId =
          some (f e.operation) := find?_put_self (mem_of_find? e.operation_find) hid.symm
      rw [hid, hkey] at hput
      rw [hput]
      exact houtcome
    exact request_releaseRequest hfind hb (hown.trans (hid.trans hkey)) hsettled' hq₀ hqb₀
  · -- another operation: its effects stay as they are
    have hsame : mid.releaseRequest opId q₀ = q₀ := by
      rcases releaseRequest_cases mid opId q₀ with ⟨⟨b', hb', hbq, hbo⟩, _⟩ | hsame
      · have hbb := key_inj hb' hb (hbq.trans hqb₀)
        rw [hbb, hown] at hbo
        exact absurd (hbo.trans (hid.trans hkey).symm) hne
      · exact hsame
    rw [hsame]
    exact h o ho hout b hb hown hsettled' q₀ hq₀ hqb₀

/-- No transaction leaves a finished request behind. -/
theorem finishedReleased_commit [DecidableEq V] (hcons : Consistent db)
    (h : db.FinishedReleased) (hcom : t.commit db = .ok db') : db'.FinishedReleased := by
  cases endings_commit hcons hcom with
  | ended e hid => exact e.finishedReleased hid h
  | none hkept =>
    cases committed_commit hcons hcom with
    | unchanged heq => exact heq ▸ h
    | changed c hlaw => exact c.finishedReleased hlaw h hkept
    | intended i _ => exact i.finishedReleased hcons h hkept
    | admitted a =>
      exact finishedReleased_of_eq h hkept (congrArg (·.effectBatches) a.db'_eq)
        (congrArg (·.effects) a.db'_eq)
    | registered r => exact finishedReleased_of_eq h hkept r.effectBatches_eq r.effects_eq

/-! ## Where a request comes from -/

theorem exists_getElem?_of_mem_effectRows {pos : Nat} {effs : List (NewEffectIntent V)}
    (h : e ∈ effectRows bid newId pos effs) :
    ∃ k eff, effs[k]? = some eff ∧ e.position = pos + k ∧ e.effectId = newId k ∧
      e.request = some eff.request := by
  induction effs generalizing newId pos with
  | nil => cases h
  | cons eff rest ih =>
    rcases mem_cons.mp h with rfl | h
    · exact ⟨0, eff, rfl, rfl, rfl, rfl⟩
    · obtain ⟨k, found, hget, hpos, hid, hreq⟩ := ih h
      exact ⟨k + 1, found, hget, by omega, hid, hreq⟩

/-- How a transaction writes effect rows: it moves stored ones, or it commits a batch intent. -/
inductive EffectsWrite (t : Transaction V) (db db' : Database V) : Prop
  | moved (h : ∀ e' ∈ db'.effects, ∃ e ∈ db.effects, EffectStep e e')
  | intended {operationId : OperationId} {expectedTransition : Nat} {batchId : EffectBatchId}
      {newId : Nat → EffectId} {intent : NewEffectBatchIntent V}
      (ht : t = .commitEffectBatchIntent operationId expectedTransition batchId newId intent)
      (i : IntendedBatch db operationId expectedTransition batchId newId intent db')

theorem effectsWrite_of_eq (heffs : db'.effects = db.effects) : EffectsWrite t db db' :=
  .moved fun e he => ⟨e, heffs ▸ he, .same e⟩

/-- What every transaction does to the effect rows. -/
theorem effectsWrite_commit [DecidableEq V] (h : Consistent db) (hcom : t.commit db = .ok db') :
    EffectsWrite t db db' := by
  -- without a new batch no effect row is new
  have hmvd : db'.effectBatches = db.effectBatches → EffectsWrite t db db' := by
    intro hbats
    cases committed_commit h hcom with
    | unchanged heq => exact effectsWrite_of_eq (by rw [heq])
    | changed c _ =>
      refine .moved fun e' he' => ?_
      obtain ⟨e, he, rfl⟩ := c.mem_effects.mp he'
      exact ⟨e, he, c.effect_step e he⟩
    | intended i _ =>
      have hrows := i.effectBatches'_rows
      rw [hbats] at hrows
      simp at hrows
    | admitted a => exact effectsWrite_of_eq (congrArg (·.effects) a.db'_eq)
    | registered r => exact effectsWrite_of_eq r.effects_eq
  cases commitCase_commit h hcom with
  | unchanged heq => exact hmvd (by rw [heq])
  | rewritten r _ => exact hmvd r.effectBatches
  | admitted _ _ a => exact hmvd (congrArg (·.effectBatches) a.db'_eq)
  | intended ht i => exact .intended ht i
  | continued c _ _ _ _ => exact hmvd (congrArg (·.effectBatches) c.db'_eq)
  | ended e _ _ _ _ _ => exact hmvd (congrArg (·.effectBatches) e.db'_eq)

/-- The transaction commits the batch intent that makes the effect, with this request: the effect is
new, and it is the intent's child at its position. -/
def Transaction.Admits [DecidableEq V] (t : Transaction V) (db : Database V) (e : EffectRow V)
    (request : V) : Prop :=
  ∃ operationId expectedTransition newId intent effect,
    t = .commitEffectBatchIntent operationId expectedTransition e.batchId newId intent ∧
    (∀ q ∈ db.effects, q.effectId ≠ e.effectId) ∧
    (∃ q ∈ (db.apply t).effects, q.effectId = e.effectId) ∧
    e.effectId = newId e.position ∧ intent.effects[e.position]? = some effect ∧
    effect.request = request

/-- The request an effect was admitted with: the database of the run's start gives it, or a
transaction of the run admits it. -/
inductive AdmittedRequest [DecidableEq V] (start : Database V) (requests : EffectId → Option V)
    (ts : List (Transaction V)) (e : EffectRow V) (request : V) : Prop
  | stored (hmem : ∃ q ∈ start.effects, q.effectId = e.effectId)
      (hrequest : requests e.effectId = some request)
  | admitted {before after : List (Transaction V)} {t : Transaction V}
      (hts : ts = before ++ t :: after) (hadmits : t.Admits (start.runAll before) e request)

section Runs

variable [DecidableEq V] {start : Database V} {requests : EffectId → Option V}
  {ts : List (Transaction V)} {req : V}

/-- The admitted request depends on the identity of an effect alone. -/
theorem AdmittedRequest.of_same {e' : EffectRow V} (h : AdmittedRequest start requests ts e req)
    (hid : e'.effectId = e.effectId) (hbat : e'.batchId = e.batchId)
    (hpos : e'.position = e.position) : AdmittedRequest start requests ts e' req := by
  cases h with
  | stored hmem hreq => exact .stored (hid ▸ hmem) (hid ▸ hreq)
  | admitted hts hadmits =>
    refine .admitted hts ?_
    unfold Transaction.Admits at hadmits ⊢
    rw [hid, hbat, hpos]
    exact hadmits

theorem AdmittedRequest.append (h : AdmittedRequest start requests ts e req)
    (us : List (Transaction V)) : AdmittedRequest start requests (ts ++ us) e req := by
  cases h with
  | stored hmem hreq => exact .stored hmem hreq
  | @admitted before after t hts hadmits =>
    have hts' : ts ++ us = before ++ t :: (after ++ us) := by rw [hts, append_assoc, cons_append]
    exact .admitted hts' hadmits

/-- A child that a batch intent adds is admitted with the request of the intent. -/
theorem IntendedBatch.admits (i : IntendedBatch db opId expected bid newId intent db')
    (ht : t = .commitEffectBatchIntent opId expected bid newId intent)
    (hcom : t.commit db = .ok db') (he : e ∈ effectRows bid newId 0 intent.effects) :
    ∃ req, t.Admits db e req ∧ e.request = some req := by
  obtain ⟨k, eff, hget, hpos, hid, hreq⟩ := exists_getElem?_of_mem_effectRows he
  rw [Nat.zero_add] at hpos
  have hmem : e ∈ db'.effects := i.mem_effects.mpr (.inr he)
  -- the rows of the new table have distinct identities, so no earlier row has this one
  have hfsh : ∀ q ∈ db.effects, q.effectId ≠ e.effectId := by
    intro q hq
    have hnd := db'.effects.keys_nodup
    rw [i.effects'_rows, map_append] at hnd
    exact (nodup_append.mp hnd).2.2 q.effectId (mem_map_of_mem hq) e.effectId (mem_map_of_mem he)
  refine ⟨eff.request, ⟨opId, expected, newId, intent, eff, ?_, hfsh,
    ⟨e, (apply_of_ok hcom).symm ▸ hmem, rfl⟩, ?_, ?_, rfl⟩, hreq⟩
  · rw [ht, (mem_effectRows he).1]
  · rw [hid, hpos]
  · rw [hpos]
    exact hget

/-- Along a run every effect keeps the request it was admitted with, or has lost it. -/
theorem exists_admittedRequest (h : Consistent start)
    (hst : ∀ e ∈ start.effects, ∃ req, requests e.effectId = some req ∧
      (e.request = none ∨ e.request = some req)) (ts : List (Transaction V)) :
    ∀ e ∈ (start.runAll ts).effects, ∃ req, AdmittedRequest start requests ts e req ∧
      (e.request = none ∨ e.request = some req) := by
  induction ts using List.reverseRecOn with
  | nil =>
    intro e he
    obtain ⟨req, hreq, hsto⟩ := hst e he
    exact ⟨req, .stored ⟨e, he, rfl⟩ hreq, hsto⟩
  | append_singleton ts t ih =>
    intro e' he'
    have hcons := consistent_runAll h ts
    have hrun : start.runAll (ts ++ [t]) = (start.runAll ts).apply t := runAll_append _ _ _
    rw [hrun] at he'
    cases hcom : t.commit (start.runAll ts) with
    | error err =>
      rw [apply_of_error hcom] at he'
      obtain ⟨req, hadm, hsto⟩ := ih e' he'
      exact ⟨req, hadm.append [t], hsto⟩
    | ok db' =>
      rw [apply_of_ok hcom] at he'
      -- a stored child that the transaction leaves or moves
      have hmvd : ∀ e ∈ (start.runAll ts).effects, EffectStep e e' →
          ∃ req, AdmittedRequest start requests (ts ++ [t]) e' req ∧
            (e'.request = none ∨ e'.request = some req) := by
        intro e he hstep
        obtain ⟨req, hadm, hsto⟩ := ih e he
        refine ⟨req, (hadm.of_same hstep.effectId_eq hstep.batchId_eq
          hstep.position_eq).append [t], ?_⟩
        cases hstep with
        | released => exact .inl rfl
        | same | dispatched | replayed | settled | unknown => exact hsto
      cases effectsWrite_commit hcons hcom with
      | moved hmove =>
        obtain ⟨e, he, hstep⟩ := hmove e' he'
        exact hmvd e he hstep
      | intended ht i =>
        rcases i.mem_effects.mp he' with he | hnew
        · exact hmvd e' he (.same e')
        · obtain ⟨req, hadmits, hreq⟩ := i.admits ht hcom hnew
          exact ⟨req, .admitted (rfl : ts ++ [t] = ts ++ t :: []) hadmits, .inr hreq⟩

end Runs

/-! ## Exact release -/

/-- The requests of a database: each effect belongs to a batch of an operation and was admitted
with a request. The request is absent exactly when the operation has an outcome and every child of
the batch is settled; otherwise it is the admitted one. -/
def Database.ReleasesExactly (db : Database V) (admitted : EffectRow V → V → Prop) : Prop :=
  ∀ e ∈ db.effects, ∃ b ∈ db.effectBatches, ∃ o ∈ db.operations, b.batchId = e.batchId ∧
    b.operationId = o.operationId ∧ ∃ request, admitted e request ∧
      (e.request = none ∨ e.request = some request) ∧
      (e.request = none ↔ o.outcome ≠ none ∧
        ∀ q ∈ db.effects, q.batchId = e.batchId → q.status = .settled)

theorem Consistent.releasesExactly (h : Consistent db) (hrel : db.FinishedReleased)
    {admitted : EffectRow V → V → Prop}
    (hadm : ∀ e ∈ db.effects, ∃ req, admitted e req ∧
      (e.request = none ∨ e.request = some req)) : db.ReleasesExactly admitted := by
  intro e he
  obtain ⟨b, hb, hbe⟩ := h.effect_owner e he
  obtain ⟨o, ho, hob⟩ := h.batch_owner b hb
  obtain ⟨req, hreq, hsto⟩ := hadm e he
  refine ⟨b, hb, o, ho, hbe, hob.symm, req, hreq, hsto, ?_, ?_⟩
  · intro hnone
    obtain ⟨hout, hdone⟩ := (h.batch_consistent o ho b hb hob.symm).released e he hbe.symm hnone
    exact ⟨hout, fun q hq hqb => hdone q hq (hqb.trans hbe.symm)⟩
  · rintro ⟨hout, hdone⟩
    exact hrel o ho hout b hb hob.symm (fun q hq hqb => hdone q hq (hqb.trans hbe)) e he hbe.symm

/-! ## The release at a migration -/

/-- The view over all operations, row by row: what leaves it with the request released was
settled, and everything else about a row stays. -/
theorem Database.effectStep_releaseAny (db : Database V) (e : EffectRow V) :
    EffectStep e (db.releaseAny e) := by
  unfold Database.releaseAny
  split
  next hfin =>
    obtain ⟨o, _, hview⟩ := any_eq_true.mp hfin
    unfold Database.finishedEffectRequest at hview
    simp only [Bool.and_eq_true, decide_eq_true_eq] at hview
    exact .released e hview.1.1.2
  · exact .same e

theorem Database.status_releaseAny (db : Database V) (e : EffectRow V) :
    (db.releaseAny e).status = e.status := by
  unfold Database.releaseAny
  split <;> rfl

theorem Database.mem_releaseAll {e' : EffectRow V} :
    e' ∈ db.releaseAll.effects ↔ ∃ e ∈ db.effects, db.releaseAny e = e' := by
  show e' ∈ db.effects.mapRows db.releaseAny db.releaseAny_effectId ↔ _
  exact mem_mapRows

/-- The settled batches are the same after the release. -/
theorem Database.settled_releaseAll :
    (∀ q ∈ db.releaseAll.effects, q.batchId = bid → q.status = .settled) ↔
      ∀ q ∈ db.childrenOf bid, q.status = .settled := by
  constructor
  · intro h q hq
    obtain ⟨hq, hqb⟩ := mem_childrenOf.mp hq
    rw [← db.status_releaseAny q]
    exact h _ (mem_releaseAll.mpr ⟨q, hq, rfl⟩) ((db.effectStep_releaseAny q).batchId_eq.trans hqb)
  · intro h q hq hqb
    obtain ⟨q₀, hq₀, rfl⟩ := mem_releaseAll.mp hq
    rw [db.status_releaseAny]
    exact h q₀ (mem_childrenOf.mpr ⟨hq₀, (db.effectStep_releaseAny q₀).batchId_eq.symm.trans hqb⟩)

/-- The release of every finished request is exact. -/
theorem Database.request_releaseAny {b : EffectBatchRow} (ho : o ∈ db.operations)
    (hb : b ∈ db.effectBatches) (hbo : b.operationId = o.operationId)
    (he : e ∈ db.childrenOf b.batchId) :
    (db.releaseAny e).request = none ↔ e.request = none ∨ (o.outcome ≠ none ∧
      ∀ q ∈ db.childrenOf b.batchId, q.status = .settled) := by
  have hview := finishedEffectRequests_iff ho hb hbo he
  unfold Database.releaseAny
  split
  next hfin =>
    obtain ⟨hout, hdone, _⟩ := hview.mp hfin
    exact ⟨fun _ => .inr ⟨Option.isSome_iff_ne_none.mp hout, hdone⟩, fun _ => rfl⟩
  next hkept =>
    refine ⟨.inl, ?_⟩
    rintro (hnone | ⟨hout, hdone⟩)
    · exact hnone
    · by_contra hreq
      exact hkept (hview.mpr ⟨Option.isSome_iff_ne_none.mpr hout, hdone,
        Option.isSome_iff_ne_none.mpr hreq⟩)

/-- An opened database of version 3 has released its requests exactly; what was admitted with an
effect is what version 3 stored. -/
theorem DatabaseV3.releasesExactly {d : DatabaseV3 V}
    (hopen : (Stored.old (.v3 d)).initializeDatabase = .ok db) :
    db.ReleasesExactly fun e req => ∃ q ∈ d.effects, q.effectId = e.effectId ∧ q.request = req := by
  obtain ⟨_, _, hopen⟩ := bind_ok hopen
  obtain ⟨_, hcur, hdb⟩ := bind_ok hopen
  obtain ⟨_, hval, _⟩ := bind_ok hcur
  obtain ⟨_, _, hkeys⟩ := bind_ok hval
  obtain ⟨_, _, hbats, hkids⟩ := of_decide_eq_true (ensure_ok hkeys)
  cases hdb
  intro e' he'
  obtain ⟨b, hb, hbe⟩ := mem_map.mp (hkids e'.batchId (mem_map_of_mem he'))
  obtain ⟨o, ho, hob⟩ := mem_map.mp (hbats b hb)
  refine ⟨b, hb, o, ho, hbe, hob.symm, ?_⟩
  obtain ⟨e, he, rfl⟩ := mem_releaseAll.mp he'
  obtain ⟨q, hq, rfl⟩ := mem_map.mp he
  have hstep := d.toV4.effectStep_releaseAny q.toV4
  have ho : o ∈ d.toV4.operations := ho
  have hch : q.toV4 ∈ d.toV4.childrenOf b.batchId :=
    mem_childrenOf.mpr ⟨he, hstep.batchId_eq.symm.trans hbe.symm⟩
  have hiff : (d.toV4.releaseAny q.toV4).request = none ↔ o.outcome ≠ none ∧
      ∀ q ∈ d.toV4.childrenOf b.batchId, q.status = .settled := by
    refine (request_releaseAny ho hb hob.symm hch).trans ⟨?_, .inr⟩
    rintro (hnone | hfin)
    · cases hnone
    · exact hfin
  refine ⟨q.request, ⟨q, hq, hstep.effectId_eq.symm, rfl⟩, ?_, ?_⟩
  · unfold Database.releaseAny
    split
    · exact .inl rfl
    · exact .inr rfl
  · rw [← hbe]
    exact hiff.trans (and_congr_right fun _ => settled_releaseAll.symm)

/-- The release of every finished request keeps a database consistent. -/
theorem Consistent.releaseAll (h : Consistent db) : Consistent db.releaseAll where
  __ := h
  batch_consistent := by
    intro o ho' b hb' hown
    have ho : o ∈ db.operations := ho'
    have hb : b ∈ db.effectBatches := hb'
    have hbat := h.batch_consistent o ho b hb hown
    have hold : ∀ e ∈ db.effects, (db.releaseAny e).batchId = b.batchId → e.batchId = b.batchId :=
      fun e _ heb => (db.effectStep_releaseAny e).batchId_eq.symm.trans heb
    refine ⟨?_, ?_, ?_, ?_⟩
    · intro hpos e' he' heb
      obtain ⟨e, he, rfl⟩ := mem_releaseAll.mp he'
      rw [db.status_releaseAny]
      exact hbat.earlier hpos e he (hold e he heb)
    · intro hpos e' he' heb
      obtain ⟨e, he, rfl⟩ := mem_releaseAll.mp he'
      rw [db.status_releaseAny]
      exact hbat.last hpos e he (hold e he heb)
    · intro hpos hph
      obtain ⟨e, he, heb, hstat⟩ := hbat.unknown hpos hph
      refine ⟨db.releaseAny e, mem_releaseAll.mpr ⟨e, he, rfl⟩,
        (db.effectStep_releaseAny e).batchId_eq.trans heb, ?_⟩
      rw [db.status_releaseAny]
      exact hstat
    · intro e' he' heb hnone
      obtain ⟨e, he, rfl⟩ := mem_releaseAll.mp he'
      have hch := mem_childrenOf.mpr ⟨he, hold e he heb⟩
      rw [settled_releaseAll]
      rcases (request_releaseAny ho hb hown hch).mp hnone with hgone | hfin
      · obtain ⟨hout, hdone⟩ := hbat.released e he (hold e he heb) hgone
        refine ⟨hout, fun q hq => ?_⟩
        obtain ⟨hq, hqb⟩ := mem_childrenOf.mp hq
        exact hdone q hq hqb
      · exact hfin
  effect_row := by
    intro e' he'
    obtain ⟨e, he, rfl⟩ := mem_releaseAll.mp he'
    exact (db.effectStep_releaseAny e).wellFormed (h.effect_row e he)
  effect_owner := by
    intro e' he'
    obtain ⟨e, he, rfl⟩ := mem_releaseAll.mp he'
    rw [(db.effectStep_releaseAny e).batchId_eq]
    exact h.effect_owner e he
  effect_numbered := by
    intro b hb
    obtain ⟨n, hn, hnum⟩ := h.effect_numbered b hb
    refine ⟨n, hn, ?_⟩
    exact hnum.filter_map (fun e _ => by rw [(db.effectStep_releaseAny e).batchId_eq])
      fun e _ => (db.effectStep_releaseAny e).position_eq

theorem Database.finishedReleased_releaseAll (db : Database V) :
    db.releaseAll.FinishedReleased := by
  intro o ho' hout b hb' hown hdone e' he' heb
  have ho : o ∈ db.operations := ho'
  have hb : b ∈ db.effectBatches := hb'
  obtain ⟨e, he, rfl⟩ := mem_releaseAll.mp he'
  have hch := mem_childrenOf.mpr ⟨he, (db.effectStep_releaseAny e).batchId_eq.symm.trans heb⟩
  exact (request_releaseAny ho hb hown hch).mpr (.inr ⟨hout, settled_releaseAll.mp hdone⟩)

end Renoa.Kernel
