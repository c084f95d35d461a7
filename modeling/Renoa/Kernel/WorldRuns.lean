import Mathlib.Logic.Relation
import Renoa.Kernel.Handover
import Renoa.Kernel.Lifecycle

/-!
# The running kernel runs transactions

An action of the running kernel commits at most one transaction, so its database always is one that
a run of transactions reaches from the database it was opened with. What is proved of runs of
transactions therefore holds of the running kernel: rows of operations and effects only move
forward. A session changes only under its lease.
-/

namespace Renoa.Kernel

open Foundation Database

variable {V : Type} [DecidableEq V] {db db' : Database V} {α : Type} {sid : SessionId}
  {w : World V} {k : α → Except KernelError (Control V)} {compl : EffectCompletion V}

/-- The database stays, or one transaction commits. -/
inductive Commits (db : Database V) : Database V → Prop
  | nothing : Commits db db
  | one {db' : Database V} (t : Transaction V) (h : t.commit db = .ok db') : Commits db db'

theorem Commits.exists_runAll (h : Commits db db') : ∃ ts, db' = db.runAll ts := by
  cases h with
  | nothing => exact ⟨[], rfl⟩
  | one t h =>
    exact ⟨[t], (apply_of_ok h).symm⟩

/-- A step that runs a transaction commits what the transaction commits. -/
theorem commits_transact {x : Except KernelError (α × Database V)}
    (h : ∀ a db', x = .ok (a, db') → Commits db db') : Commits db (transact db x k).1 := by
  cases x with
  | error e => exact .nothing
  | ok r => exact h r.1 r.2 rfl

/-- A step that only reads. -/
theorem commits_read {x : Except KernelError α} :
    Commits db (transact db (do let a ← x; return (a, db)) k).1 := by
  refine commits_transact fun a db' h => ?_
  obtain ⟨_, _, h⟩ := bind_ok h
  cases h
  exact .nothing

theorem commits_applyLoopDecision {act : ActiveOperation V} {runtime : Runtime}
    {ch : Choice V} {dec : LoopDecision V} {out : Option OperationOutcome}
    (h : db.applyLoopDecision sid act runtime ch dec = .ok (out, db')) :
    Commits db db' := by
  obtain ⟨_, _, h⟩ := bind_ok h
  cases dec with
  | invokeEffects ckpt effs =>
    obtain ⟨_, _, h⟩ := bind_ok h
    obtain ⟨intents, _, h⟩ := bind_ok h
    obtain ⟨r, hcom, h⟩ := bind_ok h
    cases h
    exact .one (.commitEffectBatchIntent act.operationId act.transitionVersion
      ch.batchId ch.effectIds { checkpoint := ckpt, effects := intents })
      (map_eq_ok.mpr ⟨r, hcom, rfl⟩)
  | appendEventsAndContinue | waitForInput | complete | fail =>
    obtain ⟨r, hcom, h⟩ := bind_ok h
    cases h
    exact .one (.commitDecision sid act.operationId act.transitionVersion
      ch.eventIds _) (map_eq_ok.mpr ⟨r, hcom, rfl⟩)

/-- A step of a driver commits at most one transaction. -/
theorem DriverState.commits_step (driver : DriverState V) (db : Database V)
    (sid : SessionId) (runtime : Runtime) (ch : Choice V) (awaiting : Bool) :
    Commits db (driver.step db sid runtime ch awaiting).1 := by
  cases driver with
  | activating =>
    exact commits_transact fun a db' h => .one (.activate sid runtime.manifest)
      (map_eq_ok.mpr ⟨_, h, rfl⟩)
  | checking act =>
    exact commits_transact fun a db' h =>
      .one (.loadRequestedCancellation sid act.operationId) (map_eq_ok.mpr ⟨_, h, rfl⟩)
  | cancelling act pend =>
    refine commits_transact fun a db' h => ?_
    obtain ⟨transition, _, h⟩ := bind_ok h
    iterate 2 obtain ⟨_, _, h⟩ := bind_ok h
    obtain ⟨_, hcom, h⟩ := bind_ok h
    cases h
    exact .one (.commitCancellation sid act.operationId pend.transitionVersion
      pend.eventHighWater ch.eventIds transition) hcom
  | reading act =>
    refine commits_transact fun a db' h => ?_
    obtain ⟨_, _, h⟩ := bind_ok h
    cases h
    exact .nothing
  | preparing act =>
    exact commits_transact fun a db' h =>
      .one (.prepareEffectBatch act.operationId act.transitionVersion) (map_eq_ok.mpr ⟨_, h, rfl⟩)
  | invoking act round =>
    unfold DriverState.step
    dsimp only
    split <;> exact .nothing
  | finishing act bid expected =>
    exact commits_transact fun a db' h =>
      .one (.finishEffectBatchAttempt act.operationId bid expected) (map_eq_ok.mpr ⟨_, h, rfl⟩)
  | loading act evs => exact commits_read
  | deciding act input =>
    refine commits_transact fun a db' h => ?_
    obtain ⟨dec, _, h⟩ := bind_ok h
    exact commits_applyLoopDecision h
  | reloading act | abandoning opId => exact commits_read
  | closing opId pend =>
    refine commits_transact fun a db' h => ?_
    obtain ⟨abandonment, _, h⟩ := bind_ok h
    iterate 2 obtain ⟨_, _, h⟩ := bind_ok h
    exact .one (.commitUnknownEffectAbandonment sid opId pend.transitionVersion
      pend.eventHighWater ch.eventIds abandonment) (map_eq_ok.mpr ⟨_, h, rfl⟩)

theorem commits_recordCompletion {opId : OperationId} {bid : EffectBatchId}
    {eff : PendingEffect V} {finished : Bool}
    (h : db.recordCompletion opId bid eff compl = .ok (finished, db')) :
    Commits db db' := by
  cases compl with
  | settled out =>
    exact .one (.settleBatchEffect opId bid eff.effectId eff.transitionVersion
      out) (map_eq_ok.mpr ⟨_, h, rfl⟩)
  | outcomeUnknown =>
    unfold Database.recordCompletion at h
    dsimp only at h
    split at h
    · cases h
      exact .nothing
    · exact .one (.recordBatchEffectUnknown opId bid eff.effectId
        eff.transitionVersion) (map_eq_ok.mpr ⟨_, h, rfl⟩)

namespace World

theorem commits_transaction {x : Except KernelError (Database V)} {t : Transaction V}
    (h : x = t.commit w.db) : Commits w.db (w.transaction x).db := by
  cases hx : x with
  | error e => exact .nothing
  | ok db => exact .one t (h.symm.trans hx)

theorem commits_complete {lease : Lease V} {task : EffectTask V} :
    Commits w.db (w.complete sid lease task compl).db := by
  unfold World.complete
  dsimp only
  split
  · split
    · exact .nothing
    next finished db hrec =>
      exact commits_recordCompletion hrec
  · exact .nothing

/-- **An action of the running kernel commits at most one transaction.** -/
theorem commits_next (w : World V) (action : Action V) : Commits w.db (w.next action).db := by
  cases action with
  | createAgent agentId => exact .one (.createAgent agentId) rfl
  | createSession sid agentId => exact commits_transaction (t := .createSession sid agentId) rfl
  | submit mode opId sid cmd => exact commits_transaction (t := .submit mode opId sid cmd) rfl
  | requestCancellation sid opId cancellationId =>
    exact commits_transaction (t := .requestCancellation sid opId cancellationId) rfl
  | advance sid ch =>
    unfold World.next
    dsimp only
    split
    · split
      · unfold World.advance
        rw [db_settle]
        exact DriverState.commits_step _ w.db sid _ ch _
      · exact .nothing
    · exact .nothing
  | complete sid eid compl =>
    unfold World.next
    dsimp only
    split
    · split
      · split
        · exact commits_complete
        · exact .nothing
      · exact .nothing
    · exact .nothing
  | inspect | commandStanding | observeSession | eventsAfter | drive | abandon | spawn | invoke
  | taskFailed | dropDriver | crash =>
    simp only [World.next, World.read, World.acquire, World.taskFailed]
    repeat' split
    all_goals exact .nothing

/-- The database of the running kernel is one that a run of transactions reaches. -/
theorem exists_runAll (w : World V) (actions : List (Action V)) :
    ∃ ts, (w.run actions).db = w.db.runAll ts := by
  induction actions generalizing w with
  | nil => exact ⟨[], rfl⟩
  | cons action actions ih =>
    obtain ⟨ts, hts⟩ := (w.commits_next action).exists_runAll
    obtain ⟨us, hus⟩ := ih (w.next action)
    refine ⟨ts ++ us, ?_⟩
    rw [runAll_append, ← hts]
    exact hus

end World

/-! ## What no run undoes -/

open World

omit [DecidableEq V] in
/-- A move changes the rows of a session only when the session is leased. -/
theorem Moves.isolated {w' : World V} (hmvs : Moves w w') (h : WorldInv w) (s : SessionId) :
    (∃ lease, w.leases s = some lease) ∨ Untouched s w.db w'.db := by
  have hframe : ∀ {t lease db'}, w.leases t = some lease → Moved t w.db db' →
      (∃ lease, w.leases s = some lease) ∨ Untouched s w.db db' := by
    intro t lease db' hls hmvd
    by_cases hst : s = t
    · exact .inl ⟨lease, by rw [hst]; exact hls⟩
    · exact .inr (hmvd.frame s hst)
  cases hmvs with
  | called hcall => exact .inr (hcall.untouched s)
  | stepped ch hls hdrv hidle =>
    obtain ⟨r, _, hinv, _, heq⟩ := advance_idle h ch hls hdrv hidle
    rw [heq, db_settle]
    exact hframe hls hinv.moved
  | recorded hls hdrv _ _ hrec =>
    have hhld := ((h.lease _ _ hls).knows _ hdrv).1
    exact hframe hls ((hrec.changedBy h.consistent).moved h.consistent h.bound hhld)
  | _ => exact .inr (untouched_refl s _)

theorem worldInv_run (h : WorldInv w) (actions : List (Action V)) : WorldInv (w.run actions) :=
  (run_induction h (motive := fun _ => True) trivial (fun _ _ _ _ _ => trivial) actions).1

/-- **Only the driver that holds its lease changes a session.** -/
theorem session_isolated (actions : List (Action V)) (action : Action V) (s : SessionId) :
    (∃ lease, (initial.run actions).leases s = some lease) ∨
      Untouched s (initial.run actions).db ((initial.run actions).next action).db := by
  have h := worldInv_run worldInv_initial actions
  exact (moves_next h action).isolated h s

/-- `db'` is a later state of the store: no operation is lost, queued again or reopened, every
effect went through steps of its lifecycle only, and a batch keeps its children. -/
structure Advanced (db db' : Database V) : Prop where
  operation : ∀ o ∈ db.operations, ∃ o' ∈ db'.operations, o.Later o'
  effect : ∀ e ∈ db.effects, ∃ e' ∈ db'.effects, Relation.ReflTransGen EffectStep e e'
  batch : ∀ b ∈ db.effectBatches, b ∈ db'.effectBatches ∧
    (db'.childrenOf b.batchId).map EffectRow.effectId =
      (db.childrenOf b.batchId).map EffectRow.effectId

/-- **The kernel never goes back**, whatever calls, drivers, tasks and crashes a run interleaves. -/
theorem run_advanced (before after : List (Action V)) :
    Advanced (initial.run before).db (initial.run (before ++ after)).db := by
  have hc := (worldInv_run worldInv_initial before).consistent
  obtain ⟨ts, hts⟩ := exists_runAll (initial.run before) after
  rw [run_append, hts]
  -- a transaction takes each row that was reached so far one step further
  refine hc.runAll_induction (motive := Advanced _) ⟨fun o ho => ⟨o, ho, o.later_refl⟩,
    fun e he => ⟨e, he, .refl⟩, fun b hb => ⟨hb, rfl⟩⟩ ?_ ts
  intro db t db' hc h hcom
  have hcommitted := committed_commit hc hcom
  refine ⟨fun o ho => ?_, fun e he => ?_, fun b hb => ?_⟩
  · obtain ⟨o', ho', hlat⟩ := h.operation o ho
    obtain ⟨o'', ho'', hlat'⟩ := (rowsStep_commit hc hcom).exists_later ho'
    exact ⟨o'', ho'', hlat.trans hlat'⟩
  · obtain ⟨e', he', hchain⟩ := h.effect e he
    obtain ⟨e'', he'', hstep⟩ := hcommitted.effect_step he'
    exact ⟨e'', he'', hchain.tail hstep⟩
  · obtain ⟨hb', hids⟩ := h.batch b hb
    obtain ⟨hb'', hids'⟩ := hcommitted.batch_kept hb'
    exact ⟨hb'', hids'.trans hids⟩

/-- The attempts that drivers and adapter tasks hold are open, and each is held once. -/
structure HeldOnce (w : World V) : Prop where
  opened : ∀ s lease, w.leases s = some lease → ∀ p ∈ lease.outstanding, Open w.db s p
  once : ∀ s lease t lease', w.leases s = some lease → w.leases t = some lease' →
    ∀ p ∈ lease.outstanding, ∀ q ∈ lease'.outstanding, p.effectId = q.effectId → s = t ∧ p = q

theorem attempts_held_once (actions : List (Action V)) : HeldOnce (initial.run actions) := by
  have h := worldInv_run worldInv_initial actions
  refine ⟨fun s lease hls => (h.lease s lease hls).opened, ?_⟩
  intro s lease t lease' hls hls' p hp q hq hid
  obtain rfl := ((h.lease s lease hls).opened p hp).session_eq
    ((h.lease t lease' hls').opened q hq) hid
  obtain rfl : lease = lease' := Option.some.inj (hls.symm.trans hls')
  exact ⟨rfl, List.inj_on_of_nodup_map (h.lease s lease hls).distinct hp hq hid⟩

/-- **Every effect carries the revision that the manifest of its operation froze.** -/
theorem revisions_frozen (actions : List (Action V)) : Bound (initial.run actions).db :=
  (worldInv_run worldInv_initial actions).bound

end Renoa.Kernel
