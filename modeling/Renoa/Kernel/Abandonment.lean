import Renoa.Kernel.DecisionOnce
import Renoa.Kernel.WorldRuns

/-!
# Abandoning an operation once

A call that abandons an operation reads its state in one transaction, asks the loop, and commits in
another. Between the two everything else may happen. The second transaction finds the row the first
one read, since a blocked operation of a held session does not move, so the checkpoint it stores
fits the manifest, and every later call recognises the abandonment.
-/

namespace Renoa.Kernel

open Foundation List Table Database

variable {V : Type} {db db' : Database V} {o o' : OperationRow V} {b : EffectBatchRow}
  {s : SessionId} {opId : OperationId} {runtime : Runtime} {choice : Choice V}
  {pending : PendingAbandonment V} {manifest : RuntimeManifest}

/-! ## Rows that do not move -/

/-- A started operation keeps its row or counts a transition. -/
theorem OperationStep.kept_or_counted (h : OperationStep db o o') (hph : o.phase ≠ .queued) :
    o' = o ∨ o.transitionVersion < o'.transitionVersion := by
  cases h with
  | same => exact .inl rfl
  | activated manifest hfst _ => exact absurd (firstQueued_eq_some hfst).2.2 hph
  | moved _ _ _ _ _ _ htrn => exact .inr (by omega)

theorem exists_kept_or_counted [DecidableEq V] (h : Consistent db) (ho : o ∈ db.operations)
    (hph : o.phase ≠ .queued) (ts : List (Transaction V)) :
    ∃ o' ∈ (db.runAll ts).operations, o'.operationId = o.operationId ∧
      (o' = o ∨ o.transitionVersion < o'.transitionVersion) := by
  refine h.runAll_induction (motive := fun mid => ∃ o' ∈ mid.operations,
    o'.operationId = o.operationId ∧ (o' = o ∨ o.transitionVersion < o'.transitionVersion))
    ⟨o, ho, rfl, .inl rfl⟩ ?_ ts
  rintro mid t mid' hmid ⟨q, hq, hid, hkept⟩ hcom
  obtain ⟨q', hq', hstep⟩ := (rowsStep_commit hmid hcom).exists_step hq
  refine ⟨q', hq', hstep.operationId_eq.trans hid, ?_⟩
  rcases hkept with rfl | hlt
  · exact hstep.kept_or_counted hph
  · exact .inr (hlt.trans_le hstep.transitionVersion_le)

/-! ## The two transactions -/

/-- The first transaction of a call only reads. -/
theorem abandoning_reads (db : Database V) (s : SessionId) (opId : OperationId)
    (runtime : Runtime) (choice : Choice V) :
    ((DriverState.abandoning opId).step db s runtime choice false).1 = db := by
  simp only [DriverState.step]
  cases db.loadUnknownEffectState s opId with
  | error e | ok state => rfl

theorem abandoning_pending
    (h : ((DriverState.abandoning opId).step db s runtime choice false).2 =
      .ok (.next (.closing opId pending))) :
    db.loadUnknownEffectState s opId = .ok (.pending pending) ∧
      pending.manifest = runtime.manifest := by
  simp only [DriverState.step] at h
  cases hload : db.loadUnknownEffectState s opId with
  | error e => rw [hload] at h; cases h
  | ok state =>
    rw [hload] at h
    cases state with
    | alreadyAbandoned manifest out =>
      obtain ⟨_, _, h⟩ := bind_ok h
      cases h
    | pending read =>
      obtain ⟨hruntime, h⟩ := ensure_bind_ok h
      cases h
      exact ⟨rfl, of_decide_eq_true hruntime⟩

/-- The second transaction fails without a trace, or commits what the loop has answered. -/
theorem closing_cases (db : Database V) (s : SessionId) (opId : OperationId)
    (pending : PendingAbandonment V) (runtime : Runtime) (choice : Choice V) :
    (∃ e, (DriverState.closing opId pending).step db s runtime choice false =
        (db, .error e)) ∨
      ∃ abandonment out db', choice.abandonment = .ok abandonment ∧
        requireCompatibleCheckpoint pending.manifest (some abandonment.checkpoint) = .ok () ∧
        db.commitUnknownEffectAbandonment s opId pending.transitionVersion
          pending.eventHighWater choice.eventIds abandonment = .ok (out, db') ∧
        (DriverState.closing opId pending).step db s runtime choice false =
          (db', .ok (.done (.abandonment out))) := by
  simp only [DriverState.step, transact]
  split
  next e _ =>
    exact .inl ⟨e, rfl⟩
  next out db' hrun =>
    obtain ⟨abandonment, hans, hrun⟩ := bind_ok hrun
    obtain ⟨_, hcompat, hrun⟩ := bind_ok hrun
    obtain ⟨_, _, hrun⟩ := bind_ok hrun
    exact .inr ⟨abandonment, out, db', mapError_eq_ok.mp hans, hcompat, hrun, rfl⟩

/-- A blocked operation has an unknown batch. -/
theorem Consistent.exists_unknown (h : Consistent db) (ho : o ∈ db.operations)
    (hph : o.phase = .outcomeUnknown) :
    ∃ b ∈ db.effectBatches, b.operationId = o.operationId ∧ HasUnknown db b := by
  obtain ⟨b, hb, -, hown, hpos⟩ := h.currentBatch ho (by rw [hph]; rfl)
  exact ⟨b, hb, hown, (h.batch_consistent o ho b hb hown).unknown hpos hph⟩

/-! ## Recognising an abandonment -/

/-- The operation was abandoned: it has failed, and its batch `b` still has an unknown child. -/
structure Abandoned (db : Database V) (o : OperationRow V) (b : EffectBatchRow)
    (manifest : RuntimeManifest) : Prop where
  mem : o ∈ db.operations
  phase : o.phase = .failed
  outcome : o.outcome = some abandonedOutcome
  manifest : o.manifest = some manifest
  checkpoint : requireStoredCheckpoint o = .ok ()
  batch : b ∈ db.effectBatches
  owner : b.operationId = o.operationId
  unknown : HasUnknown db b

/-- A committed abandonment whose checkpoint fits the manifest of the row. -/
theorem EndedOperation.abandoned {newId : Nat → EventId} {evs : List (NewEvent V)}
    {ckpt : Checkpoint V} (e : EndedOperation db o.sessionId o.operationId newId evs
      (OperationRow.abandon · ckpt) db') (h : Consistent db) (ho : o ∈ db.operations)
    (hph : o.phase = .outcomeUnknown) (hman : o.manifest = some manifest)
    (hcompat : requireCompatibleCheckpoint manifest (some ckpt) = .ok ())
    (hcomm : Committed db db') : ∃ b, Abandoned db' (o.abandon ckpt) b manifest := by
  have hsame : e.operation = o :=
    key_inj (mem_of_find? e.operation_find) ho
      (key_of_find? e.operation_find)
  have hops := congrArg Database.operations e.db'_eq
  rw [hsame] at hops
  obtain ⟨b, hb, hown, hunk⟩ := h.exists_unknown ho hph
  exact ⟨b,
    { mem := hops ▸ mem_put_self ho rfl
      phase := rfl
      outcome := rfl
      manifest := hman
      checkpoint := by
        simp only [OperationRow.abandon, hman]
        exact hcompat
      batch := (hcomm.batch_kept hb).1
      owner := hown
      unknown := hunk.committed hcomm }⟩

theorem Abandoned.unknownBatches (h : Abandoned db o b manifest) :
    db.unknownBatches o.operationId ≠ [] := by
  obtain ⟨e, he, heb, hstat⟩ := h.unknown
  refine ne_nil_of_mem (a := b) (mem_filter.mpr ⟨?_, ?_⟩)
  · exact mem_orderBy.mpr (mem_batchesOf.mpr ⟨h.batch, h.owner⟩)
  · exact any_eq_true.mpr
      ⟨e, mem_childrenOf.mpr ⟨he, heb⟩, decide_eq_true hstat⟩

theorem Abandoned.load (h : Abandoned db o b manifest) (hcons : Consistent db)
    (hbnd : Bound db) :
    db.loadUnknownEffectState o.sessionId o.operationId =
      .ok (.alreadyAbandoned manifest abandonedOutcome) := by
  obtain ⟨row, hrow, hid⟩ := hcons.operation_session o h.mem
  obtain ⟨c, hcmd, hjoin⟩ := hcons.operationWithCommand? h.mem
  obtain ⟨manifest', out, hman, hout, hprior⟩ :=
    hcons.loadPriorAbandonment_eq_ok hbnd h.mem h.phase hrow c.content h.unknownBatches
  obtain rfl := Option.some.inj (h.manifest.symm.trans hman)
  obtain rfl := Option.some.inj (h.outcome.symm.trans hout)
  have hver : requireStateVersion o.stateVersion = .ok () :=
    if_pos (hcons.operation_row o h.mem).stateVersion
  have hload : db.loadOperation o.sessionId o.operationId = .ok (some (o.stored c.content)) := by
    simp [Database.loadOperation, hjoin, OperationRow.decode, hver, hcmd, ensure,
      h.checkpoint]
  have hfind : db.sessions.find? o.sessionId = some row := hid ▸ find?_of_mem hrow
  have hph : (o.stored c.content).phase = .failed := h.phase
  simp [Database.loadUnknownEffectState, hfind, require, hload, hph, hprior]

/-- Calls with the manifest of the operation answer with its outcome. They do not ask the loop, and
where the session is free they leave the world as it is. -/
def World.Replays [DecidableEq V] (w : World V) (s : SessionId) (operationId : OperationId)
    (manifest : RuntimeManifest) : Prop :=
  ∀ (runtime : Runtime) (choice : Choice V), runtime.manifest = manifest →
    (DriverState.abandoning operationId).step w.db s runtime choice false =
        (w.db, .ok (.done (.abandonment abandonedOutcome))) ∧
      (w.leases s = none → w.run [.abandon s operationId runtime, .advance s choice] = w)

section Runs

variable [DecidableEq V] {w : World V} {mf : RuntimeManifest}

theorem Abandoned.run (h : Abandoned w.db o b mf) (hw : WorldInv w)
    (actions : List (Action V)) : Abandoned (w.run actions).db o b mf := by
  have hkept := run_induction (motive := fun w => b ∈ w.db.effectBatches ∧ HasUnknown w.db b) hw
    ⟨h.batch, h.unknown⟩ (fun w w' hw hkept hmvs =>
      ⟨((committed_moves hw hmvs).batch_kept hkept.1).1,
        hkept.2.committed (committed_moves hw hmvs)⟩) actions
  obtain ⟨ts, hts⟩ := w.exists_runAll actions
  obtain ⟨o', ho', hlat⟩ := exists_later_runAll hw.consistent h.mem ts
  -- an ended operation keeps its row
  obtain rfl := hlat.ended (by rw [h.phase]; rfl)
  exact { h with mem := hts ▸ ho', batch := hkept.2.1, unknown := hkept.2.2 }

theorem Abandoned.replays (h : Abandoned w.db o b mf) (hw : WorldInv w) :
    w.Replays o.sessionId o.operationId mf := by
  rintro runtime choice rfl
  have hstep : ∀ awaiting, (DriverState.abandoning o.operationId).step w.db o.sessionId runtime
      choice awaiting = (w.db, .ok (.done (.abandonment abandonedOutcome))) := by
    intro awaiting
    simp [DriverState.step, h.load hw.consistent hw.bound, transact, ensure]
  refine ⟨hstep false, fun hfree => ?_⟩
  have hlss : Function.update w.leases o.sessionId none = w.leases := by
    rw [← hfree, Function.update_eq_self]
  simp [World.run, World.next, World.acquire, hfree, World.putLease, World.advance, hstep,
    World.settle, World.decided, hlss]

/-! ## A call and its repetitions -/

/-- The row the second transaction of a call finds is the one the first has read. -/
theorem closing_row (hw : WorldInv w) {middle : List (Action V)}
    (hload : w.db.loadUnknownEffectState s opId = .ok (.pending pending))
    {lease : Lease V} (hmid : WorldInv (w.run middle))
    (hls : (w.run middle).leases s = some lease)
    (hdrv : lease.driver = some (.closing opId pending)) :
    ∃ o ∈ (w.run middle).db.operations, o.operationId = opId ∧ o.sessionId = s ∧
      o.phase = .outcomeUnknown ∧ o.manifest = some pending.manifest := by
  obtain ⟨o, ho, hid, hs, hph, hver, hman, -⟩ := loadUnknownEffectState_pending hload
  obtain ⟨⟨q, hq, hqid, -, -, -, hqversion⟩, -⟩ := (hmid.lease s lease hls).knows _ hdrv
  obtain ⟨ts, hts⟩ := w.exists_runAll middle
  obtain ⟨o', ho', hid', hkept⟩ := exists_kept_or_counted hw.consistent ho (by rw [hph]; decide) ts
  rw [← hts] at ho'
  have hsame : o' = q := key_inj ho' hq (hid'.trans (hid.trans hqid.symm))
  rcases hkept with rfl | hlt
  · exact ⟨o', ho', hid, hs, hph, hman⟩
  · rw [hsame, hqversion, hver] at hlt
    exact absurd hlt (lt_irrefl _)

theorem db_advance {lease : Lease V} {d : DriverState V} (hls : w.leases s = some lease)
    (hdrv : lease.driver = some d) : (w.next (.advance s choice)).db =
      (d.step w.db s lease.runtime choice (!lease.tasks.isEmpty)).1 := by
  simp [World.next, hls, hdrv, World.advance, World.db_settle]

/-- **Abandoning an operation is atomic and idempotent.** The first transaction of a call only
reads. When the second one is about to run, whatever has happened since, the operation is still
blocked; it fails and changes nothing, or it appends the events of the loop, fails the operation,
and every later call with the manifest replays its outcome. -/
theorem abandonment_atomic_idempotent (before middle : List (Action V)) (s : SessionId)
    (operationId : OperationId) (runtime : Runtime) (choice choice' : Choice V) :
    let w := World.initial.run before
    let mid := w.run middle
    let read := (DriverState.abandoning operationId).step w.db s runtime choice false
    read.1 = w.db ∧
      ∀ pending lease, read.2 = .ok (.next (.closing operationId pending)) →
        mid.leases s = some lease → lease.driver = some (.closing operationId pending) →
        ∃ o ∈ mid.db.operations, o.operationId = operationId ∧ o.phase = .outcomeUnknown ∧
          let commit := (DriverState.closing operationId pending).step mid.db s lease.runtime
            choice' false
          ((∃ e, commit = (mid.db, .error e)) ∨
            ∃ abandonment row db', choice'.abandonment = .ok abandonment ∧
              mid.db.sessions.find? s = some row ∧
              commit = (db', .ok (.done (.abandonment abandonedOutcome))) ∧
              o.abandon abandonment.checkpoint ∈ db'.operations ∧
              db'.semanticEvents.rows = mid.db.semanticEvents.rows ++
                eventRows s operationId choice'.eventIds row.nextEventSequence abandonment.events ∧
              ∀ after, (mid.run (.advance s choice' :: after)).Replays s operationId
                runtime.manifest) := by
  intro w mid read
  have hw : WorldInv w := worldInv_run worldInv_initial before
  have hmid : WorldInv mid := worldInv_run hw middle
  refine ⟨abandoning_reads _ _ _ _ _, fun pending lease hread hlease hdriver => ?_⟩
  obtain ⟨hload, hruntime⟩ := abandoning_pending hread
  obtain ⟨o, ho, rfl, rfl, hphase, hmanifest⟩ := closing_row hw hload hmid hlease hdriver
  refine ⟨o, ho, rfl, hphase, ?_⟩
  intro commit
  have htasks : lease.tasks = [] := by
    by_contra hne
    obtain ⟨_, _, hinvoking⟩ := (hmid.lease o.sessionId lease hlease).awaiting _ hdriver hne
    cases hinvoking
  have hdb : (mid.next (.advance o.sessionId choice')).db = commit.1 := by
    rw [db_advance hlease hdriver, htasks]
    rfl
  have hcommitted := committed_moves hmid (moves_next hmid (.advance o.sessionId choice'))
  rw [hdb] at hcommitted
  rcases closing_cases mid.db o.sessionId o.operationId pending lease.runtime choice' with
    hfailed | ⟨abandonment, outcome, db', hanswer, hcompatible, hrun, hstep⟩
  · exact .inl hfailed
  have hdb' : commit.1 = db' := congrArg Prod.fst hstep
  rw [hdb'] at hdb hcommitted
  obtain ⟨-, rfl, e, -, -, -⟩ := commitUnknownEffectAbandonment_ok hrun
  obtain ⟨b, habandoned⟩ := e.abandoned hmid.consistent ho hphase hmanifest hcompatible hcommitted
  rw [hruntime] at habandoned
  have hevents := (congrArg (fun db => db.semanticEvents.rows) e.db'_eq).trans e.events_eq
  refine .inr ⟨abandonment, e.session, db', hanswer, e.session_find, hstep,
    habandoned.mem, hevents, ?_⟩
  intro after
  rw [← hdb] at habandoned
  have hnext := worldInv_moves hmid (moves_next hmid (.advance o.sessionId choice'))
  exact (habandoned.run hnext after).replays (worldInv_run hnext after)

end Runs

def abandonRuntime : Runtime := ⟨⟨"agent", "1", 1, [("tool", "1")], ""⟩, [("tool", "1")]⟩

/-- A loop that closes its state with one event. -/
def abandonChoice : Choice Nat := { twoEffects with abandonment := .ok ⟨⟨1, 9⟩, [⟨"closed", 9⟩]⟩ }

/-- Drives an operation until an unknown effect blocks it, and abandons it. -/
def abandonedRun : List (Action Nat) :=
  twoEffectsRun ++ finishing [⟨0⟩, ⟨1⟩] ++ List.replicate 4 (.advance ⟨0⟩ twoEffects) ++
    [.abandon ⟨0⟩ ⟨0⟩ abandonRuntime, .advance ⟨0⟩ abandonChoice, .advance ⟨0⟩ abandonChoice]

/-- A repetition that meets another driver of the session is refused. -/
theorem abandonment_busy :
    (World.initial.run abandonedRun).db.operations.rows.map OperationRow.outcome =
        [some abandonedOutcome] ∧
      (World.initial.run abandonedRun).db.semanticEvents.rows.length = 1 ∧
      (World.initial.run (abandonedRun ++ [.drive ⟨0⟩ abandonRuntime,
        .abandon ⟨0⟩ ⟨0⟩ abandonRuntime])).errors = [.busy ⟨0⟩] := by
  decide

end Renoa.Kernel
