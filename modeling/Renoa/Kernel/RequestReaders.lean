import Renoa.Kernel.ExactRelease
import Renoa.Kernel.WorldRuns

/-!
# No reader meets a released request

Four readers use stored requests: the dispatch of a batch, the settled batch a loop decides on, the
facts of a batch that a cancellation closes, and the facts of a batch with an unknown child, also
when an abandonment is asked for again. A missing request fails the dispatch with
`KernelError.store` and the others with `releasedRequest`. In the databases of a
running kernel neither happens.

A kernel starts on a new database or on a migrated one (`KernelStart`).
-/

namespace Renoa.Kernel

open Foundation Table Database

variable {V : Type} {db : Database V}

/-- The error of a reader of facts that meets a released request. -/
def releasedRequest : KernelError := .corrupt "effect batch child request was released"

theorem Sound.ne_releasedRequest {α : Type} {x : Except KernelError α} (h : Sound x) :
    x ≠ .error releasedRequest :=
  fun hx => h releasedRequest hx trivial

/-! ## Dispatch -/

/-- The computation does not fail in the store. -/
def AvoidsStore {α : Type} (x : Except KernelError α) : Prop := Avoids (· = .store) x

theorem avoidsStore_require {α : Type} {msg : String} {o : Option α} :
    AvoidsStore (require (.corrupt msg) o) :=
  avoids_require fun h => by cases h

theorem avoidsStore_ensure {msg : String} {c : Bool} : AvoidsStore (ensure c (.corrupt msg)) :=
  avoids_ensure fun h => by cases h

theorem avoidsStore_updateEffectStatus (db : Database V) (eid : EffectId)
    (expected next : EffectStatus) : AvoidsStore (db.updateEffectStatus eid expected next) :=
  avoids_bind avoidsStore_require fun _ _ => avoids_ok _

theorem avoidsStore_dispatchChild (db : Database V) (bid : EffectBatchId)
    (nextTransition : Nat) (eff : PreparedEffect V) :
    AvoidsStore (db.dispatchChild bid nextTransition eff) :=
  avoids_bind avoidsStore_require fun _ _ => avoids_ok _

theorem avoidsStore_prepareChild (db : Database V) (phase : PreparePhase)
    (bid : EffectBatchId) (nextTransition : Nat) (eff : PreparedEffect V) :
    AvoidsStore (db.prepareChild phase bid nextTransition eff) := by
  unfold Database.prepareChild
  split
  · exact avoidsStore_dispatchChild db bid nextTransition eff
  · exact avoidsStore_dispatchChild db bid nextTransition eff
  · exact avoids_error.mpr fun h => by cases h
  · exact avoids_bind (avoidsStore_updateEffectStatus db _ _ _) fun _ _ => avoids_ok _
  · exact avoids_ok _
  · exact avoids_ok _
  · exact avoids_error.mpr fun h => by cases h

theorem avoidsStore_prepareChildren (db : Database V) (phase : PreparePhase)
    (bid : EffectBatchId) (nextTransition : Nat) (effs : List (PreparedEffect V)) :
    AvoidsStore (db.prepareChildren phase bid nextTransition effs) := by
  induction effs generalizing db with
  | nil => exact avoids_ok _
  | cons eff rest ih =>
    apply avoids_bind (avoidsStore_prepareChild db phase bid nextTransition eff)
    intro r _
    exact avoids_bind (ih r.2.2) fun _ _ => avoids_ok _

theorem avoidsStore_transitionFinishedBatch (db : Database V) (opId : OperationId)
    (bid : EffectBatchId) (expected : Nat) (blocked : Bool) :
    AvoidsStore (db.transitionFinishedBatch opId bid expected blocked) :=
  avoidsStore_require

theorem avoidsStore_finishBatchWithoutInvocations (db : Database V) (opId : OperationId)
    (bid : EffectBatchId) (expected : Nat) (effs : List (PreparedEffect V)) :
    AvoidsStore (db.finishBatchWithoutInvocations opId bid expected effs) :=
  avoids_bind avoidsStore_ensure fun _ _ =>
    avoids_bind (avoidsStore_transitionFinishedBatch db _ _ _ _) fun _ _ => avoids_ok _

/-- The rows that a preparation reads all have their requests. -/
theorem avoidsStore_loadPreparedEffects {opId : OperationId} {bid : EffectBatchId}
    (hreq : ∀ e ∈ db.ownedChildren opId bid, e.request ≠ none) :
    AvoidsStore (db.loadPreparedEffects opId bid) := by
  refine avoids_bind (avoids_bind avoidsStore_ensure fun _ _ =>
    avoids_bind avoidsStore_ensure fun _ _ => avoids_ok _) fun children hkids => ?_
  iterate 2 obtain ⟨_, _, hkids⟩ := bind_ok hkids
  cases hkids
  refine avoids_mapM fun e he => ?_
  exact avoids_require_bind (fun _ => hreq e he) fun _ _ => avoids_ok _

/-- The dispatch of a batch never meets a released request. -/
theorem Consistent.avoidsStore_prepareEffectBatch (h : Consistent db) (opId : OperationId)
    (expected : Nat) :
    AvoidsStore (db.prepareEffectBatch opId expected) := by
  unfold Database.prepareEffectBatch
  split
  · exact avoids_ok _
  refine avoids_bind (avoids_bind avoidsStore_require fun _ _ =>
    avoids_bind avoidsStore_require fun _ _ => avoids_ok _) fun act hact => ?_
  obtain ⟨o, ho, hact⟩ := require_bind_ok hact
  obtain ⟨bid, hcur, hact⟩ := bind_ok hact
  cases hact
  obtain ⟨hfind, _⟩ := Option.filter_eq_some_iff.mp ho
  have hmem : o ∈ db.operations := mem_of_find? hfind
  have hkey : o.operationId = opId := key_of_find? hfind
  refine avoids_bind avoidsStore_require fun phase hph => ?_
  have hcanc : o.phase.isCancellable = true := by
    have hprepare : o.phase.prepare? = some phase := require_ok hph
    unfold OperationPhase.prepare? at hprepare
    split at hprepare <;> first | (rename_i heq; rw [heq]; rfl) | cases hprepare
  refine avoids_bind (avoidsStore_loadPreparedEffects ?_) fun st _ => ?_
  · intro e he
    unfold Database.ownedChildren at he
    split at he
    next howned =>
      obtain ⟨b, hb, hid⟩ := List.any_eq_true.mp howned
      obtain ⟨hb, hbo⟩ := mem_batchesOf.mp hb
      obtain ⟨he, heb⟩ := mem_orderedChildren.mp he
      exact h.request_ne_none hmem hcanc hb (hbo.trans hkey.symm) he
        (heb.trans (of_decide_eq_true hid).symm)
    · cases he
  refine avoids_bind (avoidsStore_prepareChildren db phase bid _ st) fun r _ => ?_
  dsimp only
  split
  · exact avoidsStore_finishBatchWithoutInvocations _ _ _ _ _
  · exact avoids_bind avoidsStore_require fun _ _ => avoids_ok _

/-! ## Cancellation -/

/-- The facts of a batch that a cancellation closes never meet a released request, whatever
operation is asked for: only the active operation of the session gets that far. -/
theorem Consistent.loadRequestedCancellation_ne (h : Consistent db) (hbnd : Bound db)
    (sid : SessionId) (opId : OperationId) :
    db.loadRequestedCancellation sid opId ≠ .error releasedRequest := by
  intro hload
  by_cases hact : ∃ o ∈ db.operations, o.operationId = opId ∧ o.sessionId = sid ∧
      o.phase.isCancellable = true
  · obtain ⟨o, ho, rfl, rfl, hph⟩ := hact
    exact (sound_loadRequestedCancellation h ho hph hbnd).ne_releasedRequest hload
  unfold Database.loadRequestedCancellation at hload
  split at hload
  · cases hsess : db.sessions.find? sid with
    | none =>
      rw [hsess] at hload
      cases hload
    | some row =>
      have hidle : decide (row.activeOperationId = some opId) = false := by
        refine decide_eq_false fun hown => hact ?_
        have hrow : row ∈ db.sessions := mem_of_find? hsess
        obtain ⟨o, ho, hid, hos, hph⟩ := (h.active row hrow opId).mp hown
        exact ⟨o, ho, hid, hos.trans (key_of_find? hsess), hph⟩
      rw [hsess, require, except_bind_ok, hidle] at hload
      have herror := KernelError.corrupt.inj (Except.error.inj hload)
      exact absurd herror (by decide)
  · cases hload

/-! ## The running kernel -/

variable (V) in
/-- What a kernel starts on: a new database, or one that it has migrated from version 3 and that
the earlier kernel left consistent. -/
inductive KernelStart where
  | created
  | migrated (d : DatabaseV3 V) (hconsistent : Consistent d.toV4) (hbound : Bound d.toV4)

namespace KernelStart

def database : KernelStart V → Database V
  | .created => .empty
  | .migrated d _ _ => d.migrateV3ToV4

/-- The requests that the stored effects were admitted with. -/
def requests : KernelStart V → EffectId → Option V
  | .created, _ => none
  | .migrated d _ _, effectId => (d.effects.find? effectId).map EffectRowV3.request

theorem consistent (start : KernelStart V) : Consistent start.database := by
  cases start with
  | created => exact consistent_empty
  | migrated d hcons _ => exact hcons.releaseAll

theorem bound (start : KernelStart V) : Bound start.database := by
  cases start with
  | created => exact bound_empty
  | migrated d _ hbnd =>
    intro o ho mf hman e' howns
    obtain ⟨he', b, hb, hbe, hbo⟩ := howns
    obtain ⟨e, he, rfl⟩ := mem_releaseAll.mp he'
    have hstep := d.toV4.effectStep_releaseAny e
    have hold := hbnd o ho mf hman e ⟨he, b, hb, hbe.trans hstep.batchId_eq, hbo⟩
    unfold EffectRow.boundBy at hold ⊢
    rw [hstep.binding_eq, hstep.bindingRevision_eq]
    exact hold

theorem finishedReleased (start : KernelStart V) : start.database.FinishedReleased := by
  cases start with
  | created => exact fun o ho => absurd ho not_mem_empty
  | migrated d _ _ => exact d.toV4.finishedReleased_releaseAll

theorem requests_spec (start : KernelStart V) : ∀ e ∈ start.database.effects,
    ∃ req, start.requests e.effectId = some req ∧
      (e.request = none ∨ e.request = some req) := by
  cases start with
  | created => exact fun e he => absurd he not_mem_empty
  | migrated d _ _ =>
    intro e' he'
    obtain ⟨e, he, rfl⟩ := mem_releaseAll.mp he'
    obtain ⟨q, hq, rfl⟩ := List.mem_map.mp he
    refine ⟨q.request, ?_, ?_⟩
    · rw [(d.toV4.effectStep_releaseAny q.toV4).effectId_eq]
      show (d.effects.find? q.effectId).map EffectRowV3.request = _
      rw [find?_of_mem hq]
      rfl
    · unfold Database.releaseAny
      split
      · exact .inl rfl
      · exact .inr rfl

/-- The kernel that has just been opened. -/
def world (start : KernelStart V) : World V := { World.initial with db := start.database }

theorem worldInv (start : KernelStart V) : WorldInv start.world :=
  ⟨start.consistent, start.bound, fun _ _ hls => by cases hls⟩

variable [DecidableEq V]

/-- In every database that transactions reach, the requests are released exactly. -/
theorem releasesExactly (start : KernelStart V) (ts : List (Transaction V)) :
    (start.database.runAll ts).ReleasesExactly
      (AdmittedRequest start.database start.requests ts) := by
  have hrel := start.consistent.runAll_induction start.finishedReleased
    (fun _ _ _ hcons hrel hcom => finishedReleased_commit hcons hrel hcom) ts
  exact (consistent_runAll start.consistent ts).releasesExactly hrel
    (exists_admittedRequest start.consistent start.requests_spec ts)

end KernelStart

/-- No reader of requests meets a released one: the dispatch and the facts of a cancellation or an
abandonment for whatever operation is asked for, and the loop's input for the operation that a
driver is about to decide. -/
structure World.ReadsRequests (w : World V) : Prop where
  dispatch : ∀ operationId expectedTransition,
    w.db.prepareEffectBatch operationId expectedTransition ≠ .error .store
  input : ∀ sessionId lease active events, w.leases sessionId = some lease →
    lease.driver = some (.loading active events) →
    w.db.loadLoopInput sessionId active events ≠ .error releasedRequest
  cancellation : ∀ sessionId operationId,
    w.db.loadRequestedCancellation sessionId operationId ≠ .error releasedRequest
  abandonment : ∀ sessionId operationId,
    w.db.loadUnknownEffectState sessionId operationId ≠ .error releasedRequest

theorem WorldInv.readsRequests {w : World V} (h : WorldInv w) : w.ReadsRequests where
  dispatch opId expected hrun :=
    h.consistent.avoidsStore_prepareEffectBatch opId expected _ hrun rfl
  input sid lease act evs hls hdrv := by
    obtain ⟨o, ho, hid, _, _, htrack, _⟩ := (h.lease sid lease hls).knows _ hdrv
    exact (h.consistent.sound_loadLoopInput h.bound ho hid htrack evs).ne_releasedRequest
  cancellation := h.consistent.loadRequestedCancellation_ne h.bound
  abandonment sid opId :=
    (h.consistent.sound_loadUnknownEffectState h.bound sid opId).ne_releasedRequest

variable [DecidableEq V]

/-- **Requests are released exactly, and never too early.** A migrated database of version 3 has
lost exactly the finished requests. From a new or migrated database, every run of transactions
keeps it so, with the requests the batches were committed with; the running kernel only passes
through such databases, and there no reader of requests meets a released one. -/
theorem requests_released_exactly :
    (∀ (d : DatabaseV3 V) (db : Database V),
      (Stored.old (.v3 d)).initializeDatabase = .ok db →
      db.ReleasesExactly fun e request =>
        ∃ q ∈ d.effects, q.effectId = e.effectId ∧ q.request = request) ∧
    ∀ start : KernelStart V,
      (∀ ts, (start.database.runAll ts).ReleasesExactly
        (AdmittedRequest start.database start.requests ts)) ∧
      ∀ actions, (∃ ts, (start.world.run actions).db = start.database.runAll ts) ∧
        (start.world.run actions).ReadsRequests := by
  refine ⟨fun d db hopen => d.releasesExactly hopen, fun start => ⟨start.releasesExactly, ?_⟩⟩
  intro actions
  refine ⟨start.world.exists_runAll actions, ?_⟩
  have hinv := (run_induction start.worldInv trivial (fun _ _ _ _ _ => trivial) actions).1
  exact hinv.readsRequests

end Renoa.Kernel
