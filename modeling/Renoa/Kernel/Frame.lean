import Renoa.Kernel.OperationCommit

/-!
# What the other sessions see of a transaction

`Untouched s db db'` is the frame of a session: whoever drives `s` still finds its operations,
their children and its event cursor in `db'`. Admissions, new sessions and cancellation requests
leave every session untouched, and the work of a driver leaves every session but its own
untouched. Facts a driver holds about its own operation (`Holds`) survive such transactions.

`Bound db` says that every effect carries the revision its operation's manifest froze.
-/

namespace Renoa.Kernel

open Foundation Table Database

variable {V : Type} {db db' : Database V} {s : SessionId} {opId : OperationId}
  {P : OperationRow V → Prop} {intent : NewEffectBatchIntent V} {expected : Nat}
  {bid : EffectBatchId} {newId : Nat → EffectId} {sid : SessionId} {cmd : Command V}

/-! ## The frame of a session -/

/-- The child `e` belongs to a batch of the operation. -/
def OwnsEffect (db : Database V) (operationId : OperationId) (e : EffectRow V) : Prop :=
  e ∈ db.effects ∧ ∃ b ∈ db.effectBatches, b.batchId = e.batchId ∧ b.operationId = operationId

/-- The rows of session `s` that its driver relies on are the same in `db'`. -/
structure Untouched (s : SessionId) (db db' : Database V) : Prop where
  session : ∀ row ∈ db.sessions, row.sessionId = s → ∃ row' ∈ db'.sessions,
    row'.sessionId = s ∧ row'.nextEventSequence = row.nextEventSequence
  operation : ∀ o ∈ db.operations, o.sessionId = s → o ∈ db'.operations
  child : ∀ o ∈ db.operations, o.sessionId = s → ∀ e, OwnsEffect db o.operationId e →
    OwnsEffect db' o.operationId e
  requested : ∀ id, db.cancellationRequested id = true → db'.cancellationRequested id = true

theorem untouched_refl (s : SessionId) (db : Database V) : Untouched s db db where
  session row hrow hs := ⟨row, hrow, hs, rfl⟩
  operation _ ho _ := ho
  child _ _ _ _ he := he
  requested _ h := h

/-- A transaction on an operation of another session. -/
theorem ChangedBy.untouched (h : ChangedBy opId db db')
    (hoth : ∀ o ∈ db.operations, o.operationId = opId → o.sessionId ≠ s) :
    Untouched s db db' := by
  cases h with
  | unchanged heq =>
    rw [heq]
    exact untouched_refl s db
  | changed c _ hlocal hid =>
    have hsess : c.operation.sessionId ≠ s := hoth _ c.operation_mem hid
    have hne : ∀ o ∈ db.operations, o.sessionId = s → o.operationId ≠ c.operation.operationId := by
      intro o ho hos heq
      rw [key_inj ho c.operation_mem heq] at hos
      exact hsess hos
    refine ⟨?_, fun o ho hos => c.mem_operations.mpr (.inr ⟨ho, hne o ho hos⟩), ?_, ?_⟩
    · intro row hrow hs
      refine ⟨row, c.mem_sessions.mpr (.inr ⟨hrow, ?_⟩), hs, rfl⟩
      rw [c.session_owner, hs]
      exact hsess.symm
    · rintro o ho hos e ⟨he, b, hb, hbe, hown⟩
      have hsame : c.effect e = e := hlocal e he b hb hbe (by rw [hown]; exact hne o ho hos)
      refine ⟨by rw [← hsame]; exact c.effect_mem he, b, ?_, hbe, hown⟩
      rw [c.effectBatches_eq]
      exact hb
    · intro id hid
      unfold Database.cancellationRequested
      rwa [c.cancellationRequests_eq]

theorem IntendedBatch.untouched (i : IntendedBatch db opId expected bid newId intent db')
    (hoth : ∀ o ∈ db.operations, o.operationId = opId → o.sessionId ≠ s) :
    Untouched s db db' := by
  rw [i.db'_rest]
  exact { untouched_refl s db with
    operation := fun o ho hos => i.mem_operations.mpr (.inr ⟨ho, fun heq => hoth o ho heq hos⟩)
    child := by
      rintro o _ _ e ⟨he, b, hb, hbe, hown⟩
      exact ⟨i.mem_effects.mpr (.inl he), b, i.mem_effectBatches.mpr (.inl hb), hbe, hown⟩ }

/-- An admission moves the command cursor of its session and adds rows. -/
theorem AdmittedOperation.untouched (a : AdmittedOperation db opId sid cmd db')
    (s : SessionId) : Untouched s db db' := by
  rw [a.db'_rest]
  exact { untouched_refl s db with
    session := fun row hrow hs => by
      show ∃ row' ∈ db'.sessions, _
      rw [a.sessions']
      refine exists_mem_put a.session_mem rfl hrow ?_ ⟨hs, rfl⟩
      rintro rfl
      exact ⟨hs, rfl⟩
    operation := fun o ho _ => a.mem_operations.mpr (.inl ho) }

theorem Registered.untouched (r : Registered db db') (s : SessionId) : Untouched s db db' := by
  rw [r.db'_eq]
  exact { untouched_refl s db with
    session := fun row hrow hs => ⟨row, r.session_kept row hrow, hs, rfl⟩
    requested := fun _ => r.cancellationRequested }

/-- A call leaves every session untouched. -/
theorem Called.untouched (h : Called db db') (s : SessionId) : Untouched s db db' := by
  cases h with
  | unchanged heq =>
    rw [heq]
    exact untouched_refl s db
  | admitted a => exact a.untouched s
  | registered r => exact r.untouched s

/-! ## What a driver knows of its operation -/

/-- The operation is active in the session and its row satisfies `P`. -/
def Holds (db : Database V) (s : SessionId) (operationId : OperationId)
    (P : OperationRow V → Prop) : Prop :=
  ∃ o ∈ db.operations, o.operationId = operationId ∧ o.sessionId = s ∧
    o.phase.isCancellable = true ∧ P o

/-- The event cursor of the session. -/
def HighWater (db : Database V) (s : SessionId) (sequence : Nat) : Prop :=
  ∃ row ∈ db.sessions, row.sessionId = s ∧ row.nextEventSequence = sequence

theorem Holds.untouched (h : Holds db s opId P) (hfrm : Untouched s db db') :
    Holds db' s opId P := by
  obtain ⟨o, ho, hid, hs, hrest⟩ := h
  exact ⟨o, hfrm.operation o ho hs, hid, hs, hrest⟩

theorem Holds.imp {Q : OperationRow V → Prop} (h : Holds db s opId P) (himp : ∀ o, P o → Q o)
    : Holds db s opId Q := by
  obtain ⟨o, ho, hid, hs, hph, hP⟩ := h
  exact ⟨o, ho, hid, hs, hph, himp o hP⟩

theorem HighWater.untouched {sequence : Nat} (h : HighWater db s sequence)
    (hfrm : Untouched s db db') : HighWater db' s sequence := by
  obtain ⟨row, hrow, hs, rfl⟩ := h
  exact hfrm.session row hrow hs

/-- No other session has an operation of this identity. -/
theorem Holds.other (h : Holds db s opId P) {t : SessionId} (hne : t ≠ s) :
    ∀ o ∈ db.operations, o.operationId = opId → o.sessionId ≠ t := by
  obtain ⟨o', ho', hid', hs', _⟩ := h
  intro o ho hid hos
  rw [key_inj ho ho' (hid.trans hid'.symm)] at hos
  exact hne (hos.symm.trans hs')

/-! ## Frozen bindings -/

/-- Every effect carries the revision its operation's manifest froze for its binding. -/
def Bound (db : Database V) : Prop :=
  ∀ o ∈ db.operations, ∀ manifest, o.manifest = some manifest →
    ∀ e, OwnsEffect db o.operationId e → e.boundBy manifest = true

theorem bound_empty : Bound (Database.empty : Database V) := fun _ ho => absurd ho not_mem_empty

/-- A queued operation has no batch. -/
theorem Consistent.batchesOf_queued (h : Consistent db) {o : OperationRow V}
    (ho : o ∈ db.operations) (hph : o.phase = .queued) {b : EffectBatchRow}
    (hb : b ∈ db.effectBatches) : b.operationId ≠ o.operationId := by
  intro hown
  -- its last batch would have a child, in a status the phase does not allow
  have hlt := (h.batch_numbered o ho).lt (mem_batchesOf.mpr ⟨hb, hown⟩)
  obtain ⟨last, hlast, hpos⟩ :=
    (h.batch_numbered o ho).exists_of_lt (i := o.nextEffectBatchPosition - 1) (by omega)
  obtain ⟨hmem, hlastOwn⟩ := mem_batchesOf.mp hlast
  obtain ⟨n, hn, hnum⟩ := h.effect_numbered last hmem
  obtain ⟨e, he, _⟩ := hnum.exists_of_lt hn
  obtain ⟨heff, heb⟩ := mem_childrenOf.mp he
  have hal := (h.batch_consistent o ho last hmem hlastOwn).last (by omega) e heff heb
  rw [hph] at hal
  cases hal

theorem ChangedBy.bound (hchg : ChangedBy opId db db') (h : Consistent db)
    (hbnd : Bound db) : Bound db' := by
  cases hchg with
  | unchanged heq =>
    rw [heq]
    exact hbnd
  | changed c hlaw _ _ =>
    rintro o ho mf hman e ⟨he, b, hb, hbe, hown⟩
    rw [c.effectBatches_eq] at hb
    obtain ⟨q, hq, rfl⟩ := c.mem_effects.mp he
    have hstep := c.effect_step q hq
    rw [hstep.batchId_eq] at hbe
    have hq' : ∀ id, b.operationId = id → OwnsEffect db id q := fun id hid => ⟨hq, b, hb, hbe, hid⟩
    have hkeep : q.boundBy mf = true → (c.effect q).boundBy mf = true := by
      unfold EffectRow.boundBy
      rw [hstep.binding_eq, hstep.bindingRevision_eq]
      exact id
    apply hkeep
    rcases c.mem_operations.mp ho with rfl | ⟨hmem, _⟩
    · rw [c.operationId_eq] at hown
      rcases hlaw.manifest with hsame | hqueued
      · exact hbnd _ c.operation_mem mf (hsame.symm.trans hman) q (hq' _ hown)
      · exact absurd hown (h.batchesOf_queued c.operation_mem hqueued hb)
    · exact hbnd o hmem mf hman q (hq' _ hown)

/-- A new batch is bound when its intents were bound by the manifest of their operation. -/
theorem IntendedBatch.bound (i : IntendedBatch db opId expected bid newId intent db')
    (h : Consistent db) (hbnd : Bound db) {mf : RuntimeManifest}
    (hman : i.operation.manifest = some mf) (hintents : ∀ eff ∈ intent.effects,
      mf.revision? eff.binding = some eff.bindingRevision) : Bound db' := by
  rintro o ho m hm e ⟨he, b, hb, hbe, hown⟩
  have hold : ∀ q ∈ db.operations, q.operationId = o.operationId → q.manifest = some m →
      b ∈ db.effectBatches → e.boundBy m = true := by
    intro q hq hqid hqm hb
    exact hbnd q hq m hqm e ⟨i.mem_effects_of_old hb he hbe.symm, b, hb, hbe, hown.trans hqid.symm⟩
  rcases i.mem_operations.mp ho with rfl | ⟨hmem, hne⟩
  · rcases i.mem_effectBatches.mp hb with hb | rfl
    · exact hold i.operation i.operation_mem rfl hm hb
    · obtain ⟨_, _, _, _, eff, heff, hbinding, hrevision, _⟩ :=
        mem_effectRows (i.mem_effects_of_new h he hbe.symm)
      have hsame : m = mf := Option.some.inj (hm.symm.trans hman)
      unfold EffectRow.boundBy
      rw [hsame, hbinding, hrevision, hintents eff heff]
      exact decide_eq_true rfl
  · rcases i.mem_effectBatches.mp hb with hb | rfl
    · exact hold o hmem rfl hm hb
    · exact absurd hown.symm hne

theorem AdmittedOperation.bound (a : AdmittedOperation db opId sid cmd db')
    (hbnd : Bound db) : Bound db' := by
  rw [a.db'_rest]
  intro o ho mf hman e he
  rcases a.mem_operations.mp ho with hold | rfl
  · exact hbnd o hold mf hman e he
  · cases hman

theorem Registered.bound (r : Registered db db') (hbnd : Bound db) : Bound db' := by
  rw [r.db'_eq]
  exact hbnd

theorem Called.bound (h : Called db db') (hbnd : Bound db) : Bound db' := by
  cases h with
  | unchanged heq =>
    rw [heq]
    exact hbnd
  | admitted a => exact a.bound hbnd
  | registered r => exact r.bound hbnd

end Renoa.Kernel
