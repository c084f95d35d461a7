import Renoa.Kernel.EffectCommit

/-!
# Commits of the operation transactions

Activation, decisions and endings are changes of one operation. An ending also releases the
requests of the operation's settled batches (`changedBy_endedOperation`).
-/

namespace Renoa.Kernel

open Foundation List Table Database

variable {V : Type} {db db' : Database V} {sid : SessionId} {opId : OperationId}
  {newId : Nat → EventId} {o : OperationRow V} {dec : LoopDecision V}
  {expected : Nat} {expectedEventHighWater : Nat} {mf : RuntimeManifest}
  {write : DecisionWrite V}

/-! ## Endings -/

theorem OperationPhase.not_active_of_terminal {phase : OperationPhase}
    (h : phase.isTerminal = true) : phase.isCancellable = false ∧ phase.isEffectPhase = false := by
  cases phase <;> first | exact ⟨rfl, rfl⟩ | exact absurd h (by decide)

/-- The trigger releases a request only when the whole batch of the operation is settled. -/
theorem releaseRequest_cases (db : Database V) (opId : OperationId) (e : EffectRow V) :
    ((∃ b ∈ db.effectBatches, b.batchId = e.batchId ∧ b.operationId = opId) ∧
        (∃ out, (db.operations.find? opId).bind OperationRow.outcome = some out) ∧
        e.status = .settled ∧
        (∀ q ∈ db.effects, q.batchId = e.batchId → q.status = .settled) ∧
        db.releaseRequest opId e = { e with request := none }) ∨
      db.releaseRequest opId e = e := by
  unfold Database.releaseRequest
  by_cases hfin : db.finishedEffectRequest opId e = true
  · rw [if_pos hfin]
    refine .inl ?_
    simp only [Database.finishedEffectRequest, Bool.and_eq_true, any_eq_true,
      mem_batchesOf, decide_eq_true_eq, Option.isSome_iff_exists, all_eq_true,
      mem_childrenOf] at hfin
    obtain ⟨⟨⟨⟨⟨b, ⟨hb, hown⟩, hid⟩, hout⟩, hstat⟩, _⟩, hall⟩ := hfin
    exact ⟨⟨b, hb, hid, hown⟩, hout, hstat, fun q hq hqb => hall q ⟨hq, hqb⟩, rfl⟩
  · rw [if_neg hfin]
    exact .inr rfl

/-- An ending of an active operation. What its new row asks of the operation's phase is that it
still allows the statuses of the last batch. -/
theorem changedBy_endedOperation (h : Consistent db) {evs : List (NewEvent V)}
    {f : OperationRow V → OperationRow V}
    (e : EndedOperation db sid opId newId evs f db')
    (hact : e.operation.phase.isCancellable = true)
    (hsame : e.operation.SameIdentity (f e.operation)) (hwf : (f e.operation).WellFormed)
    (hterm : (f e.operation).phase.isTerminal = true)
    (hstat : ∀ status, e.operation.phase.allowsStatus status = true → (f
      e.operation).phase.allowsStatus status = true)
    (hcanc : db.cancellationRequested opId = true → (f e.operation).outcome = some
      .cancelled) : ChangedBy opId db db' := by
  have ho : e.operation ∈ db.operations := mem_of_find? e.operation_find
  have hoid : e.operation.operationId = opId := key_of_find? e.operation_find
  have hs : e.session ∈ db.sessions := mem_of_find? e.session_find
  have hsid : e.session.sessionId = sid := key_of_find? e.session_find
  have howner := (e.owner h).trans hsid.symm
  let mid : Database V := { db with operations := db.operations.put (f e.operation) }
  have hstep : ∀ q ∈ db.effects, EffectStep q (mid.releaseRequest opId q) := by
    intro q _
    rcases releaseRequest_cases mid opId q with ⟨_, _, hdone, _, heq⟩ | heq
    · rw [heq]
      exact .released q hdone
    · rw [heq]
      exact .same q
  have hkp : ∀ q, (mid.releaseRequest opId q).status = q.status ∧
      (mid.releaseRequest opId q).dispatchCount = q.dispatchCount := by
    intro q
    rcases releaseRequest_cases mid opId q with ⟨_, _, _, _, heq⟩ | heq
    · rw [heq]
      exact ⟨rfl, rfl⟩
    · rw [heq]
      exact ⟨rfl, rfl⟩
  let c : OperationChange db db' := .ofRows newId evs e.db'_eq ho
    { hsame with manifest := rfl } hs howner.symm rfl rfl rfl rfl hstep
    (by rw [howner, hsid, hoid]; exact e.events_eq)
  obtain ⟨hnotActive, hnotEffect⟩ := OperationPhase.not_active_of_terminal hterm
  have hlocal : ∀ q ∈ db.effects, ∀ b ∈ db.effectBatches, b.batchId = q.batchId →
      b.operationId ≠ e.operation.operationId → mid.releaseRequest opId q = q := by
    intro q _ b hb hbq hne
    rcases releaseRequest_cases mid opId q with ⟨⟨b', hb', hid', hown'⟩, _⟩ | heq
    · rw [key_inj hb hb' (hbq.trans hid'.symm), hown', hoid] at hne
      exact absurd rfl hne
    · exact heq
  refine .changed c ⟨⟨hwf, ?_, fun q hq b hb hbq hne => .inl (hlocal q hq b hb hbq hne), ?_, ?_,
    ?_, ?_, ?_⟩, h.outcome_none _ ho hact, .inl hsame.manifest, ?_⟩ hlocal hoid
  · intro id
    show none = some id ↔ if id = e.operation.operationId
      then (f e.operation).phase.isCancellable = true else e.session.activeOperationId = some id
    rw [hnotActive, e.session_active, hoid]
    by_cases hid : id = opId
    · simp [hid]
    · simp [Ne.symm hid]
  · intro b hb hown hpos q hq hqb
    show (f e.operation).phase.allowsStatus (mid.releaseRequest opId q).status = true
    rw [(hkp q).1]
    exact hstat _ ((h.batch_consistent _ ho b hb hown).last hpos q hq hqb)
  · intro b _ _ _ hunk
    rw [show (f e.operation).phase = .outcomeUnknown from hunk] at hterm
    cases hterm
  · intro b hb hown q hq hqb hreq
    have hkept : q.request ≠ none := h.request_ne_none ho hact hb hown hq hqb
    rcases releaseRequest_cases mid opId q with ⟨_, _, _, hall, _⟩ | heq
    · constructor
      · have hisSome := hwf.outcome_isSome
        rw [hterm] at hisSome
        exact Option.isSome_iff_ne_none.mp hisSome
      · intro q' hq' hqb'
        show (mid.releaseRequest opId q').status = .settled
        rw [(hkp q').1]
        exact hall q' hq' (hqb'.trans hqb.symm)
    · exact absurd ((congrArg EffectRow.request heq).symm.trans hreq) hkept
  · intro bid hcur
    have hcurrent := hwf.current
    rw [show (f e.operation).currentEffectBatchId = some bid from hcur, hnotEffect] at hcurrent
    cases hcurrent
  · intro bid hin
    have hneed := hwf.input (by
      rw [show (f e.operation).inputEffectBatchId = some bid from hin]
      exact Option.some_ne_none _)
    rw [hneed] at hterm
    cases hterm
  · intro hask
    exact ⟨fun q _ => (hkp q).2, .inr (hcanc (hoid ▸ hask))⟩

/-- The end of a row with a checkpoint and an outcome, whatever it was before. -/
theorem wellFormed_ended {o' : OperationRow V} {out : OperationOutcome} (h : o.WellFormed)
    (hact : o.phase.isCancellable = true) (hver : o'.stateVersion = o.stateVersion)
    (hmanifest : o'.manifest = o.manifest) (hph : o'.phase = out.phase)
    (hout : o'.outcome = some out) (hcp : o'.checkpoint ≠ none)
    (hcur : o'.currentEffectBatchId = none) (hinp : o'.inputEffectBatchId = none) :
    o'.WellFormed := by
  have hterm : o'.phase.isTerminal = true := by
    rw [hph]
    cases out <;> rfl
  have hqueued : o'.phase ≠ .queued := by
    intro hq
    rw [hq] at hterm
    cases hterm
  have hman := h.manifest_ne_none (OperationPhase.ne_queued_of_cancellable hact)
  refine ⟨hver.trans h.stateVersion, ?_, ⟨fun hnone => ?_, fun hq => absurd hq hqueued⟩, ?_,
    fun hin => absurd hinp hin, fun _ => hcp, fun hq => absurd hq hqueued⟩
  · rw [if_pos hterm, hout, hph]
    rfl
  · rw [hmanifest] at hnone
    exact absurd hnone hman
  · rw [hcur, (OperationPhase.not_active_of_terminal hterm).2]
    rfl

/-- A decision continues the operation or ends it. -/
theorem wellFormed_decided (h : o.WellFormed) (hph : o.phase = .needDecision)
    (hwrt : dec.write = .ok write) : (o.decided write).WellFormed := by
  have hcur := h.current_eq_none (by rw [hph]; rfl)
  rcases write_cases hwrt with ⟨hout, hnext, _⟩ | ⟨out, hout, hnext, _, _⟩
  · have hnext : (o.decided write).phase = .needDecision := hnext
    refine wellFormed_of_active h.stateVersion (by rw [hnext]; rfl) hout
      (h.manifest_ne_none (by rw [hph]; decide)) ?_ (absurd rfl) fun _ => Option.some_ne_none _
    rw [hnext]
    exact congrArg Option.isSome hcur
  · exact wellFormed_ended h (by rw [hph]; rfl) rfl rfl hnext hout (Option.some_ne_none _) hcur rfl

/-- A cancellation ends the operation, whatever its phase. -/
theorem changedBy_commitCancellation (h : Consistent db) {transition : CancellationTransition V}
      (hrun : db.commitCancellation sid opId expected expectedEventHighWater
      newId transition = .ok db') : ChangedBy opId db db' := by
  obtain ⟨_, e, _, hact, _⟩ := commitCancellation_ok hrun
  have ho : e.operation ∈ db.operations := mem_of_find? e.operation_find
  exact changedBy_endedOperation h e hact ⟨rfl, rfl, rfl, rfl, rfl, rfl⟩
    (wellFormed_ended (h.operation_row _ ho) hact rfl rfl rfl rfl (Option.some_ne_none _) rfl rfl)
    rfl (fun _ _ => rfl) fun _ => rfl

/-- An abandonment ends an operation whose effect has no known outcome. -/
theorem changedBy_commitUnknownEffectAbandonment (h : Consistent db)
    {abandonment : UnknownEffectAbandonment V} {res : OperationOutcome × Database V} (hrun :
      db.commitUnknownEffectAbandonment sid opId expected
      expectedEventHighWater newId abandonment = .ok res) :
    ChangedBy opId db res.2 := by
  obtain ⟨hcanc, _, e, _, hph, _⟩ := commitUnknownEffectAbandonment_ok hrun
  have ho : e.operation ∈ db.operations := mem_of_find? e.operation_find
  have hact : e.operation.phase.isCancellable = true := by rw [hph]; rfl
  refine changedBy_endedOperation h e hact ⟨rfl, rfl, rfl, rfl, rfl, rfl⟩
    (wellFormed_ended (h.operation_row _ ho) hact rfl rfl rfl rfl (Option.some_ne_none _) rfl rfl)
    rfl ?_ ?_
  · intro status hal
    rw [hph] at hal
    exact hal
  · rw [hcanc]
    exact fun hask => absurd hask Bool.false_ne_true

/-- A decision that continues appends events and keeps its operation at a decision. -/
theorem changedBy_continuedOperation (h : Consistent db) (hwrt : dec.write = .ok write)
    (hout : write.outcome = none) (c : ContinuedOperation db sid opId newId write db')
    (hph : c.operation.phase = .needDecision) : ChangedBy opId db db' := by
  have ho : c.operation ∈ db.operations := mem_of_find? c.operation_find
  have hoid : c.operation.operationId = opId := key_of_find? c.operation_find
  have hs : c.session ∈ db.sessions := mem_of_find? c.session_find
  have hsid : c.session.sessionId = sid := key_of_find? c.session_find
  have hnext : write.phase = .needDecision := by
    rcases write_cases hwrt with ⟨_, hnext, _⟩ | ⟨out, hsome, _⟩
    · exact hnext
    · rw [hout] at hsome
      cases hsome
  have hact : c.operation.phase.isCancellable = true := by rw [hph]; rfl
  have hwf : (c.operation.decided write).WellFormed :=
    wellFormed_decided (h.operation_row _ ho) hph hwrt
  let change : OperationChange db db' := .ofRows (f := id) newId write.events c.db'_eq ho
    ⟨rfl, rfl, rfl, rfl, rfl, rfl⟩ hs (hsid.trans c.operation_session.symm) rfl rfl rfl
    (map_id _).symm (fun e _ => .same e) (by rw [c.operation_session, hoid]; exact c.events_eq)
  have hphase' : (c.operation.decided write).phase = .needDecision := hnext
  refine .changed change ⟨⟨hwf, ?_, fun _ _ _ _ _ _ => .inl rfl, ?_, ?_, ?_, ?_, ?_⟩,
    h.outcome_none _ ho hact, .inl rfl, fun _ => ⟨fun _ _ => rfl, .inl hout⟩⟩
    (fun _ _ _ _ _ _ => rfl) hoid
  · exact fun id => h.active_of_same ho hs (hsid.trans c.operation_session.symm)
      (show (c.operation.decided write).phase.isCancellable = _ by rw [hphase', hph]) id
  · intro b hb hown hpos e he heb
    show (c.operation.decided write).phase.allowsStatus e.status = true
    rw [hphase', ← hph]
    exact (h.batch_consistent _ ho b hb hown).last hpos e he heb
  · intro b _ _ _ hunk
    rw [show change.operation'.phase = .needDecision from hnext] at hunk
    cases hunk
  · intro b hb hown e he heb hreq
    exact absurd hreq (h.request_ne_none ho hact hb hown he heb)
  · exact h.current_last c.operation ho
  · intro bid hin
    cases hin

/-- A decision changes its operation, unless a cancellation came first. -/
theorem changedBy_commitDecision (h : Consistent db) {res : CommittedDecision × Database V}
    (hrun : db.commitDecision sid opId expected newId dec = .ok res) :
    ChangedBy opId db res.2 := by
  rcases commitDecision_ok hrun with ⟨_, rfl⟩ | ⟨hcanc, write, hwrt, hcas⟩
  · exact .unchanged rfl
  rcases hcas with ⟨_, hout, c, hph, _⟩ | ⟨out, hout, _, e, hph, _⟩
  · exact changedBy_continuedOperation h hwrt hout c hph
  · have ho : e.operation ∈ db.operations := mem_of_find? e.operation_find
    rcases write_cases hwrt with ⟨hnone, _⟩ | ⟨outcome', hsome, hnext, hterm, _⟩
    · rw [hout] at hnone
      cases hnone
    · refine changedBy_endedOperation h e (by rw [hph]; rfl) ⟨rfl, rfl, rfl, rfl, rfl, rfl⟩
        (wellFormed_decided (h.operation_row _ ho) hph hwrt) hterm ?_ ?_
      · intro status hal
        rw [hph] at hal
        have hdone : status = .settled := of_decide_eq_true hal
        show write.phase.allowsStatus status = true
        rw [hnext, hdone]
        cases outcome' <;> rfl
      · rw [hcanc]
        exact fun hask => absurd hask Bool.false_ne_true

/-! ## Activation -/

theorem wellFormed_activate (h : o.WellFormed) (hph : o.phase = .queued)
    (mf : RuntimeManifest) : (o.activate mf).WellFormed := by
  exact wellFormed_of_active h.stateVersion rfl (h.outcome_eq_none (by rw [hph]; rfl))
    (Option.some_ne_none _) (h.current.trans (by rw [hph]; rfl)) (fun _ => rfl) nofun

/-- An activation opens the first queued operation, which has no children. -/
theorem changedBy_activatedOperation (h : Consistent db) (a : ActivatedOperation db sid mf db') :
    ChangedBy a.operation.operationId db db' := by
  obtain ⟨ho, hos, hph⟩ := firstQueued_eq_some a.first
  have hs : a.session ∈ db.sessions := mem_of_find? a.session_find
  have hsid : a.session.sessionId = sid := key_of_find? a.session_find
  have hrow := h.operation_row _ ho
  have hout : a.operation.outcome = none := hrow.outcome_eq_none (by rw [hph]; rfl)
  let change : OperationChange db db' := .ofRows (f := id) (fun i => ⟨i⟩) [] a.db'_eq ho
    ⟨rfl, rfl, rfl, rfl, rfl, rfl⟩ hs (hsid.trans hos.symm) rfl rfl rfl (map_id _).symm
    (fun e _ => .same e) (append_nil _).symm
  -- a queued operation has no batch, since its phase allows no child
  have hnone : ∀ b ∈ db.effectBatches, b.operationId = a.operation.operationId →
      b.position + 1 = a.operation.nextEffectBatchPosition →
      ∀ e ∈ db.effects, e.batchId ≠ b.batchId := by
    intro b hb hown hpos e he heb
    have hal := (h.batch_consistent _ ho b hb hown).last hpos e he heb
    rw [hph] at hal
    cases hal
  refine .changed change ⟨⟨wellFormed_activate hrow hph mf, ?_,
    fun _ _ _ _ _ _ => .inl rfl, ?_, fun _ _ _ _ hunk => (by cases hunk), ?_,
    h.current_last a.operation ho, h.input_last a.operation ho⟩, hout, .inr hph,
    fun _ => ⟨fun _ _ => rfl, .inl hout⟩⟩ (fun _ _ _ _ _ _ => rfl) rfl
  · intro id
    show some a.operation.operationId = some id ↔ if id = a.operation.operationId
      then true = true else a.session.activeOperationId = some id
    rw [a.session_idle]
    by_cases hid : id = a.operation.operationId
    · simp [hid]
    · simp [hid, Ne.symm hid]
  · exact fun b hb hown hpos e he heb => absurd heb (hnone b hb hown hpos e he)
  · intro b hb hown e he heb hreq
    exact absurd hout ((h.batch_consistent _ ho b hb hown).released e he heb hreq).1

theorem committed_activate (h : Consistent db) {res : Option (ActiveOperation V) × Database V}
    (hrun : db.activate sid mf = .ok res) : Committed db res.2 := by
  obtain ⟨sess, _, hcas⟩ := activate_ok h.operation_row hrun
  rcases hcas with ⟨_, _, _, _, rfl⟩ | ⟨_, _, rfl⟩ | ⟨a, _⟩
  · exact .unchanged rfl
  · exact .unchanged rfl
  · exact (changedBy_activatedOperation h a).committed

/-- Reading a cancellation may close the dispatched batch. -/
theorem changedBy_loadRequestedCancellation (h : Consistent db)
    {res : Option (PendingCancellation V) × Database V}
    (hrun : db.loadRequestedCancellation sid opId = .ok res) :
    ChangedBy opId db res.2 := by
  rcases loadRequestedCancellation_ok hrun with ⟨_, rfl⟩ | ⟨_, _, st, _, _, _, _, _, _, hcls, _⟩
  · exact .unchanged rfl
  · rcases closeForCancellation_ok hcls with ⟨_, heq⟩ | ⟨bid, phase, _, _, hbat, _⟩
    · exact .unchanged (congrArg Prod.snd heq)
    · exact changedBy_closeDispatchedBatchForCancellation h hbat

/-! ## Admission -/

theorem called_createAgent (db : Database V) (aid : AgentId) : Called db (db.createAgent aid) := by
  rw [createAgent_eq]
  exact .registered ⟨rfl, rfl, rfl, rfl, rfl, fun _ hs => hs, fun _ hs => .inl hs,
    fun _ hr => hr, fun _ hr => .inl hr⟩

theorem called_createSession {aid : AgentId}
    (hrun : db.createSession sid aid = .ok db') : Called db db' := by
  rcases createSession_ok hrun with rfl | ⟨hfree, hrows, hdb⟩
  · exact .unchanged rfl
  have hmem : ∀ s, s ∈ db'.sessions ↔ s ∈ db.sessions ∨ s = ⟨sid, aid, 0, none, 0⟩ :=
    fun _ => mem_concat hrows
  have hreqs : db'.cancellationRequests = db.cancellationRequests := by rw [hdb]
  refine .registered ⟨by rw [hdb], by rw [hdb], by rw [hdb], by rw [hdb], by rw [hdb],
    fun s hs => (hmem s).mpr (.inl hs), ?_, fun r hr => hreqs ▸ hr,
    fun r hr => .inl (hreqs ▸ hr)⟩
  intro s hs
  rcases (hmem s).mp hs with hold | rfl
  · exact .inl hold
  · exact .inr ⟨hfree, rfl, rfl, rfl⟩

/-- A request is recorded for an operation that has not ended. -/
theorem called_requestCancellation (h : Consistent db) {cancellationId : CancellationId}
    (hrun : db.requestCancellation sid opId cancellationId = .ok db') :
    Called db db' := by
  rcases requestCancellation_ok hrun with ⟨rfl, _⟩ | ⟨⟨o, hfind, hos, hph⟩, hrows, hdb⟩
  · exact .unchanged rfl
  have ho : o ∈ db.operations := mem_of_find? hfind
  have hmem : ∀ r, r ∈ db'.cancellationRequests ↔
      r ∈ db.cancellationRequests ∨ r = ⟨cancellationId, sid, opId⟩ :=
    fun _ => mem_concat hrows
  have hout : o.outcome = none := by
    rcases hph with hq | hact
    · exact (h.operation_row o ho).outcome_eq_none (by rw [hq]; rfl)
    · exact h.outcome_none o ho hact
  have hsessions : db'.sessions = db.sessions := by rw [hdb]
  refine .registered ⟨by rw [hdb], by rw [hdb], by rw [hdb], by rw [hdb], by rw [hdb],
    fun s hs => hsessions ▸ hs, fun s hs => .inl (hsessions ▸ hs),
    fun r hr => (hmem r).mpr (.inl hr), ?_⟩
  intro r hr
  rcases (hmem r).mp hr with hold | rfl
  · exact .inl hold
  · exact .inr ⟨o, ho, key_of_find? hfind, hos, hout⟩

/-- A submission finds its command or admits it. -/
theorem called_submitWithMode [DecidableEq V] {mode : AdmissionMode} {cmd : Command V}
    {res : Admission × Database V}
    (hrun : db.submitWithMode mode opId sid cmd = .ok res) :
    Called db res.2 := by
  rcases submitWithMode_ok hrun with ⟨heq, _⟩ | ⟨_, _, hins⟩
  · exact .unchanged heq
  · obtain ⟨a, _⟩ := insertOperation_ok hins
    exact .admitted a

end Renoa.Kernel
