import Renoa.Node.Tracking
import Mathlib.Data.List.MinMax

/-!
# Publication

The coordinator's journal of a command follows the ledger of the node that executes it. As long as
the command's task is deleted on neither side, what the coordinator has from a node is a prefix of
the node's ledger, the publication cursor stands behind it, and an acceptance that reaches the node
names the end of the batch it has in flight (`Network.Tracked`).

Whether the coordinator also takes every batch depends on three things (`publication_protocol`): the
command is sent to the node under the task it is stored in (`Input.Sends`), what a batch repeats is
read back as it was sent, and the identity of the answer it calls for is free (`Takes`). A number
that a store reads back with another last digit is refused on every retry (`publication_refused`).
-/

namespace Renoa.Node

open Foundation Protocol List Table Function
open Control (TaskId TaskEventId NodeId Database Transaction DerivedIds Consistent
  JournalledBatch AdmittedReply ExecutionEventAdmission Unaffected KeepsTask)

variable {V : Type} {bytes : MessageBytes V} {ids : DerivedIds} {cid : CommandId}
  {tid : TaskId} {events : List (ExecutionEvent V)} {replier : String} {db db' : Database V}
  {nid : NodeId} {σ : Session V} {message : ClientMessage V} {reply : ServerMessage}

/-! ## The coordinator's side -/

theorem Handled.keeps (h : Handled ids db db' nid replier message reply) (tid : TaskId) :
    KeepsTask tid db db' := by
  cases h with
  | kept h => exact Renoa.Control.keepsTask_of_grown h.grown tid
  | taken _ _ hbat hrep =>
    exact (hbat.keeps tid).trans (Renoa.Control.keepsTask_of_grown hrep.grown tid)

/-- A handled message leaves what the coordinator has of the command from a node, unless it is a
batch of the command that the node sent. -/
theorem Handled.journalAt_eq (h : Handled ids db db' nid replier message reply)
    (hc : Consistent db) {other : NodeId} (hoth : other ≠ nid ∨ reply.accepted? cid = none) :
    db'.journalAt other cid = db.journalAt other cid := by
  have hkp : ∀ row ∈ db.commands, row.commandId = cid → KeepsTask row.taskId db db' :=
    fun row _ _ => h.keeps row.taskId
  cases h with
  | kept h =>
    have hsame := Database.journalOf_congr (congrArg Table.rows h.events) cid
    exact Unaffected.journalAt_eq ⟨hkp, hsame⟩ hc other
  | @taken tid cause events mid adm _ hruns hbat hrep hreply =>
    by_cases hcau : cid = cause
    · subst hcau
      have hother : other ≠ nid := hoth.resolve_right fun hnone => by
        rw [hreply, ServerMessage.accepted?, if_pos rfl] at hnone
        cases hnone
      -- The command runs at the node that sent the batch, and at no other.
      have hruns' := Database.runsAt_of_keeps hkp hruns
      funext task
      rw [Database.journalAt, Database.journalAt, if_neg, if_neg]
      · exact fun hold => hother (Database.runsAt_unique hold hruns).1
      · exact fun hnew => hother (Database.runsAt_unique hnew hruns').1
    · obtain ⟨new, hnew, hnil⟩ := hbat.journalOf_append cid
      refine Unaffected.journalAt_eq ⟨hkp, ?_⟩ hc other
      rw [hrep.journalOf_eq, hnew, hnil hcau, append_nil]

theorem ServerMessage.accepted?_eq_some {through : Nat} : reply.accepted? cid = some through ↔
    reply = .executionEventsAccepted cid through := by
  cases reply with
  | executionEventsAccepted cause accepted =>
    by_cases hcau : cause = cid
    · simp [accepted?, hcau]
    · simp [accepted?, hcau]
  | execute _ _ | executionAcknowledged _ | error _ => simp [accepted?]

/-- What a node sent of the command is a segment of its row's events. -/
theorem AtNode.exists_segment {journal : TaskId → List (ExecutionEvent V)} {site : Site V}
    (h : AtNode bytes cid journal site)
    (hmem : .publishExecutionEvents tid cid events ∈ site.sent) :
    ∃ row ∈ site.ledger.executions, row.commandId = cid ∧
      Segment row (site.ledger.eventsOf row.commandId)
        (flowBound bytes row (site.ledger.eventsOf row.commandId)
          (site.session.bind (Session.inFlight · row.commandId))) (tid, events) := by
  have hbat : (tid, events) ∈ batchesOf cid site.sent := mem_batchesOf.mpr hmem
  rw [Site.sent, batchesOf_append, mem_append] at hbat
  obtain ⟨row, hrow, hid⟩ : ∃ row ∈ site.ledger.executions, row.commandId = cid := by
    by_contra hno
    obtain ⟨hlate, hsil⟩ := h.absent fun row hrow hid => hno ⟨row, hrow, hid⟩
    rw [hlate] at hbat
    cases hσ : site.session with
    | none => simp [hσ, batchesOf] at hbat
    | some σ => simp [hσ, (hsil σ hσ).outgoing] at hbat
  have hflow := h.flow row hrow hid
  refine ⟨row, hrow, hid, ?_⟩
  subst hid
  rcases hbat with hbat | hbat
  · exact hflow.segments _ hbat
  · cases hσ : site.session with
    | none => simp [hσ, batchesOf] at hbat
    | some σ =>
      rw [hσ] at hbat
      exact (hflow.flight σ hσ).outgoing _ hbat

/-! ## The command over all nodes -/

namespace Network

variable {s s' : Network V}

/-- What the nodes keep of a command fits what the coordinator has of it from each. -/
def Tracked (s : Network V) (bytes : MessageBytes V) (commandId : CommandId) : Prop :=
  ∀ nodeId, AtNode bytes commandId (s.db.journalAt nodeId commandId) (s.site nodeId)

theorem tracked_empty (bytes : MessageBytes V) (cid : CommandId) :
    (empty : Network V).Tracked bytes cid :=
  fun _ => atNode_empty bytes cid fun _ => ite_self _

theorem tracked_setSite {site : Site V}
    (hoth : ∀ other, other ≠ nid → AtNode bytes cid (db.journalAt other cid) (s.site other))
    (hnode : AtNode bytes cid (db.journalAt nid cid) site) :
    ({ s with db }.setSite nid site).Tracked bytes cid :=
  (forall_update_iff s.site fun other => AtNode bytes cid (db.journalAt other cid)).mpr
    ⟨hnode, hoth⟩

/-- A batch of the command was taken in. -/
theorem Tracked.taken (h : s.Tracked bytes cid) (hsound : s.Sound)
    {mid db' : Database V} {adm : ExecutionEventAdmission V}
    (hmem : .publishExecutionEvents tid cid events ∈ (s.site nid).sent)
    (hruns : s.db.runsAt nid tid cid = true)
    (hbat : JournalledBatch s.db mid tid cid events { adm with reply := none })
    (hrep : AdmittedReply ids mid db' tid cid adm.events replier adm.reply) :
    AtNode bytes cid (db'.journalAt nid cid) (s.site nid) ∧
      ∃ last, events.getLast? = some last ∧
        (∀ row ∈ (s.site nid).ledger.executions, row.commandId = cid →
          last.sequence < (db'.journalAt nid cid row.taskId).length) ∧
        adm.throughExecutionSequence + 1 ≤
          max (s.db.journalOf cid).length (last.sequence + 1) ∧
        last.sequence ≤ adm.throughExecutionSequence := by
  obtain ⟨row, hrow, hid, hseg⟩ := (h nid).exists_segment hmem
  subst hid
  obtain rfl : tid = row.taskId := hseg.task
  have hkp : ∀ tid, KeepsTask tid s.db db' := fun tid =>
    (hbat.keeps tid).trans (Renoa.Control.keepsTask_of_grown hrep.grown tid)
  have hruns' := Database.runsAt_of_keeps (fun row _ _ => hkp row.taskId) hruns
  have hat' : db'.journalAt nid row.commandId row.taskId = db'.journalOf row.commandId :=
    if_pos hruns'
  have hflow := (h nid).flow row hrow rfl
  rw [show s.db.journalAt nid row.commandId row.taskId = _ from if_pos hruns] at hflow
  obtain ⟨last, hlast⟩ : ∃ last, events.getLast? = some last :=
    ⟨_, getLast?_eq_some_getLast hseg.nonempty⟩
  obtain ⟨hinLedger, hgrows, hjrn, hbnd, hthru⟩ :=
    hsound.journalled hrow hflow.inLedger hseg hbat hlast
  obtain ⟨start, _, hevs, hend⟩ := hseg.segment
  have hlastEnd := last_of_segment ((hsound.ledger nid).stream row hrow).sequences hevs hlast
  rw [← hrep.journalOf_eq row.commandId] at hinLedger hgrows hjrn hbnd hthru
  have hrows : ∀ q ∈ (s.site nid).ledger.executions, q.commandId = row.commandId → q = row :=
    fun q hq hid => key_inj hq hrow hid
  refine ⟨⟨fun q hq hqid => ?_, (h nid).absent, fun task hjnl => ⟨row, hrow, rfl, ?_⟩⟩,
    last, hlast, fun q hq hqid => ?_, ?_, ?_⟩
  · rw [hrows q hq hqid, hat']
    refine hflow.journalled hinLedger hgrows (Nat.le_trans hbnd ?_)
    have hcurs := hflow.cursor
    omega
  · unfold Database.journalAt at hjnl
    split at hjnl
    · rename_i hnew
      exact (Database.runsAt_unique hruns' hnew).2
    · exact absurd rfl hjnl
  · rwa [hrows q hq hqid, hat']
  · exact hthru ▸ hbnd
  · have hthru : adm.throughExecutionSequence + 1 = (db'.journalOf row.commandId).length := hthru
    omega

section

variable [JsonText V] (h : s.Tracked bytes cid) (hsound : s.Sound)

include h hsound

/-- The coordinator handled a message of a node. An acceptance answers a batch, which the journal
then holds. -/
theorem Tracked.answered (ids : DerivedIds) (replier : String)
    (hmem : message ∈ (s.site nid).sent) :
    (∀ other, AtNode bytes cid ((answer ids s.db nid replier message).2.journalAt other cid)
        (s.site other)) ∧
      ∀ through, (answer ids s.db nid replier message).1.accepted? cid = some through →
        ∃ tid events last, message = .publishExecutionEvents tid cid events ∧
          s.db.runsAt nid tid cid = true ∧ events.getLast? = some last ∧
          (∀ row ∈ (s.site nid).ledger.executions, row.commandId = cid → last.sequence <
            ((answer ids s.db nid replier message).2.journalAt nid cid row.taskId).length) ∧
          through + 1 ≤ max (s.db.journalOf cid).length (last.sequence + 1) ∧
          last.sequence ≤ through := by
  have hhandled := answer_handled hsound.db ids nid replier message
  generalize answer ids s.db nid replier message = answered at hhandled ⊢
  have hkept : ∀ other, other ≠ nid ∨ answered.1.accepted? cid = none →
      AtNode bytes cid (answered.2.journalAt other cid) (s.site other) := by
    intro other hoth
    rw [hhandled.journalAt_eq hsound.db hoth]
    exact h other
  cases hrep : answered.1.accepted? cid with
  | none => exact ⟨fun other => hkept other (.inr hrep), fun _ hnone => by cases hnone⟩
  | some accepted =>
    cases hhandled with
    | kept _ hreply => exact absurd (ServerMessage.accepted?_eq_some.mp hrep) (hreply cid accepted)
    | @taken tid cause events mid adm hmsg hruns hbat hadm hreply =>
      rw [ServerMessage.accepted?_eq_some.mp hrep,
        ServerMessage.executionEventsAccepted.injEq] at hreply
      obtain ⟨rfl, rfl⟩ := hreply
      obtain ⟨hnode, last, hlast, hjrn, hbnd, hle⟩ := h.taken hsound (hmsg ▸ hmem) hruns hbat hadm
      refine ⟨fun other => ?_, ?_⟩
      · by_cases heq : other = nid
        · exact heq ▸ hnode
        · exact hkept other (.inl heq)
      · rintro _ ⟨⟩
        exact ⟨tid, events, last, hmsg, hruns, hlast, hjrn, hbnd, hle⟩

/-- The coordinator handles the message at the front of the node's connection. -/
theorem Tracked.handle (ids : DerivedIds) (replier : String)
    (hσ : (s.site nid).session = some σ) {rest : List (ClientMessage V)}
    (hout : σ.outgoing = message :: rest) :
    ({ s with db := (answer ids s.db nid replier message).2 }.setSite nid
      ((s.site nid).setSession ⟨σ.publications, rest,
        σ.incoming ++ [(answer ids s.db nid replier message).1]⟩)).Tracked bytes cid := by
  have hmem : message ∈ (s.site nid).sent := by
    rw [Site.sent_of_session hσ, hout]
    exact mem_append_right _ mem_cons_self
  obtain ⟨hnodes, hacc⟩ := h.answered hsound ids replier hmem
  refine tracked_setSite (fun other _ => hnodes other) ?_
  have hnode := hnodes nid
  rw [← Site.setSession_of_session hσ] at hnode
  cases hrep : (answer ids s.db nid replier message).1.accepted? cid with
  | none =>
    refine hnode.replace rfl ?_ ?_
    · rw [hout]
      exact (sublist_cons_self message rest).filterMap _
    · simp [acceptedOf, hrep]
  | some through =>
    -- The batch at the front is the one in flight, and the journal ends at it.
    obtain ⟨tid, events, last, rfl, hruns, hlast, hjrn, hbnd, hle⟩ := hacc through hrep
    obtain ⟨row, hrow, rfl, hseg⟩ := (h nid).exists_segment hmem
    have hflow := (h nid).flow row hrow rfl
    rw [hσ, ← (show tid = row.taskId from hseg.task),
      show s.db.journalAt nid row.commandId tid = _ from if_pos hruns] at hflow
    have hcurs := hflow.cursor
    rw [Option.bind_some, (hflow.flight σ rfl).front hout hlast, flowBound] at hcurs
    obtain rfl : through = last.sequence := by omega
    rw [ServerMessage.accepted?_eq_some.mp hrep]
    exact hnode.handled hout hlast hjrn

end

/-- The step deletes the command's task, on the coordinator or on a node. -/
def Input.Deletes (s : Network V) (commandId : CommandId) : Input V → Prop
  | .transaction t => t.DeletesCommand s.db commandId
  | .node nodeId input => input.Deletes (s.site nodeId) commandId
  | _ => False

variable [JsonText V] {home : NodeId → Home} {input : Input V}

theorem Stepped.tracked (hstep : Stepped ids bytes s input s') (h : s.Tracked bytes cid)
    (hsound : s.Sound) (hkept : ¬ input.Deletes s cid) : s'.Tracked bytes cid := by
  cases hstep with
  | same => exact h
  | transaction hbat =>
    intro nid
    have hdb := Database.apply_unaffected ids hsound.db (not_batch_of_isBatch hbat) hkept
    rw [hdb.journalAt_eq hsound.db]
    exact h nid
  | @deliver nid tid cmd σ hσ =>
    refine tracked_setSite (fun other _ => h other) ?_
    have hnode := h nid
    rw [← Site.setSession_of_session hσ] at hnode
    refine hnode.replace rfl (List.Sublist.refl _) ?_
    simp [acceptedOf, ServerMessage.accepted?]
  | handle hσ hout => exact h.handle hsound ids _ hσ hout
  | handleLate hlate =>
    obtain ⟨hnodes, _⟩ := h.answered hsound ids _ (mem_append_left _ (mem_of_getElem? hlate))
    exact tracked_setSite (fun other _ => hnodes other)
      ((hnodes _).of_late (eraseIdx_sublist _ _).subset)
  | node hsite =>
    exact tracked_setSite (fun other _ => h other) (hsite.atNode (h _) (hsound.ledger _) hkept)

/-- What one step keeps under a condition holds along every run that meets it. -/
theorem RunMeets.induction {condition : Network V → Input V → Prop} {motive : Network V → Prop}
    {s : Network V} {inputs : List (Input V)}
    (hstep : ∀ s input, motive s → condition s input → motive (step ids bytes home s input))
    (hst : motive s) (hmeets : RunMeets ids bytes home condition s inputs) :
    motive (run ids bytes home s inputs) := by
  induction inputs generalizing s with
  | nil => exact hst
  | cons input rest ih => exact ih (hstep s input hst hmeets.1) hmeets.2

theorem RunMeets.and {condition condition' : Network V → Input V → Prop} {s : Network V}
    {inputs : List (Input V)} (h : RunMeets ids bytes home condition s inputs)
    (h' : RunMeets ids bytes home condition' s inputs) :
    RunMeets ids bytes home (fun s input => condition s input ∧ condition' s input) s inputs := by
  induction inputs generalizing s with
  | nil => trivial
  | cons input rest ih => exact ⟨⟨h.1, h'.1⟩, ih h.2 h'.2⟩

/-! ## What a step does to one node -/

/-- A step of the node, or one of the coordinator, which leaves the ledger and sends nothing. -/
inductive Moved (bytes : MessageBytes V) (low : Nat) (site site' : Site V) : Prop
  | node {input : Site.Input V} (hsite : Site.Stepped bytes low site input site')
  | coordinator (hledger : site'.ledger = site.ledger) (hsent : site'.sent ⊆ site.sent)

section

omit [JsonText V]

theorem moved_refl (bytes : MessageBytes V) (low : Nat) (site : Site V) :
    Moved bytes low site site := .coordinator rfl (Subset.refl _)

theorem moved_setSite {site : Site V} (h : Moved bytes s.drawn (s.site nid) site)
    (other : NodeId) :
    Moved bytes s.drawn (s.site other) (({ s with db }.setSite nid site).site other) :=
  (forall_update_iff s.site fun other => Moved bytes s.drawn (s.site other)).mpr
    ⟨h, fun _ _ => moved_refl bytes _ _⟩ other

theorem Moved.rows {low : Nat} {site site' : Site V} (h : Moved bytes low site site') :
    Ledger.RowSteps site.incoming site.ledger site'.ledger := by
  cases h with
  | node hsite => exact hsite.rows
  | coordinator hled =>
    rw [hled]
    exact site.ledger.rowSteps_refl _

end

theorem Stepped.moved (hstep : Stepped ids bytes s input s') (nid : NodeId) :
    Moved bytes s.drawn (s.site nid) (s'.site nid) := by
  cases hstep with
  | same | transaction => exact moved_refl bytes _ _
  | deliver hσ =>
    refine moved_setSite ?_ nid
    refine .coordinator rfl ?_
    rw [Site.sent_setSession, Site.sent_of_session hσ]
    exact Subset.refl _
  | @handle _ _ σ message rest hσ hout =>
    refine moved_setSite ?_ nid
    refine .coordinator rfl ?_
    rw [Site.sent_setSession, Site.sent_of_session hσ, hout]
    exact ((sublist_cons_self message rest).append_left _).subset
  | @handleLate _ i =>
    refine moved_setSite ?_ nid
    exact .coordinator rfl ((eraseIdx_sublist _ i).append_right _).subset
  | node hsite => exact moved_setSite (.node hsite) nid

theorem answer_ne_execute (ids : DerivedIds) (db : Database V) (nid : NodeId) (replier : String)
    (message : ClientMessage V) (tid : TaskId) (cmd : CommandEnvelope) :
    .execute tid cmd ≠ (answer ids db nid replier message).1 := by
  cases message with
  | acknowledgeExecution _ _ | publishExecutionEvents _ _ _ =>
    unfold answer
    dsimp only
    split <;> rintro ⟨⟩

/-- An `Execute` on its way to a node was delivered. -/
theorem Stepped.executes (hstep : Stepped ids bytes s input s') {cmd : CommandEnvelope}
    (h : .execute tid cmd ∈ (s'.site nid).incoming) :
    .execute tid cmd ∈ (s.site nid).incoming ∨ input = .deliver nid tid cmd := by
  have hsite : ∀ {db : Database V} {other : NodeId} {site : Site V},
      (nid = other → .execute tid cmd ∈ site.incoming →
        .execute tid cmd ∈ (s.site nid).incoming ∨ input = .deliver nid tid cmd) →
      .execute tid cmd ∈ (({ s with db }.setSite other site).site nid).incoming →
        .execute tid cmd ∈ (s.site nid).incoming ∨ input = .deliver nid tid cmd := by
    intro db other site hnew
    exact (forall_update_iff s.site fun n site => nid = n → .execute tid cmd ∈ site.incoming →
      .execute tid cmd ∈ (s.site nid).incoming ∨ input = .deliver nid tid cmd).mpr
      ⟨hnew, fun n _ heq hmem => .inl (heq ▸ hmem)⟩ nid rfl
  cases hstep with
  | same | transaction => exact .inl h
  | deliver hσ =>
    refine hsite (fun heq hmem => ?_) h
    subst heq
    rw [Site.incoming_of_session hσ]
    rcases mem_append.mp hmem with hmem | hmem
    · exact .inl hmem
    · obtain ⟨rfl, rfl⟩ := ServerMessage.execute.inj (mem_singleton.mp hmem)
      exact .inr rfl
  | handle hσ =>
    refine hsite (fun heq hmem => .inl ?_) h
    subst heq
    rw [Site.incoming_of_session hσ]
    refine (mem_append.mp hmem).resolve_right fun hnew => ?_
    exact answer_ne_execute ids s.db nid _ _ tid cmd (mem_singleton.mp hnew)
  | handleLate =>
    refine hsite (fun heq hmem => .inl ?_) h
    subst heq
    exact hmem
  | node hmoved => exact hsite (fun heq hmem => .inl (heq ▸ hmoved.incoming hmem)) h

/-- A command whose task is not deleted runs where it ran. -/
theorem Stepped.runsAt (hstep : Stepped ids bytes s input s') (hsound : s.Sound)
    (hkept : ¬ input.Deletes s cid) (h : s.db.runsAt nid tid cid = true) :
    s'.db.runsAt nid tid cid = true := by
  cases hstep with
  | same | deliver | node => exact h
  | transaction hbat =>
    exact Database.runsAt_of_keeps (Database.apply_unaffected ids hsound.db
      (not_batch_of_isBatch hbat) hkept).keeps h
  | handle | handleLate =>
    exact Database.runsAt_of_keeps
      (fun row _ _ => (answer_handled hsound.db ids _ _ _).keeps row.taskId) h

/-! ## Where the command is executed -/

/-- An `Execute` of the command names the task it is stored in and goes to the task's node. -/
def Input.Sends (s : Network V) (commandId : CommandId) : Input V → Prop
  | .deliver nodeId taskId command =>
    command.commandId = commandId → s.db.runsAt nodeId taskId commandId = true
  | _ => True

/-- The command has rows, and is on its way, only where it runs. -/
structure Homed (s : Network V) (commandId : CommandId) : Prop where
  row : ∀ nodeId, ∀ row ∈ (s.site nodeId).ledger.executions, row.commandId = commandId →
    s.db.runsAt nodeId row.taskId commandId = true
  execute : ∀ nodeId taskId command, .execute taskId command ∈ (s.site nodeId).incoming →
    command.commandId = commandId → s.db.runsAt nodeId taskId commandId = true

omit [JsonText V] in
theorem homed_empty (cid : CommandId) : (empty : Network V).Homed cid :=
  ⟨fun _ _ h => absurd h not_mem_empty, fun _ _ _ h => absurd h not_mem_nil⟩

theorem Stepped.homed (hstep : Stepped ids bytes s input s') (h : s.Homed cid) (hsound : s.Sound)
    (hkept : ¬ input.Deletes s cid) (hsends : input.Sends s cid) : s'.Homed cid where
  row nid row hrow hid := by
    refine hstep.runsAt hsound hkept ?_
    cases (hstep.moved nid).rows row hrow with
    | kept hold hsame =>
      rw [hsame.taskId]
      exact h.row nid _ hold (hsame.commandId.symm.trans hid)
    | new _ _ hsent =>
      have hcmd := ((hstep.sound hsound).ledger nid).command row hrow
      exact h.execute nid _ _ hsent (hcmd.trans hid)
  execute nid tid cmd hmem hid := by
    refine hstep.runsAt hsound hkept ?_
    rcases hstep.executes hmem with hold | rfl
    · exact h.execute nid tid cmd hold hid
    · exact hsends hid

/-! ## The protocol -/

omit [JsonText V] in
theorem drawsNew (db : Database V) :
    Renoa.Control.DrawsNew db (newRecordId db) (newReplyId db) := by
  refine Renoa.Control.drawsNew_of_lt fun r hr => Nat.lt_succ_of_le ?_
  exact List.le_max_of_le (mem_map_of_mem hr) le_rfl

/-- **What holds of the publication of a command.** -/
structure Published (s : Network V) (ids : DerivedIds) (commandId : CommandId) : Prop where
  /-- The coordinator's journal is a prefix of the ledger of the node that has the command. -/
  inLedger : ∀ nodeId, ∀ row ∈ (s.site nodeId).ledger.executions, row.commandId = commandId →
    s.db.journalOf commandId <+: (s.site nodeId).ledger.eventsOf commandId
  /-- Some node has the command when the coordinator has events of it. -/
  executed : s.db.journalOf commandId ≠ [] →
    ∃ nodeId, ∃ row ∈ (s.site nodeId).ledger.executions, row.commandId = commandId
  /-- What the node takes for published was accepted. -/
  published : ∀ nodeId, ∀ row ∈ (s.site nodeId).ledger.executions, row.commandId = commandId →
    ∀ through, row.publishedThrough = some through → through < s.db.cursorOf commandId
  /-- The coordinator refuses no batch that it can take, of a connection or of one that ended. -/
  accepts : ∀ nodeId taskId events,
    .publishExecutionEvents taskId commandId events ∈ (s.site nodeId).sent →
    Takes ids s.db commandId events → ∀ replier, ∃ through db', answer ids s.db nodeId replier
      (.publishExecutionEvents taskId commandId events) =
        (.executionEventsAccepted commandId through, db')
  /-- An acceptance on its way names the end of the batch in flight. -/
  accepted : ∀ nodeId σ through, (s.site nodeId).session = some σ →
    .executionEventsAccepted commandId through ∈ σ.incoming → σ.inFlight commandId = some through
  /-- The node ends no session over the cursor of an acceptance. -/
  received : ∀ nodeId σ through, (s.site nodeId).session = some σ →
    .executionEventsAccepted commandId through ∈ σ.incoming →
    ∃ after, eventsAccepted (s.site nodeId).ledger σ.publications commandId through = .ok after

section

omit [JsonText V]

theorem Tracked.exists_flight (h : s.Tracked bytes cid) {through : Nat}
    (hσ : (s.site nid).session = some σ)
    (hmem : .executionEventsAccepted cid through ∈ σ.incoming) :
    (∃ row ∈ (s.site nid).ledger.executions, row.commandId = cid) ∧
      σ.inFlight cid = some through := by
  have hacc : through ∈ acceptedOf cid σ.incoming := mem_filterMap.mpr ⟨_, hmem, if_pos rfl⟩
  obtain ⟨row, hrow, hid⟩ : ∃ row ∈ (s.site nid).ledger.executions, row.commandId = cid := by
    by_contra hno
    have hsil := ((h nid).absent fun row hrow hid => hno ⟨row, hrow, hid⟩).2 σ hσ
    rw [hsil.incoming] at hacc
    cases hacc
  have hflow := (h nid).flow row hrow hid
  refine ⟨⟨row, hrow, hid⟩, ?_⟩
  subst hid
  exact ((hflow.flight σ hσ).accounted.of_mem (mem_append_right _ hacc)).1

theorem exists_updateExecution {l : Ledger V} {f : ExecutionRow → ExecutionRow}
    (hrow : ∃ row ∈ l.executions, row.commandId = cid) :
    ∃ ledger, l.updateExecution cid f = some ledger := by
  obtain ⟨row, hmem, rfl⟩ := hrow
  have hupd : l.executions.updateOne row.commandId (fun _ => true) f ≠ none :=
    updateOne_ne_none hmem rfl
  obtain ⟨executions, hexs⟩ := Option.ne_none_iff_exists'.mp hupd
  exact ⟨{ l with executions }, by rw [Ledger.updateExecution, hexs]; rfl⟩

/-- An acceptance of the batch in flight is taken. -/
theorem exists_eventsAccepted {l : Ledger V} {pubs : List Publication} {through : Nat}
    (hrow : ∃ row ∈ l.executions, row.commandId = cid)
    (hfl : inFlightOf pubs cid = some through) :
    ∃ after, eventsAccepted l pubs cid through = .ok after := by
  obtain ⟨pub, hpubl, hexp⟩ := Option.bind_eq_some_iff.mp hfl
  obtain ⟨ledger, hled⟩ := exists_updateExecution (f := (·.publishThrough through)) hrow
  exact ⟨_, bind_eq_ok.mpr ⟨pub, require_eq_ok.mpr hpubl,
    bind_eq_ok.mpr ⟨through, require_eq_ok.mpr hexp,
      bind_eq_ok.mpr ⟨(), ensure_of_eq_true (decide_eq_true rfl),
        bind_eq_ok.mpr ⟨ledger, stored_eq_ok.mpr (require_eq_ok.mpr hled), rfl⟩⟩⟩⟩⟩

theorem Tracked.holds (h : s.Tracked bytes cid) {row : ExecutionRow}
    (hrow : row ∈ (s.site nid).ledger.executions) (hid : row.commandId = cid)
    (hruns : s.db.runsAt nid row.taskId cid = true) : s.Holds nid row := by
  have hflow := (h nid).flow row hrow hid
  subst hid
  rw [show s.db.journalAt nid row.commandId row.taskId = _ from if_pos hruns] at hflow
  exact ⟨hrow, hruns, hflow.inLedger, hflow.published⟩

end

theorem Tracked.published (h : s.Tracked bytes cid) (hhomed : s.Homed cid) (hsound : s.Sound) :
    s.Published ids cid where
  inLedger nid row hrow hid := by
    have hhld := h.holds hrow hid (hhomed.row nid row hrow hid)
    exact hid ▸ hhld.journal
  executed hjnl := by
    obtain ⟨nid, tid, hruns⟩ := hsound.db.exists_runsAt hjnl
    obtain ⟨row, hrow, hid, _⟩ := (h nid).journalled tid (by rwa [Database.journalAt, if_pos hruns])
    exact ⟨nid, row, hrow, hid⟩
  published nid row hrow hid through hthru := by
    have hst := (h.holds hrow hid (hhomed.row nid row hrow hid)).published
    rw [ExecutionRow.start, hthru, hid] at hst
    rw [hsound.db.cursorOf_eq]
    exact hst
  accepts nid tid events hmem htakes replier := by
    obtain ⟨row, hrow, hid, hseg⟩ := (h nid).exists_segment hmem
    have hhld := h.holds hrow hid (hhomed.row nid row hrow hid)
    subst hid
    obtain ⟨adm, db', hok⟩ := hsound.accepts hhld hseg htakes (drawsNew s.db) replier
    refine ⟨adm.throughExecutionSequence, db', ?_⟩
    unfold answer
    dsimp only
    rw [hok]
  accepted nid σ through hσ hmem := (h.exists_flight hσ hmem).2
  received nid σ through hσ hmem :=
    exists_eventsAccepted (h.exists_flight hσ hmem).1 (h.exists_flight hσ hmem).2

end Network

/-- Every agent is at home, and its workspace is the root. -/
def anyHome : NodeId → Home := fun _ => ⟨fun _ => some 1, fun _ => .ok "/"⟩

/-- A task of node 0 with a command, which the node takes in. -/
def started {V : Type} : List (Network.Input V) :=
  [.transaction (.createNodeEnrollment ⟨0⟩ ⟨0⟩),
    .transaction (.createTask ⟨⟨1⟩, ⟨0⟩, ⟨0⟩, ⟨"agent"⟩⟩),
    .transaction (.admitCommand ⟨0⟩ ⟨1⟩ ⟨0⟩ ⟨"web"⟩ ⟨1⟩ (.fromText "Hello.") true),
    .node ⟨0⟩ .connect,
    .deliver ⟨0⟩ ⟨1⟩ ⟨⟨1⟩, ⟨0⟩, ⟨"web"⟩, ⟨"agent"⟩, .fromText "Hello.", none⟩,
    .node ⟨0⟩ (.receive false 7 fun _ => 0)]

/-- The connection ends before the coordinator handles the first batch, and the batch sent after
the reconnect covers it and the turn's start. -/
def retransmission : List (Network.Input Unit) :=
  started ++ [.node ⟨0⟩ .disconnect, .node ⟨0⟩ (.turnStarted ⟨1⟩ fun _ => 0), .node ⟨0⟩ .connect,
    .handleLate ⟨0⟩ 1 "", .handle ⟨0⟩ "", .handle ⟨0⟩ "",
    .node ⟨0⟩ (.receive false 8 fun _ => 0)]

def after {V : Type} [JsonText V] (inputs : List (Network.Input V)) : Network V :=
  Network.run Renoa.Control.offsetIds (fun _ _ events => events.length) anyHome .empty inputs

/-- The acceptance of a batch with a tool call is lost with the connection, and the batch is sent
again. -/
def lostAcceptance : List (Network.Input Renoa.Control.Double) :=
  started ++ [.node ⟨0⟩ (.progress ⟨1⟩ (.toolStarted "c" "t" ⟨⟨2, by decide⟩⟩) fun _ => 0),
    .node ⟨0⟩ .disconnect, .node ⟨0⟩ .connect, .handle ⟨0⟩ "", .handle ⟨0⟩ "",
    .node ⟨0⟩ .disconnect, .node ⟨0⟩ .connect, .handle ⟨0⟩ ""]

end Renoa.Node
