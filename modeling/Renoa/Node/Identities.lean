import Renoa.Node.Network
import Renoa.Node.SessionSpec
import Renoa.Control.JournalFrame

/-!
# The identities of events

An event is known while a ledger, the coordinator's journal or a batch on its way holds it. Nodes
draw a new identity for every event they write, so an identity names one event of one command
wherever the event is known (`Identified`). `Sound` adds that both sides' databases are consistent;
every reached network is sound, also when tasks are deleted on either side. `Site.Stepped` and
`Network.Stepped` say what a step of a node and of the network can do; every invariant of the later
modules is proved by cases over them.
-/

namespace Renoa.Node

open Foundation Protocol List Table Function
open Control (TaskId TaskEventId NodeId Database Transaction DerivedIds Consistent Quiet
  JournalledBatch AdmittedReply ExecutionEventAdmission)

variable {V : Type} {bytes : MessageBytes V} {ids : DerivedIds} {cid : CommandId}
  {row : ExecutionRow} {drawn : Nat → Drawn} {kinds : List (ExecutionEventKind V)} {tid : TaskId}
  {db db' : Database V} {replier : String} {message : ClientMessage V}
  {pubs publications' : List Publication} {known known' : CommandId → ExecutionEvent V → Prop}
  {event : ExecutionEvent V} {nid : NodeId} {σ : Session V}

/-! ## Events with identities of their own -/

/-- Events whose identities were drawn from a range, one for each. -/
structure NewIds (low high : Nat) (events : List (ExecutionEvent V)) : Prop where
  range : ∀ e ∈ events, low ≤ e.eventId.uuid ∧ e.eventId.uuid < high
  unique : ∀ e ∈ events, ∀ f ∈ events, e.eventId = f.eventId → e = f

theorem newIds_nil (low high : Nat) : NewIds low high ([] : List (ExecutionEvent V)) :=
  ⟨fun _ h => absurd h not_mem_nil, fun _ h => absurd h not_mem_nil⟩

/-- Known events, each under an identity of its own. -/
structure Identified (known : CommandId → ExecutionEvent V → Prop) (bound : Nat) : Prop where
  below : ∀ d e, known d e → e.eventId.uuid < bound
  execution : ∀ d e, known d e → e.executionId = ⟨d.uuid⟩
  unique : ∀ d e d' e', known d e → known d' e' → e.eventId = e'.eventId → d = d' ∧ e = e'

/-- Forgetting events, and knowing new events of one command. -/
theorem Identified.step {bound bound' : Nat} (h : Identified known bound) (hle : bound ≤ bound')
    {cause : CommandId} {new : List (ExecutionEvent V)}
    (hknown : ∀ d e, known' d e → known d e ∨ (d = cause ∧ e ∈ new))
    (hnew : NewIds bound bound' new) (hexec : ∀ e ∈ new, e.executionId = ⟨cause.uuid⟩) :
    Identified known' bound' where
  below d e he := by
    rcases hknown d e he with hold | ⟨_, hmem⟩
    · exact Nat.lt_of_lt_of_le (h.below d e hold) hle
    · exact (hnew.range e hmem).2
  execution d e he := by
    rcases hknown d e he with hold | ⟨rfl, hmem⟩
    · exact h.execution d e hold
    · exact hexec e hmem
  unique d e d' e' he he' hid := by
    have hids : e.eventId.uuid = e'.eventId.uuid := congrArg ExecutionEventId.uuid hid
    rcases hknown d e he with hold | ⟨rfl, hmem⟩ <;>
      rcases hknown d' e' he' with hold' | ⟨rfl, hmem'⟩
    · exact h.unique d e d' e' hold hold' hid
    · have hlow := (hnew.range e' hmem').1
      have hbelow := h.below d e hold
      omega
    · have hlow := (hnew.range e hmem).1
      have hbelow := h.below d' e' hold'
      omega
    · exact ⟨rfl, hnew.unique e hmem e' hmem' hid⟩

theorem Identified.mono {bound bound' : Nat} (h : Identified known bound) (hle : bound ≤ bound')
    (hknown : ∀ d e, known' d e → known d e) : Identified known' bound' := by
  have hnone : ∀ d e, known' d e → known d e ∨ (d = (⟨0⟩ : CommandId) ∧ e ∈ []) :=
    fun d e he => .inl (hknown d e he)
  exact h.step hle hnone (newIds_nil _ _) fun _ he => absurd he not_mem_nil

/-! ## Writes of a ledger -/

theorem Ledger.Consistent.executionId {l : Ledger V} (hc : l.Consistent)
    (h : event ∈ l.eventsOf cid) : event.executionId = ⟨cid.uuid⟩ := by
  obtain ⟨row, hrow, rfl⟩ := hc.event _ (Ledger.mem_eventsOf.mp h)
  rw [(hc.stream row hrow).execution event h]
  exact hc.execution row hrow

theorem Ledger.length_eventsOf_le (l : Ledger V) (cid : CommandId) :
    (l.eventsOf cid).length ≤ l.events.rows.length := by
  rw [eventsOf, length_map]
  exact length_filter_le _ _

/-- A write of a ledger: the events it adds are of one command and have identities of their own,
drawn from `low` on. -/
structure Writes (low : Nat) (l l' : Ledger V) : Prop where
  consistent : l'.Consistent
  events : ∃ cause new, (∀ d, ∀ e ∈ l'.eventsOf d, e ∈ l.eventsOf d ∨ (d = cause ∧ e ∈ new)) ∧
    (∀ e ∈ new, e ∈ l'.eventsOf cause) ∧ NewIds low (low + l'.events.rows.length + 1) new

variable {l l' : Ledger V} {low : Nat} {row' : ExecutionRow}

/-- A write that adds no events. -/
theorem writes_of_subset (hc : l'.Consistent) (h : ∀ d, ∀ e ∈ l'.eventsOf d, e ∈ l.eventsOf d) :
    Writes low l l' :=
  ⟨hc, ⟨0⟩, [], fun d e he => .inl (h d e he), fun _ he => absurd he not_mem_nil, newIds_nil _ _⟩

theorem ExecutionChange.eventsOf_eq (h : ExecutionChange l l' row row' []) (cid : CommandId) :
    l'.eventsOf cid = l.eventsOf cid := by
  rw [Ledger.eventsOf_write h.events cid]
  split <;> exact append_nil _

theorem ExecutionChange.writes (h : ExecutionChange l l' row row' [])
    (hterm : row'.terminal = row.terminal) (hc : l.Consistent) : Writes low l l' :=
  writes_of_subset (h.consistent_of_nil hterm hc) fun d _ he => h.eventsOf_eq d ▸ he

/-- An execution goes on: what was drawn for each sequence is drawn from `low` on, and no two
events were given the same. -/
theorem Continued.writes (h : Continued l l' row drawn kinds) (hc : l.Consistent)
    (hdrawn : ∀ e ∈ newEvents row.executionId drawn (l.eventsOf row.commandId).length kinds, low ≤
      (drawn e.sequence).eventId.uuid ∧ (drawn e.sequence).eventId.uuid ≤ low + e.sequence)
    (hunique : ∀ e ∈ newEvents row.executionId drawn (l.eventsOf row.commandId).length kinds, ∀ f ∈
      newEvents row.executionId drawn (l.eventsOf row.commandId).length kinds, e.eventId = f.eventId
      → e = f) : Writes low l l' where
  consistent := h.consistent hc
  events := by
    refine ⟨row.commandId, _, fun d e he => ?_, fun e he => ?_, ⟨fun e he => ?_, hunique⟩⟩
    · exact (Ledger.mem_eventsOf_write h.change.events).mp he
    · rw [h.change.eventsOf_self]
      exact mem_append_right _ he
    · obtain ⟨hlow, hhigh⟩ := hdrawn e he
      obtain ⟨_, hid, i, hseq, hkind⟩ := mem_newEvents he
      -- The sequence is a position among the events of the command.
      have hlt : e.sequence < (l'.eventsOf row.commandId).length := by
        rw [h.change.eventsOf_self, length_append, length_newEvents, hseq]
        have hi := (List.getElem?_eq_some_iff.mp hkind).1
        omega
      have hle := l'.length_eventsOf_le row.commandId
      rw [hid]
      omega

theorem newEvents_unique {xid : ExecutionId} {sequence : Nat} {e f : ExecutionEvent V}
    (he : e ∈ newEvents xid drawn sequence kinds)
    (hf : f ∈ newEvents xid drawn sequence kinds) (h : e.sequence = f.sequence) :
    e = f := by
  refine inj_on_of_nodup_map ?_ he hf h
  rw [newEvents_sequence]
  exact nodup_range'

/-- One event under one identity. -/
theorem Continued.writes_one {drawn : Drawn} (h : Continued l l' row (fun _ => drawn) kinds)
    (hc : l.Consistent) (hone : kinds.length ≤ 1) (hlow : low ≤ drawn.eventId.uuid)
    (hhigh : drawn.eventId.uuid ≤ low + (l.eventsOf row.commandId).length) : Writes low l l' := by
  refine h.writes hc (fun e he => ⟨hlow, ?_⟩) fun e he f hf _ => newEvents_unique he hf ?_
  · obtain ⟨_, _, i, hseq, _⟩ := mem_newEvents he
    omega
  · obtain ⟨_, _, i, hi, hkind⟩ := mem_newEvents he
    obtain ⟨_, _, j, hj, hkind'⟩ := mem_newEvents hf
    have hlt := (List.getElem?_eq_some_iff.mp hkind).1
    have hlt' := (List.getElem?_eq_some_iff.mp hkind').1
    omega

/-- An identity for every sequence. -/
theorem Continued.writes_all (h : Continued l l' row drawn kinds) (hc : l.Consistent)
    (hdrawn : ∀ sequence, (drawn sequence).eventId = ⟨low + sequence⟩) : Writes low l l' := by
  refine h.writes hc (fun e _ => ?_) fun e he f hf hid => newEvents_unique he hf ?_
  · rw [hdrawn]
    exact ⟨Nat.le_add_right _ _, Nat.le_refl _⟩
  · rw [(mem_newEvents he).2.1, (mem_newEvents hf).2.1, hdrawn, hdrawn] at hid
    exact Nat.add_left_cancel (congrArg ExecutionEventId.uuid hid)

/-! ## Taking in a command -/

/-- What handling an `Execute` does to the ledger. -/
inductive Executed (l l' : Ledger V) (drawn : Drawn) (taskId : TaskId)
    (command : CommandEnvelope) : Prop
  | drained (hl : l' = l)
  | existing {mid : Ledger V} {given binding : TargetBinding} {row : ExecutionRow}
      (hbound : BoundTask l mid taskId given binding) (hrow : row ∈ mid.executions)
      (htask : row.taskId = taskId) (hcommand : row.command = command)
      (hchange : ExecutionChange mid l' row { row with admissionAcked := false } [])
  | admitted {mid taken : Ledger V} {given binding : TargetBinding}
      (hbound : BoundTask l mid taskId given binding)
      (hadmitted : Admitted mid taken drawn taskId command)
      (hchange : ExecutionChange taken l' (admittedRow mid taskId command)
        (admittedRow mid taskId command) [])

theorem handleExecute_ok {home : Home} {draining : Bool} {sid : Nat} {drawn : Drawn}
    {cmd : CommandEnvelope} (hc : l.Consistent)
    (h : handleExecute home l draining sid drawn tid cmd = .ok l') :
    Executed l l' drawn tid cmd := by
  unfold handleExecute at h
  split at h
  · cases h
    exact .drained rfl
  · obtain ⟨binding, _, h⟩ := bind_ok h
    obtain ⟨⟨record, taken⟩, hadmit, h⟩ := bind_ok h
    obtain ⟨_, mid, hbnd, hout⟩ := Ledger.admitCommand_ok (stored_eq_ok.mp hadmit)
    obtain ⟨row, hid, hchg⟩ := Ledger.setAdmissionAck_ok (stored_eq_ok.mp h)
    cases hout with
    | existing hl hmem htask hcmd =>
      subst hl
      have hcons := hbnd.consistent hc
      have hsame : row = record.toExecutionRow := by
        refine key_inj hchg.mem hmem (hid.trans ?_)
        rw [← hcmd, hcons.command _ hmem]
      subst hsame
      exact .existing hbnd hmem htask hcmd hchg
    | new hadm hrow =>
      have hmem : admittedRow mid tid cmd ∈ taken.executions :=
        hadm.mem_executions.mpr (.inr rfl)
      have hsame := key_inj hchg.mem hmem hid
      subst hsame
      exact .admitted hbnd hadm hchg

theorem BoundTask.eventsOf_eq {given binding : TargetBinding}
    (h : BoundTask l l' tid given binding) (cid : CommandId) :
    l'.eventsOf cid = l.eventsOf cid := by
  rw [h.rest]
  rfl

theorem Executed.writes {drawn : Drawn} {cmd : CommandEnvelope}
    (h : Executed l l' drawn tid cmd) (hc : l.Consistent) (hdrawn : drawn.eventId = ⟨low⟩) :
    Writes low l l' := by
  cases h with
  | drained hl =>
    subst hl
    exact writes_of_subset hc fun _ _ he => he
  | existing hbnd _ _ _ hchg =>
    refine writes_of_subset (hchg.consistent_of_nil rfl (hbnd.consistent hc)) ?_
    intro d e he
    rwa [hchg.eventsOf_eq, hbnd.eventsOf_eq] at he
  | @admitted mid taken _ binding hbnd hadm hchg =>
    have hmid := hbnd.consistent hc
    have htaken := hadm.consistent hmid ⟨_, hbnd.task, rfl⟩
    refine ⟨hchg.consistent_of_nil rfl htaken, cmd.commandId,
      newEvents ⟨cmd.commandId.uuid⟩ (fun _ => drawn) 0 [.executionStarted], ?_, ?_,
      ⟨fun e he => ?_, fun e he f hf _ => ?_⟩⟩
    · intro d e he
      rwa [hchg.eventsOf_eq, Ledger.mem_eventsOf_write hadm.events, hbnd.eventsOf_eq] at he
    · intro e he
      rw [hchg.eventsOf_eq, hadm.eventsOf_self hmid]
      exact he
    · rw [(mem_newEvents he).2.1, hdrawn]
      exact ⟨Nat.le_refl _, by show low < _; omega⟩
    · rw [mem_singleton.mp he, mem_singleton.mp hf]

/-! ## Forgetting a task -/

theorem Ledger.mem_executions_forgetTask :
    row ∈ (l.forgetTask tid).executions ↔ row ∈ l.executions ∧ row.taskId ≠ tid := by
  rw [forgetTask, mem_deleteWhere, decide_eq_false_iff_not]

theorem Ledger.mem_events_forgetTask {row : EventRow V} :
    row ∈ (l.forgetTask tid).events ↔ row ∈ l.events ∧
      ∀ q ∈ l.executions, q.commandId = row.commandId → q.taskId ≠ tid := by
  rw [forgetTask, mem_deleteWhere, any_eq_false]
  refine and_congr_right fun _ => forall₂_congr fun q _ => ?_
  simp only [Bool.and_eq_true, decide_eq_true_eq, not_and]
  exact ⟨fun h hid htask => h htask hid, fun h htask hid => h hid htask⟩

/-- The events of a command whose task is not forgotten are kept. -/
theorem Ledger.eventsOf_forgetTask (h : ∀ q ∈ l.executions, q.commandId = cid → q.taskId ≠ tid) :
    (l.forgetTask tid).eventsOf cid = l.eventsOf cid := by
  unfold eventsOf forgetTask
  rw [rows_deleteWhere, filter_filter]
  refine congrArg _ (filter_congr fun row _ => ?_)
  by_cases hid : row.commandId = cid
  · have hany : (l.executions.rows.any fun q =>
        decide (q.taskId = tid) && decide (q.commandId = row.commandId)) = false := by
      refine any_eq_false.mpr fun q hq => ?_
      have hne := h q hq
      simp only [Bool.and_eq_true, decide_eq_true_eq, not_and]
      exact fun htask hcmd => hne (hcmd.trans hid) htask
    rw [hany]
    exact Bool.and_true _
  · simp [hid]

theorem Ledger.forgetTask_consistent (hc : l.Consistent) (tid : TaskId) :
    (l.forgetTask tid).Consistent := by
  have hkept : ∀ row ∈ (l.forgetTask tid).executions,
      row ∈ l.executions ∧ (l.forgetTask tid).eventsOf row.commandId =
        l.eventsOf row.commandId := by
    intro row hrow
    obtain ⟨hmem, htask⟩ := mem_executions_forgetTask.mp hrow
    refine ⟨hmem, eventsOf_forgetTask fun q hq hid => ?_⟩
    rwa [key_inj hq hmem hid]
  refine ⟨fun row hrow => ?_, fun row hrow => hc.command row (hkept row hrow).1,
    fun row hrow => hc.execution row (hkept row hrow).1,
    fun row hrow => hc.admission row (hkept row hrow).1, fun row hrow => ?_, fun row hrow => ?_,
    fun row hrow => ?_⟩
  · obtain ⟨hmem, hne⟩ := mem_executions_forgetTask.mp hrow
    obtain ⟨task, htask, hid⟩ := hc.task row hmem
    refine ⟨task, mem_deleteWhere.mpr ⟨htask, decide_eq_false ?_⟩, hid⟩
    rwa [hid]
  · obtain ⟨hmem, hnone⟩ := mem_events_forgetTask.mp hrow
    obtain ⟨execution, hexec, hid⟩ := hc.event row hmem
    exact ⟨execution, mem_executions_forgetTask.mpr ⟨hexec, hnone _ hexec hid⟩, hid⟩
  · rw [(hkept row hrow).2]
    exact hc.opened row (hkept row hrow).1
  · unfold streamOf
    rw [(hkept row hrow).2]
    exact hc.stream row (hkept row hrow).1

theorem Ledger.forgetTask_writes (hc : l.Consistent) (tid : TaskId) :
    Writes low l (l.forgetTask tid) :=
  writes_of_subset (forgetTask_consistent hc tid) fun _ _ he =>
    mem_eventsOf.mpr (mem_events_forgetTask.mp (mem_eventsOf.mp he)).1

/-! ## The coordinator's answers -/

/-- What the coordinator did with a message of a node. -/
inductive Handled (ids : DerivedIds) (db db' : Database V) (nodeId : NodeId) (replier : String)
    (message : ClientMessage V) (reply : ServerMessage) : Prop
  | kept (h : Quiet db db')
      (hreply : ∀ commandId through, reply ≠ .executionEventsAccepted commandId through)
  | taken {taskId : TaskId} {commandId : CommandId} {events : List (ExecutionEvent V)}
      {mid : Database V} {admission : ExecutionEventAdmission V}
      (hmessage : message = .publishExecutionEvents taskId commandId events)
      (hruns : db.runsAt nodeId taskId commandId = true)
      (h : JournalledBatch db mid taskId commandId events { admission with reply := none })
      (hadmitted : AdmittedReply ids mid db' taskId commandId admission.events replier
        admission.reply)
      (hreply : reply = .executionEventsAccepted commandId admission.throughExecutionSequence)

variable {reply : ServerMessage}

theorem answer_handled [JsonText V] (hc : Consistent db) (ids : DerivedIds) (nid : NodeId)
    (replier : String) (message : ClientMessage V) :
    Handled ids db (answer ids db nid replier message).2 nid replier message
      (answer ids db nid replier message).1 := by
  cases message with
  | acknowledgeExecution tid cid =>
    unfold answer
    dsimp only
    split
    · rename_i db' hok
      exact .kept (Database.acknowledgeExecution_quiet hok) (by rintro _ _ ⟨⟩)
    · exact .kept (Quiet.refl db) (by rintro _ _ ⟨⟩)
  | publishExecutionEvents tid cid evs =>
    unfold answer
    dsimp only
    split
    · rename_i adm db' hok
      obtain ⟨task, htask, hok⟩ := require_bind_ok hok
      obtain ⟨hnode, hok⟩ := ensure_bind_ok hok
      obtain ⟨mid, hbat, hrep⟩ := Database.appendExecutionEvents_ok hc hok
      refine .taken rfl (Database.runsAt_iff.mpr ⟨hbat.command, task, ?_⟩) hbat hrep rfl
      exact ⟨mem_of_find? htask, key_of_find? htask, of_decide_eq_true hnode⟩
    · exact .kept (Quiet.refl db) (by rintro _ _ ⟨⟩)

theorem Handled.consistent (h : Handled ids db db' nid replier message reply)
    (hc : Consistent db) : Consistent db' := by
  cases h with
  | kept h => exact Renoa.Control.consistent_of_grown h.grown hc
  | taken _ _ h hadm => exact Renoa.Control.consistent_of_grown hadm.grown h.consistent

/-- What is journalled was journalled before, or is in a batch of the command's own node. -/
theorem Handled.mem_journalOf (h : Handled ids db db' nid replier message reply)
    (hev : event ∈ db'.journalOf cid) : event ∈ db.journalOf cid ∨
      ∃ batch ∈ batchesOf cid [message], event ∈ batch.2 ∧ db.runsAt nid batch.1 cid = true := by
  cases h with
  | kept h =>
    rw [Database.journalOf_congr (congrArg Table.rows h.events)] at hev
    exact .inl hev
  | @taken tid cause evs _ _ hmsg hruns h hadm =>
    rw [hadm.journalOf_eq] at hev
    refine (h.mem_journalOf hev).imp_right ?_
    rintro ⟨rfl, hmem⟩
    subst hmsg
    exact ⟨(tid, evs), mem_batchesOf.mpr mem_cons_self, hmem, hruns⟩

/-! ## What a node sends -/

/-- A pass over the publications sends events of the ledger. -/
theorem sendPending_events (h : Reads l pubs) :
    ∀ d, ∀ batch ∈ batchesOf d (sendPending bytes l pubs).1, ∀ e ∈ batch.2,
      e ∈ l.eventsOf d := by
  intro d batch hbat e he
  have hpass : SentFor bytes l d pubs _ _ := sendPending_spec l pubs h.nodup
  cases hpass with
  | nothing hsent =>
    rw [hsent] at hbat
    cases hbat
  | batch hpubl _ _ hsent =>
    rw [hsent] at hbat
    rw [mem_singleton.mp hbat, Publication.due, (publicationOf_eq_some hpubl).2] at he
    have hread := (fitting_isPrefix [] _).subset he
    rw [nil_append, Ledger.loadEventsAfter, mem_orderBy] at hread
    exact (mem_filter.mp hread).1

namespace Site

variable {site site' : Site V}

/-- The messages of the node that the coordinator may still handle. -/
def sent (site : Site V) : List (ClientMessage V) :=
  site.late ++ site.session.elim [] Session.outgoing

/-- A batch of the node that is on its way holds the event. -/
def Carries (site : Site V) (commandId : CommandId) (event : ExecutionEvent V) : Prop :=
  ∃ batch ∈ batchesOf commandId site.sent, event ∈ batch.2

theorem sent_of_session (h : site.session = some σ) : site.sent = site.late ++ σ.outgoing := by
  rw [sent, h]
  rfl

theorem sent_setSession (site : Site V) (σ : Session V) :
    (site.setSession σ).sent = site.late ++ σ.outgoing := rfl

theorem sent_endSession (site : Site V) (σ : Session V) :
    (site.endSession σ).sent = site.late ++ σ.outgoing := append_nil _

theorem disconnect_eq (site : Site V) :
    site.disconnect = { site with session := none, late := site.sent } := by
  obtain ⟨ledger, session, late⟩ := site
  cases session with
  | none => exact congrArg (Site.mk ledger none) (append_nil late).symm
  | some σ => rfl

/-- What was sent stays so, also when the session ends over an event that is too long. -/
theorem sent_send (site : Site V) (σ : Session V) : (site.send bytes σ).sent =
    site.late ++ (σ.outgoing ++ (sendPending bytes site.ledger σ.publications).1) := by
  unfold send
  dsimp only
  split
  · rfl
  · exact append_nil _

theorem ledger_send (site : Site V) (σ : Session V) :
    (site.send bytes σ).ledger = site.ledger := by
  unfold send
  dsimp only
  split <;> rfl

/-- What a session sends that has just read a ledger. -/
theorem sent_send_read (hσ : site.session = some σ) (ledger : Ledger V) (pubs : List Publication)
    (incoming : List ServerMessage) :
    ({ site with ledger }.send bytes
      ⟨refreshPublications ledger pubs, σ.outgoing, incoming⟩).sent =
        site.sent ++ (sendPending bytes ledger (refreshPublications ledger pubs)).1 := by
  rw [sent_send, sent_of_session hσ, append_assoc]

end Site

/-- The ledger a received message leaves. -/
theorem eventsAccepted_ok {thru : Nat}
    (h : eventsAccepted l pubs cid thru = .ok (l', publications')) :
    inFlightOf pubs cid = some thru ∧ l.advancePublication cid thru = .ok l' ∧
      publications' = refreshPublications l' (updatePublication pubs cid
        fun pub => { pub with eventInFlight := none }) := by
  obtain ⟨pub, hpubl, h⟩ := require_bind_ok h
  obtain ⟨expected, hexp, h⟩ := require_bind_ok h
  obtain ⟨hthru, h⟩ := ensure_bind_ok h
  obtain ⟨ledger, hled, h⟩ := bind_ok h
  cases h
  refine ⟨?_, stored_eq_ok.mp hled, rfl⟩
  rw [inFlightOf, hpubl, Option.bind_some, hexp, of_decide_eq_true hthru]

theorem acknowledgeAdmission_ok (h : acknowledgeAdmission l pubs cid = .ok (l', publications')) :
    l.acknowledgeAdmission cid = .ok l' ∧
      publications' = refreshPublications l' (updatePublication pubs cid
        fun pub => { pub with admissionInFlight := false }) := by
  obtain ⟨pub, hpubl, h⟩ := bind_ok h
  obtain ⟨_, _, h⟩ := bind_ok h
  obtain ⟨ledger, hled, h⟩ := bind_ok h
  cases h
  exact ⟨stored_eq_ok.mp hled, rfl⟩

/-! ## What a step of a node does -/

/-- **A step of a node**, when its ledger is consistent. -/
inductive Site.Stepped (bytes : MessageBytes V) (low : Nat) (site : Site V) :
    Site.Input V → Site V → Prop
  | same (input : Site.Input V) : Stepped bytes low site input site
  | connect : Stepped bytes low site .connect (site.disconnect.publish bytes .opened)
  | ended {input σ} (hσ : site.session = some σ) (rest : List ServerMessage) :
      Stepped bytes low site input (site.endSession { σ with incoming := rest })
  | execute {input σ rest taskId command ledger} {drawn : Drawn} (hσ : site.session = some σ)
      (hin : σ.incoming = .execute taskId command :: rest)
      (hexecuted : Executed site.ledger ledger drawn taskId command)
      (hdrawn : drawn.eventId = ⟨low⟩) : Stepped bytes low site input
        ({ site with ledger }.publish bytes { σ with incoming := rest })
  | acknowledged {input σ rest cause ledger} {row : ExecutionRow} (hσ : site.session = some σ)
      (hin : σ.incoming = .executionAcknowledged cause :: rest) (hid : row.commandId = cause)
      (hchange : ExecutionChange site.ledger ledger row { row with admissionAcked := true } []) :
      Stepped bytes low site input ({ site with ledger }.setSession
        ⟨refreshPublications ledger (updatePublication σ.publications cause
          fun publication => { publication with admissionInFlight := false }), σ.outgoing, rest⟩)
  | accepted {input σ rest cause through ledger} {row : ExecutionRow} (hσ : site.session = some σ)
      (hin : σ.incoming = .executionEventsAccepted cause through :: rest)
      (hid : row.commandId = cause)
      (hchange : ExecutionChange site.ledger ledger row (row.publishThrough through) []) :
      Stepped bytes low site input ({ site with ledger }.send bytes
        ⟨refreshPublications ledger (updatePublication σ.publications cause
          fun publication => { publication with eventInFlight := none }), σ.outgoing, rest⟩)
  | commit {σ : Session V} (hσ : site.session = some σ) :
      Stepped bytes low site .commit (site.publish bytes σ)
  | written {input ledger row drawn kinds}
      (hcontinued : Continued site.ledger ledger row drawn kinds)
      (hwrites : Writes low site.ledger ledger) : Stepped bytes low site input { site with ledger }
  | stopped {input : Site.Input V} (stop : StopRow) :
      Stepped bytes low site input { site with ledger := site.ledger.insertStop stop }
  | forget {taskId session} (hsession : site.ledger.taskSession taskId = .ok (some session)) :
      Stepped bytes low site (.forget taskId) { site with ledger := site.ledger.forgetTask taskId }

namespace Site

variable {site site' : Site V} {input : Input V}

theorem stepped_write {written : Except NodeStoreError (Ledger V)}
    (h : ∀ ledger, written = .ok ledger → ∃ row drawn kinds,
      Continued site.ledger ledger row drawn kinds ∧ Writes low site.ledger ledger) :
    Stepped bytes low site input (site.write written) := by
  unfold Site.write
  split
  · obtain ⟨row, drawn, kinds, hcont, hwrites⟩ := h _ rfl
    exact .written hcont hwrites
  · exact .same input

theorem stepped_disconnect : Stepped bytes low site input site.disconnect := by
  cases hσ : site.session with
  | none => simpa [disconnect, hσ] using .same input
  | some σ => simpa [disconnect, hσ] using .ended hσ σ.incoming

theorem stepped_receive (hc : site.ledger.Consistent) (home : Home) (draining : Bool) (sid : Nat)
    (clock : Nat → Int) (hσ : site.session = some σ) :
    Stepped bytes low site input
      (site.receive bytes home draining sid (draws low clock 0) σ) := by
  unfold Site.receive
  split
  · exact .same input
  · rename_i message rest hin
    cases message with
    | execute tid cmd =>
      dsimp only
      split
      · rename_i ledger hok
        exact .execute hσ hin (handleExecute_ok hc hok) rfl
      · exact .ended hσ rest
    | executionAcknowledged cause =>
      dsimp only
      split
      · rename_i ledger pubs hok
        obtain ⟨hack, rfl⟩ := acknowledgeAdmission_ok hok
        obtain ⟨row, hid, hchg⟩ := Ledger.setAdmissionAck_ok hack
        exact .acknowledged hσ hin hid hchg
      · exact .ended hσ rest
    | executionEventsAccepted cause thru =>
      dsimp only
      split
      · rename_i ledger pubs hok
        obtain ⟨_, hadvance, rfl⟩ := eventsAccepted_ok hok
        obtain ⟨row, hid, hchg⟩ := Ledger.advancePublication_ok hadvance
        exact .accepted hσ hin hid hchg
      · exact .ended hσ rest
    | error _ => exact .ended hσ rest

/-- Every step of a node is one of these. -/
theorem stepped (hc : site.ledger.Consistent) (bytes : MessageBytes V) (home : Home) (low : Nat)
    (input : Input V) : Stepped bytes low site input (site.step bytes home low input) := by
  cases input with
  | connect => exact .connect
  | disconnect => exact stepped_disconnect
  | receive draining sid clock =>
    show Stepped _ _ _ _ (site.session.elim _ _)
    cases hσ : site.session with
    | none => exact .same _
    | some σ => exact stepped_receive hc home draining sid clock hσ
  | commit =>
    show Stepped _ _ _ _ (site.session.elim _ _)
    cases hσ : site.session with
    | none => exact .same _
    | some σ => exact .commit hσ
  | turnStarted cid clock =>
    refine stepped_write fun l' hok => ?_
    obtain ⟨row, kinds, _, hone, hcont⟩ := Ledger.appendTurnStarted_ok hc hok
    have hopn := length_pos_iff.mpr (hc.opened row hcont.change.mem)
    refine ⟨row, _, kinds, hcont, hcont.writes_one hc hone.length_le (Nat.le_add_right _ _) ?_⟩
    exact Nat.add_le_add_left hopn _
  | progress cid kind clock =>
    refine stepped_write fun l' hok => ?_
    obtain ⟨⟨recorded, _⟩, happ, rfl⟩ := map_ok hok
    obtain ⟨row, hid, hcont⟩ := Ledger.appendProgress_ok hc happ
    refine ⟨row, _, _, hcont,
      hcont.writes_one hc (by split <;> simp) (Nat.le_add_right _ _) ?_⟩
    rw [← hc.nextEventSequence hcont.change.mem, hid]
    exact Nat.le_refl _
  | finish cid reports terminal clock =>
    refine stepped_write fun l' hok => ?_
    obtain ⟨row, _, hcont⟩ := Ledger.finish_ok hc (closingKinds_unstarted reports terminal) hok
    exact ⟨row, _, _, hcont, hcont.writes_all hc fun _ => rfl⟩
  | stop tid cid =>
    unfold Site.step
    dsimp only
    split
    · rename_i out ledger hok
      cases Ledger.recordStop_ok hc hok with
      | ended hl => exact hl ▸ .same _
      | kept _ hl => exact hl ▸ .stopped _
    · exact stepped_disconnect
  | forget tid =>
    unfold Site.step
    dsimp only
    split
    · rename_i sess hsess
      exact .forget hsess
    · exact .same _

/-- **What a step of a node sends**, besides what was on its way: a pass over publications that were
just read from the ledger. -/
theorem Stepped.sent (h : Stepped bytes low site input site') : site'.sent = site.sent ∨
    ∃ pubs, site'.sent = site.sent ++
      (sendPending bytes site'.ledger (refreshPublications site'.ledger pubs)).1 := by
  cases h with
  | same | written | stopped | forget => exact .inl rfl
  | ended hσ => exact .inl ((sent_endSession site _).trans (sent_of_session hσ).symm)
  | acknowledged hσ => exact .inl (sent_of_session hσ).symm
  | connect =>
    refine .inr ⟨[], ?_⟩
    rw [publish, sent_send, ledger_send, disconnect_eq]
    rfl
  | execute hσ | accepted hσ | commit hσ =>
    simp only [publish, ledger_send]
    exact .inr ⟨_, sent_send_read hσ _ _ _⟩

theorem Stepped.carries (h : Stepped bytes low site input site') :
    ∀ d e, site'.Carries d e → site.Carries d e ∨ e ∈ site'.ledger.eventsOf d := by
  rintro d e ⟨batch, hbat, he⟩
  rcases h.sent with hsent | ⟨pubs, hsent⟩
  · exact .inl ⟨batch, hsent ▸ hbat, he⟩
  · rw [hsent, batchesOf_append] at hbat
    rcases mem_append.mp hbat with hold | hnew
    · exact .inl ⟨batch, hold, he⟩
    · exact .inr (sendPending_events (reads_refresh _ _) d batch hnew e he)

theorem Stepped.writes (h : Stepped bytes low site input site') (hc : site.ledger.Consistent) :
    Writes low site.ledger site'.ledger := by
  have hrefl : Writes low site.ledger site.ledger := writes_of_subset hc fun _ _ he => he
  cases h with
  | same | ended => exact hrefl
  | connect =>
    rw [publish, ledger_send, disconnect_eq]
    exact hrefl
  | execute _ _ hexec hdrawn =>
    rw [publish, ledger_send]
    exact hexec.writes hc hdrawn
  | acknowledged _ _ _ hchg => exact hchg.writes rfl hc
  | accepted _ _ _ hchg =>
    rw [ledger_send]
    exact hchg.writes rfl hc
  | commit =>
    rw [publish, ledger_send]
    exact hrefl
  | written _ hwrites => exact hwrites
  | stopped stop =>
    exact writes_of_subset (Ledger.insertStop_consistent hc stop) fun _ _ he => he
  | forget => exact Ledger.forgetTask_writes hc _

end Site

/-! ## What a step of the network does -/

namespace Network

variable {s s' : Network V}

/-- **A step of the network**, when the ledgers are consistent. -/
inductive Stepped [JsonText V] (ids : DerivedIds) (bytes : MessageBytes V) (s : Network V) :
    Input V → Network V → Prop
  | same (input : Input V) : Stepped ids bytes s input s
  | transaction {transaction : Transaction V} (hbatch : isBatch transaction = false) :
      Stepped ids bytes s (.transaction transaction) { s with db := s.db.apply ids transaction }
  | deliver {nodeId taskId command σ} (hσ : (s.site nodeId).session = some σ) :
      Stepped ids bytes s (.deliver nodeId taskId command)
        (s.setSite nodeId ((s.site nodeId).setSession
          { σ with incoming := σ.incoming ++ [.execute taskId command] }))
  | handle {nodeId replier σ message rest} (hσ : (s.site nodeId).session = some σ)
      (hout : σ.outgoing = message :: rest) : Stepped ids bytes s (.handle nodeId replier)
        ({ s with db := (answer ids s.db nodeId replier message).2 }.setSite nodeId
          ((s.site nodeId).setSession
            { σ with
              outgoing := rest
              incoming := σ.incoming ++ [(answer ids s.db nodeId replier message).1] }))
  | handleLate {nodeId i replier message} (hlate : (s.site nodeId).late[i]? = some message) :
      Stepped ids bytes s (.handleLate nodeId i replier)
        ({ s with db := (answer ids s.db nodeId replier message).2 }.setSite nodeId
          { s.site nodeId with late := (s.site nodeId).late.eraseIdx i })
  | node {nodeId input site} (hsite : Site.Stepped bytes s.drawn (s.site nodeId) input site) :
      Stepped ids bytes s (.node nodeId input) (s.setSite nodeId site)

/-- Every step is one of these. -/
theorem stepped [JsonText V] (hc : ∀ nid, (s.site nid).ledger.Consistent) (ids : DerivedIds)
    (bytes : MessageBytes V) (home : NodeId → Home) (input : Input V) :
    Stepped ids bytes s input (step ids bytes home s input) := by
  cases input with
  | transaction tx =>
    show Stepped ids bytes s _ (if _ then _ else _)
    split
    · exact .same _
    · rename_i hbat
      exact .transaction (by simpa using hbat)
  | deliver nid tid cmd =>
    show Stepped ids bytes s _ (s.deliver nid tid cmd)
    unfold Network.deliver
    split
    · rename_i σ hσ
      exact .deliver hσ
    · exact .same _
  | handle nid replier =>
    show Stepped ids bytes s _ ((s.site nid).session.elim s (s.handle ids nid replier))
    cases hσ : (s.site nid).session with
    | none => exact .same _
    | some σ =>
      rw [Option.elim_some]
      unfold Network.handle
      split
      · exact .same _
      · rename_i message rest hout
        exact .handle hσ hout
  | handleLate nid i replier =>
    show Stepped ids bytes s _ (s.handleLate ids nid i replier)
    unfold Network.handleLate
    split
    · rename_i message hlate
      exact .handleLate hlate
    · exact .same _
  | node nid input => exact .node (Site.stepped (hc nid) bytes (home nid) s.drawn input)

/-! ## Soundness -/

/-- The coordinator's journal, a ledger or a batch on its way holds the event. -/
def Known (s : Network V) (commandId : CommandId) (event : ExecutionEvent V) : Prop :=
  event ∈ s.db.journalOf commandId ∨ ∃ nodeId,
    event ∈ (s.site nodeId).ledger.eventsOf commandId ∨ (s.site nodeId).Carries commandId event

structure Sound (s : Network V) : Prop where
  db : Consistent s.db
  ledger : ∀ nodeId, (s.site nodeId).ledger.Consistent
  identified : Identified s.Known s.drawn

theorem sound_empty : Sound (empty : Network V) where
  db := Renoa.Control.consistent_empty
  ledger _ := Ledger.consistent_empty
  identified := by
    have hnone : ∀ d e, ¬ (empty : Network V).Known d e := by
      rintro d e (h | ⟨n, h | ⟨batch, h, _⟩⟩) <;> cases h
    exact ⟨fun d e h => absurd h (hnone d e), fun d e h => absurd h (hnone d e),
      fun d e _ _ h => absurd h (hnone d e)⟩

/-- A write of a node, beside a change of the coordinator's database that journals known events. -/
theorem Sound.setSite (h : s.Sound) {site : Site V} (hdb : Consistent db)
    (hjnl : ∀ d, ∀ e ∈ db.journalOf d, s.Known d e)
    (hwrites : Writes s.drawn (s.site nid).ledger site.ledger)
    (hcarry : ∀ d e, site.Carries d e →
      (s.site nid).Carries d e ∨ e ∈ site.ledger.eventsOf d) :
    ({ s with db }.setSite nid site).Sound where
  db := hdb
  ledger := (forall_update_iff s.site fun _ site => site.ledger.Consistent).mpr
    ⟨hwrites.consistent, fun other _ => h.ledger other⟩
  identified := by
    obtain ⟨cause, new, hevs, hin, hnew⟩ := hwrites.events
    refine h.identified.step (show s.drawn ≤ s.drawn + site.ledger.events.rows.length + 1 by omega)
      (fun d e he => ?_) hnew fun e he => hwrites.consistent.executionId (hin e he)
    have hown : e ∈ site.ledger.eventsOf d → s.Known d e ∨ (d = cause ∧ e ∈ new) := fun hmem =>
      (hevs d e hmem).imp_left fun hold => .inr ⟨nid, .inl hold⟩
    rcases he with he | ⟨other, he⟩
    · exact .inl (hjnl d e he)
    · have he : e ∈ (update s.site nid site other).ledger.eventsOf d ∨
          (update s.site nid site other).Carries d e := he
      by_cases hoth : other = nid
      · rw [hoth, update_self] at he
        rcases he with hmem | hcarried
        · exact hown hmem
        · rcases hcarry d e hcarried with hold | hmem
          · exact .inl (.inr ⟨nid, .inr hold⟩)
          · exact hown hmem
      · rw [update_of_ne hoth] at he
        exact .inl (.inr ⟨other, he⟩)

/-- What a node sent and the coordinator has still to handle only shrinks. -/
theorem Sound.setSent (h : s.Sound) {site : Site V} (hdb : Consistent db)
    (hjnl : ∀ d, ∀ e ∈ db.journalOf d, s.Known d e) (hled : site.ledger = (s.site nid).ledger)
    (hsent : site.sent ⊆ (s.site nid).sent) : ({ s with db }.setSite nid site).Sound := by
  refine h.setSite hdb hjnl ?_ ?_
  · rw [hled]
    exact writes_of_subset (h.ledger nid) fun _ _ he => he
  rintro d e ⟨batch, hbat, he⟩
  exact .inl ⟨batch, mem_batchesOf.mpr (hsent (mem_batchesOf.mp hbat)), he⟩

theorem not_batch_of_isBatch {tx : Transaction V} (h : isBatch tx = false) :
    ∀ newId rid tid cause evs replier,
      tx ≠ .appendExecutionEvents newId rid tid cause evs replier := by
  rintro _ _ _ _ _ _ rfl
  cases h

section

variable [JsonText V]

theorem mem_journalOf_apply (hc : Consistent db) {tx : Transaction V} (hbat : isBatch tx = false)
    (h : event ∈ (db.apply ids tx).journalOf cid) : event ∈ db.journalOf cid := by
  unfold Database.apply at h
  split at h
  · rename_i db' hcom
    exact (Transaction.commit_committed hc hcom).mem_journalOf (not_batch_of_isBatch hbat) h
  · exact h

/-- The coordinator journals what a node sent. -/
theorem Sound.known_answer (h : s.Sound) (ids : DerivedIds) (replier : String)
    (hmem : message ∈ (s.site nid).sent) :
    ∀ d, ∀ e ∈ (answer ids s.db nid replier message).2.journalOf d, s.Known d e := by
  intro d e he
  rcases (answer_handled h.db ids nid replier message).mem_journalOf he with
    hold | ⟨batch, hbat, hev, _⟩
  · exact .inl hold
  · refine .inr ⟨nid, .inr ⟨batch, mem_batchesOf.mpr ?_, hev⟩⟩
    rwa [mem_singleton.mp (mem_batchesOf.mp hbat)]

theorem Stepped.sound {input : Input V} (hstep : Stepped ids bytes s input s') (h : s.Sound) :
    s'.Sound := by
  have hjnl : ∀ d, ∀ e ∈ s.db.journalOf d, s.Known d e := fun _ _ he => .inl he
  cases hstep with
  | same => exact h
  | transaction hbat =>
    refine ⟨Database.consistent_apply ids h.db _, h.ledger, h.identified.mono (Nat.le_refl _) ?_⟩
    exact fun d e he => he.imp_left (mem_journalOf_apply h.db hbat)
  | deliver hσ =>
    refine h.setSent h.db hjnl rfl ?_
    rw [Site.sent_setSession, Site.sent_of_session hσ]
    exact Subset.refl _
  | @handle nid replier σ message rest hσ hout =>
    have hsent := Site.sent_of_session hσ
    refine h.setSent ((answer_handled h.db ids nid replier message).consistent h.db)
      (h.known_answer ids replier ?_) rfl ?_
    · rw [hsent, hout]
      exact mem_append_right _ mem_cons_self
    · rw [Site.sent_setSession, hsent, hout]
      exact ((sublist_cons_self message rest).append_left _).subset
  | @handleLate nid i replier message hlate =>
    refine h.setSent ((answer_handled h.db ids nid replier message).consistent h.db)
      (h.known_answer ids replier (mem_append_left _ (mem_of_getElem? hlate))) rfl ?_
    exact ((eraseIdx_sublist _ i).append_right _).subset
  | node hsite => exact h.setSite h.db hjnl (hsite.writes (h.ledger _)) hsite.carries

/-- **Every step keeps the network sound.** -/
theorem Sound.step (h : s.Sound) (ids : DerivedIds) (home : NodeId → Home) (input : Input V) :
    (step ids bytes home s input).Sound :=
  (stepped h.ledger ids bytes home input).sound h

/-- **In every run of the coordinator and its nodes, the database and the ledgers stay consistent,
and an event identity is drawn for one event of one command.** -/
theorem run_sound (ids : DerivedIds) (bytes : MessageBytes V) (home : NodeId → Home)
    (inputs : List (Input V)) : (run ids bytes home empty inputs).Sound :=
  List.foldlRecOn inputs _ sound_empty fun _ h input _ => h.step ids home input

end

end Network

end Renoa.Node
