import Renoa.Control.Coordinator
import Renoa.Control.Routing

/-!
# No pending delivery is missed

`PendingStep` says how a change of the database moves what nodes have not acknowledged: what was
pending stays so unless it is acknowledged, and what is new is named. A handled request adds only
what it also sends, on the connection it looked up under the lock. An activation holds the same
lock, so what is pending for a node with a current connection was in the snapshot, was sent since,
or is an action its handler has still to carry out (`DeliveryInv`).
-/

namespace Renoa.Control

open Foundation Protocol List Table Database Function

variable {V : Type} {db db' mid : Database V} {nid : NodeId} {tid : TaskId} {task : TaskRow}
  {cid : CommandId} {handled : Handled V} {request : Request V} {connectionId : Nat}
  {delivery : Delivery} {command : CommandEnvelope}

/-! ## Where a command runs -/

theorem Database.RunsOn.mono (hkp : ∀ tid, KeepsTask tid db db') {row : CommandRow}
    (h : db.RunsOn nid row) : db'.RunsOn nid row := by
  obtain ⟨hrow, task, htask, hid, hnode⟩ := h
  obtain ⟨task', htask', hid', _, hnode', _⟩ := (hkp row.taskId).task task htask hid
  exact ⟨(hkp row.taskId).command row hrow rfl, task', htask', hid'.trans hid, hnode'.trans hnode⟩

/-- The task of a stored command keeps its node, so later it runs where it ran. -/
theorem Database.RunsOn.of_later (hc : Consistent db) (hkp : ∀ tid, KeepsTask tid db db')
    {row : CommandRow} (hrow : row ∈ db.commands) (h : db'.RunsOn nid row) :
    db.RunsOn nid row := by
  obtain ⟨_, later, hlat, hid, rfl⟩ := h
  obtain ⟨task, htask, htid⟩ := hc.journal.command_task row hrow
  obtain ⟨task', htask', hid', _, hnode', _⟩ := (hkp row.taskId).task task htask htid
  obtain rfl : later = task' := key_inj hlat htask' (hid.trans (hid'.trans htid).symm)
  exact ⟨hrow, task, htask, htid, hnode'.symm⟩

/-- What is pending stays so while its rows stand and its command runs where it ran. -/
theorem Database.Pending.imp (h : db.Pending nid delivery)
    (hpend : ∀ p ∈ db.pendingExecutions, p ∈ db'.pendingExecutions)
    (hstops : ∀ s ∈ db.stopRequests, s.delivered = false → s ∈ db'.stopRequests)
    (hruns : ∀ row, db.RunsOn nid row → db'.RunsOn nid row) : db'.Pending nid delivery := by
  cases h with
  | execute hp hrow hid => exact .execute (hpend _ hp) (hruns _ hrow) hid
  | stop hs hopen hrow hid => exact .stop (hstops _ hs hopen) hopen (hruns _ hrow) hid

/-! ## How pending deliveries move -/

/-- What the nodes have not acknowledged after a change: what was pending and is not gone, and what
is new. A command or a stop that the change stored is pending. -/
structure PendingStep (db db' : Database V) (gone new : NodeId → Delivery → Prop) : Prop where
  kept : ∀ nodeId delivery, db.Pending nodeId delivery →
    db'.Pending nodeId delivery ∨ gone nodeId delivery
  added : ∀ nodeId delivery, db'.Pending nodeId delivery →
    db.Pending nodeId delivery ∨ new nodeId delivery
  commands : ∀ row ∈ db'.commands, row ∈ db.commands ∨
    ∃ nodeId, db'.Pending nodeId (.execute row.taskId row.command)
  stops : ∀ stop ∈ db'.stopRequests, (∃ old ∈ db.stopRequests, old.commandId = stop.commandId) ∨
    ∃ nodeId taskId, db'.Pending nodeId (.stop taskId stop.commandId)

/-- Nothing is acknowledged or added. -/
abbrev PendingKept (db db' : Database V) : Prop :=
  PendingStep db db' (fun _ _ => False) (fun _ _ => False)

theorem PendingStep.imp {gone gone' new new' : NodeId → Delivery → Prop}
    (h : PendingStep db db' gone new) (hgone : ∀ {n d}, gone n d → gone' n d)
    (hnew : ∀ {n d}, new n d → new' n d) : PendingStep db db' gone' new' where
  __ := h
  kept n d hd := (h.kept n d hd).imp id hgone
  added n d hd := (h.added n d hd).imp id hnew

theorem PendingStep.refl (db : Database V) : PendingKept db db where
  kept _ _ hd := .inl hd
  added _ _ hd := .inl hd
  commands _ hrow := .inl hrow
  stops stop hstop := .inl ⟨stop, hstop, rfl⟩

theorem PendingKept.weaken {gone new : NodeId → Delivery → Prop} (h : PendingKept db db') :
    PendingStep db db' gone new :=
  h.imp False.elim False.elim

/-- A change after one that kept what is pending, when nothing is acknowledged by it. -/
theorem PendingKept.trans {new : NodeId → Delivery → Prop} (h : PendingKept db mid)
    (h' : PendingStep mid db' (fun _ _ => False) new) :
    PendingStep db db' (fun _ _ => False) new where
  kept n d hd := ((h.kept n d hd).elim (h'.kept n d) False.elim)
  added n d hd := (h'.added n d hd).imp (fun hmid => (h.added n d hmid).elim id False.elim) id
  commands row hrow := by
    rcases h'.commands row hrow with hmid | hpend
    · exact (h.commands row hmid).imp id fun ⟨n, hp⟩ => ⟨n, (h'.kept n _ hp).elim id False.elim⟩
    · exact .inr hpend
  stops stop hstop := by
    rcases h'.stops stop hstop with ⟨middle, hmiddle, hid⟩ | hpend
    · rcases h.stops middle hmiddle with ⟨old, hold, hid'⟩ | ⟨n, t, hp⟩
      · exact .inl ⟨old, hold, hid'.trans hid⟩
      · rw [hid] at hp
        exact .inr ⟨n, t, (h'.kept n _ hp).elim id False.elim⟩
    · exact .inr hpend

/-- A change that leaves the commands, the pending executions and the stops alone. -/
theorem pendingKept_of_eq (hc : Consistent db) (hkp : ∀ tid, KeepsTask tid db db')
    (hcmds : db'.commands = db.commands)
    (hpend : db'.pendingExecutions = db.pendingExecutions)
    (hstops : db'.stopRequests = db.stopRequests) : PendingKept db db' where
  kept _ _ hd := .inl (hd.imp (fun _ hp => hpend ▸ hp) (fun _ hs _ => hstops ▸ hs)
    fun _ hrow => hrow.mono hkp)
  added _ _ hd := .inl (hd.imp (fun _ hp => hpend ▸ hp) (fun _ hs _ => hstops ▸ hs)
    fun _ hrow => hrow.of_later hc hkp (hcmds ▸ hrow.1))
  commands _ hrow := .inl (hcmds ▸ hrow)
  stops stop hstop := .inl ⟨stop, hstops ▸ hstop, rfl⟩

/-- An admitted command is pending for the node of its task. -/
theorem InsertedCommand.pendingStep (hc : Consistent db) {record : TaskEventRow V}
    (h : InsertedCommand db db' tid command record) (htask : task ∈ db.tasks)
    (hid : task.taskId = tid) :
    PendingStep db db' (fun _ _ => False)
      (fun nid delivery => nid = task.nodeId ∧ delivery = .execute tid command) := by
  have hkp : ∀ t, KeepsTask t db db' :=
    keepsTask_of_grown (.single (.admitted tid command record h))
  have hmem : ∀ row, row ∈ db'.commands ↔
      row ∈ db.commands ∨ row = ⟨command.commandId, tid, command⟩ :=
    fun _ => mem_concat h.commands
  have hpend : ∀ p, p ∈ db'.pendingExecutions ↔
      p ∈ db.pendingExecutions ∨ p = ⟨command.commandId, record.sequence⟩ :=
    fun _ => mem_concat h.pending
  have hstops := h.stops_eq
  -- The new command runs on the node of its task.
  have hruns : ∀ nid, db'.RunsOn nid ⟨command.commandId, tid, command⟩ ↔ nid = task.nodeId := by
    intro nid
    obtain ⟨task', htask', hid', _, hnode', _⟩ := (hkp tid).task task htask hid
    constructor
    · rintro ⟨_, other, hoth, hotherId, rfl⟩
      rw [key_inj hoth htask' (hotherId.trans (hid'.trans hid).symm)]
      exact hnode'
    · rintro rfl
      exact ⟨(hmem _).mpr (.inr rfl), task', htask', hid'.trans hid, hnode'⟩
  refine ⟨?_, ?_, ?_, ?_⟩
  · exact fun _ _ hd => .inl (hd.imp (fun _ hp => (hpend _).mpr (.inl hp))
      (fun _ hs _ => hstops ▸ hs) fun _ hrow => hrow.mono hkp)
  · intro n d hd
    cases hd with
    | @execute p row hp hrow hpid =>
      rcases (hmem row).mp hrow.1 with hold | rfl
      · refine .inl (.execute ?_ (hrow.of_later hc hkp hold) hpid)
        rcases (hpend p).mp hp with hp | rfl
        · exact hp
        · exact absurd hpid (h.fresh row hold)
      · exact .inr ⟨(hruns n).mp hrow, rfl⟩
    | @stop s row hs hopen hrow hsid =>
      rw [hstops] at hs
      rcases (hmem row).mp hrow.1 with hold | rfl
      · exact .inl (.stop hs hopen (hrow.of_later hc hkp hold) hsid)
      · -- A recorded stop is one of an earlier command.
        obtain ⟨c, hcmd, hcid⟩ := hc.stop_command s hs
        exact absurd (hcid.trans hsid.symm) (h.fresh c hcmd)
  · intro row hrow
    rcases (hmem row).mp hrow with hold | rfl
    · exact .inl hold
    · exact .inr ⟨task.nodeId, .execute ((hpend _).mpr (.inr rfl)) ((hruns _).mpr rfl) rfl⟩
  · intro stop hstop
    exact .inl ⟨stop, hstops ▸ hstop, rfl⟩

/-! ## What a request does to them -/

/-- The request is the node's acknowledgement of the delivery. -/
def Request.Acknowledges (nodeId : NodeId) (delivery : Delivery) : Request V → Prop
  | .acknowledgeExecution sender taskId commandId =>
    sender = nodeId ∧ ∃ command, command.commandId = commandId ∧
      delivery = .execute taskId command
  | .acknowledgeStop sender taskId commandId => sender = nodeId ∧ delivery = .stop taskId commandId
  | _ => False

def Request.deletes : Request V → Bool
  | .deleteTask .. => true
  | _ => false

theorem Database.acknowledgeExecution_pendingStep (hc : Consistent db)
    (h : db.acknowledgeExecution nid tid cid = .ok db') :
    PendingStep db db'
      (fun n d => (Request.acknowledgeExecution nid tid cid : Request V).Acknowledges n d)
      (fun _ _ => False) := by
  have hkp : ∀ t, KeepsTask t db db' := keepsTask_of_grown (acknowledgeExecution_quiet h).grown
  obtain ⟨⟨command, hcmd, hid, htid⟩, ⟨task, htask, hstand, hnode⟩, rfl⟩ :=
    acknowledgeExecution_ok h
  refine ⟨?_, ?_, fun row hrow => .inl hrow, fun stop hstop => .inl ⟨stop, hstop, rfl⟩⟩
  · intro n d hd
    cases hd with
    | @execute p row hp hrow hpid =>
      by_cases hgone : p.commandId = cid
      · -- The acknowledged execution is the one of this command, on the node of its task.
        obtain rfl : row = command := key_inj hrow.1 hcmd (hpid.trans (hgone.trans hid.symm))
        obtain ⟨_, other, hoth, hotherId, rfl⟩ := hrow
        obtain rfl : other = task := key_inj hoth htask ((hotherId.trans htid).trans hstand.symm)
        refine .inr ⟨hnode.symm, row.command, ?_, by rw [htid]⟩
        rw [hc.journal.command_id row hcmd, hid]
      · refine .inl (.execute (mem_deleteWhere.mpr ⟨hp, ?_⟩) (hrow.mono hkp) hpid)
        exact decide_eq_false hgone
    | stop hs hopen hrow hsid => exact .inl (.stop hs hopen (hrow.mono hkp) hsid)
  · exact fun _ _ hd => .inl (hd.imp (fun _ hp => (mem_deleteWhere.mp hp).1)
      (fun _ hs _ => hs) fun _ hrow => hrow)

theorem Database.acknowledgeStop_pendingStep (hc : Consistent db)
    (h : db.acknowledgeStop nid tid cid = .ok db') :
    PendingStep db db'
      (fun n d => (Request.acknowledgeStop nid tid cid : Request V).Acknowledges n d)
      (fun _ _ => False) := by
  obtain rfl | ⟨⟨command, hcmd, hid, htid⟩, ⟨task, htask, hstand, hnode⟩, rfl⟩ :=
    acknowledgeStop_ok h
  · exact (PendingStep.refl db').weaken
  · refine ⟨?_, ?_, fun row hrow => .inl hrow, ?_⟩
    · intro n d hd
      cases hd with
      | execute hp hrow hpid => exact .inl (.execute hp hrow hpid)
      | @stop s row hs hopen hrow hsid =>
        by_cases hgone : s.commandId = cid
        · obtain rfl : row = command :=
            key_inj hrow.1 hcmd (hsid.trans (hgone.trans hid.symm))
          obtain ⟨_, other, hoth, hotherId, rfl⟩ := hrow
          obtain rfl : other = task := key_inj hoth htask ((hotherId.trans htid).trans hstand.symm)
          exact .inr ⟨hnode.symm, by rw [htid, hid]⟩
        · exact .inl (.stop (mem_put_of_ne hs hgone) hopen hrow hsid)
    · refine fun _ _ hd => .inl (hd.imp (fun _ hp => hp) (fun s hs hopen => ?_) fun _ hrow => hrow)
      rcases mem_put_cases hs with rfl | ⟨hs, _⟩
      · cases hopen
      · exact hs
    · intro stop hstop
      rcases mem_put.mp hstop with ⟨hs, _⟩ | ⟨rfl, old, hold, hold'⟩
      · exact .inl ⟨stop, hs, rfl⟩
      · exact .inl ⟨old, hold, hold'⟩

/-- A recorded stop is pending for the node of its task. -/
theorem Database.admitStop_pendingStep (htask : task ∈ db.tasks) {adm : StopAdmission}
    (h : db.admitStop task.taskId cid = .ok (adm, db')) :
    PendingStep db db' (fun _ _ => False) (fun nid delivery =>
      adm = .recorded false ∧ nid = task.nodeId ∧
        delivery = .stop task.taskId cid) := by
  obtain ⟨⟨command, hcmd, rfl, htid⟩, rfl | ⟨rfl, hrows, hdb⟩⟩ := admitStop_ok h
  · exact (PendingStep.refl db').weaken
  · have hruns : ∀ n row, db'.RunsOn n row ↔ db.RunsOn n row := by
      intro n row
      rw [hdb]
      rfl
    have hpend : db'.pendingExecutions = db.pendingExecutions := congrArg (·.pendingExecutions) hdb
    have hcmds : db'.commands = db.commands := congrArg (·.commands) hdb
    have hmem : ∀ s, s ∈ db'.stopRequests ↔ s ∈ db.stopRequests ∨ s = ⟨command.commandId, false⟩ :=
      fun _ => mem_concat hrows
    have hown : db.RunsOn task.nodeId command := ⟨hcmd, task, htask, htid.symm, rfl⟩
    refine ⟨?_, ?_, fun row hrow => .inl (hcmds ▸ hrow), ?_⟩
    · exact fun _ _ hd => .inl (hd.imp (fun _ hp => hpend ▸ hp)
        (fun _ hs _ => (hmem _).mpr (.inl hs)) fun _ hrow => (hruns _ _).mpr hrow)
    · intro n d hd
      cases hd with
      | execute hp hrow hpid => exact .inl (.execute (hpend ▸ hp) ((hruns _ _).mp hrow) hpid)
      | @stop s row hs hopen hrow hsid =>
        rcases (hmem s).mp hs with hs | rfl
        · exact .inl (.stop hs hopen ((hruns _ _).mp hrow) hsid)
        · obtain ⟨hmemRow, other, hoth, hotherId, rfl⟩ := (hruns _ _).mp hrow
          obtain rfl : row = command := key_inj hmemRow hcmd hsid
          rw [key_inj hoth htask (hotherId.trans htid)]
          exact .inr ⟨rfl, rfl, by rw [htid]⟩
    · intro stop hstop
      rcases (hmem stop).mp hstop with hs | rfl
      · exact .inl ⟨stop, hs, rfl⟩
      · exact .inr ⟨task.nodeId, command.taskId, .stop hstop rfl ((hruns _ _).mpr hown) rfl⟩

section

variable {ids : DerivedIds} {nodes later : Nodes}

/-- What is new is sent on the connection of its node, if that was the node's both when the
connections were looked up and when the transaction had committed. -/
def Handled.Sends (nodes later : Nodes) (handled : Handled V) (nodeId : NodeId)
    (delivery : Delivery) : Prop :=
  ∀ seen current, nodes nodeId = some seen → later nodeId = some current →
    seen.connectionId = current.connectionId →
      .deliver current.connectionId delivery ∈ handled.actions

section

variable (hc : Consistent db) {adm : ExecutionEventAdmission V}

include hc

theorem SubmittedCommand.pendingStep (htask : task ∈ db.tasks)
    (h : SubmittedCommand nodes db db' task command handled) :
    PendingStep db db' (fun _ _ => False) (handled.Sends nodes later) := by
  cases h with
  | admitted record hins =>
    apply (hins.pendingStep hc htask rfl).imp id
    rintro _ _ ⟨rfl, rfl⟩ seen cur hseen _ hsame
    exact mem_cons_of_mem _ (mem_deliverOn.mpr ⟨seen, hseen, by rw [hsame]⟩)
  | existing _ _ _ hdb =>
    subst hdb
    exact (PendingStep.refl db').weaken

theorem OpenedTask.pendingKept {task : TaskSpec} (h : OpenedTask db db' task) :
    PendingKept db db' :=
  pendingKept_of_eq hc h.keepsTask h.commands_eq (congrArg (·.pendingExecutions) h.rest)
    (congrArg (·.stopRequests) h.rest)

theorem OpenedThread.pendingKept {task : TaskSpec} (h : OpenedThread db db' task) :
    PendingKept db db' := by
  rcases h with h | ⟨rfl, _⟩
  · exact h.pendingKept hc
  · exact .refl db'

theorem AdmittedMessage.pendingStep {msg : OutgoingMessage} {admission : MessageAdmission V}
    (h : AdmittedMessage ids db db' nid msg admission) :
    PendingStep db db' (fun _ _ => False) ((admission.outcome nodes msg).Sends nodes later) := by
  cases h with
  | @admitted pid source asking depth task hrte name mid record hthr hins =>
    obtain ⟨thread, hstand, hid, _, hnode⟩ := hthr.exists_task
    have hmid := consistent_of_grown hthr.grown hc
    refine (hthr.pendingKept hc).trans ((hins.pendingStep hmid hstand hid).imp id ?_)
    rintro _ _ ⟨rfl, rfl⟩ seen cur hseen _ hsame
    rw [hnode, hrte.task_eq] at hseen
    exact mem_cons_of_mem _ (mem_deliverOn.mpr ⟨seen, hseen, by rw [hsame]⟩)
  | existing _ _ _ _ hdb =>
    subst hdb
    exact (PendingStep.refl db').weaken

theorem JournalledBatch.pendingKept {evs : List (ExecutionEvent V)}
    (h : JournalledBatch db db' tid cid evs adm) : PendingKept db db' :=
  pendingKept_of_eq hc h.keeps h.commands_eq (congrArg (·.pendingExecutions) h.rest)
    (congrArg (·.stopRequests) h.rest)

/-- An answer is pending for the node of the asking task. -/
theorem AdmittedReply.pendingStep {replier : String}
    (h : AdmittedReply ids db db' tid cid adm.events replier adm.reply) :
    PendingStep db db' (fun _ _ => False) (fun nid delivery =>
      adm.reply.isSome = true ∧ (⟨none, Database.batchActions later adm⟩ :
        Handled V).Sends nodes later nid delivery) := by
  unfold Handled.Sends Database.batchActions
  generalize adm.reply = reply at h ⊢
  cases h with
  | unended _ hdb | unasked _ _ _ hdb =>
    subst hdb
    exact (PendingStep.refl db').weaken
  | @answered row asking origin terminal asker task record _ _ _ _ hasker _ hins =>
    refine (hins.pendingStep hc (mem_of_find? hasker) (key_of_find? hasker)).imp id ?_
    rintro _ _ ⟨rfl, rfl⟩
    refine ⟨rfl, fun seen cur _ hcur _ => mem_append_right _ ?_⟩
    exact mem_cons_of_mem _ (mem_deliverOn.mpr ⟨cur, hcur, rfl⟩)

end

/-- What a handled request moves: its acknowledgement, and what it sends under the lock. -/
theorem Request.Did.pendingStep [JsonText V] (hc : Consistent db)
    (h : Request.Did ids nodes later db db' request handled) (hkept : request.deletes = false) :
    PendingStep db db' (fun n d => request.Acknowledges n d)
      (fun n d => request.locks = true ∧ handled.Sends nodes later n d) := by
  cases h with
  | submitted _ htask hsubm => exact (hsubm.pendingStep hc htask).imp False.elim fun hs => ⟨rfl, hs⟩
  | messaged _ hsent => exact (hsent.pendingStep hc).imp False.elim fun hs => ⟨rfl, hs⟩
  | published mid hbat hrep hends =>
    refine ((hbat.pendingKept hc).trans (hrep.pendingStep hbat.consistent)).imp
      False.elim fun hs => ⟨hends hs.1, hs.2⟩
  | stopped htask hstopped =>
    cases hstopped with
    | alreadyEnded hstop =>
      apply (admitStop_pendingStep htask hstop).imp False.elim
      rintro _ _ ⟨hrec, _⟩
      cases hrec
    | recorded hstop =>
      apply (admitStop_pendingStep htask hstop).imp False.elim
      rintro _ _ ⟨hrec, rfl, rfl⟩
      cases hrec
      refine ⟨rfl, fun seen cur hseen _ hsame => ?_⟩
      exact mem_deliverOn.mpr ⟨seen, hseen, by rw [hsame]⟩
  | @silent request tx hsil hcom =>
    cases request with
    | acknowledgeExecution nid tid cid =>
      cases hsil
      exact (acknowledgeExecution_pendingStep hc hcom).imp id False.elim
    | acknowledgeStop nid tid cid =>
      cases hsil
      exact (acknowledgeStop_pendingStep hc hcom).imp id False.elim
    | createNodeEnrollment nid owner =>
      cases hsil
      have hdb := createNodeEnrollment_ok hcom
      have hkp := keepsTask_of_grown (createNodeEnrollment_quiet hcom).grown
      exact (pendingKept_of_eq hc hkp (congrArg (·.commands) hdb)
        (congrArg (·.pendingExecutions) hdb)
        (congrArg (·.stopRequests) hdb)).weaken
    | createTask task =>
      cases hsil
      exact ((insertTask_ok hcom).pendingKept hc).weaken
    | openTask task availability =>
      cases hsil
      obtain ⟨⟨_, _⟩, hop, rfl⟩ := map_ok hcom
      apply PendingKept.weaken
      rcases openTask_ok hop with hdb | hopn
      · exact hdb ▸ .refl db
      · exact hopn.pendingKept hc
    | deleteTask pid tid => cases hkept
    | _ => cases hsil

theorem Request.Did.consistent [JsonText V] (hc : Consistent db)
    (h : Request.Did ids nodes later db db' request handled) : Consistent db' := by
  cases h with
  | silent _ hcom => exact Transaction.consistent_commit hc hcom
  | submitted _ _ hsubm =>
    cases hsubm with
    | admitted _ hins => exact hins.consistent hc
    | existing _ _ _ hdb => exact hdb ▸ hc
  | messaged _ hsent => exact consistent_of_grown hsent.grown hc
  | published _ hbat hrep _ => exact consistent_of_grown hrep.grown hbat.consistent
  | stopped _ hstopped =>
    cases hstopped with
    | alreadyEnded hstop | recorded hstop =>
      exact consistent_of_grown (admitStop_quiet hstop).grown hc

end

theorem Request.deletes_of_locks (h : request.locks = true) : request.deletes = false := by
  cases request <;> first | rfl | cases h

theorem Request.not_acknowledges_of_locks (h : request.locks = true) (nid : NodeId)
    (delivery : Delivery) : ¬ request.Acknowledges nid delivery := by
  cases request <;> first | exact id | cases h

/-! ## The invariant of the machine -/

/-- The delivery was sent on the connection, or a handler has still to send it there. -/
def Coordinator.Covers (c : Coordinator V) (connectionId : Nat) (delivery : Delivery) : Prop :=
  (connectionId, delivery) ∈ c.sent ∨ .deliver connectionId delivery ∈ c.jobs.flatten

/-- The delivery is in its part of the snapshot, once that is read. -/
def Activation.Holds (activation : Activation) : Delivery → Prop
  | .execute taskId command =>
    ∀ rest, activation.executions = some rest → .execute taskId command ∈ rest
  | .stop taskId commandId => ∀ rest, activation.stops = some rest → .stop taskId commandId ∈ rest

/-- Whoever holds the lock knows the connections, and what is pending is covered. -/
structure DeliveryInv (c : Coordinator V) : Prop where
  consistent : Consistent c.db
  looked : ∀ request nodes, c.lifecycle = .handling request nodes → request.locks = true ∧
    ∀ nodeId current, c.nodes nodeId = some current →
      ∃ seen, nodes nodeId = some seen ∧ seen.connectionId = current.connectionId
  activating : ∀ activation, c.lifecycle = .activating activation →
    ∀ delivery, c.db.Pending activation.nodeId delivery →
      c.Covers activation.connectionId delivery ∨ activation.Holds delivery
  current : ∀ nodeId node, c.nodes nodeId = some node →
    ∀ delivery, c.db.Pending nodeId delivery → c.Covers node.connectionId delivery

variable {c c' : Coordinator V} {node : NodeConnection}

/-- A step that leaves the lock alone keeps the invariant when connections are only lost, nothing
becomes pending and what was covered stays so. -/
theorem DeliveryInv.mono (h : DeliveryInv c) (hcons : Consistent c'.db)
    (hlifecycle : c'.lifecycle = c.lifecycle)
    (hnodes : ∀ nid cur, c'.nodes nid = some cur →
      ∃ old, c.nodes nid = some old ∧ old.connectionId = cur.connectionId)
    (hpend : ∀ nid delivery, c'.db.Pending nid delivery → c.db.Pending nid delivery)
    (hcov : ∀ connectionId delivery, c.Covers connectionId delivery →
      c'.Covers connectionId delivery) : DeliveryInv c' where
  consistent := hcons
  looked request nodes hlock := by
    obtain ⟨hlocks, hlooked⟩ := h.looked request nodes (hlifecycle ▸ hlock)
    refine ⟨hlocks, fun nid cur hcur => ?_⟩
    obtain ⟨old, hold, hsame⟩ := hnodes nid cur hcur
    obtain ⟨seen, hseen, hseenOld⟩ := hlooked nid old hold
    exact ⟨seen, hseen, hseenOld.trans hsame⟩
  activating activation hlock delivery hd :=
    (h.activating activation (hlifecycle ▸ hlock) delivery (hpend _ _ hd)).imp (hcov _ _) id
  current nid node hnode delivery hd := by
    obtain ⟨old, hold, hsame⟩ := hnodes nid node hnode
    exact hsame ▸ hcov _ _ (h.current nid old hold delivery (hpend _ _ hd))

theorem Nodes.of_cleanupConnection {nodes : Nodes} {other : NodeId}
    (h : nodes.cleanupConnection nid connectionId other = some node) :
    nodes other = some node := by
  unfold Nodes.cleanupConnection at h
  cases hcur : nodes nid with
  | none => simpa only [hcur] using h
  | some cur =>
    simp only [hcur] at h
    split at h
    · rw [update_apply] at h
      exact (Option.ite_none_left_eq_some.mp h).2
    · exact h

theorem Nodes.of_advertiseTargets {nodes : Nodes} {other : NodeId} {targets : List TargetCard}
    (h : nodes.advertiseTargets nid connectionId targets other = some node) :
    ∃ old, nodes other = some old ∧ old.connectionId = node.connectionId := by
  unfold Nodes.advertiseTargets at h
  cases hcur : nodes nid with
  | none =>
    simp only [hcur] at h
    exact ⟨node, h, rfl⟩
  | some cur =>
    simp only [hcur] at h
    split at h
    · by_cases hsame : other = nid
      · rw [hsame, update_self] at h
        cases h
        exact ⟨cur, hsame ▸ hcur, rfl⟩
      · rw [update_of_ne hsame] at h
        exact ⟨node, h, rfl⟩
    · exact ⟨node, h, rfl⟩

/-- A handler's next action is carried out: what it delivers is sent. -/
theorem Coordinator.Covers.proceed (h : c.Covers connectionId delivery) (job : Nat) :
    (c.proceed job).Covers connectionId delivery := by
  unfold Coordinator.proceed
  split
  next action rest hjob =>
    rcases h with hsent | hmem
    · cases action with
      | publish ev => exact .inl hsent
      | deliver id sending => exact .inl (mem_append_left _ hsent)
    · rcases mem_cons.mp ((flatten_perm_cons_set hjob).mem_iff.mp hmem) with rfl | hleft
      · exact .inl (mem_append_right _ mem_cons_self)
      · cases action <;> exact .inr hleft
  · exact h

theorem DeliveryInv.proceed (h : DeliveryInv c) (job : Nat) : DeliveryInv (c.proceed job) := by
  have hfrm := c.proceed_eq job
  have hdb : (c.proceed job).db = c.db := congrArg (·.db) hfrm
  have hnodes : (c.proceed job).nodes = c.nodes := congrArg (·.nodes) hfrm
  refine h.mono (hdb ▸ h.consistent) (congrArg (·.lifecycle) hfrm) ?_ ?_
    (fun _ _ hcov => hcov.proceed job)
  · intro nid cur hcur
    exact ⟨cur, hnodes ▸ hcur, rfl⟩
  · intro nid delivery hd
    exact hdb ▸ hd

/-- An activation takes the lock; nothing is read yet, and the node has no connection. -/
theorem DeliveryInv.activate (h : DeliveryInv c) (nid : NodeId) : DeliveryInv (c.activate nid) := by
  unfold Coordinator.activate
  split
  · refine ⟨h.consistent, ?_, ?_, ?_⟩
    · rintro _ _ ⟨⟩
    · rintro _ ⟨⟩ delivery _
      refine .inr ?_
      cases delivery <;> rintro _ ⟨⟩
    · intro other node hnode delivery hd
      by_cases hsame : other = nid
      · simp [hsame] at hnode
      · exact h.current other node ((update_of_ne hsame _ _).symm.trans hnode) delivery hd
  · exact h

/-- A part of the snapshot is read, or its next delivery is sent: what was held and is not sent is
still held. -/
theorem DeliveryInv.activating_step (h : DeliveryInv c) {activation : Activation}
    {executions stops : Option (List Delivery)} {sent : List (Nat × Delivery)}
    (hlock : c.lifecycle = .activating activation) (hsent : c.sent ⊆ sent)
    (hhld : ∀ delivery, c.db.Pending activation.nodeId delivery → activation.Holds delivery →
      (activation.connectionId, delivery) ∈ sent ∨
        Activation.Holds { activation with executions, stops } delivery) :
    DeliveryInv
      { c with sent, lifecycle := .activating { activation with executions, stops } } := by
  refine ⟨h.consistent, ?_, ?_, fun n node hnode d hd =>
    (h.current n node hnode d hd).imp (@hsent _) id⟩
  · rintro _ _ ⟨⟩
  · rintro _ ⟨⟩ delivery hd
    rcases h.activating activation hlock delivery hd with hcov | hheld
    · exact .inl (hcov.imp (@hsent _) id)
    · exact (hhld delivery hd hheld).imp .inl id

theorem DeliveryInv.snapshotExecutions (h : DeliveryInv c) : DeliveryInv c.snapshotExecutions := by
  unfold Coordinator.snapshotExecutions
  split
  next activation hlock =>
    split
    · refine h.activating_step hlock (List.Subset.refl _) fun delivery hd hheld => .inr ?_
      cases delivery with
      | execute tid command =>
        rintro _ ⟨⟩
        rcases mem_append.mp (mem_pendingDeliveries.mpr hd) with hmem | hmem
        · exact hmem
        · obtain ⟨_, _, heq⟩ := mem_map.mp hmem
          cases heq
      | stop tid cid => exact hheld
    · exact h
  · exact h

theorem DeliveryInv.snapshotStops (h : DeliveryInv c) : DeliveryInv c.snapshotStops := by
  unfold Coordinator.snapshotStops
  split
  next activation hlock =>
    split
    · refine h.activating_step hlock (List.Subset.refl _) fun delivery hd hheld => .inr ?_
      cases delivery with
      | execute tid command => exact hheld
      | stop tid cid =>
        rintro _ ⟨⟩
        rcases mem_append.mp (mem_pendingDeliveries.mpr hd) with hmem | hmem
        · obtain ⟨_, _, heq⟩ := mem_map.mp hmem
          cases heq
        · exact hmem
    · exact h
  · exact h

/-- The snapshot is sent in order; when it is empty the connection is the node's, and all that is
pending was sent on it. -/
theorem DeliveryInv.sendNext (h : DeliveryInv c) : DeliveryInv c.sendNext := by
  unfold Coordinator.sendNext
  split
  next activation hlock =>
    split
    next delivery rest stops hexs hstops =>
      refine h.activating_step hlock (subset_append_left _ _) fun pend _ hheld => ?_
      cases pend with
      | execute tid command =>
        rcases mem_cons.mp (hheld _ hexs) with rfl | hrest
        · exact .inl (mem_append_right _ mem_cons_self)
        · refine .inr ?_
          rintro _ ⟨⟩
          exact hrest
      | stop tid cid => exact .inr hheld
    next delivery rest hexs hstops =>
      refine h.activating_step hlock (subset_append_left _ _) fun pend _ hheld => ?_
      cases pend with
      | execute tid command => exact .inr hheld
      | stop tid cid =>
        rcases mem_cons.mp (hheld _ hstops) with rfl | hrest
        · exact .inl (mem_append_right _ mem_cons_self)
        · refine .inr ?_
          rintro _ ⟨⟩
          exact hrest
    next hexs hstops =>
      refine ⟨h.consistent, ?_, ?_, ?_⟩
      · rintro _ _ ⟨⟩
      · rintro _ ⟨⟩
      · intro n node hnode d hd
        dsimp only at hnode
        by_cases hsame : n = activation.nodeId
        · subst hsame
          rw [update_self] at hnode
          cases hnode
          rcases h.activating activation hlock d hd with hcov | hhld
          · exact hcov
          · cases d with
            | execute tid command => exact absurd (hhld _ hexs) not_mem_nil
            | stop tid cid => exact absurd (hhld _ hstops) not_mem_nil
        · rw [update_of_ne hsame] at hnode
          exact h.current n node hnode d hd
    · exact h
  · exact h

theorem DeliveryInv.free (h : DeliveryInv c) : DeliveryInv { c with lifecycle := .free } :=
  ⟨h.consistent, by rintro _ _ ⟨⟩, by rintro _ ⟨⟩, h.current⟩

theorem DeliveryInv.abandon (h : DeliveryInv c) : DeliveryInv c.abandon := by
  unfold Coordinator.abandon
  split
  · exact h.free
  · exact h

theorem DeliveryInv.acquire (h : DeliveryInv c) (request : Request V) :
    DeliveryInv (c.acquire request) := by
  unfold Coordinator.acquire
  split
  · split
    next hlocks =>
      refine ⟨h.consistent, ?_, ?_, h.current⟩
      · rintro _ _ ⟨⟩
        exact ⟨hlocks, fun _ cur hcur => ⟨cur, hcur, rfl⟩⟩
      · rintro _ ⟨⟩
    · exact h
  · exact h

section

variable [JsonText V] {ids : DerivedIds}

omit [JsonText V] in
/-- The actions of one more handler cover no less. -/
theorem Coordinator.Covers.start (h : c.Covers connectionId delivery) (db : Database V)
    (lifecycle : Lifecycle V) (actions : List (Action V)) :
    { c with db, lifecycle, jobs := c.jobs ++ [actions] }.Covers connectionId delivery := by
  refine h.imp id fun hmem => ?_
  rw [flatten_append]
  exact mem_append_left _ hmem

/-- What the lock's request adds is sent on the connection it looked up; the node can have lost that
connection since, but it can have no other. -/
theorem DeliveryInv.commit (h : DeliveryInv c) : DeliveryInv (c.commit ids) := by
  unfold Coordinator.commit
  split
  next request nodes hlock =>
    obtain ⟨hlocks, hlooked⟩ := h.looked request nodes hlock
    split
    next handled db hok =>
      have hdid := Request.did_of_ok h.consistent hok
      refine ⟨hdid.consistent h.consistent, ?_, ?_, ?_⟩
      · rintro _ _ ⟨⟩
      · rintro _ ⟨⟩
      · intro nid node hnode delivery hd
        rcases (hdid.pendingStep h.consistent (Request.deletes_of_locks hlocks)).added _ _ hd with
          hold | ⟨_, hsends⟩
        · exact (h.current nid node hnode delivery hold).start db .free handled.actions
        · obtain ⟨seen, hseen, hsame⟩ := hlooked nid node hnode
          refine .inr ?_
          rw [flatten_append, flatten_singleton]
          exact mem_append_right _ (hsends seen node hseen hnode hsame)
    · exact h.free
  · exact h

theorem DeliveryInv.handle (h : DeliveryInv c) (hkept : request.deletes = false) :
    DeliveryInv (c.handle ids request) := by
  unfold Coordinator.handle
  split
  · exact h
  next hlocks =>
    split
    next handled db hok =>
      have hdid := Request.did_of_ok h.consistent hok
      refine h.mono (hdid.consistent h.consistent) rfl (fun _ cur hcur => ⟨cur, hcur, rfl⟩) ?_
        (fun _ _ hcov => hcov.start db c.lifecycle handled.actions)
      intro nid delivery hd
      rcases (hdid.pendingStep h.consistent hkept).added _ _ hd with hold | ⟨hlocked, _⟩
      · exact hold
      · exact absurd hlocked hlocks
    · exact h

/-- The input is a request that deletes a task. -/
def Input.deletes : Input V → Bool
  | .request asked => asked.deletes
  | _ => false

/-- The input is the node's acknowledgement of the delivery. -/
def Input.Acknowledges (nodeId : NodeId) (delivery : Delivery) : Input V → Prop
  | .request asked => asked.Acknowledges nodeId delivery
  | _ => False

theorem DeliveryInv.step (h : DeliveryInv c) {input : Input V} (hkept : input.deletes = false) :
    DeliveryInv (c.step ids input) := by
  have hsame : ∀ nid cur, c.nodes nid = some cur →
      ∃ old, c.nodes nid = some old ∧ old.connectionId = cur.connectionId :=
    fun _ cur hcur => ⟨cur, hcur, rfl⟩
  cases input with
  | request request => exact h.handle hkept
  | acquire request => exact h.acquire request
  | commit => exact h.commit
  | proceed job => exact h.proceed job
  | activate nid => exact h.activate nid
  | snapshotExecutions => exact h.snapshotExecutions
  | snapshotStops => exact h.snapshotStops
  | sendNext => exact h.sendNext
  | abandon => exact h.abandon
  | disconnect nid connectionId =>
    exact h.mono h.consistent rfl (fun _ cur hcur => ⟨cur, Nodes.of_cleanupConnection hcur, rfl⟩)
      (fun _ _ hd => hd) (fun _ _ hcov => hcov)
  | advertise nid connectionId targets =>
    exact h.mono h.consistent rfl (fun _ _ hcur => Nodes.of_advertiseTargets hcur)
      (fun _ _ hd => hd) (fun _ _ hcov => hcov)
  | attach tid pid afterSequence =>
    show DeliveryInv (c.attach tid pid afterSequence)
    unfold Coordinator.attach
    split
    · exact h.mono h.consistent rfl hsame (fun _ _ hd => hd) (fun _ _ hcov => hcov)
    · exact h
  | readSuffix feed | forward feed | leave feed =>
    exact h.mono h.consistent rfl hsame (fun _ _ hd => hd) (fun _ _ hcov => hcov)

omit [JsonText V] in
theorem deliveryInv_start (hc : Consistent db) : DeliveryInv (Coordinator.start db) where
  consistent := hc
  looked _ _ h := by cases h
  activating _ h := by cases h
  current _ _ h := by cases h

theorem deliveryInv_run (hc : Consistent db) {inputs : List (Input V)}
    (hkept : ∀ input ∈ inputs, input.deletes = false) :
    DeliveryInv ((Coordinator.start db).run ids inputs) :=
  List.foldlRecOn inputs (Coordinator.step ids) (deliveryInv_start hc)
    fun _ h input hinp => h.step (hkept input hinp)

/-- A step moves what is pending only by the acknowledgement it is. -/
theorem DeliveryInv.pendingStep (h : DeliveryInv c) {input : Input V}
    (hkept : input.deletes = false) :
    PendingStep c.db (c.step ids input).db (fun n d => input.Acknowledges n d)
      (fun _ _ => True) := by
  have hstays : ∀ c' : Coordinator V, c'.db = c.db →
      PendingStep c.db c'.db (fun n d => input.Acknowledges n d) (fun _ _ => True) := by
    intro c' hdb
    rw [hdb]
    exact (PendingStep.refl c.db).weaken
  cases input with
  | request request =>
    show PendingStep c.db (c.handle ids request).db _ _
    unfold Coordinator.handle
    split
    · exact hstays c rfl
    · split
      next handled db hok =>
        exact ((Request.did_of_ok h.consistent hok).pendingStep h.consistent hkept).imp
          id fun _ => trivial
      · exact hstays c rfl
  | commit =>
    show PendingStep c.db (c.commit ids).db _ _
    unfold Coordinator.commit
    split
    next request nodes hlock =>
      have hlocks := (h.looked request nodes hlock).1
      split
      next handled db hok =>
        exact ((Request.did_of_ok h.consistent hok).pendingStep h.consistent
          (Request.deletes_of_locks hlocks)).imp
            (absurd · (Request.not_acknowledges_of_locks hlocks _ _))
            fun _ => trivial
      · exact hstays _ rfl
    · exact hstays c rfl
  | proceed job => exact hstays _ (congrArg (·.db) (c.proceed_eq job))
  | acquire | activate | snapshotExecutions | snapshotStops | sendNext | abandon | attach
  | disconnect | advertise | readSuffix | forward | leave =>
    apply hstays _
    simp only [Coordinator.step, Coordinator.acquire, Coordinator.activate, Coordinator.attach,
      Coordinator.snapshotExecutions, Coordinator.snapshotStops, Coordinator.sendNext,
      Coordinator.abandon]
    repeat' split
    all_goals rfl

/-- **No pending delivery is missed.** In every state a coordinator reaches without deleting a task:
while a node has a current connection and no handler has still to send something, all that is
pending for the node was sent on that connection. Every command and every stop that a step stores is
pending after it, and stays pending until its node acknowledges it. -/
theorem no_pending_delivery_missed (ids : DerivedIds) (history : List (Transaction V))
    (inputs : List (Input V)) (hkept : ∀ input ∈ inputs, input.deletes = false) :
    let c := (Coordinator.start (Database.reached ids history)).run ids inputs
    (∀ nodeId node, c.nodes nodeId = some node →
      (∀ job ∈ c.jobs, ∀ connectionId delivery, .deliver connectionId delivery ∉ job) →
        ∀ delivery ∈ c.db.pendingDeliveries nodeId, (node.connectionId, delivery) ∈ c.sent) ∧
    ∀ input : Input V, input.deletes = false →
      (∀ nodeId, ∀ delivery ∈ c.db.pendingDeliveries nodeId,
        delivery ∈ (c.step ids input).db.pendingDeliveries nodeId ∨
          input.Acknowledges nodeId delivery) ∧
      (∀ row ∈ (c.step ids input).db.commands, row ∈ c.db.commands ∨ ∃ nodeId,
        .execute row.taskId row.command ∈ (c.step ids input).db.pendingDeliveries nodeId) ∧
      (∀ stop ∈ (c.step ids input).db.stopRequests,
        (∃ old ∈ c.db.stopRequests, old.commandId = stop.commandId) ∨ ∃ nodeId taskId,
          .stop taskId stop.commandId ∈ (c.step ids input).db.pendingDeliveries nodeId) := by
  intro c
  have hinv : DeliveryInv c := deliveryInv_run (consistent_reached ids history) hkept
  refine ⟨?_, fun input hinput => ?_⟩
  · intro nodeId node hnode hidle delivery hmem
    rcases hinv.current nodeId node hnode delivery (mem_pendingDeliveries.mp hmem) with
      hsent | hleft
    · exact hsent
    · obtain ⟨job, hjob, hdeliver⟩ := mem_flatten.mp hleft
      exact absurd hdeliver (hidle job hjob _ _)
  · have hstep : PendingStep c.db (c.step ids input).db _ _ := hinv.pendingStep hinput
    simp only [mem_pendingDeliveries]
    exact ⟨hstep.kept, hstep.commands, hstep.stops⟩

end

/-- A node connects while a command of it is pending. -/
def connecting : List (Input Unit) :=
  [.activate ⟨0⟩, .snapshotStops, .snapshotExecutions, .sendNext, .sendNext]

theorem no_pending_delivery_missed_connecting :
    let c :=
      (Coordinator.start (Database.reached offsetIds twoTasksHistory)).run offsetIds connecting
    c.nodes ⟨0⟩ = some ⟨0, []⟩ ∧ (0, Delivery.execute ⟨1⟩
      ⟨⟨1⟩, ⟨0⟩, ⟨"web"⟩, writer, .fromText "Hello.", none⟩) ∈ c.sent := by
  refine ⟨by decide, ?_⟩
  exact (no_pending_delivery_missed offsetIds twoTasksHistory connecting (by decide)).1 ⟨0⟩ ⟨0, []⟩
    (by decide) (fun job hjob => absurd hjob not_mem_nil) _ (by decide)

end Renoa.Control
