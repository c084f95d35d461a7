import Renoa.Control.Answering
import Renoa.Control.Handlers

/-!
# Commands and their tasks

`Request.Did` says what a handled request did. Everything but a submission names a command together
with the task of its row. A submission names the task it came with; the row of a redelivered
command is compared by content, and the content does not hold the task. So a submission is answered
and executed for the right task exactly when no row of another task has its content
(`routed_iff_submitsOwn`); two tasks of one principal on one agent give the failing case
(`submission_routed_to_other_task`).
-/

namespace Renoa.Control

open Foundation Protocol List Table Database

variable {V : Type} {db db' : Database V} {nodes : Nodes} {evId : TaskEventId} {tid : TaskId}
  {cid : CommandId} {handled : Handled V} {ids : DerivedIds} {nid : NodeId}
  {request : Request V} {command : CommandEnvelope} {node : Option NodeConnection}
  {delivery : Delivery} {pid : PrincipalId} {message : OutgoingMessage}
  {actions : List (Action V)}

/-! ## What a handler did -/

/-- What a handled submission did. -/
inductive SubmittedCommand (nodes : Nodes) (db db' : Database V) (task : TaskRow)
    (command : CommandEnvelope) : Handled V → Prop
  | admitted (row : TaskEventRow V) (h : InsertedCommand db db' task.taskId command row) :
      SubmittedCommand nodes db db' task command
        ⟨some (task.taskId, command.commandId),
          .publish row.event :: deliverOn (nodes task.nodeId) (.execute task.taskId command)⟩
  | existing (stored : CommandRow) (hstored : db.commands.find? command.commandId = some stored)
      (hcontent : stored.command = command) (hdb : db' = db) :
      SubmittedCommand nodes db db' task command
        ⟨some (task.taskId, command.commandId),
          if db.isPending command.commandId then
            deliverOn (nodes task.nodeId) (.execute task.taskId command)
          else []⟩

theorem Database.submitCommand_ok {surface : SurfaceRef} {input : CommandInput} (h :
      db.submitCommand nodes evId tid pid surface cid input = .ok (handled,
      db')) :
    ∃ task ∈ db.tasks, task.taskId = tid ∧ task.principalId = pid ∧
      SubmittedCommand nodes db db' task
        ⟨cid, pid, surface, task.target, input, none⟩ handled := by
  obtain ⟨loaded, hload, h⟩ := bind_ok h
  obtain ⟨⟨adm, committed⟩, hadmit, h⟩ := bind_ok h
  obtain ⟨task, htask, rfl, rfl, hadm⟩ := admitCommand_ok hadmit
  obtain rfl : loaded = task := by
    obtain ⟨row, hrow, hload⟩ := require_bind_ok hload
    obtain ⟨_, _, hload⟩ := bind_ok hload
    cases hload
    rw [find?_of_mem htask] at hrow
    exact (Option.some.inj hrow).symm
  refine ⟨loaded, htask, rfl, rfl, ?_⟩
  cases hadm with
  | notAdmitted _ _ => cases h
  | existing st hsto hcontent hdb =>
    cases h
    exact .existing st hsto hcontent hdb
  | admitted row hins =>
    cases h
    exact .admitted row hins

/-- The answer to an admitted message, and what follows it. -/
def MessageAdmission.outcome (nodes : Nodes) (message : OutgoingMessage) :
    MessageAdmission V → Handled V
  | .admitted taskId _ command event =>
    ⟨some (taskId, message.messageId),
      .publish event :: deliverOn (nodes message.toNode) (.execute taskId command)⟩
  | .existing taskId _ command pending =>
    ⟨some (taskId, message.messageId),
      if pending then deliverOn (nodes message.toNode) (.execute taskId command) else []⟩

theorem Database.sendAgentMessage_ok
    (h : db.sendAgentMessage ids nodes evId nid message = .ok (handled, db')) :
    ∃ admission, AdmittedMessage ids db db' nid message admission ∧
      handled = admission.outcome nodes message := by
  obtain ⟨⟨adm, committed⟩, hadmit, h⟩ := bind_ok h
  cases adm <;> cases h <;> exact ⟨_, admitAgentMessage_ok hadmit, rfl⟩

/-- In a list that continues an execution only the last event ends it. -/
theorem ContinuesExecution.endsExecution {xid : ExecutionId} {start : Nat}
    {evs : List (ExecutionEvent V)} (h : ContinuesExecution xid start evs)
    {e : ExecutionEvent V} (he : e ∈ evs) (hterm : e.isTerminal = true) :
    Control.endsExecution evs = true := by
  induction evs generalizing start with
  | nil => exact absurd he not_mem_nil
  | cons ev rest ih =>
    obtain ⟨_, _, _, hfinal, hrest⟩ := continuesExecution_cons.mp h
    rcases mem_cons.mp he with rfl | he
    · rw [isEmpty_iff.mp (hfinal hterm)]
      exact hterm
    · have hends := ih hrest he
      obtain ⟨next, rest, rfl⟩ := exists_cons_of_ne_nil (ne_nil_of_mem he)
      simpa [Control.endsExecution] using hends

/-- An answer follows a record that ends the execution. -/
theorem AdmittedReply.ended {appended : List (TaskEvent V)} {replier : String}
    {reply : Option (AgentReply V)}
    (h : AdmittedReply ids db db' tid cid appended replier reply)
    (hsome : reply.isSome = true) : (appended.findSome? TaskEvent.terminal?).isSome = true := by
  cases h with
  | unended | unasked => cases hsome
  | answered _ hterm _ _ _ _ _ _ =>
    rw [hterm]
    rfl

theorem Database.handleExecutionEvents_ok [JsonText V] (hc : Consistent db) {later : Nodes}
    {newId : Nat → TaskEventId} {rid : TaskEventId} {evs : List (ExecutionEvent V)}
    (h : db.handleExecutionEvents ids nodes later nid newId rid tid cid evs = .ok (handled, db')) :
    ∃ adm replier mid, JournalledBatch db mid tid cid evs { adm with reply := none } ∧
      AdmittedReply ids mid db' tid cid adm.events replier adm.reply ∧
      (adm.reply.isSome = true → endsExecution evs = true) ∧
      handled = ⟨none, batchActions later adm⟩ := by
  obtain ⟨_, _, h⟩ := bind_ok h
  obtain ⟨⟨adm, committed⟩, hpublish, h⟩ := bind_ok h
  cases h
  iterate 2 obtain ⟨_, _, hpublish⟩ := bind_ok hpublish
  obtain ⟨mid, hbat, hrep⟩ := appendExecutionEvents_ok hc hpublish
  refine ⟨adm, _, mid, hbat, hrep, fun hsome => ?_, rfl⟩
  obtain ⟨⟨_, _⟩, hadmit, _⟩ := bind_ok hpublish
  obtain ⟨_, _, _, _, _, _, _, hval, _⟩ := admitExecutionEventBatch_eq_ok.mp hadmit
  obtain ⟨e, he, hterm⟩ := hbat.terminal_mem hc ((hbat.terminal_iff hc).mp (hrep.ended hsome))
  exact hval.endsExecution he hterm

/-- What a handled stop did. -/
inductive StoppedCommand (nodes : Nodes) (db db' : Database V) (task : TaskRow)
    (commandId : CommandId) : Handled V → Prop
  | alreadyEnded (h : db.admitStop task.taskId commandId = .ok (.alreadyEnded, db')) :
      StoppedCommand nodes db db' task commandId ⟨none, []⟩
  | recorded {delivered : Bool}
      (h : db.admitStop task.taskId commandId = .ok (.recorded delivered, db')) :
      StoppedCommand nodes db db' task commandId
        ⟨none, if delivered then []
          else deliverOn (nodes task.nodeId) (.stop task.taskId commandId)⟩

theorem Database.stopCommand_ok (h : db.stopCommand nodes pid tid cid = .ok (handled, db')) :
    ∃ task ∈ db.tasks, task.taskId = tid ∧
      StoppedCommand nodes db db' task cid handled := by
  obtain ⟨task, hload, h⟩ := bind_ok h
  obtain ⟨⟨adm, committed⟩, hadmit, h⟩ := bind_ok h
  obtain ⟨row, hrow, hload⟩ := require_bind_ok hload
  obtain ⟨_, _, hload⟩ := bind_ok hload
  cases hload
  obtain rfl : task.taskId = tid := key_of_find? hrow
  refine ⟨task, mem_of_find? hrow, rfl, ?_⟩
  cases adm with
  | alreadyEnded =>
    cases h
    exact .alreadyEnded hadmit
  | recorded delivered =>
    cases h
    exact .recorded hadmit

section

variable [JsonText V]

/-- The transaction of a request that nothing follows. -/
def Request.silent? : Request V → Option (Transaction V)
  | .createNodeEnrollment nodeId owner => some (.createNodeEnrollment nodeId owner)
  | .createTask task => some (.createTask task)
  | .openTask task availability => some (.openTask task availability)
  | .acknowledgeExecution nodeId taskId commandId =>
    some (.acknowledgeExecution nodeId taskId commandId)
  | .acknowledgeStop nodeId taskId commandId => some (.acknowledgeStop nodeId taskId commandId)
  | .deleteTask principalId taskId => some (.deleteTask principalId taskId)
  | _ => none

/-- What a handled request did. -/
inductive Request.Did (ids : DerivedIds) (nodes later : Nodes) (db db' : Database V) :
    Request V → Handled V → Prop
  | silent {request : Request V} {transaction : Transaction V}
      (hsilent : request.silent? = some transaction)
      (h : transaction.commit ids db = .ok db') : Did ids nodes later db db' request ⟨none, []⟩
  | submitted (eventId : TaskEventId) {task : TaskRow} {surface : SurfaceRef}
      {commandId : CommandId} {input : CommandInput} {handled : Handled V}
      (htask : task ∈ db.tasks)
      (h : SubmittedCommand nodes db db' task
        ⟨commandId, task.principalId, surface, task.target, input, none⟩ handled) :
      Did ids nodes later db db'
        (.submitCommand eventId task.taskId task.principalId surface commandId input) handled
  | messaged (eventId : TaskEventId) {nodeId : NodeId} {message : OutgoingMessage}
      {admission : MessageAdmission V} (h : AdmittedMessage ids db db' nodeId message admission) :
      Did ids nodes later db db' (.sendAgentMessage eventId nodeId message)
        (admission.outcome nodes message)
  | published {nodeId : NodeId} {newId : Nat → TaskEventId} {replyEventId : TaskEventId}
      {taskId : TaskId} {commandId : CommandId} {events : List (ExecutionEvent V)}
      {admission : ExecutionEventAdmission V} {replier : String} (mid : Database V)
      (h : JournalledBatch db mid taskId commandId events { admission with reply := none })
      (hreply : AdmittedReply ids mid db' taskId commandId admission.events replier
        admission.reply)
      (hends : admission.reply.isSome = true → endsExecution events = true) :
      Did ids nodes later db db'
        (.publishExecutionEvents nodeId newId replyEventId taskId commandId events)
        ⟨none, Database.batchActions later admission⟩
  | stopped {principalId : PrincipalId} {task : TaskRow} {commandId : CommandId}
      {handled : Handled V} (htask : task ∈ db.tasks)
      (h : StoppedCommand nodes db db' task commandId handled) :
      Did ids nodes later db db' (.stopCommand principalId task.taskId commandId) handled

variable {ids : DerivedIds} {nodes later : Nodes}

theorem Request.did_silently (tx : Transaction V) (hsil : request.silent? = some tx)
    (h : silently (tx.commit ids db) = .ok (handled, db')) :
    Request.Did ids nodes later db db' request handled := by
  obtain ⟨committed, hcom, h⟩ := map_ok h
  cases h
  exact .silent hsil hcom

/-- A handled request did what its handler does. -/
theorem Request.did_of_ok (hc : Consistent db)
    (h : request.handle ids nodes later db = .ok (handled, db')) :
    Request.Did ids nodes later db db' request handled := by
  cases request with
  | submitCommand evId tid pid surface cid input =>
    obtain ⟨task, htask, rfl, rfl, hsubm⟩ := submitCommand_ok h
    exact .submitted evId htask hsubm
  | sendAgentMessage evId nid message =>
    obtain ⟨adm, hadm, rfl⟩ := sendAgentMessage_ok h
    exact .messaged evId hadm
  | publishExecutionEvents nid newId rid tid cid evs =>
    obtain ⟨adm, replier, mid, hbat, hrep, hends, rfl⟩ := handleExecutionEvents_ok hc h
    exact .published mid hbat hrep hends
  | stopCommand pid tid cid =>
    obtain ⟨task, htask, rfl, hstop⟩ := stopCommand_ok h
    exact .stopped htask hstop
  | createNodeEnrollment nid owner =>
    exact did_silently (.createNodeEnrollment nid owner) rfl h
  | createTask task => exact did_silently (.createTask task) rfl h
  | openTask task availability => exact did_silently (.openTask task availability) rfl h
  | acknowledgeExecution nid tid cid =>
    exact did_silently (.acknowledgeExecution nid tid cid) rfl h
  | acknowledgeStop nid tid cid =>
    exact did_silently (.acknowledgeStop nid tid cid) rfl h
  | deleteTask pid tid => exact did_silently (.deleteTask pid tid) rfl h

end

/-! ## The task a command is named with -/

/-- The stored command of the identity belongs to the task. -/
def Database.Holds (db : Database V) (taskId : TaskId) (commandId : CommandId) : Prop :=
  ∃ row ∈ db.commands, row.commandId = commandId ∧ row.taskId = taskId

theorem InsertedCommand.holds {row : TaskEventRow V} (h : InsertedCommand db db' tid command row) :
    db'.Holds tid command.commandId := by
  refine ⟨⟨command.commandId, tid, command⟩, ?_, rfl, rfl⟩
  rw [← mem_rows, h.commands]
  exact mem_append_right _ mem_cons_self

/-- Every command the answer and the deliveries name belongs to the task they name it with. -/
structure Handled.Routed (handled : Handled V) (db : Database V) : Prop where
  accepted : ∀ taskId commandId, handled.accepted = some (taskId, commandId) →
    db.Holds taskId commandId
  executed : ∀ connectionId taskId command,
    .deliver connectionId (.execute taskId command) ∈ handled.actions →
      db.Holds taskId command.commandId

theorem mem_deliverOn {action : Action V} : action ∈ deliverOn node delivery ↔
      ∃ connection, node = some connection ∧
        action = .deliver connection.connectionId delivery := by
  cases node <;> simp [deliverOn]

/-- The one delivery after the publication of a record. -/
theorem deliver_mem_publish {other : Delivery} {ev : TaskEvent V} {conn : Nat}
    (h : .deliver conn other ∈ .publish ev :: deliverOn node delivery) :
    other = delivery := by
  rcases mem_cons.mp h with heq | hmem
  · cases heq
  · obtain ⟨_, _, heq⟩ := mem_deliverOn.mp hmem
    cases heq
    rfl

/-- The one delivery of a redelivered command. -/
theorem deliver_mem_ite {pend : Bool} {other : Delivery} {conn : Nat}
    (h : (.deliver conn other : Action V) ∈ if pend then deliverOn node delivery else [])
    : other = delivery := by
  cases pend with
  | false => exact absurd h not_mem_nil
  | true =>
    obtain ⟨_, _, heq⟩ := mem_deliverOn.mp h
    cases heq
    rfl

/-- An answer and deliveries that name one stored command with its task are routed. -/
theorem Handled.routed_of_holds (hhld : db.Holds tid cid) (hactions : ∀ conn
      executing command, .deliver conn (.execute executing command) ∈ actions → executing =
      tid ∧ command.commandId = cid) :
    (⟨some (tid, cid), actions⟩ : Handled V).Routed db where
  accepted other otherId heq := by
    cases heq
    exact hhld
  executed conn executing command hmem := by
    obtain ⟨rfl, rfl⟩ := hactions conn executing command hmem
    exact hhld

/-- Without an answer and without an execution there is nothing to route. -/
theorem Handled.routed_of_no_execute
    (h : ∀ conn tid command, .deliver conn (.execute tid command) ∉ actions) :
    (⟨none, actions⟩ : Handled V).Routed db where
  accepted _ _ heq := by cases heq
  executed conn tid command hmem := absurd hmem (h conn tid command)

/-- No row of another task has the content of the submission. -/
def SubmitsOwn (db : Database V) : Request V → Prop
  | .submitCommand _ taskId principalId surface commandId input =>
    ∀ task ∈ db.tasks, task.taskId = taskId → task.principalId = principalId →
      ∀ row ∈ db.commands, row.commandId = commandId →
        row.command = ⟨commandId, principalId, surface, task.target, input, none⟩ →
          row.taskId = taskId
  | _ => True

theorem SubmittedCommand.routed {task : TaskRow}
    (h : SubmittedCommand nodes db db' task command handled)
    (hown : ∀ row ∈ db.commands, row.commandId = command.commandId → row.command = command →
      row.taskId = task.taskId) : handled.Routed db' := by
  cases h with
  | admitted row hins =>
    refine Handled.routed_of_holds hins.holds fun conn executing other hmem => ?_
    cases deliver_mem_publish hmem
    exact ⟨rfl, rfl⟩
  | existing st hsto hcontent hdb =>
    subst hdb
    have hmem := mem_of_find? hsto
    have hid := key_of_find? hsto
    refine Handled.routed_of_holds ⟨st, hmem, hid, hown st hmem hid hcontent⟩
      fun conn executing other hac => ?_
    cases deliver_mem_ite hac
    exact ⟨rfl, rfl⟩

theorem AdmittedMessage.routed (hc : Consistent db) {admission : MessageAdmission V}
    (h : AdmittedMessage ids db db' nid message admission) :
    (admission.outcome nodes message).Routed db' := by
  cases h with
  | admitted hrte name mid row hthr hins =>
    refine Handled.routed_of_holds hins.holds fun conn executing other hmem => ?_
    cases deliver_mem_publish hmem
    exact ⟨rfl, rfl⟩
  | existing hrte st hsto htask hdb =>
    subst hdb
    have hmem := mem_of_find? hsto
    have hid := key_of_find? hsto
    refine Handled.routed_of_holds ⟨st, hmem, hid, htask⟩ fun conn executing other hac => ?_
    cases deliver_mem_ite hac
    exact ⟨rfl, (hc.journal.command_id st hmem).trans hid⟩

/-- An accepted batch executes at most the answer it admitted. -/
theorem AdmittedReply.routed {later : Nodes} {adm : ExecutionEventAdmission V} {replier : String}
    (h : AdmittedReply ids db db' tid cid adm.events replier adm.reply) :
    (⟨none, Database.batchActions later adm⟩ : Handled V).Routed db' where
  accepted _ _ heq := by cases heq
  executed conn executing command hmem := by
    rcases mem_append.mp hmem with hmem | hmem
    · obtain ⟨_, _, heq⟩ := mem_map.mp hmem
      cases heq
    · generalize adm.reply = reply at h hmem
      cases h with
      | unended | unasked => exact absurd hmem not_mem_nil
      | answered record _ _ _ _ _ _ hins =>
        cases deliver_mem_publish hmem
        exact hins.holds

section

variable [JsonText V] {ids : DerivedIds} {nodes later : Nodes}

theorem Request.Did.routed (hc : Consistent db)
    (h : Request.Did ids nodes later db db' request handled) (hown : SubmitsOwn db request) :
    handled.Routed db' := by
  cases h with
  | silent _ _ => exact Handled.routed_of_no_execute fun _ _ _ => not_mem_nil
  | submitted _ htask hsubm => exact hsubm.routed (hown _ htask rfl rfl)
  | messaged _ hsent => exact hsent.routed hc
  | published mid _ hrep _ => exact hrep.routed
  | stopped _ hstop =>
    cases hstop with
    | alreadyEnded _ => exact Handled.routed_of_no_execute fun _ _ _ => not_mem_nil
    | recorded _ =>
      refine Handled.routed_of_no_execute fun conn tid command hmem => ?_
      split at hmem
      · exact absurd hmem not_mem_nil
      · obtain ⟨_, _, heq⟩ := mem_deliverOn.mp hmem
        cases heq

/-- A submission under an identity another task's command has is refused as a conflict. -/
def RefusesReuse (ids : DerivedIds) (nodes later : Nodes) (db : Database V) : Request V → Prop
  | .submitCommand eventId taskId principalId surface commandId input =>
    ∀ task ∈ db.tasks, task.taskId = taskId → task.principalId = principalId →
      ∀ row ∈ db.commands, row.commandId = commandId → row.taskId ≠ taskId →
        Request.handle ids nodes later db
            (.submitCommand eventId taskId principalId surface commandId input) =
          .error (.conflict s!"command id {commandId} was already used with different content")
  | _ => True

omit [JsonText V] in
theorem Database.submitCommand_existing {task : TaskRow} (htask : task ∈ db.tasks)
    {surface : SurfaceRef} {row : CommandRow} (hrow : row ∈ db.commands) {input : CommandInput} :
    db.submitCommand nodes evId task.taskId task.principalId surface row.commandId input =
      if row.command = ⟨row.commandId, task.principalId, surface, task.target, input, none⟩ then
        .ok (⟨some (task.taskId, row.commandId), if db.isPending row.commandId then
            deliverOn (nodes task.nodeId) (.execute task.taskId row.command) else []⟩, db)
      else
        let cid := row.commandId
        .error (.conflict s!"command id {cid} was already used with different content") := by
  have hload : db.loadTaskForPrincipal task.taskId task.principalId = .ok task := by
    simp [loadTaskForPrincipal, loadTask, require, find?_of_mem htask, ensure]
  unfold submitCommand admitCommand
  rw [hload]
  simp only [find?_of_mem hrow, admitExisting]
  split
  next hcontent =>
    have hid : row.command.commandId = row.commandId := by rw [hcontent]
    simp [← hcontent]
    rw [hid]
    rfl
  next hcontent =>
    simp [ensure, hcontent]

omit [JsonText V] in
/-- What a node is sent when it connects is routed. -/
theorem Consistent.holds_of_pendingDelivery (hc : Consistent db)
    (h : .execute tid command ∈ db.pendingDeliveries nid) :
    db.Holds tid command.commandId := by
  cases mem_pendingDeliveries.mp h with
  | @execute _ row _ hrow _ => exact ⟨row, hrow.1, (hc.journal.command_id row hrow.1).symm, rfl⟩

/-- **A command id belongs to one task.** In every reached state a request is answered and executed
for the task of the command's row, and a submission under an identity of another task is refused,
exactly when no row of another task has the content of the submission. What a node is sent when it
connects is always routed so. -/
theorem routed_iff_submitsOwn (ids : DerivedIds) (history : List (Transaction V))
    (nodes later : Nodes) (request : Request V) :
    ((∀ handled db', request.handle ids nodes later (Database.reached ids history) =
          .ok (handled, db') → handled.Routed db') ∧
        RefusesReuse ids nodes later (Database.reached ids history) request ↔
      SubmitsOwn (Database.reached ids history) request) ∧
    ∀ nodeId taskId command,
      .execute taskId command ∈ (Database.reached ids history).pendingDeliveries nodeId →
        (Database.reached ids history).Holds taskId command.commandId := by
  have hc := consistent_reached ids history
  refine ⟨⟨?_, fun hown => ⟨?_, ?_⟩⟩, fun _ _ _ hmem => hc.holds_of_pendingDelivery hmem⟩
  · rintro ⟨hrouted, hrefuses⟩
    cases request with
    | submitCommand eventId taskId principalId surface commandId input =>
      rintro task htask rfl rfl row hrow rfl hcontent
      -- The submission is answered for its task, where no other row can have the identity.
      have hhandle : Request.handle ids nodes later (Database.reached ids history)
          (.submitCommand eventId task.taskId task.principalId surface row.commandId input) =
            _ := submitCommand_existing htask hrow
      rw [if_pos hcontent] at hhandle
      obtain ⟨stored, hstored, hid, htaskId⟩ := (hrouted _ _ hhandle).accepted _ _ rfl
      rw [key_inj hrow hstored hid.symm]
      exact htaskId
    | _ => exact trivial
  · intro handled db' hok
    exact (Request.did_of_ok hc hok).routed hc hown
  · cases request with
    | submitCommand eventId taskId principalId surface commandId input =>
      rintro task htask rfl rfl row hrow rfl hother
      refine (submitCommand_existing htask hrow).trans (if_neg fun hcontent => ?_)
      exact hother (hown task htask rfl rfl row hrow rfl hcontent)
    | _ => exact trivial

end

/-! ## One command in two tasks -/

/-- Two tasks of one principal with the same agent, and a command of the first. -/
def twoTasksHistory : List (Transaction Unit) :=
  [.createNodeEnrollment ⟨0⟩ ⟨0⟩, .createTask ⟨⟨1⟩, ⟨0⟩, ⟨0⟩, writer⟩,
    .createTask ⟨⟨2⟩, ⟨0⟩, ⟨0⟩, writer⟩,
    .admitCommand ⟨0⟩ ⟨1⟩ ⟨0⟩ ⟨"web"⟩ ⟨1⟩ (.fromText "Hello.") true]

/-- The same command, submitted to the second task. -/
def resubmitted : Request Unit := .submitCommand ⟨1⟩ ⟨2⟩ ⟨0⟩ ⟨"web"⟩ ⟨1⟩ (.fromText "Hello.")

/-- The submission to the second task is accepted and executed there, while the stored command
belongs to the first. -/
theorem submission_routed_to_other_task :
    (Database.reached offsetIds twoTasksHistory).commands.rows.map
        (fun row => (row.commandId, row.taskId)) = [(⟨1⟩, ⟨1⟩)] ∧
      ((resubmitted.handle offsetIds (fun _ => some ⟨7, bothCards⟩) (fun _ => some ⟨7, bothCards⟩)
          (Database.reached offsetIds twoTasksHistory)).toOption.map fun handled => handled.1) =
        some ⟨some (⟨2⟩, ⟨1⟩), [.deliver 7 (.execute ⟨2⟩
          ⟨⟨1⟩, ⟨0⟩, ⟨"web"⟩, writer, .fromText "Hello.", none⟩)]⟩ := by
  decide

end Renoa.Control
